import Fire2.Processes
import Fire2.Runs

/-! A worker ID that a single process uses. What the process has sent may arrive
after it stopped waiting for the answer. A registration that is handled only
then takes the next token all the same, and the token the process holds is
stale for good. -/

namespace Fire2.LoneWorker
open Interleaving Orchestrator Processes WorkerRepository EventGRPCServer

/-- Process 0, and those of its requests that it gave up before they arrived. -/
structure Lone where
  fleet : Fleet
  abandoned : List Kind

def initial : Lone := ⟨Processes.initial, []⟩

def speaksFor : Kind → Option WorkerID
  | .registerWorker hb | .reportHeartbeat hb => some (trimSpace hb.workerID)
  | _ => none

/-- No other process runs, and whatever else speaks for the worker is a request
that its process gave up. -/
def allowed (workerID : WorkerID) (s : Lone) : Event → Bool
  | .orchestrator (.spawn k) => speaksFor k ≠ some workerID || k ∈ s.abandoned
  | .orchestrator _ => true
  | .launch n _ | .begin n _ | .deliver n | .answered n _ | .lost n _ _ _ | .crash n => n = 0

def abandonedAfter (s : Lone) : Event → List Kind
  | .orchestrator (.spawn k) => s.abandoned.erase k
  | .lost .. | .crash _ => ((s.fleet.processes 0).bind Process.underway).toList ++ s.abandoned
  | _ => s.abandoned

def Lone.step (workerID : WorkerID) (s : Lone) (a : Event) : Option Lone :=
  if allowed workerID s a then (s.fleet.step a).map fun f => ⟨f, abandonedAfter s a⟩ else none

def attended (workerID : WorkerID) (s : Lone) : Event → Bool
  -- a registration of the worker only commits while its process waits for it
  | .orchestrator (.call i _) =>
    match s.fleet.orchestrator.threads i with
    | some ⟨_, .call (.register w) _⟩ =>
      w.id ≠ workerID || (s.fleet.processes 0).any fun p => p.phase.handler? = some i
    | _ => true
  | _ => true

abbrev Attended (workerID : WorkerID) : Lone → Lone → Prop :=
  Runs.ReachesWhen (Lone.step workerID) (attended workerID)

section Handlers
variable {workerID : WorkerID}

def Honoured : (c : Call) → c.Answer → Prop
  -- what the guarded statement of a heartbeat with the current token answers
  | .updateWorker _ | .reconcileTx .. => fun r =>
    r ≠ .ok false ∧ ∀ err, r = .error err → ∃ text, err = .database text
  | _ => fun _ => True

/-- As long as the token stays current, the heartbeat is not answered
FailedPrecondition. -/
def Unfenced (p : Job Outcome) : Prop :=
  p.Until Honoured (fun _ _ => False) fun a =>
    ∀ err, a = .grpc (.error err) → err.code ≠ .failedPrecondition

theorem updated_unfenced {w : Worker} {r : Except Err Bool} (accepted : r ≠ .ok false)
    (failed : ∀ err, r = .error err → ∃ text, err = .database text) :
    Unfenced (updated w r >>= fun r => .ret (.grpc r)) := by
  obtain err | _ | _ := r
  · obtain ⟨text, rfl⟩ := failed err rfl
    refine .ret ?_
    rintro _ ⟨⟩
    exact fun eq => nomatch eq
  · exact absurd rfl accepted
  · exact .ret nofun

theorem report_unfenced (req : WorkerHeartbeat) : Unfenced (body (.reportHeartbeat req)) := by
  have refused (text : String) : Unfenced (.ret (.grpc (.error (.rpc .invalidArgument text)))) := by
    refine .ret ?_
    rintro _ ⟨⟩
    exact fun eq => nomatch eq
  simp only [body, reportWorkerHeartbeat]
  split
  · exact refused _
  split
  · exact refused _
  refine .call fun clock _ _ => ?_
  dsimp only
  split
  · exact .call fun r h _ => updated_unfenced h.1 h.2
  · exact .call fun r h _ => updated_unfenced h.1 h.2

/-- A registration of the worker that has not committed yet. -/
inductive Enrolls (workerID : WorkerID) : Job Outcome → Prop
  | refused (err : Err) : Enrolls workerID (.ret (.registered (.error err)))
  | clock {k : Int → Job Outcome} (next : ∀ t, Enrolls workerID (k t)) :
      Enrolls workerID (.call .timeNow k)
  | register {w : Worker} {k : Except Err Worker → Job Outcome} (own : w.id = workerID)
      (failed : ∀ err, Enrolls workerID (k (.error err)))
      (done : ∀ w', k (.ok w') = .ret (.registered (.ok w'.fencingToken))) :
      Enrolls workerID (.call (.register w) k)

theorem register_enrolls {hb : WorkerHeartbeat} (own : trimSpace hb.workerID = workerID) :
    Enrolls workerID (body (.registerWorker hb)) := by
  simp only [body, registerWorker]
  split
  · exact .refused _
  · exact .clock fun t => .register own (fun err => .refused _) fun w => rfl

/-- The handler of a registration: not committed, or answered with what is
still the latest token. -/
def Settled (workerID : WorkerID) (s : World) (p : Job Outcome) : Prop :=
  Enrolls workerID p ∨
    ∃ token, p = .ret (.registered (.ok token)) ∧ latestToken workerID s.log = some token

end Handlers

section Calls
variable {workerID : WorkerID} {i : Nat} {c : Call} {e : Env} {v w : World} {r : c.Answer}

variable (workerID) in
theorem latest_step {now : Int} (h : WorkerStep now v w c) :
    latestToken workerID w.log = latestToken workerID v.log ∨
      ∃ x, c = .register x ∧ x.id = workerID := by
  cases h with
  | silent workers log kept => exact .inl (by rw [log])
  | @registered x done =>
    by_cases own : x.id = workerID
    · exact .inr ⟨x, rfl, own⟩
    · refine .inl ?_
      rw [done.log, latestToken, if_neg own]
  | heartbeat done | inventory done => exact .inl (by rw [done.log, heartbeatEntry, latestToken])
  | swept done => exact .inl (by rw [done.log, latestToken])

theorem answer_honoured {token : Int} (fenced : Fenced v)
    (latest : latestToken workerID v.log = some token) (carried : TokenCall workerID token c)
    (ran : exec i c e v = some (r, w)) : Honoured c r := by
  have eq := exec_eq_some ran
  obtain ⟨row, found, current⟩ := Option.map_eq_some_iff.1 ((fenced workerID).trans latest)
  have accepted (now : Int) (x : Worker) (id : x.id = workerID) (same : x.fencingToken = token) :
      ∃ x' db', update now x v.db = (some x', db') := by
    subst id same
    simp [update, found, current]
  cases c with
  | updateWorker x =>
    obtain ⟨x', db', updated⟩ := accepted e.now x carried.1 carried.2
    have sure : updateWorkerStep e.now x v =
        (.ok true, ⟨db', heartbeatEntry e.now x none v.db :: v.log⟩) := by
      simp only [updateWorkerStep, updated]
    refine ⟨?_, fun err => statement_error (by rw [sure]; simp) eq.symm⟩
    rintro rfl
    simp only [answer, statement] at eq
    have done := faulty_ok eq.symm
    rw [sure] at done
    cases done
  | reconcileTx x inv =>
    obtain ⟨x', db', updated⟩ := accepted e.now x carried.1 carried.2
    have sure : ∃ t, reconcileStep e.now x inv v = (.ok true, t) := by
      simp [reconcileStep, Transactions.reconcileHeartbeat, Transactions.reconciled, updated]
    obtain ⟨t, sure⟩ := sure
    refine ⟨?_, fun err => statement_error (by rw [sure]; simp) eq.symm⟩
    rintro rfl
    simp only [answer, statement] at eq
    have done := faulty_ok eq.symm
    rw [sure] at done
    cases done
  | _ => trivial

theorem settled_call {next : c.Answer → Job Outcome} (h : Settled workerID v (.call c next))
    (ran : exec i c e v = some (r, w)) : Settled workerID w (next r) := by
  obtain pending | ⟨_, eq, -⟩ := h
  · cases pending with
    | clock k => exact .inl (k r)
    | @register x _ own failed done =>
      cases r with
      | error err => exact .inl (failed err)
      | ok x' =>
        refine .inr ⟨_, done x', ?_⟩
        have answered := (exec_eq_some ran).symm
        simp only [answer, statement] at answered
        have committed := faulty_ok answered
        unfold registerStep at committed
        split at committed
        · cases committed
          rw [latestToken, if_pos own]
        · cases committed
  · cases eq

end Calls

section Steps
variable {workerID : WorkerID} {s t : Lone} {a : Event}

theorem step_lone (h : s.step workerID a = some t) : allowed workerID s a = true ∧
    s.fleet.step a = some t.fleet ∧ t.abandoned = abandonedAfter s a := by
  unfold Lone.step at h
  split at h
  · rename_i may
    obtain ⟨f, ran, rfl⟩ := Option.map_eq_some_iff.1 h
    exact ⟨may, ran, rfl⟩
  · cases h

theorem step_orchestrator {f g : Fleet} (h : f.step a = some g) :
    (∃ i e k c next r v, a = .orchestrator (.call i e) ∧
      f.orchestrator.threads i = some ⟨k, .call c next⟩ ∧
      exec i c e f.orchestrator.shared = some (r, v) ∧ g.processes = f.processes ∧
      g.orchestrator = ⟨v, f.orchestrator.next,
        Function.update f.orchestrator.threads i (some ⟨k, next r⟩)⟩) ∨
    (∃ k, (a = .orchestrator (.spawn k) ∨
        ∃ n p, a = .deliver n ∧ f.processes n = some p ∧ p.underway = some k) ∧
      g.orchestrator = ⟨f.orchestrator.shared, f.orchestrator.next + 1,
        Function.update f.orchestrator.threads f.orchestrator.next (some ⟨k, body k⟩)⟩) ∨
    (g.orchestrator.shared = f.orchestrator.shared ∧
      ∀ j th, g.orchestrator.threads j = some th → f.orchestrator.threads j = some th) := by
  have spawned {k : Kind} {o : State} (ran : system.step f.orchestrator (.spawn k) = some o) :
      o = ⟨f.orchestrator.shared, f.orchestrator.next + 1,
        Function.update f.orchestrator.threads f.orchestrator.next (some ⟨k, body k⟩)⟩ := by
    obtain ⟨v, started, rfl⟩ := Option.map_eq_some_iff.1 ran
    obtain ⟨-, rfl⟩ := start_eq started
    rfl
  cases stepIn_cases h with
  | alone ran same =>
    obtain ⟨k, v, rfl, -, -⟩ | ⟨i, e, k, c, next, r, v, rfl, thread, done, eq⟩ |
      ⟨i, th, rfl, -, -, eq⟩ | ⟨x, -⟩ := System.step_cases ran
    · exact .inr (.inl ⟨k, .inl rfl, spawned ran⟩)
    · exact .inl ⟨i, e, k, c, next, r, v, rfl, thread, done, same, eq⟩
    · rw [eq]
      refine .inr (.inr ⟨rfl, ?_⟩)
      exact System.threads_update (fun j th _ hj => hj) fun _ eq => nomatch eq
    · exact nomatch x
  | launched absent same =>
    subst same
    exact .inr (.inr ⟨rfl, fun _ _ found => found⟩)
  | delivered found sent ran move moved =>
    exact .inr (.inl ⟨_, .inr ⟨_, _, rfl, found, sent⟩, spawned ran⟩)
  | moved found move same =>
    subst same
    exact .inr (.inr ⟨rfl, fun _ _ found => found⟩)

def Sent (workerID : WorkerID) (s : Lone) (hb : WorkerHeartbeat) : Prop :=
  ∃ p, s.fleet.processes 0 = some p ∧ p.needsRegister = false ∧
    trimSpace p.worker.id = workerID ∧ hb.fencingToken = p.worker.fencingToken

structure Inv (workerID : WorkerID) (s : Lone) : Prop where
  sound : Sound s.fleet
  current : ∀ p, s.fleet.processes 0 = some p → p.needsRegister = false →
    trimSpace p.worker.id = workerID →
    latestToken workerID s.fleet.orchestrator.shared.log = some p.worker.fencingToken
  awaited : ∀ p hb j th, s.fleet.processes 0 = some p → p.phase = .registering hb (some j) →
    trimSpace hb.workerID = workerID → s.fleet.orchestrator.threads j = some th →
    Settled workerID s.fleet.orchestrator.shared th.prog
  abandoned : ∀ hb, .reportHeartbeat hb ∈ s.abandoned → trimSpace hb.workerID = workerID →
    Sent workerID s hb
  reports : ∀ i th req, s.fleet.orchestrator.threads i = some th → th.kind = .reportHeartbeat req →
    trimSpace req.workerID = workerID → Sent workerID s req ∧ Unfenced th.prog

theorem sane_sent (sound : Sound s.fleet) {p : Process} {hb : WorkerHeartbeat}
    (found : s.fleet.processes 0 = some p) (sent : p.underway = some (.reportHeartbeat hb))
    (own : trimSpace hb.workerID = workerID) : Sent workerID s hb := by
  obtain ⟨-, phase⟩ := sound.sane 0 p found
  unfold Process.underway at sent
  split at sent
  · cases sent
  · rename_i eq
    cases sent
    simp only [eq] at phase
    exact ⟨p, found, phase.1, phase.2.1 ▸ own, phase.2.2.1⟩
  · cases sent

theorem Sent.step {hb : WorkerHeartbeat} (h : Sent workerID s hb) (sound : Sound s.fleet)
    (ran : s.fleet.step a = some t.fleet) : Sent workerID t hb := by
  obtain ⟨p, found, fresh, own, same⟩ := h
  obtain ⟨q, found', move⟩ := (step_moves ran).2.1 0 p found
  obtain ⟨fresh', name, token⟩ := (sound.sane 0 p found).keeps fresh move
  exact ⟨q, found', fresh', name ▸ own, same.trans token.symm⟩

theorem latest_kept (sound : Sound s.fleet) (may : attended workerID s a = true)
    (ran : s.fleet.step a = some t.fleet) :
    latestToken workerID t.fleet.orchestrator.shared.log =
      latestToken workerID s.fleet.orchestrator.shared.log ∨
    t.fleet.processes = s.fleet.processes ∧ ∃ i e p hb, a = .orchestrator (.call i e) ∧
      s.fleet.processes 0 = some p ∧ p.needsRegister = true ∧
      p.phase = .registering hb (some i) := by
  obtain ⟨i, e, k, c, next, r, v, rfl, thread, done, same, eq⟩ | ⟨k, -, eq⟩ | ⟨eq, -⟩ :=
    step_orchestrator ran
  · have safe := verdict_safe sound.reached
    have lawful : Lawful c := System.safe_pre verdict_disciplined safe thread
    obtain rfl : v = (answer c e s.fleet.orchestrator.shared).2 :=
      congrArg Prod.snd (exec_eq_some (i := i) done)
    rw [eq]
    obtain kept | ⟨x, rfl, own⟩ := latest_step workerID
      (answer_workers lawful e s.fleet.orchestrator.shared)
    · exact .inl kept
    · refine .inr ⟨same, i, e, ?_⟩
      simp only [attended, thread, own, ne_eq, not_true_eq_false, decide_false,
        Bool.false_or] at may
      obtain ⟨p, found, waiting⟩ := (Option.any_eq_true _ _).1 may
      have waiting : p.phase.handler? = some i := of_decide_eq_true waiting
      obtain ⟨-, phase⟩ := sound.sane 0 p found
      unfold Phase.handler? at waiting
      split at waiting
      · rename_i hb _ at_phase
        subst waiting
        simp only [at_phase] at phase
        exact ⟨p, hb, rfl, found, phase.1, at_phase⟩
      · rename_i hb _ at_phase
        subst waiting
        simp only [at_phase] at phase
        obtain ⟨arrived, -, watched⟩ := phase.2.2.2 i rfl
        obtain ⟨rfl, -⟩ := watched.returned _ thread
        have asking := System.asking_reaches (S := system)
          (fun i _ _ _ _ _ => exec_answered (i := i)) body_carrying sound.reached
        exact (asking.call thread _ _ rfl).elim
      · cases waiting
  · exact .inl (by rw [eq])
  · exact .inl (by rw [eq])

theorem moves_registered {o o' : State} {p q : Process} (move : Processes.Moves o o' p q)
    (before : p.needsRegister = true) (after : q.needsRegister = false) :
    ∃ hb j k token, p.phase = .registering hb (some j) ∧
      o.threads j = some ⟨k, .ret (.registered (.ok token))⟩ ∧
      q.worker = { p.worker with fencingToken := token } := by
  cases move with
  | same | sentRegistration | sentReport | lostRegistration | crashed =>
    cases before.symm.trans after
  | began host =>
    unfold Process.begin at after
    split at after <;> cases before.symm.trans after
  | @gotRegistration w r hb j k a host done =>
    cases a with
    | error err => cases before.symm.trans after
    | ok token =>
      simp only [Process.registered] at after ⊢
      split
      · rename_i bad
        rw [if_pos bad] at after
        cases before.symm.trans after
      · exact ⟨hb, j, k, token, rfl, done, rfl⟩
  | @gotReport w r hb j k a done =>
    cases a with
    | error err => cases before.symm.trans (Bool.or_eq_false_iff.1 after).1
    | ok _ => cases before.symm.trans after
  | lostReport other => cases before.symm.trans (Bool.or_eq_false_iff.1 after).1

theorem moves_awaiting {o o' : State} {p q : Process} (move : Processes.Moves o o' p q)
    {hb : WorkerHeartbeat} {j : Nat} (phase : q.phase = .registering hb (some j)) :
    p = q ∨ j = o.next ∧ system.step o (.spawn (.registerWorker hb)) = some o' := by
  cases move with
  | same => exact .inl rfl
  | @began w r host =>
    unfold Process.begin at phase
    split at phase
    · cases phase
    · dsimp only at phase
      split at phase <;> cases phase
  | sentRegistration sent =>
    cases phase
    exact .inr ⟨rfl, sent⟩
  | sentReport | lostRegistration | lostReport | crashed => cases phase
  | @gotRegistration w r hb j k a host done =>
    cases a with
    | error err => cases phase
    | ok token =>
      simp only [Process.registered] at phase
      split at phase <;> cases phase
  | @gotReport w r hb j k a done => cases a <;> cases phase

theorem step_current (inv : Inv workerID s) (may : attended workerID s a = true)
    (ran : s.fleet.step a = some t.fleet) {q : Process} (found' : t.fleet.processes 0 = some q)
    (fresh : q.needsRegister = false) (own : trimSpace q.worker.id = workerID) :
    latestToken workerID t.fleet.orchestrator.shared.log = some q.worker.fencingToken := by
  obtain ⟨-, kept, new⟩ := step_moves ran
  cases before : s.fleet.processes 0 with
  | none => cases (new 0 q before found').1.symm.trans fresh
  | some p =>
    obtain ⟨_, eq, move⟩ := kept 0 p before
    cases eq.symm.trans found'
    obtain same | ⟨same, i, e, p', hb, -, found, waiting, -⟩ := latest_kept inv.sound may ran
    · rw [same]
      cases holds : p.needsRegister with
      | false =>
        obtain ⟨-, name, token⟩ := (inv.sound.sane 0 p before).keeps holds move
        rw [token]
        exact inv.current p before holds (name ▸ own)
      | true =>
        obtain ⟨hb, j, k, token, phase, done, worker⟩ := moves_registered move holds fresh
        have sane := (inv.sound.sane 0 p before).2
        simp only [phase] at sane
        rw [worker] at own ⊢
        have settled := inv.awaited p hb j _ before phase (sane.2.1 ▸ own) done
        obtain pending | ⟨_, eq, latest⟩ := settled
        · cases pending
        · cases eq
          exact latest
    · rw [same, found] at found'
      cases found'
      cases waiting.symm.trans fresh

theorem step_awaited (inv : Inv workerID s) (may : attended workerID s a = true)
    (ran : s.fleet.step a = some t.fleet) {q : Process} {hb : WorkerHeartbeat} {j : Nat}
    {th : Thread Kind Call Outcome Call.Answer} (found' : t.fleet.processes 0 = some q)
    (phase : q.phase = .registering hb (some j)) (own : trimSpace hb.workerID = workerID)
    (thread : t.fleet.orchestrator.threads j = some th) :
    Settled workerID t.fleet.orchestrator.shared th.prog := by
  obtain ⟨-, kept, new⟩ := step_moves ran
  cases before : s.fleet.processes 0 with
  | none => cases (new 0 q before found').2.1.symm.trans phase
  | some p =>
    obtain ⟨_, eq, move⟩ := kept 0 p before
    cases eq.symm.trans found'
    obtain rfl | ⟨rfl, sent⟩ := moves_awaiting move phase
    · have sane := (inv.sound.sane 0 p before).2
      simp only [phase] at sane
      obtain ⟨arrived, watched⟩ := sane.2.2 j rfl
      have carried {th : Thread Kind Call Outcome Call.Answer}
          (thread : s.fleet.orchestrator.threads j = some th)
          (same : latestToken workerID t.fleet.orchestrator.shared.log =
            latestToken workerID s.fleet.orchestrator.shared.log) :
          Settled workerID t.fleet.orchestrator.shared th.prog := by
        refine (inv.awaited p hb j th before phase own thread).imp_right ?_
        rintro ⟨token, done, latest⟩
        exact ⟨token, done, same.trans latest⟩
      obtain ⟨i, e, k, c, next, r, v, rfl, at_call, done, -, eq⟩ | ⟨k, -, eq⟩ | ⟨eq, threads⟩ :=
        step_orchestrator ran
      · by_cases mine : j = i
        · subst mine
          rw [eq] at thread ⊢
          cases (Function.update_self j _ _).symm.trans thread
          exact settled_call (inv.awaited p hb j _ before phase own at_call) done
        · have thread' := thread
          rw [eq] at thread'
          refine carried ((Function.update_of_ne mine _ _).symm.trans thread') ?_
          -- a commit would be by the thread the process waits for
          obtain same | ⟨-, i', e', p', hb', eq', found, -, phase'⟩ := latest_kept inv.sound may ran
          · exact same
          · cases eq'
            cases before.symm.trans found
            cases phase.symm.trans phase'
            exact absurd rfl mine
      · rw [eq] at thread ⊢
        have old : j ≠ s.fleet.orchestrator.next := Nat.ne_of_lt watched.started
        have thread := (Function.update_of_ne old _ _).symm.trans thread
        exact inv.awaited p hb j th before phase own thread
      · exact carried (threads j th thread) (by rw [eq])
    · cases (System.spawned sent).2.symm.trans thread
      exact .inl (register_enrolls own)

theorem step_abandoned (inv : Inv workerID s) (ran : s.fleet.step a = some t.fleet)
    (after : t.abandoned = abandonedAfter s a) {hb : WorkerHeartbeat}
    (mem : .reportHeartbeat hb ∈ t.abandoned) (own : trimSpace hb.workerID = workerID) :
    Sent workerID t hb := by
  have given_up (h : .reportHeartbeat hb ∈
      ((s.fleet.processes 0).bind Process.underway).toList ++ s.abandoned) :
      Sent workerID s hb := by
    rcases List.mem_append.1 h with sent | old
    · obtain ⟨p, found, sent⟩ := Option.bind_eq_some_iff.1 (Option.mem_toList.1 sent)
      exact sane_sent inv.sound found sent own
    · exact inv.abandoned hb old own
  refine Sent.step ?_ inv.sound ran
  rw [after] at mem
  cases a with
  | orchestrator b =>
    cases b with
    | spawn k => exact inv.abandoned hb (List.mem_of_mem_erase mem) own
    | call | stop | ext => exact inv.abandoned hb mem own
  | lost | crash => exact given_up mem
  | launch | begin | deliver | answered => exact inv.abandoned hb mem own

theorem step_reports (inv : Inv workerID s) (may : allowed workerID s a = true)
    (ran : s.fleet.step a = some t.fleet) {i : Nat} {th : Thread Kind Call Outcome Call.Answer}
    {req : WorkerHeartbeat} (thread : t.fleet.orchestrator.threads i = some th)
    (kind : th.kind = .reportHeartbeat req) (own : trimSpace req.workerID = workerID) :
    Sent workerID t req ∧ Unfenced th.prog := by
  have carried {th : Thread Kind Call Outcome Call.Answer}
      (thread : s.fleet.orchestrator.threads i = some th) (kind : th.kind = .reportHeartbeat req) :
      Sent workerID t req ∧ Unfenced th.prog :=
    (inv.reports i th req thread kind own).imp_left fun sent => sent.step inv.sound ran
  obtain ⟨j, e, k, c, next, r, v, rfl, at_call, done, -, eq⟩ | ⟨k, source, eq⟩ | ⟨-, threads⟩ :=
    step_orchestrator ran
  · rw [eq] at thread
    by_cases mine : i = j
    · subst mine
      cases (Function.update_self i _ _).symm.trans thread
      obtain rfl : k = .reportHeartbeat req := kind
      obtain ⟨sent, unfenced⟩ := inv.reports i _ req at_call rfl own
      refine ⟨sent.step inv.sound ran, ?_⟩
      obtain ⟨p, found, fresh, name, token⟩ := sent
      have asking := System.asking_reaches (S := system)
        (fun i _ _ _ _ _ => exec_answered (i := i)) body_carrying inv.sound.reached
      have carries := asking.call at_call _ _ rfl
      rw [own, token] at carries
      have honoured := answer_honoured (verdict_safe inv.sound.reached).inv.2
        (inv.current p found fresh name) carries done
      cases unfenced with
      | call after => exact after r honoured id
    · exact carried ((Function.update_of_ne mine _ _).symm.trans thread) kind
  · rw [eq] at thread
    by_cases new : i = s.fleet.orchestrator.next
    · subst new
      cases (Function.update_self _ _ _).symm.trans thread
      obtain rfl : k = .reportHeartbeat req := kind
      refine ⟨?_, report_unfenced req⟩
      refine Sent.step ?_ inv.sound ran
      obtain rfl | ⟨n, p, rfl, found, sent⟩ := source
      · simp only [allowed, speaksFor, own, ne_eq, not_true_eq_false, decide_false, Bool.false_or,
          decide_eq_true_eq] at may
        exact inv.abandoned req may own
      · obtain rfl : n = 0 := of_decide_eq_true may
        exact sane_sent inv.sound found sent own
    · exact carried ((Function.update_of_ne new _ _).symm.trans thread) kind
  · exact carried (threads i th thread) kind

theorem step_inv (inv : Inv workerID s) (may : attended workerID s a = true)
    (h : s.step workerID a = some t) : Inv workerID t := by
  obtain ⟨permitted, ran, after⟩ := step_lone h
  exact ⟨(step_sound inv.sound ran).1, fun q => step_current inv may ran,
    fun q hb j th => step_awaited inv may ran, fun hb => step_abandoned inv ran after,
    fun i th req => step_reports inv permitted ran⟩

theorem attended_inv (h : Attended workerID initial s) : Inv workerID s := by
  refine h.invariant ?_ fun _ _ _ => step_inv
  exact ⟨⟨.refl, fun _ _ found => nomatch found⟩, fun _ found => (nomatch found),
    fun _ _ _ _ found => (nomatch found), fun _ mem => (nomatch mem),
    fun _ _ _ found => nomatch found⟩

/-- A worker whose registrations only commit while its process waits for them
is never told that its token is stale. -/
theorem lone_worker_not_fenced (h : Attended workerID initial s) {i : Nat} {req : WorkerHeartbeat}
    {err : Err} (own : trimSpace req.workerID = workerID)
    (returned : s.fleet.orchestrator.threads i =
      some ⟨.reportHeartbeat req, .ret (.grpc (.error err))⟩) :
    Sent workerID s req ∧ err.code ≠ .failedPrecondition := by
  obtain ⟨sent, unfenced⟩ := (attended_inv h).reports i _ req returned rfl own
  refine ⟨sent, ?_⟩
  cases unfenced with
  | ret told => exact told err rfl

end Steps

def worker1 : Worker := ⟨⟨.active, "10.0.0.1", 1, 50051, 1, 1024, 0, 0, 0, 0⟩, "worker-1"⟩

def host : Host := { hostname := some "host" }

def registration1 : Kind :=
  .registerWorker (Process.heartbeat (Process.refresh host "host" worker1))

/-- The process gives its first registration up before it arrived, and gets
token 1 for its second one, which thread 0 handles. -/
def retried : List Event :=
  [.launch 0 worker1, .begin 0 host, .lost 0 host .deadlineExceeded "context deadline exceeded",
    .begin 0 host, .deliver 0, .orchestrator (.call 0 {}), .orchestrator (.call 0 {}),
    .answered 0 host]

def told (s : Lone) (i : Nat) : Option (Bool × Int × Int × Code) := do
  let p ← s.fleet.processes 0
  match s.fleet.orchestrator.threads i with
  | some ⟨.reportHeartbeat req, .ret (.grpc (.error err))⟩ =>
    if trimSpace req.workerID = "worker-1" then
      some (p.needsRegister, p.worker.fencingToken, req.fencingToken, err.code)
    else none
  | _ => none

theorem told_eq {s : Lone} {i : Nat} {registers : Bool} {held carried : Int} {code : Code}
    (h : told s i = some (registers, held, carried, code)) :
    ∃ p req err, s.fleet.processes 0 = some p ∧ p.needsRegister = registers ∧
      p.worker.fencingToken = held ∧ s.fleet.orchestrator.threads i =
        some ⟨.reportHeartbeat req, .ret (.grpc (.error err))⟩ ∧
      trimSpace req.workerID = "worker-1" ∧ req.fencingToken = carried ∧ err.code = code := by
  obtain ⟨p, found, h⟩ := Option.bind_eq_some_iff.1 h
  split at h
  · rename_i req err thread
    split at h
    · rename_i own
      cases h
      exact ⟨p, req, err, found, rfl, rfl, thread, own, rfl, rfl⟩
    · cases h
  · cases h

theorem lone_worker_not_fenced_retried : ∃ s i req err, Attended "worker-1" initial s ∧
    s.fleet.orchestrator.threads i = some ⟨.reportHeartbeat req, .ret (.grpc (.error err))⟩ ∧
    Sent "worker-1" s req ∧ err.code ≠ .failedPrecondition := by
  -- the database fails under the report of a worker that is not disturbed
  have run : (Runs.runWhen (Lone.step "worker-1") (attended "worker-1") initial
      (retried ++ [.deliver 0, .orchestrator (.call 1 {}),
        .orchestrator (.call 1 { fault := .fail "timeout" })])).bind (told · 1) =
      some (false, 1, 1, .internal) := by
    decide +kernel
  obtain ⟨s, hs, view⟩ := Option.bind_eq_some_iff.1 run
  obtain ⟨-, req, err, -, -, -, thread, own, -, -⟩ := told_eq view
  have reached := Runs.reachesWhen_of_run hs
  exact ⟨s, 1, req, err, reached, thread, lone_worker_not_fenced reached own thread⟩

theorem lone_worker_fenced : ∃ s p req err, Runs.Reaches (Lone.step "worker-1") initial s ∧
    s.fleet.processes 0 = some p ∧ p.needsRegister = false ∧
    s.fleet.orchestrator.threads 2 = some ⟨.reportHeartbeat req, .ret (.grpc (.error err))⟩ ∧
    trimSpace req.workerID = "worker-1" ∧ req.fencingToken = p.worker.fencingToken ∧
    err.code = .failedPrecondition := by
  -- the first registration arrives after the second one has been answered; the report with
  -- the token of that answer is refused
  have run : (Runs.run (Lone.step "worker-1") initial
      (retried ++ [.orchestrator (.spawn registration1), .orchestrator (.call 1 {}),
        .orchestrator (.call 1 {}), .deliver 0, .orchestrator (.call 2 {}),
        .orchestrator (.call 2 {}), .orchestrator (.call 2 {})])).bind (told · 2) =
      some (false, 1, 1, .failedPrecondition) := by
    decide +kernel
  obtain ⟨s, hs, view⟩ := Option.bind_eq_some_iff.1 run
  obtain ⟨p, req, err, found, fresh, token, thread, own, carried, code⟩ := told_eq view
  exact ⟨s, p, req, err, Runs.reachesWhen_of_run hs, found, fresh, thread, own,
    carried.trans token.symm, code⟩

end Fire2.LoneWorker
