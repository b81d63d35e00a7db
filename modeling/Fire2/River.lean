import Fire2.Cleanups
import Fire2.Runs

/-! River, the job queue. A job is fetched, its attempt runs as a thread of the
orchestrator, and its result completes the job, cancels it or has it retried
until `maxAttempts` is reached; then it is discarded. An attempt that was
interrupted is rescued and counts as failed.

Nothing but its cleanup job ends a sandbox that is cleanup_pending. The last
attempt of that job gives up on the worker, but not on the database: if the
database fails it, the job is discarded and the sandbox is left behind. -/

namespace Fire2.River
open Interleaving Orchestrator Lifecycle SandboxRepository

inductive JobState where
  | available | running | scheduled | retryable | completed | discarded | cancelled
  deriving DecidableEq, Repr

def JobState.live : List JobState := [available, running, scheduled, retryable]

/-- A row of the job table; `thread` runs the last attempt. -/
structure JobRow where
  state : JobState
  attempt : Nat
  thread : Nat
  deriving DecidableEq, Repr

/-- The orchestrator, and what River keeps of the `n`-th inserted job. -/
structure Queue where
  orchestrator : State
  rows : Nat → JobRow

def initial : Queue := ⟨Orchestrator.initial, fun _ => ⟨.available, 0, 0⟩⟩

def maxAttempts : Nat := 5

inductive Event where
  | orchestrator (a : Action Kind Env Empty)
  | schedule (n : Nat)
  | fetch (n : Nat)
  | finish (n : Nat)
  | rescue (n : Nat)

def Queue.jobs (s : Queue) : List JobArgs := s.orchestrator.shared.db.jobs

def attemptOf (isFinal : Bool) : JobArgs → Kind
  | .createSandbox id => .createJob id isFinal
  | .cleanupSandbox id target => .cleanupJob id target isFinal
  | .removeOrphan workerID id => .removeOrphanJob workerID id

def failed (attempt : Nat) : JobState :=
  if maxAttempts ≤ attempt then .discarded else .retryable

def finished (attempt : Nat) : Option Err → JobState
  | none => .completed
  | some err => if err.isCancel then .cancelled else failed attempt

def Queue.set (s : Queue) (n : Nat) (row : JobRow) : Queue :=
  { s with rows := Function.update s.rows n row }

def unscheduled : Action Kind Env Empty → Bool
  | .spawn k => k.isRequest
  | _ => true

def Queue.step (s : Queue) : Event → Option Queue
  | .orchestrator a =>
    if unscheduled a then (system.step s.orchestrator a).map fun o => { s with orchestrator := o }
    else none
  | .schedule n =>
    if (s.rows n).state ∈ [JobState.scheduled, .retryable] then
      some (s.set n { s.rows n with state := .available })
    else none
  | .fetch n => do
    let job ← s.jobs[n]?
    if (s.rows n).state = .available then
      let attempt := (s.rows n).attempt + 1
      let o ← system.step s.orchestrator (.spawn (attemptOf (maxAttempts ≤ attempt) job))
      some (({ s with orchestrator := o } : Queue).set n ⟨.running, attempt, s.orchestrator.next⟩)
    else none
  | .finish n =>
    match (s.rows n).state, s.orchestrator.threads (s.rows n).thread with
    | .running, some ⟨_, .ret (.job r)⟩ =>
      some (s.set n { s.rows n with state := finished (s.rows n).attempt r })
    | _, _ => none
  | .rescue n =>
    if (s.rows n).state = .running then
      some (s.set n { s.rows n with state := failed (s.rows n).attempt })
    else none

def needed : Call → Bool
  | .getSandbox _ | .clearWorker _ | .updateStatus .. => true
  | _ => false

/-- The database does not fail the last attempt of a cleanup job, and that
attempt is not interrupted for good. -/
def spared (s : Queue) : Event → Bool
  | .orchestrator (.call i e) =>
    match s.orchestrator.threads i with
    | some ⟨.cleanupJob _ _ true, .call c _⟩ => !needed c || e.fault = .none
    | _ => true
  | .rescue n =>
    match s.jobs[n]? with
    | some (.cleanupSandbox _ _) => (s.rows n).attempt < maxAttempts
    | _ => true
  | _ => true

abbrev Spared : Queue → Queue → Prop := Runs.ReachesWhen Queue.step spared

def Tidy (c : Call) : Prop := ∀ id allowedFrom, c ≠ .updateStatus id .cleanupPending allowedFrom

section Programs
variable {id : SandboxID} {isFinal : Bool} {target : Status}

theorem tidy_of_cleanup {c : Call} (h : CleanupCall id c) : Tidy c := by
  rintro k allowedFrom rfl
  exact absurd h.2.1 (by decide)

theorem tidy_of_create {c : Call} (h : CreateCall id c) : Tidy c := by
  rintro k allowedFrom rfl
  simpa using h.2

theorem tidy_of_request {c : Call} (h : RequestCall c) : Tidy c := by
  rintro k allowedFrom rfl
  exact h

end Programs

def Backed (db db' : Database) : Prop :=
  ∃ js, db'.jobs = db.jobs ++ js ∧
    ∀ id, Pending db' id → Pending db id ∨ ∃ target, .cleanupSandbox id target ∈ js

section Transactions
variable {id : SandboxID} {db db' : Database} {now : Int}

theorem Backed.of_jobs (jobs : db'.jobs = db.jobs)
    (pending : ∀ id, Pending db' id → Pending db id) : Backed db db' :=
  ⟨[], jobs.trans (List.append_nil _).symm, fun id waiting => .inl (pending id waiting)⟩

theorem Backed.refl (db : Database) : Backed db db := .of_jobs rfl fun _ h => h

theorem backed_claims {ids : List SandboxID} {js : List JobArgs} (claims : Claims ids db db')
    (inserted : ∀ id ∈ ids, ∃ target, .cleanupSandbox id target ∈ js) :
    Backed db (db'.insertJobs js) := by
  refine ⟨js, congrArg (· ++ js) claims.jobs, fun id waiting => ?_⟩
  exact (claims.only id waiting).imp_right (inserted id)

theorem steps_unclaimed {may : SandboxRow → Label → Prop} {r r' : SandboxRow} (h : Steps may r r')
    (never : ∀ r, ¬ may r .claim) (pending : r'.status = .cleanupPending) :
    r.status = .cleanupPending := by
  induction h with
  | refl => exact pending
  | tail _ last ih =>
    obtain ⟨l, permitted, move⟩ := last
    cases move with
    | claim h => exact absurd permitted (never _)
    | schedule | assign | start | confirm => cases pending
    | seen | clear => exact ih pending
    | finish target _ ht =>
      have pending : target = .cleanupPending := pending
      subst pending
      exact absurd ht (by decide)

theorem grows_unclaimed {may : Permit} (grows : Grows may db db')
    (never : ∀ id r, ¬ may id r .claim) (h : Pending db' id) : Pending db id := by
  obtain ⟨r', row', pending⟩ := h
  cases row : db.sandbox? id with
  | none =>
    obtain ⟨r, born, steps⟩ := grows.fresh id r' row row'
    cases born.1.symm.trans (steps_unclaimed steps (never id) pending)
  | some r =>
    obtain ⟨_, found, steps⟩ := grows.kept id r row
    cases found.symm.trans row'
    exact ⟨r, row, steps_unclaimed steps (never id) pending⟩

theorem updateStatus_only {k : SandboxID}
    (h : Pending (updateStatus k .cleanupPending Status.claimable db).2 id) :
    Pending db id ∨ id = k := by
  by_cases same : id = k
  · exact .inr same
  · refine .inl ?_
    obtain ⟨r, row, pending⟩ := h
    have some_from : Status.claimable ≠ [] := by decide
    have rows : (updateStatus k .cleanupPending Status.claimable db).2.sandbox? id =
        db.sandbox? id := by
      unfold updateStatus
      rw [if_neg some_from]
      dsimp only
      split <;> simp [same]
    exact ⟨r, rows ▸ row, pending⟩

theorem delete_backed {k : SandboxID} : Backed db (Transactions.delete k db).2 := by
  have jobs : (updateStatus k .cleanupPending Status.claimable db).2.jobs = db.jobs :=
    updateStatus_jobs
  have only {id : SandboxID}
    (h : Pending (updateStatus k .cleanupPending Status.claimable db).2 id) :
      Pending db id ∨ id = k := updateStatus_only h
  unfold Transactions.delete
  split
  · rename_i won
    rw [won] at jobs only
    refine ⟨_, congrArg (· ++ _) jobs, fun id waiting => ?_⟩
    exact (only waiting).imp_right fun same => ⟨some .stopped, List.mem_singleton.2 (by rw [same])⟩
  · exact .refl db
  · exact .refl db

theorem cleanup_backed {k : SandboxID} : Backed db (Transactions.cleanup k db).2 := by
  have jobs : (updateStatus k .cleanupPending Status.claimable db).2.jobs = db.jobs :=
    updateStatus_jobs
  have only {id : SandboxID}
    (h : Pending (updateStatus k .cleanupPending Status.claimable db).2 id) :
      Pending db id ∨ id = k := updateStatus_only h
  unfold Transactions.cleanup
  split
  · rename_i won
    rw [won] at jobs only
    refine ⟨_, congrArg (· ++ _) jobs, fun id waiting => ?_⟩
    exact (only waiting).imp_right fun same => ⟨none, List.mem_singleton.2 (by rw [same])⟩
  · exact .refl db

theorem reap_backed {locked : SandboxID → Bool}
    {livenessTimeout workerLostTimeout createTimeout : Int} :
    Backed db (Transactions.reap now locked livenessTimeout workerLostTimeout
      createTimeout db).2 := by
  obtain same | ⟨expired, other, db', claims, done, -⟩ :=
    reap_claims now locked livenessTimeout workerLostTimeout createTimeout db
  · rw [same]
    exact .refl db
  · rw [done]
    refine backed_claims claims fun id mem => ?_
    rcases List.mem_append.1 mem with first | second
    · exact ⟨some .stopped, List.mem_append_left _ (List.mem_map_of_mem first)⟩
    · exact ⟨some .failed, List.mem_append_right _ (List.mem_map_of_mem second)⟩

theorem reconcile_backed {w : Worker} {inv : Inventory}
    (h : Transactions.reconcileHeartbeat now w inv db = some db') : Backed db db' := by
  obtain ⟨ids, orphans, db₃, claims, rfl⟩ := reconcile_claims h
  refine backed_claims claims fun id mem => ?_
  exact ⟨some .failed, List.mem_append_left _ (List.mem_map_of_mem mem)⟩

end Transactions

def claiming : Call → Bool
  | .updateStatus _ status _ => status = .cleanupPending
  | .deleteTx _ | .cleanupTx _ | .reapTx .. | .reconcileTx .. => true
  | _ => false

theorem grant_claiming {e : Env} {db : Database} {c : Call} {id : SandboxID} {r : SandboxRow}
    {l : Label} (h : Grant e db c id r l) (claim : l = .claim) : claiming c = true := by
  cases h with
  | updateStatus allowed row =>
    subst claim
    cases allowed
    rfl
  | delete | cleanup | reap | claim => rfl
  | confirmFenced | assign | clear | seen | confirm => cases claim

theorem effect_backed {c : Call} (lawful : Lawful c) (tidy : Tidy c) {e : Env} {s : World} :
    Backed s.db (effect c e s).db := by
  have unclaimed (other : claiming c = false) {id : SandboxID} :
      Pending (effect c e s).db id → Pending s.db id :=
    grows_unclaimed (effect_grows lawful e) fun _ _ granted =>
      nomatch other.symm.trans (grant_claiming granted rfl)
  have quiet (other : claiming c = false) (jobs : (effect c e s).db.jobs = s.db.jobs) :
      Backed s.db (effect c e s).db :=
    .of_jobs jobs fun _ => unclaimed other
  cases c with
  | updateStatus k status allowedFrom =>
    refine quiet (decide_eq_false ?_) updateStatus_jobs
    rintro rfl
    exact tidy _ _ rfl
  | createTx sbx =>
    obtain same | ⟨-, jobs, -⟩ := create_rows sbx s.db
    · exact quiet rfl (congrArg Database.jobs same)
    · exact ⟨_, jobs, fun _ waiting => .inl (unclaimed rfl waiting)⟩
  | deleteTx k => exact delete_backed
  | cleanupTx k => exact cleanup_backed
  | reapTx livenessTimeout workerLostTimeout createTimeout => exact reap_backed
  | reconcileTx w inv =>
    simp only [effect, answer, statement, faulty, reconcileStep]
    split
    · rename_i found
      exact reconcile_backed found
    · exact .refl _
  | _ => exact quiet rfl (effect_same_jobs lawful rfl)

theorem answer_backed {c : Call} (lawful : Lawful c) (tidy : Tidy c) {e : Env} {s : World} :
    Backed s.db (answer c e s).2.db := by
  obtain same | done := answer_effect c e s
  · rw [same]
    exact .refl _
  · rw [done]
    exact effect_backed lawful tidy

def Ended (db : Database) (id : SandboxID) : Prop :=
  ∃ r, db.sandbox? id = some r ∧ r.status ∈ Status.terminal

theorem Ended.grows {may : Permit} {db db' : Database} {id : SandboxID} (h : Ended db id)
    (g : Grows may db db') : Ended db' id := by
  obtain ⟨r, row, ended⟩ := h
  obtain ⟨r', row', steps⟩ := g.kept id r row
  exact ⟨r', row', (steps.forward.terminal ended).symm ▸ ended⟩

theorem Ended.not_pending {db : Database} {id : SandboxID} (h : Ended db id) : ¬ Pending db id := by
  obtain ⟨r, row, ended⟩ := h
  rintro ⟨r', row', pending⟩
  cases row.symm.trans row'
  rw [pending] at ended
  exact absurd ended (by decide)

/-- The answers of a cleanup attempt: none is a cancellation, and the database
does not fail the last attempt. -/
def Heard (isFinal : Bool) : (c : Call) → c.Answer → Prop
  | .getSandbox _ => fun r => Plain r ∧ (isFinal = true → ∀ err, r ≠ .error err)
  | .clearWorker _ => fun r => Plain r ∧ (isFinal = true → ∀ err, r ≠ .error err)
  | .updateStatus .. => fun r => Plain r ∧ (isFinal = true → ∀ err, r ≠ .error err)
  | .getWorker _ => fun r => Plain r
  | .newClient _ => fun r => Plain r
  | .await _ => fun r => Plain r
  | _ => fun _ => True

def Shows : (c : Call) → c.Answer → Prop
  -- the answers that show a cleanup attempt the end of its sandbox
  | .getSandbox _ => fun r => ∃ sbx, r = .ok sbx ∧ sbx.status ∈ Status.terminal
  | .updateStatus .. => fun r => ∃ a, r = .ok a
  | _ => fun _ => False

def Retried (isFinal : Bool) (p : Work) : Prop :=
  p.Until (Heard isFinal) Shows fun r =>
    isFinal = false ∧ ∃ err, r = some err ∧ err.isCancel = false

section Attempts
variable {id : SandboxID} {isFinal : Bool}

theorem heard_ask {α : Type} {R : α → Prop} {c : Call} {f : c.Answer → Job α}
    (h : ∀ r, Heard isFinal c r → ¬ Shows c r → (f r).Until (Heard isFinal) Shows R) :
    (ask c >>= f).Until (Heard isFinal) Shows R :=
  .call h

theorem retried_error {α : Type} {r : Except Err α} {err : Err} {text : String}
    (failed : r = .error err) (heard : Plain r ∧ (isFinal = true → ∀ err, r ≠ .error err)) :
    Retried isFinal (.ret (some (.wrap text err))) := by
  refine .ret ⟨?_, _, rfl, heard.1 err failed⟩
  cases isFinal with
  | false => rfl
  | true => exact absurd failed (heard.2 rfl err)

theorem finish_retried {target : Status} :
    Retried isFinal (CleanupSandboxWorker.finish id target) := by
  refine heard_ask fun r heard unseen => ?_
  obtain err | a := r
  · exact retried_error rfl heard
  · exact absurd ⟨a, rfl⟩ unseen

theorem clear_retried {target : Status} :
    Retried isFinal (CleanupSandboxWorker.clear id target) := by
  refine heard_ask fun r heard _ => ?_
  obtain err | a := r
  · exact retried_error rfl heard
  · exact finish_retried

theorem remove_plain {workerID : WorkerID} :
    (removeSandboxOnWorker workerID id).Until (Heard isFinal) Shows
      fun r => ∀ err, r = some err → err.isCancel = false := by
  have wrapped {α : Type} {r : Except Err α} {err : Err} {text : String} (failed : r = .error err)
      (plain : Plain r) : (Prog.ret (some (.wrap text err)) : Work).Until (Heard isFinal) Shows
        fun r => ∀ err, r = some err → err.isCancel = false := by
    refine .ret ?_
    rintro _ ⟨⟩
    exact plain err failed
  refine heard_ask fun r plain _ => ?_
  obtain err | worker := r
  · exact wrapped rfl plain
  refine heard_ask fun r plain _ => ?_
  obtain err | _ := r
  · exact wrapped rfl plain
  refine heard_ask fun ref _ _ => heard_ask fun r plain _ => ?_
  obtain err | _ := r
  · dsimp only
    split
    · exact .ret nofun
    · exact wrapped rfl plain
  · exact .ret nofun

theorem cleanupJob_retried {target : Option Status} :
    Retried isFinal (CleanupSandboxWorker.work id target isFinal) := by
  refine heard_ask fun r heard unseen => ?_
  obtain err | sbx := r
  · exact retried_error rfl heard
  dsimp only
  split
  · rename_i ended
    exact absurd ⟨sbx, rfl, ended⟩ unseen
  split
  · exact finish_retried
  refine remove_plain.bind fun r plain => ?_
  split
  · exact clear_retried
  rename_i err
  split
  · exact clear_retried
  · rename_i more
    refine .ret ⟨?_, _, rfl, plain err rfl⟩
    cases isFinal with
    | false => rfl
    | true => exact absurd rfl more

def Attempts (isFinal : Bool) (p : Job Outcome) : Prop :=
  p.Until (Heard isFinal) Shows fun a =>
    isFinal = false ∧ ∃ err, a = .job (some err) ∧ err.isCancel = false

theorem body_attempts {target : Option Status} :
    Attempts isFinal (body (.cleanupJob id target isFinal)) := by
  refine Prog.Until.bind cleanupJob_retried fun r h => .ret ?_
  obtain ⟨more, err, rfl, plain⟩ := h
  exact ⟨more, err, rfl, plain⟩

end Attempts

/-- What the threads of a kind may call, the target of a cleanup job being one
that is inserted. -/
def KindCall (k : Kind) (c : Call) : Prop :=
  (∀ id target isFinal, k = .cleanupJob id target isFinal → Target target) →
    Tidy c ∧ ∀ id target isFinal, k = .cleanupJob id target isFinal → CleanupCall id c

theorem body_kindCall (k : Kind) : Calls (body k) (KindCall k) := by
  by_cases request : k.isRequest = true
  · refine (request_calls request).mono fun c h _ => ⟨tidy_of_request h, ?_⟩
    rintro _ _ _ rfl
    cases request
  cases k with
  | createJob id isFinal =>
    exact (createJob_calls.mono fun c h _ => ⟨tidy_of_create h, nofun⟩).bind fun _ => .ret _
  | cleanupJob id target isFinal =>
    by_cases known : Target target
    · refine ((cleanupJob_calls known).mono fun c h _ => ⟨tidy_of_cleanup h, ?_⟩).bind fun _ =>
        .ret _
      rintro _ _ _ ⟨⟩
      exact h
    · exact .all (fun c all => absurd (all id target isFinal rfl) known) _
  | removeOrphanJob workerID id =>
    refine (removeSandboxOnWorker_calls.mono fun c h _ => ⟨?_, nofun⟩).bind fun _ => .ret _
    exact tidy_of_cleanup h.cleanup
  | _ => cases request rfl

section Answers
variable {id : SandboxID} {isFinal : Bool} {c : Call} {e : Env} {s t : World}

theorem heard_answer (claimed : Claimed s.db id) (calls : CleanupCall id c)
    (spared : isFinal = true → needed c = true → e.fault = .none) :
    Heard isFinal c (answer c e s).1 := by
  have answered := answer_answered c e s
  cases c with
  | getSandbox k =>
    obtain ⟨r, row, -⟩ := claimed
    cases calls
    refine ⟨answered.2, fun last err => ?_⟩
    simp only [answer, statement, faulty, spared last rfl, reading, getByID, row]
    intro eq
    cases eq
  | clearWorker k =>
    refine ⟨statement_plain (fun _ eq => by cases eq), fun last err => ?_⟩
    simp only [answer, statement, faulty, spared last rfl, onDatabase]
    intro eq
    cases eq
  | updateStatus k status allowedFrom =>
    obtain ⟨r, row, -⟩ := claimed
    obtain ⟨rfl, -, rfl⟩ := calls
    refine ⟨answered, fun last err => ?_⟩
    simp only [answer, statement, faulty, spared last rfl, onDatabase, updateStatus,
      CleanupSandboxWorker.allowedFrom, row]
    intro eq
    cases eq
  | getWorker | newClient | await => exact answered
  | sendRemove => trivial
  | _ => exact calls.elim

theorem shows_ended {r : c.Answer} (claimed : Claimed s.db id) (calls : CleanupCall id c)
    (ran : answer c e s = (r, t)) (shows : Shows c r) : Ended t.db id := by
  cases c with
  | getSandbox k =>
    cases calls
    obtain ⟨sbx, rfl, ended⟩ := shows
    obtain ⟨rfl, row, found, rfl⟩ := getSandbox_ok ran
    exact ⟨row, found, ended⟩
  | updateStatus k status allowedFrom =>
    obtain ⟨r, row, -⟩ := claimed
    obtain ⟨rfl, ends, rfl⟩ := calls
    obtain ⟨a, rfl⟩ := shows
    simp only [answer, statement] at ran
    have done := congrArg (fun p => p.2.db) (faulty_ok ran)
    have some_from : CleanupSandboxWorker.allowedFrom ≠ [] := by decide
    simp only [onDatabase, updateStatus, if_neg some_from, row] at done
    rw [← done]
    refine ⟨_, by rw [Database.sandbox?_rewrite, row, Option.map_some], ?_⟩
    split
    · exact ends
    · rename_i other
      have other : r.status ∉ CleanupSandboxWorker.allowedFrom := fun mem => other ⟨rfl, mem⟩
      cases status : r.status <;>
        first | decide | exact absurd (status ▸ by decide) other
  | _ => exact shows.elim

end Answers

section Threads
variable {o o' : State}

def Attending (o : State) : Prop :=
  -- every cleanup attempt that runs is one of an inserted job, and goes on until its sandbox
  -- has ended
  ∀ i th id target isFinal, o.threads i = some th → th.kind = .cleanupJob id target isFinal →
    Target target ∧ Claimed o.shared.db id ∧ (Ended o.shared.db id ∨ Attempts isFinal th.prog)

theorem thread_calls (reached : system.Reaches Orchestrator.initial o) (attending : Attending o)
    {i : Nat} {k : Kind} {c : Call} {f : c.Answer → Job Outcome}
    (thread : o.threads i = some ⟨k, .call c f⟩) :
    Lawful c ∧ Tidy c ∧ ∀ id target isFinal, k = .cleanupJob id target isFinal →
    CleanupCall id c := by
  have asking := System.asking_reaches (S := system) (fun i _ _ _ _ _ => exec_answered (i := i))
    body_kindCall reached
  exact ⟨System.safe_pre lawful_disciplined (reached_lawful reached) thread, asking.call thread
    fun id target isFinal kind => (attending i _ id target isFinal thread kind).1⟩

theorem attending_step (reached : system.Reaches Orchestrator.initial o) (attending : Attending o)
    {b : Action Kind Env Empty} (h : system.step o b = some o')
    (spared : ∀ i e id target c f, b = .call i e →
      o.threads i = some ⟨.cleanupJob id target true, .call c f⟩ →
      needed c = true → e.fault = .none) :
    Attending o' := by
  have grows := reaches_grows reached (System.Reaches.single h)
  have carried {i : Nat} {th : Thread Kind Call Outcome Call.Answer} {id : SandboxID}
      {target : Option Status} {isFinal : Bool} (thread : o.threads i = some th)
      (kind : th.kind = .cleanupJob id target isFinal) : Target target ∧ Claimed o'.shared.db id ∧
        (Ended o'.shared.db id ∨ Attempts isFinal th.prog) := by
    obtain ⟨known, claimed, rest⟩ := attending i th id target isFinal thread kind
    exact ⟨known, claimed.grows grows, rest.imp_left fun ended => ended.grows grows⟩
  intro i th id target isFinal thread kind
  obtain ⟨k, v, rfl, started, rfl⟩ | ⟨j, e, k, c, f, r, v, rfl, at_call, ran, rfl⟩ |
    ⟨j, th', rfl, -, -, rfl⟩ | ⟨x, -⟩ := System.step_cases h
  · by_cases new : i = o.next
    · subst new
      cases (Function.update_self _ _ _).symm.trans thread
      obtain rfl : k = .cleanupJob id target isFinal := kind
      obtain ⟨on, rfl⟩ := start_eq started
      obtain ⟨known, claimed⟩ := (reaches_consistent reached).jobs _ (of_decide_eq_true on)
      exact ⟨known, claimed, .inr body_attempts⟩
    · exact carried ((Function.update_of_ne new _ _).symm.trans thread) kind
  · by_cases mine : i = j
    · subst mine
      cases (Function.update_self _ _ _).symm.trans thread
      obtain rfl : k = .cleanupJob id target isFinal := kind
      obtain ⟨known, claimed, rest⟩ := attending i _ id target isFinal at_call rfl
      have calls := (thread_calls reached attending at_call).2.2 id target isFinal rfl
      have answered := (exec_eq_some (i := i) ran).symm
      refine ⟨known, claimed.grows grows, ?_⟩
      obtain ended | more := rest
      · exact .inl (ended.grows grows)
      · by_cases shows : Shows c r
        · exact .inl (shows_ended claimed calls answered shows)
        · have heard : Heard isFinal c (answer c e o.shared).1 :=
            heard_answer claimed calls fun last need => by
              subst last
              exact spared i e id target c f rfl at_call need
          rw [answered] at heard
          cases more with
          | call next => exact .inr (next r heard shows)
    · exact carried ((Function.update_of_ne mine _ _).symm.trans thread) kind
  · by_cases gone : i = j
    · subst gone
      cases (Function.update_self _ _ _).symm.trans thread
    · exact carried ((Function.update_of_ne gone _ _).symm.trans thread) kind
  · exact nomatch x

theorem step_backed (reached : system.Reaches Orchestrator.initial o) (attending : Attending o)
    {b : Action Kind Env Empty} (h : system.step o b = some o') :
    Backed o.shared.db o'.shared.db := by
  obtain ⟨k, v, -, started, rfl⟩ | ⟨j, e, k, c, f, r, v, -, at_call, ran, rfl⟩ |
    ⟨j, th', -, -, -, rfl⟩ | ⟨x, -⟩ := System.step_cases h
  · rw [(start_eq started).2]
    exact .refl _
  · obtain ⟨lawful, tidy, -⟩ := thread_calls reached attending at_call
    obtain rfl : v = (answer c e o.shared).2 := congrArg Prod.snd (exec_eq_some (i := j) ran)
    exact answer_backed lawful tidy
  · exact .refl _
  · exact nomatch x

end Threads

section Steps
variable {s t : Queue} {a : Event}

structure Inv (s : Queue) : Prop where
  reached : system.Reaches Orchestrator.initial s.orchestrator
  attending : Attending s.orchestrator
  fresh : ∀ n, s.jobs.length ≤ n → (s.rows n).state = .available
  backed : ∀ id, Pending s.orchestrator.shared.db id →
    ∃ n target, s.jobs[n]? = some (.cleanupSandbox id target) ∧ (s.rows n).state ∈ JobState.live
  running : ∀ n id target, s.jobs[n]? = some (.cleanupSandbox id target) →
    (s.rows n).state = .running → System.Started s.orchestrator (s.rows n).thread ∧
    ∀ th, s.orchestrator.threads (s.rows n).thread = some th →
      th.kind = .cleanupJob id target (maxAttempts ≤ (s.rows n).attempt)

theorem inv_initial : Inv initial where
  reached := .refl
  attending _ _ _ _ _ found := nomatch found
  fresh _ _ := rfl
  backed _ waiting := by
    obtain ⟨_, row, -⟩ := waiting
    cases row
  running _ _ _ found := by cases found

theorem Inv.orchestrator (inv : Inv s) {b : Action Kind Env Empty} {o : State}
    (h : system.step s.orchestrator b = some o)
    (spared : ∀ i e id target c f, b = .call i e → s.orchestrator.threads i =
      some ⟨.cleanupJob id target true, .call c f⟩ → needed c = true → e.fault = .none) :
    Inv { s with orchestrator := o } := by
  obtain ⟨js, jobs, backed⟩ := step_backed inv.reached inv.attending h
  have jobs : ({ s with orchestrator := o } : Queue).jobs = s.jobs ++ js := jobs
  have old {n : Nat} {job : JobArgs} (found : s.jobs[n]? = some job) :
      ({ s with orchestrator := o } : Queue).jobs[n]? = some job := by
    rw [jobs, List.getElem?_append_left (List.getElem?_eq_some_iff.1 found).1]
    exact found
  refine ⟨inv.reached.trans (System.Reaches.single h),
    attending_step inv.reached inv.attending h spared,
    fun n large => ?_, fun id waiting => ?_, fun n id target found running => ?_⟩
  · refine inv.fresh n (Nat.le_trans ?_ large)
    rw [jobs, List.length_append]
    exact Nat.le_add_right _ _
  · obtain before | ⟨target, new⟩ := backed id waiting
    · obtain ⟨n, target, found, live⟩ := inv.backed id before
      exact ⟨n, target, old found, live⟩
    · obtain ⟨m, found⟩ := List.getElem?_of_mem new
      refine ⟨s.jobs.length + m, target, ?_, ?_⟩
      · rw [jobs, List.getElem?_append_right (Nat.le_add_right _ _), Nat.add_sub_cancel_left]
        exact found
      · rw [inv.fresh _ (Nat.le_add_right _ _)]
        decide
  · by_cases present : n < s.jobs.length
    · rw [jobs, List.getElem?_append_left present] at found
      obtain ⟨started, kind⟩ := inv.running n id target found running
      exact ⟨System.started_step started h, System.kind_step started h kind⟩
    · cases (inv.fresh n (Nat.le_of_not_lt present)).symm.trans running

theorem Inv.set (inv : Inv s) {n : Nat} {row : JobRow} {job : JobArgs}
    (found : s.jobs[n]? = some job) (live : ∀ id target, job = .cleanupSandbox id target →
      row.state ∉ JobState.live →
      Ended s.orchestrator.shared.db id)
    (running : ∀ id target, job = .cleanupSandbox id target → row.state = .running →
      System.Started s.orchestrator row.thread ∧
      ∀ th, s.orchestrator.threads row.thread = some th →
        th.kind = .cleanupJob id target (maxAttempts ≤ row.attempt)) : Inv (s.set n row) where
  reached := inv.reached
  attending := inv.attending
  fresh m large := by
    have other : m ≠ n := by
      rintro rfl
      exact absurd (List.getElem?_eq_some_iff.1 found).1 (Nat.not_lt_of_le large)
    exact (congrArg JobRow.state (Function.update_of_ne other _ _)).trans (inv.fresh m large)
  backed id waiting := by
    obtain ⟨m, target, there, alive⟩ := inv.backed id waiting
    refine ⟨m, target, there, ?_⟩
    by_cases same : m = n
    · subst same
      cases found.symm.trans there
      rw [show (s.set m row).rows m = row from Function.update_self _ _ _]
      by_contra dead
      exact (live id target rfl dead).not_pending waiting
    · rw [show (s.set n row).rows m = s.rows m from Function.update_of_ne same _ _]
      exact alive
  running m id target there runs := by
    by_cases same : m = n
    · subst same
      cases found.symm.trans there
      have row_eq : (s.set m row).rows m = row := Function.update_self _ _ _
      rw [row_eq] at runs ⊢
      exact running id target rfl runs
    · have row_eq : (s.set n row).rows m = s.rows m := Function.update_of_ne same _ _
      rw [row_eq] at runs ⊢
      exact inv.running m id target there runs

theorem Inv.found (inv : Inv s) {n : Nat} (h : (s.rows n).state ≠ .available) :
    ∃ job, s.jobs[n]? = some job := by
  have present : n < s.jobs.length := Nat.lt_of_not_le fun large => h (inv.fresh n large)
  exact ⟨_, List.getElem?_eq_getElem present⟩

theorem fetch_inv {n : Nat} (inv : Inv s) (h : s.step (.fetch n) = some t) : Inv t := by
  simp only [Queue.step, Option.bind_eq_bind, Option.bind_eq_some_iff] at h
  obtain ⟨job, found, h⟩ := h
  split at h
  · obtain ⟨o, started, done⟩ := Option.bind_eq_some_iff.1 h
    cases done
    have next := inv.orchestrator started fun i e _ _ _ _ eq => by cases eq
    have same : ({ s with orchestrator := o } : Queue).jobs = s.jobs := by
      obtain ⟨v, ran, rfl⟩ := Option.map_eq_some_iff.1 started
      obtain ⟨-, rfl⟩ := start_eq ran
      rfl
    refine next.set (same ▸ found)
      (fun _ _ _ dead => absurd (by decide : JobState.running ∈ JobState.live) dead)
      fun id target eq _ => ?_
    subst eq
    obtain ⟨on, thread⟩ := System.spawned started
    refine ⟨on, fun th found => ?_⟩
    cases thread.symm.trans found
    rfl
  · cases h

theorem finish_inv {n : Nat} (inv : Inv s) (h : s.step (.finish n) = some t) : Inv t := by
  simp only [Queue.step] at h
  split at h
  · rename_i k r running thread
    cases h
    obtain ⟨job, found⟩ := inv.found (n := n) (by rw [running]; decide)
    refine inv.set found (fun id target eq dead => ?_) fun id target eq runs => ?_
    · subst eq
      obtain ⟨-, kind⟩ := inv.running n id target found running
      obtain rfl := kind _ thread
      obtain ⟨-, -, ended | more⟩ := inv.attending _ _ id target _ thread rfl
      · exact ended
      · cases more with
        | ret h =>
          obtain ⟨more, err, eq, plain⟩ := h
          cases eq
          refine absurd ?_ dead
          simp only [finished, plain, failed, Bool.false_eq_true, if_false]
          rw [if_neg (of_decide_eq_false more)]
          decide
    · have stopped : finished (s.rows n).attempt r ≠ .running := by
        unfold finished failed
        split
        · nofun
        split
        · nofun
        · split <;> nofun
      exact absurd runs stopped
  · cases h

theorem rescue_inv {n : Nat} (inv : Inv s) (may : spared s (.rescue n) = true)
    (h : s.step (.rescue n) = some t) : Inv t := by
  simp only [Queue.step] at h
  split at h
  · rename_i running
    cases h
    obtain ⟨job, found⟩ := inv.found (n := n) (by rw [running]; decide)
    refine inv.set found (fun id target eq dead => ?_) fun id target eq runs => ?_
    · subst eq
      simp only [spared, found, decide_eq_true_eq] at may
      refine absurd ?_ dead
      simp only [failed, if_neg (Nat.not_le_of_lt may)]
      decide
    · refine absurd runs ?_
      unfold failed
      split <;> nofun
  · cases h

theorem schedule_inv {n : Nat} (inv : Inv s) (h : s.step (.schedule n) = some t) : Inv t := by
  simp only [Queue.step] at h
  split at h
  · rename_i waits
    cases h
    obtain ⟨job, found⟩ := inv.found (n := n) fun eq => by
      rw [eq] at waits
      exact absurd waits (by decide)
    exact inv.set found
      (fun _ _ _ dead => absurd (by decide : JobState.available ∈ JobState.live) dead)
      fun _ _ _ runs => nomatch runs
  · cases h

theorem step_inv (inv : Inv s) (may : spared s a = true) (h : s.step a = some t) : Inv t := by
  cases a with
  | orchestrator b =>
    simp only [Queue.step] at h
    split at h
    · obtain ⟨o, ran, rfl⟩ := Option.map_eq_some_iff.1 h
      refine inv.orchestrator ran fun i e id target c f eq thread need => ?_
      subst eq
      simpa [spared, thread, need] using may
    · cases h
  | schedule n => exact schedule_inv inv h
  | fetch n => exact fetch_inv inv h
  | finish n => exact finish_inv inv h
  | rescue n => exact rescue_inv inv may h

/-- Unless the last attempt of a cleanup job is let down by the database or
interrupted, a sandbox that is cleanup_pending has a cleanup job that River is
not done with. -/
theorem cleanup_pending_has_live_job (h : Spared initial s) {id : SandboxID} {r : SandboxRow}
    (row : s.orchestrator.shared.db.sandbox? id = some r) (pending : r.status = .cleanupPending) :
    ∃ n target, s.jobs[n]? = some (.cleanupSandbox id target) ∧
      (s.rows n).state ∈ JobState.live :=
  (h.invariant inv_initial fun _ _ _ => step_inv).backed id ⟨r, row, pending⟩

end Steps

def deleted : List Event :=
  -- the user deletes the sandbox before its create job has started
  firstCreated.map .orchestrator ++
    [.orchestrator (.spawn (.deleteSandbox (some "user-1") firstID)), .orchestrator (.call 2 {}),
      .orchestrator (.call 2 {})]

def failedAttempt (i : Nat) : List Event :=
  [.fetch 1, .orchestrator (.call i { fault := .fail "timeout" }), .finish 1]

def retries : List Event :=
  deleted ++ failedAttempt 3 ++ [.schedule 1] ++ failedAttempt 4 ++ [.schedule 1] ++
    failedAttempt 5 ++ [.schedule 1] ++ failedAttempt 6

def view (s : Queue) : Option Status × List (JobArgs × JobState) :=
  ((s.orchestrator.shared.db.sandbox? firstID).map fun r => r.status,
    (s.jobs.zipIdx).map fun p => (p.1, (s.rows p.2).state))

theorem cleanup_pending_has_live_job_retryable : ∃ s r n target, Spared initial s ∧
    s.orchestrator.shared.db.sandbox? firstID = some r ∧ r.status = .cleanupPending ∧
    s.jobs[n]? = some (.cleanupSandbox firstID target) ∧ (s.rows n).state ∈ JobState.live := by
  have run : (Runs.runWhen Queue.step spared initial retries).map view =
      some (some .cleanupPending, [(.createSandbox firstID, .available),
        (.cleanupSandbox firstID (some .stopped), .retryable)]) := by
    decide +kernel
  obtain ⟨s, hs, seen⟩ := Option.map_eq_some_iff.1 run
  obtain ⟨r, row, pending⟩ := Option.map_eq_some_iff.1 (congrArg Prod.fst seen)
  have reached := Runs.reachesWhen_of_run hs
  obtain ⟨n, target, found, live⟩ := cleanup_pending_has_live_job reached row pending
  exact ⟨s, r, n, target, reached, row, pending, found, live⟩

theorem cleanup_pending_left_behind : ∃ s r, Runs.Reaches Queue.step initial s ∧
    s.orchestrator.shared.db.sandbox? firstID = some r ∧ r.status = .cleanupPending ∧
    ∀ n target, s.jobs[n]? = some (.cleanupSandbox firstID target) →
      (s.rows n).state ∉ JobState.live := by
  -- the database fails the last attempt as well: the job is discarded and the sandbox stays
  -- cleanup_pending
  have run : (Runs.run Queue.step initial (retries ++ [.schedule 1] ++ failedAttempt 7)).map view =
      some (some .cleanupPending, [(.createSandbox firstID, .available),
        (.cleanupSandbox firstID (some .stopped), .discarded)]) := by
    decide +kernel
  obtain ⟨s, hs, seen⟩ := Option.map_eq_some_iff.1 run
  obtain ⟨r, row, pending⟩ := Option.map_eq_some_iff.1 (congrArg Prod.fst seen)
  refine ⟨s, r, Runs.reachesWhen_of_run hs, row, pending, fun n target found live => ?_⟩
  have listed : (JobArgs.cleanupSandbox firstID target, (s.rows n).state) ∈ (view s).2 :=
    List.mem_map.2 ⟨(_, n), List.mk_mem_zipIdx_iff_getElem?.2 found, rfl⟩
  rw [seen] at listed
  simp only [List.mem_cons, Prod.mk.injEq, reduceCtorEq, false_and, List.not_mem_nil, or_false,
    false_or] at listed
  rw [listed.2] at live
  exact absurd live (by decide)

end Fire2.River
