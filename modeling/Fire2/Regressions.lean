import Fire2.Processes

/-! Fencing tokens when the database loses some. The row of a worker may be set
back to an earlier token or deleted at any moment. Register only outruns the
token it finds and the one it is presented, so a process that presents neither
the latest token nor a later one is handed a token that was given before. -/

namespace Fire2.Regressions
open Interleaving Orchestrator Processes

structure Given where
  thread : Nat
  worker : WorkerID
  token : Int
  deriving DecidableEq, Repr

/-- The database, the registrations so far, latest first, and the workers whose
row was set back or deleted since they last registered. -/
structure Ledger where
  world : World
  given : List Given
  lost : List WorkerID

def granted (i : Nat) (before after : World) : Option Given :=
  match after.log with
  | .registered worker token _ :: rest =>
    if rest.length = before.log.length then some ⟨i, worker, token⟩ else none
  | _ => none

def Ledger.record (s : Ledger) (i : Nat) (after : World) : Ledger :=
  match granted i s.world after with
  | some g => ⟨after, g :: s.given, s.lost.filter (· ≠ g.worker)⟩
  | none => { s with world := after }

def exec : Exec Call Env Ledger Call.Answer := fun i c e s =>
  (Fire2.exec i c e s.world).map fun r => (r.1, s.record i r.2)

inductive Regression where
  | setBack (workerID : WorkerID) (token : Int)
  | deleteRow (workerID : WorkerID)

def regress (x : Regression) (s : Ledger) : Option Ledger :=
  let edited (workerID : WorkerID) (db : Database) : Ledger :=
    { s with world := { s.world with db }, lost := workerID :: s.lost }
  match x with
  | .setBack workerID token =>
    if (s.world.db.worker? workerID).any fun r => token < r.fencingToken then
      some (edited workerID (s.world.db.rewriteWorkers fun k r =>
        if k = workerID then { r with fencingToken := token } else r))
    else none
  | .deleteRow workerID =>
    some (edited workerID { s.world.db with workers := s.world.db.workers.erase workerID })

def system : System Kind Call Env Regression Outcome Ledger Call.Answer where
  exec := exec
  body := body
  start _ k s := if enabled k s.world.db then some s else none
  stoppable _ := true
  ext := regress

def initial : FleetOf Ledger := ⟨System.init ⟨⟨.empty, []⟩, [], []⟩, fun _ => none⟩

def latest (given : List Given) (workerID : WorkerID) : Option Int :=
  (given.find? fun g => g.worker = workerID).map Given.token

/-- The first registration of a worker whose row was lost presents the token of
its last one: the process that was given it comes before any other. -/
def inOrder (workerID : WorkerID) (token : Int) (s : Ledger) : Bool :=
  !s.lost.contains workerID || (latest s.given workerID).all (· = token)

def orderly : Nat → Call → Env → Ledger → Bool
  | _, .register w, _, s => inOrder w.id w.fencingToken s
  | _, _, _, _ => true

def Rising (given : List Given) : Prop :=
  given.Pairwise fun a b => a.worker = b.worker → b.token < a.token

theorem Rising.eq {given : List Given} (h : Rising given) {a b : Given} (ha : a ∈ given)
    (hb : b ∈ given) (worker : a.worker = b.worker) (token : a.token = b.token) : a = b := by
  induction h with
  | nil => cases ha
  | cons later _ ih =>
    rcases List.mem_cons.1 ha with rfl | old <;> rcases List.mem_cons.1 hb with rfl | old'
    · rfl
    · have := later b old' worker
      omega
    · have := later a old worker.symm
      omega
    · exact ih old old'

theorem Rising.latest {given : List Given} (h : Rising given) {g : Given} (mem : g ∈ given) :
    ∃ token, latest given g.worker = some token ∧ g.token ≤ token := by
  induction h with
  | nil => cases mem
  | @cons a rest later _ ih =>
    by_cases same : a.worker = g.worker
    · refine ⟨a.token, by simp [Regressions.latest, same], ?_⟩
      rcases List.mem_cons.1 mem with rfl | old
      · exact Int.le_refl _
      · exact Int.le_of_lt (later g old same)
    · have old : g ∈ rest := (List.mem_cons.1 mem).resolve_left fun eq => same (congrArg _ eq.symm)
      obtain ⟨token, found, le⟩ := ih old
      exact ⟨token, by simpa [Regressions.latest, same] using found, le⟩

def Kept (s : Ledger) : Prop :=
  ∀ g ∈ s.given, g.worker ∉ s.lost →
    ∃ r, s.world.db.worker? g.worker = some r ∧ g.token ≤ r.fencingToken

theorem inOrder_covers {s : Ledger} (rising : Rising s.given) (kept : Kept s) {g : Given}
    (mem : g ∈ s.given) {token : Int} (may : inOrder g.worker token s = true) :
    g.token ≤ token ∨ ∃ r, s.world.db.worker? g.worker = some r ∧ g.token ≤ r.fencingToken := by
  by_cases lost : g.worker ∈ s.lost
  · obtain ⟨last, found, le⟩ := rising.latest mem
    refine .inl ?_
    simp only [inOrder, List.contains_eq_mem, lost, decide_true, Bool.not_true, Bool.false_or,
      found, Option.all_some, decide_eq_true_eq] at may
    omega
  · exact .inr (kept g mem lost)

section Steps
variable {i : Nat} {c : Call} {e : Env} {s t : Ledger}

theorem granted_step {now : Int} {before after : World} (h : WorkerStep now before after c) :
    granted i before after = none ∨ ∃ w, c = .register w ∧ Registers now w before after ∧
      granted i before after = some ⟨i, w.id, WorkerRepository.nextToken w before.db⟩ := by
  unfold granted
  cases h with
  | silent workers log kept =>
    refine .inl ?_
    rw [log]
    split
    · rename_i eq
      rw [if_neg]
      rw [eq]
      simp
    · rfl
  | @registered w done => exact .inr ⟨w, rfl, done, by rw [done.log]; simp⟩
  | heartbeat done | inventory done => exact .inl (by rw [done.log, heartbeatEntry])
  | swept done => exact .inl (by rw [done.log])

theorem exec_ledger {a : c.Answer} (h : exec i c e s = some (a, t)) :
    Fire2.exec i c e s.world = some (a, t.world) ∧ t = s.record i t.world := by
  obtain ⟨⟨a', w⟩, ran, eq⟩ := Option.map_eq_some_iff.1 h
  cases eq
  have world : (s.record i w).world = w := by
    unfold Ledger.record
    split <;> rfl
  rw [world]
  exact ⟨ran, rfl⟩

theorem record_given (w : World) {g : Given} (mem : g ∈ s.given) : g ∈ (s.record i w).given := by
  unfold Ledger.record
  split
  · exact List.mem_cons_of_mem _ mem
  · exact mem

theorem nextToken_above {w : Worker} (rising : Rising s.given) (kept : Kept s)
    (may : inOrder w.id w.fencingToken s = true) {g : Given} (mem : g ∈ s.given)
    (same : g.worker = w.id) : g.token < WorkerRepository.nextToken w s.world.db := by
  rw [← same] at may
  unfold WorkerRepository.nextToken
  rw [← same]
  rcases inOrder_covers rising kept mem may with presented | ⟨r, row, le⟩
  · cases s.world.db.worker? g.worker with
    | none =>
      dsimp only
      omega
    | some r =>
      dsimp only
      omega
  · rw [row]
    dsimp only
    omega

theorem record_inv {now : Int} {after : World} (step : WorkerStep now s.world after c)
    (may : orderly i c e s = true) (rising : Rising s.given) (kept : Kept s) :
    Rising (s.record i after).given ∧ Kept (s.record i after) := by
  have stays (g : Given) (mem : g ∈ s.given) (held : g.worker ∉ s.lost) :
      ∃ r, after.db.worker? g.worker = some r ∧ g.token ≤ r.fencingToken := by
    obtain ⟨r, row, le⟩ := kept g mem held
    obtain ⟨r', row', later⟩ := step.token_stays row
    exact ⟨r', row', Int.le_trans le later⟩
  unfold Ledger.record
  obtain none | ⟨w, rfl, done, new⟩ := granted_step (i := i) step
  · rw [none]
    exact ⟨rising, stays⟩
  · have above {g : Given} (mem : g ∈ s.given) (same : g.worker = w.id) :=
      nextToken_above rising kept may mem same
    obtain ⟨n, row⟩ := done.row
    rw [new]
    refine ⟨List.pairwise_cons.2 ⟨fun g mem same => above mem same.symm, rising⟩, ?_⟩
    intro g mem held
    by_cases own : g.worker = w.id
    · refine ⟨_, own ▸ row, ?_⟩
      rcases List.mem_cons.1 mem with rfl | old
      · exact Int.le_refl _
      · exact Int.le_of_lt (above old own)
    · have old : g ∈ s.given := (List.mem_cons.1 mem).resolve_left fun eq => own (congrArg _ eq)
      exact stays g old fun lost => held (List.mem_filter.2 ⟨lost, by simpa using own⟩)

theorem exec_inv {a : c.Answer} (lawful : Lawful c) (may : orderly i c e s = true)
    (rising : Rising s.given) (kept : Kept s) (h : exec i c e s = some (a, t)) :
    Rising t.given ∧ Kept t := by
  obtain ⟨ran, recorded⟩ := exec_ledger h
  have world : t.world = (answer c e s.world).2 := congrArg Prod.snd (exec_eq_some ran)
  have step := answer_workers lawful e s.world
  rw [← world] at step
  rw [recorded]
  exact record_inv step may rising kept

end Steps

def ledgerSpec : Spec Call Env Regression Ledger where
  -- the programs keep to lawful calls, and the registrations only rise
  Inv s := Targets s.world.db ∧ Rising s.given ∧ Kept s
  Evolves s t := ∀ g ∈ s.given, g ∈ t.given
  Keeps _ _ _ := True
  Pre _ c _ := Lawful c
  Cond i c e s := orderly i c e s = true
  Out _ _ := True

theorem ledgerSpec_sound : ledgerSpec.Sound exec where
  evolves_refl _ _ mem := mem
  evolves_trans h k g mem := k g (h g mem)
  keeps_refl _ _ := trivial
  keeps_trans _ _ := trivial
  step {i c e s a t} inv lawful may ran := by
    have given := exec_inv lawful may inv.2.1 inv.2.2 ran
    obtain ⟨done, recorded⟩ := exec_ledger ran
    have world : t.world = (answer c e s.world).2 := congrArg Prod.snd (exec_eq_some done)
    refine ⟨⟨?_, given⟩, fun g mem => ?_, fun _ _ => trivial⟩
    · rw [world]
      exact targets_answer lawful inv.1
    · rw [recorded]
      exact record_given t.world mem

def Answers (i : Nat) : Kind → Outcome → Ledger → Prop
  -- a registration that is answered with a token was committed with it
  | .registerWorker req, .registered (.ok token), s =>
    trimSpace req.workerID ≠ "" ∧ ⟨i, trimSpace req.workerID, token⟩ ∈ s.given
  | .registerWorker _, .registered (.error _), _ => True
  | .registerWorker _, _, _ => False
  | _, _, _ => True

section Programs
variable {i : Nat} {s : Ledger}

theorem wp_ask {α : Type} {Q : α → Ledger → Prop} {c : Call} {f : c.Answer → Job α}
    (lawful : Lawful c) (next : ∀ t e a u, exec i c e t = some (a, u) →
      WP exec ledgerSpec i Q (f a) u) :
    WP exec ledgerSpec i Q (ask c >>= f) s :=
  .call (fun _ _ _ => lawful) fun t e a u _ _ _ ran _ => next t e a u ran

theorem registerWorker_answers {req : WorkerHeartbeat} :
    WP exec ledgerSpec i (fun r t => ∀ token, r = .ok token → trimSpace req.workerID ≠ "" ∧
      ⟨i, trimSpace req.workerID, token⟩ ∈ t.given) (EventGRPCServer.registerWorker req) s := by
  unfold EventGRPCServer.registerWorker
  split
  · exact .ret nofun
  rename_i named
  refine wp_ask trivial fun t e clock u _ => wp_ask trivial fun t e r u ran => ?_
  obtain err | registered := r
  · exact .ret nofun
  refine .ret ?_
  rintro token ⟨⟩
  obtain ⟨done, recorded⟩ := exec_ledger ran
  have answered := (exec_eq_some done).symm
  simp only [answer, statement] at answered
  have committed := faulty_ok answered
  unfold registerStep at committed
  split at committed
  · obtain ⟨same, world⟩ := Prod.mk.inj committed
    cases Except.ok.inj same
    refine ⟨named, ?_⟩
    rw [recorded, ← world]
    simp [Ledger.record, granted, EventGRPCServer.workerFromHeartbeat]
  · cases committed

theorem regress_cases {x : Regression} {t : Ledger} (h : regress x s = some t) :
    ∃ id, t.lost = id :: s.lost ∧ t.given = s.given ∧ t.world.db.jobs = s.world.db.jobs ∧
      ∀ k, k ≠ id → t.world.db.worker? k = s.world.db.worker? k := by
  cases x with
  | setBack id token =>
    simp only [regress] at h
    split at h
    · cases h
      exact ⟨id, rfl, rfl, rfl, fun k other => by simp [other]⟩
    · cases h
  | deleteRow id =>
    cases h
    exact ⟨id, rfl, rfl, rfl, fun k other => (Table.get?_erase ..).trans (if_neg other)⟩

theorem disciplined : system.Disciplined ledgerSpec Answers where
  sound := ledgerSpec_sound
  start i k s t inv started := by
    simp only [system] at started
    split at started
    · rename_i on
      cases started
      refine ⟨inv, fun _ mem => mem, fun _ _ => trivial, ?_⟩
      have lawful : WP exec ledgerSpec i (fun _ _ => True) (body k) s :=
        WP.of_asks ledgerSpec_sound (fun _ _ _ _ => trivial) (fun _ _ lawful _ _ => lawful)
          (fun _ _ _ _ _ ran => exec_answered (i := i) (exec_ledger ran).1) (body_lawful inv.1 on)
          trivial
      cases k with
      | registerWorker req =>
        refine registerWorker_answers.bind fun r t told => .ret ?_
        cases r with
        | error err => trivial
        | ok token => exact told token rfl
      | _ => exact lawful
    · cases started
  ext x s t inv _ done := by
    obtain ⟨id, lost, given, jobs, others⟩ := regress_cases done
    refine ⟨⟨fun id target mem => inv.1 id target (jobs ▸ mem), given ▸ inv.2.1, ?_⟩,
      fun g mem => given ▸ mem, fun _ => trivial⟩
    intro g mem held
    rw [lost, List.mem_cons, not_or] at held
    rw [others g.worker held.1]
    exact inv.2.2 g (given ▸ mem) held.2

end Programs

abbrev Orderly : FleetOf Ledger → FleetOf Ledger → Prop :=
  ReachesWhen system orderly fun _ _ => true

section Fleets
variable {f g : FleetOf Ledger}

theorem orderly_orchestrator (h : Orderly f g) :
    system.ReachesIf ledgerSpec.Cond ledgerSpec.Out f.orchestrator g.orchestrator := by
  induction h with
  | refl => exact .refl
  | tail _ last ih =>
    obtain ⟨a, met, step⟩ := last
    obtain same | ⟨b, ran, meets⟩ := (stepIn_moves step).1
    · rw [same]
      exact ih
    · refine ih.tail ⟨b, ?_, ran⟩
      have may := System.meets_iff.1 (meets _ _ met)
      cases b with
      | ext x => trivial
      | _ => exact may

theorem initial_inv : ledgerSpec.Inv initial.orchestrator.shared :=
  ⟨fun _ _ mem => (nomatch mem), .nil, fun _ mem => (nomatch mem)⟩

theorem orderly_safe (h : Orderly initial f) : system.Safe ledgerSpec Answers f.orchestrator :=
  (System.safe_reachesIf disciplined (System.safe_init initial_inv) (orderly_orchestrator h)).1

def isRegistering : Phase → Bool
  | .registering _ _ => true
  | _ => false

/-- What a process was given came to it through a thread of its own. -/
structure Owned (o : Config Kind Call Outcome Ledger Call.Answer)
    (owner : Nat → Option Nat) (n : Nat) (p : Process) : Prop where
  named : p.worker.fencingToken ≠ 0 → p.worker.id ≠ ""
  held : p.worker.fencingToken ≠ 0 → ∃ j, owner j = some n ∧
    ⟨j, trimSpace p.worker.id, p.worker.fencingToken⟩ ∈ o.shared.given
  asked : ∀ hb handler, p.phase = .registering hb handler → hb.workerID = p.worker.id ∧
    ∀ j, handler = some j → owner j = some n ∧ ∀ th, o.threads j = some th →
    th.kind = .registerWorker hb

structure Ownership (f : FleetOf Ledger) (owner : Nat → Option Nat) : Prop where
  started : ∀ j n, owner j = some n → System.Started f.orchestrator j
  owned : ∀ n p, f.processes n = some p → Owned f.orchestrator owner n p

theorem Owned.mono {o : Config Kind Call Outcome Ledger Call.Answer}
    {owner owner' : Nat → Option Nat} {n : Nat} {p : Process} (h : Owned o owner n p)
    (more : ∀ j m, owner j = some m → owner' j = some m) : Owned o owner' n p where
  named := h.named
  held some_token := by
    obtain ⟨j, mine, given⟩ := h.held some_token
    exact ⟨j, more j n mine, given⟩
  asked hb handler phase := by
    obtain ⟨same, known⟩ := h.asked hb handler phase
    exact ⟨same, fun j waiting => ⟨more j n (known j waiting).1, (known j waiting).2⟩⟩

theorem Owned.step {o o' : Config Kind Call Outcome Ledger Call.Answer} {owner : Nat → Option Nat}
    {n : Nat} {p : Process} (h : Owned o owner n p) {b : Action Kind Env Regression}
    (moved : system.step o b = some o') (grows : ∀ g ∈ o.shared.given, g ∈ o'.shared.given)
    (started : ∀ j m, owner j = some m → System.Started o j) : Owned o' owner n p where
  named := h.named
  held some_token := by
    obtain ⟨j, mine, given⟩ := h.held some_token
    exact ⟨j, mine, grows _ given⟩
  asked hb handler phase := by
    obtain ⟨same, known⟩ := h.asked hb handler phase
    refine ⟨same, fun j waiting => ?_⟩
    obtain ⟨mine, kind⟩ := known j waiting
    exact ⟨mine, System.kind_step (started j n mine) moved kind⟩

theorem Owned.moves {o o' : Config Kind Call Outcome Ledger Call.Answer} {owner : Nat → Option Nat}
    {n : Nat} {p q : Process} (before : Owned o owner n p) (h : Owned o' owner n p)
    (move : MovesIn system o o' p q)
    (fresh : ∀ hb, system.step o (.spawn (.registerWorker hb)) = some o' → owner o.next = some n)
    (results : ∀ j hb token, o.threads j = some ⟨.registerWorker hb,
      .ret (.registered (.ok token))⟩ →
      trimSpace hb.workerID ≠ "" ∧ ⟨j, trimSpace hb.workerID, token⟩ ∈ o'.shared.given) :
    Owned o' owner n q := by
  have still (r : Bool) (phase : Phase) (quiet : isRegistering phase = false) :
      Owned o' owner n ⟨p.worker, r, phase⟩ := by
    refine ⟨h.named, h.held, fun hb handler eq => ?_⟩
    cases eq
    cases quiet
  cases move with
  | same => exact h
  | @began w r host =>
    unfold Process.begin
    split
    · exact h
    · rename_i hostname _
      have id (some_token : w.fencingToken ≠ 0) : (Process.refresh host hostname w).id = w.id :=
        if_neg (h.named some_token)
      refine ⟨fun t => ?_, fun t => ?_, fun hb handler eq => ?_⟩
      · rw [id t]
        exact h.named t
      · rw [id t]
        exact h.held t
      · dsimp only at eq
        split at eq
        · cases eq
          exact ⟨rfl, by simp⟩
        · cases eq
  | @sentRegistration w r hb sent =>
    refine ⟨h.named, h.held, ?_⟩
    rintro _ _ ⟨⟩
    refine ⟨(h.asked hb none rfl).1, ?_⟩
    rintro j ⟨⟩
    refine ⟨fresh hb sent, fun th found => ?_⟩
    cases (System.spawned sent).2.symm.trans found
    rfl
  | sentReport sent => exact still _ _ rfl
  | @gotRegistration w r hb j k a host done =>
    cases a with
    | error err => exact still _ _ rfl
    | ok token =>
      simp only [Process.registered]
      split
      · exact still _ _ rfl
      · obtain ⟨same, known⟩ := before.asked hb j rfl
        obtain ⟨mine, kind⟩ := known j rfl
        obtain rfl : k = .registerWorker hb := kind _ done
        obtain ⟨named, given⟩ := results j hb token done
        have same : hb.workerID = w.id := same
        rw [same] at named given
        refine ⟨fun _ blank => named ?_, fun _ => ⟨j, mine, given⟩, fun _ _ eq => (by cases eq)⟩
        have blank : w.id = "" := blank
        rw [blank]
        decide
  | @gotReport w r hb j k a done =>
    cases a with
    | error err => exact still _ _ rfl
    | ok _ => exact still _ _ rfl
  | lostRegistration host err => exact still _ _ rfl
  | lostReport other => exact still _ _ rfl
  | crashed => exact still _ _ rfl

theorem returned_given (h : Orderly initial f) {j : Nat} {hb : WorkerHeartbeat} {token : Int}
    (done : f.orchestrator.threads j = some ⟨.registerWorker hb, .ret (.registered (.ok token))⟩) :
    trimSpace hb.workerID ≠ "" ∧ ⟨j, trimSpace hb.workerID, token⟩ ∈
      f.orchestrator.shared.given := by
  obtain ⟨w, grows, named, given⟩ :=
    System.safe_results disciplined initial_inv (orderly_orchestrator h) done
  exact ⟨named, grows _ given⟩

theorem step_ownership {owner : Nat → Option Nat} {a : EventOf Regression}
    (reached : Orderly initial f) (own : Ownership f owner)
    (met : f.meets orderly (fun _ _ => true) a = true)
    (step : f.stepIn system a = some g) : ∃ owner, Ownership g owner := by
  obtain ⟨moved, kept, new⟩ := stepIn_moves step
  obtain ⟨n, others⟩ := stepIn_one step
  have grows : ∀ x ∈ f.orchestrator.shared.given, x ∈ g.orchestrator.shared.given := by
    have later : Orderly f g := .single ⟨a, met, step⟩
    exact (System.safe_reachesIf disciplined (orderly_safe reached) (orderly_orchestrator later)).2
  have carried (m : Nat) (p : Process) (h : Owned f.orchestrator owner m p) :
      Owned g.orchestrator owner m p := by
    obtain same | ⟨b, ran, -⟩ := moved
    · rw [same]
      exact h
    · exact h.step ran grows own.started
  have started (j m : Nat) (mine : owner j = some m) : System.Started g.orchestrator j := by
    obtain same | ⟨b, ran, -⟩ := moved
    · rw [same]
      exact own.started j m mine
    · exact System.started_step (own.started j m mine) ran
  -- a thread that starts in this step belongs to the process that moves
  let owner' (j : Nat) : Option Nat :=
    if j = f.orchestrator.next ∧ j < g.orchestrator.next then some n else owner j
  have more (j m : Nat) (mine : owner j = some m) : owner' j = some m := by
    have old : j ≠ f.orchestrator.next := Nat.ne_of_lt (own.started j m mine)
    exact (if_neg fun both => old both.1).trans mine
  refine ⟨owner', fun j m mine => ?_, fun m q found => ?_⟩
  · simp only [owner'] at mine
    split at mine
    · rename_i both
      exact both.2
    · exact started j m mine
  · by_cases moves : m = n
    · subst moves
      cases before : f.processes m with
      | none =>
        obtain ⟨-, idle, zero⟩ := new m q before found
        refine ⟨fun some_token => absurd zero some_token, fun some_token => absurd zero some_token,
          fun hb handler phase => ?_⟩
        cases idle.symm.trans phase
      | some p =>
        obtain ⟨q', found', move⟩ := kept m p before
        cases found'.symm.trans found
        have held := own.owned m p before
        refine (held.mono more).moves ((carried m p held).mono more) move (fun hb sent => ?_)
          fun j hb token done => ?_
        · exact if_pos ⟨rfl, (System.spawned sent).1⟩
        · obtain ⟨named, given⟩ := returned_given reached done
          exact ⟨named, grows _ given⟩
    · rw [others m moves] at found
      exact (carried m q (own.owned m q found)).mono more

theorem orderly_ownership (h : Orderly initial f) : ∃ owner, Ownership f owner := by
  induction h with
  | refl => exact ⟨fun _ => none, nofun, fun _ _ found => nomatch found⟩
  | tail before last ih =>
    obtain ⟨a, met, step⟩ := last
    obtain ⟨owner, own⟩ := ih
    exact step_ownership before own met step

theorem behind_changes_nothing (h : Orderly initial f) {i : Nat} {e : Env} {k : Kind} {c : Call}
    {next : c.Answer → Job Outcome} {workerID : WorkerID} {token : Int}
    (thread : f.orchestrator.threads i = some ⟨k, .call c next⟩)
    (carried : k.carries = some (workerID, token)) {x : Given}
    (mem : x ∈ f.orchestrator.shared.given) (same : x.worker = workerID) (behind : token < x.token)
    (held : workerID ∉ f.orchestrator.shared.lost) :
    (answer c e f.orchestrator.shared.world).2.db = f.orchestrator.shared.world.db := by
  by_contra changed
  have asking := System.asking_reaches (S := system)
    (fun i _ _ _ _ _ ran => exec_answered (i := i) (exec_ledger ran).1) body_carrying
    (System.ReachesIf.reaches (orderly_orchestrator h))
  have carries := asking.call thread _ _ carried
  subst same
  obtain ⟨r, row, current⟩ := (Option.any_eq_true _ _).1 (change_matches carries changed)
  have current : r.fencingToken = token := of_decide_eq_true current
  obtain ⟨r', row', le⟩ := (orderly_safe h).inv.2.2 x mem held
  cases row.symm.trans row'
  omega

/-- With regressions of the database at any moment, as long as the process that was
given a worker's last token is the first to register after one: a registration is
given a token above every token its worker was given before, and is answered with
that token; no two processes of one worker hold the same token; and a request with
a token below one that was given changes nothing, but between a regression and that
registration. -/
theorem tokens_fresh_across_regressions (h : Orderly initial f) :
    (∀ a g x, f.meets orderly (fun _ _ => true) a = true → f.stepIn system a = some g →
      g.orchestrator.shared.given = x :: f.orchestrator.shared.given →
      ∀ y ∈ f.orchestrator.shared.given, y.worker = x.worker → y.token < x.token) ∧
    (∀ j req token, f.orchestrator.threads j =
        some ⟨.registerWorker req, .ret (.registered (.ok token))⟩ →
      ⟨j, trimSpace req.workerID, token⟩ ∈ f.orchestrator.shared.given) ∧
    (∀ n m p q, f.processes n = some p → f.processes m = some q → n ≠ m →
      trimSpace p.worker.id = trimSpace q.worker.id → p.worker.fencingToken ≠ 0 →
      p.worker.fencingToken ≠ q.worker.fencingToken) ∧
    ∀ i e k c next workerID token x, f.orchestrator.threads i = some ⟨k, .call c next⟩ →
      k.carries = some (workerID, token) → x ∈ f.orchestrator.shared.given →
      x.worker = workerID → token < x.token → workerID ∉ f.orchestrator.shared.lost →
      (answer c e f.orchestrator.shared.world).2.db = f.orchestrator.shared.world.db := by
  refine ⟨fun a g x met step new y mem same => ?_, fun j req token done =>
    (returned_given h done).2, fun n m p q hp hq other worker some_token same => ?_,
    fun i e k c next workerID token x thread carried mem same behind held =>
      behind_changes_nothing h thread carried mem same behind held⟩
  · have rising := (orderly_safe (h.tail ⟨a, met, step⟩)).inv.2.1
    rw [new] at rising
    exact (List.pairwise_cons.1 rising).1 y mem same.symm
  · obtain ⟨owner, own⟩ := orderly_ownership h
    obtain ⟨j, mine, given⟩ := (own.owned n p hp).held some_token
    obtain ⟨j', theirs, given'⟩ := (own.owned m q hq).held (same ▸ some_token)
    have one := (orderly_safe h).inv.2.1.eq given given' worker same
    have thread : j = j' := congrArg Given.thread one
    subst thread
    exact other (Option.some.inj (mine.symm.trans theirs))

end Fleets

def takenOver : List (EventOf Regression) :=
  [.launch 0 ⟨⟨.active, "10.0.0.1", 1, 50051, 1, 1024, 0, 0, 0, 0⟩, "worker-1"⟩,
    .begin 0 { hostname := some "host" }, .deliver 0, .orchestrator (.call 0 {}),
    .orchestrator (.call 0 {}), .answered 0 {},
    .launch 1 ⟨⟨.active, "10.0.0.1", 1, 50051, 1, 1024, 0, 0, 0, 0⟩, "worker-1"⟩,
    .begin 1 { hostname := some "host" }, .deliver 1, .orchestrator (.call 1 {}),
    .orchestrator (.call 1 {}), .answered 1 {}, .orchestrator (.ext (.deleteRow "worker-1"))]

def heldRegisters : List (EventOf Regression) :=
  -- its report is answered NotFound, so it registers once more with its token
  [.deliver 1, .orchestrator (.call 2 {}), .orchestrator (.call 2 {}), .orchestrator (.call 2 {}),
    .answered 1 {}, .begin 1 { hostname := some "host" }, .deliver 1, .orchestrator (.call 3 {}),
    .orchestrator (.call 3 {}), .answered 1 {}]

def freshRegisters : List (EventOf Regression) :=
  -- a third process starts afresh and registers first
  [.launch 2 ⟨⟨.active, "10.0.0.1", 1, 50051, 1, 1024, 0, 0, 0, 0⟩, "worker-1"⟩,
    .begin 2 { hostname := some "host" }, .deliver 2, .orchestrator (.call 2 {}),
    .orchestrator (.call 2 {}), .answered 2 {}]

def holds (f : FleetOf Ledger) (n : Nat) : Option (String × Int) :=
  (f.processes n).map fun p => (p.worker.id, p.worker.fencingToken)

theorem tokens_fresh_across_regressions_held : ∃ f p q, Orderly initial f ∧
    f.processes 0 = some p ∧ f.processes 1 = some q ∧ p.worker.id = q.worker.id ∧
    p.worker.fencingToken ≠ q.worker.fencingToken := by
  have run : (initial.runIf system orderly (fun _ _ => true) (takenOver ++ heldRegisters)).map
      (fun f => (holds f 0, holds f 1)) = some (some ("worker-1", 1), some ("worker-1", 3)) := by
    decide +kernel
  simp only [Option.map_eq_some_iff, Prod.mk.injEq, holds] at run
  obtain ⟨f, hf, ⟨p, hp, name, token⟩, q, hq, name', token'⟩ := run
  have reached := reachesWhen_of_runIf hf
  refine ⟨f, p, q, reached, hp, hq, name.trans name'.symm, ?_⟩
  refine (tokens_fresh_across_regressions reached).2.2.1 0 1 p q hp hq (by decide) ?_ ?_
  · rw [name, name']
  · rw [token]
    decide

theorem token_given_twice : ∃ f p q, ReachesIn system initial f ∧ f.processes 0 = some p ∧
    f.processes 2 = some q ∧ p.worker.id = q.worker.id ∧ q.needsRegister = false ∧
    p.worker.fencingToken = q.worker.fencingToken := by
  -- the third process is given the token of the first
  have run : (initial.runIn system (takenOver ++ freshRegisters)).map
      (fun f => ((f.processes 0).map fun p => (p.worker.id, p.worker.fencingToken),
        (f.processes 2).map fun p => (p.worker.id, p.needsRegister, p.worker.fencingToken))) =
      some (some ("worker-1", 1), some ("worker-1", false, 1)) := by
    decide +kernel
  simp only [Option.map_eq_some_iff, Prod.mk.injEq] at run
  obtain ⟨f, hf, ⟨p, hp, name, token⟩, q, hq, name', registered, token'⟩ := run
  exact ⟨f, p, q, reachesIn_of_run hf, hp, hq, name.trans name'.symm, registered,
    token.trans token'.symm⟩

end Fire2.Regressions
