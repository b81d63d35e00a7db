import Fire2.Budgets
import Fire2.Fencing

/-! Worker processes. Any number of them, also several with one worker ID, run
UpdateWorker against the orchestrator. A request may reach it late or never,
and the process may stop waiting for the answer at any time; a request that
arrives after its process gave up is one of the requests the orchestrator
receives from anywhere. NotFound is only ever the orchestrator's own answer. -/

namespace Fire2.Processes
open Interleaving Orchestrator

def toInt32 (n : Int) : Int := (n + 2 ^ 31) % 2 ^ 32 - 2 ^ 31

/-- What UpdateWorker reads from its host and from the manager. -/
structure Host where
  cpuUsage : Int := 0
  memUsage : Int := 0
  address : Option String := none
  hostname : Option String := none
  numCPU : Int := 1
  memBudget : Int := 0
  maxSandboxes : String := ""
  clock : Int := 0
  snapshot : List InventoryEntry := []

/-- Where a process stands: between two UpdateWorker calls, or in one of its
two requests, whose handler is a thread of the orchestrator once it arrived. -/
inductive Phase where
  | idle
  | registering (heartbeat : WorkerHeartbeat) (handler : Option Nat)
  | reporting (heartbeat : WorkerHeartbeat) (handler : Option Nat)
  | crashed

structure Process where
  worker : Worker
  needsRegister : Bool
  phase : Phase

namespace Process

def refresh (host : Host) (hostname : String) (w : Worker) : Worker :=
  -- the part of UpdateWorker under the lock
  let cpuBudget := if w.cpuBudget ≤ 0 then max host.numCPU 1 else w.cpuBudget
  let memBudget := if w.memBudget ≤ 0 then host.memBudget else w.memBudget
  { w with
    id := if w.id = "" then hostname else w.id
    cpuBudget, memBudget
    address := if w.address = "" then host.address.getD "127.0.0.1" else w.address
    capacity := (computeCapacity host.maxSandboxes (.ofInt cpuBudget) (.ofInt memBudget)).toInt
    cpuUsage := host.cpuUsage
    memUsage := host.memUsage
    status := .active
    lastHeartbeat := host.clock / 1000 }

def heartbeat (w : Worker) : WorkerHeartbeat where
  workerID := w.id
  status := "active"
  address := w.address
  port := toInt32 w.port
  capacity := toInt32 w.capacity
  cpuBudget := toInt32 w.cpuBudget
  memBudget := toInt32 w.memBudget
  cpuUsage := toInt32 w.cpuUsage
  memUsage := toInt32 w.memUsage
  fencingToken := w.fencingToken
  inventoryComplete := false
  sandboxes := []

def report (hb : WorkerHeartbeat) (host : Host) : Phase :=
  .reporting { hb with sandboxes := host.snapshot, inventoryComplete := true } none

def begin (p : Process) (host : Host) : Process :=
  -- UpdateWorker up to its first request
  match host.hostname with
  | none => p
  | some hostname =>
    let w := refresh host hostname p.worker
    let hb := heartbeat w
    { p with
      worker := w
      phase := if p.needsRegister then .registering hb none else report hb host }

def registered (p : Process) (hb : WorkerHeartbeat) (host : Host) (answer : Except Err Int) :
    Process :=
  -- from the answer of RegisterWorker to the report
  match answer with
  | .error _ => { p with phase := .idle }
  | .ok token =>
    if token ≤ 0 then { p with phase := .idle }
    else
      { worker := { p.worker with fencingToken := token }
        needsRegister := false
        phase := report { hb with fencingToken := token } host }

def reported (p : Process) (answer : Except Err Unit) : Process :=
  -- from the answer of ReportWorkerHeartbeat to the end
  match answer with
  | .error err =>
    { p with needsRegister := p.needsRegister || err.code = .notFound, phase := .idle }
  | .ok _ => { p with phase := .idle }

end Process

/-- An orchestrator whose programs share a state `σ`, and the processes. -/
structure FleetOf (σ : Type) where
  orchestrator : Config Kind Call Outcome σ Call.Answer
  processes : Nat → Option Process

abbrev Fleet := FleetOf World

def initial : Fleet := ⟨Orchestrator.initial, fun _ => none⟩

inductive EventOf (X : Type) where
  | orchestrator (a : Action Kind Env X)
  | launch (n : Nat) (w : Worker)
  | begin (n : Nat) (host : Host)
  | deliver (n : Nat)
  | answered (n : Nat) (host : Host)
  | lost (n : Nat) (host : Host) (code : Code) (text : String)
  | crash (n : Nat)

abbrev Event := EventOf Empty

def FleetOf.set {σ : Type} (f : FleetOf σ) (n : Nat) (p : Process) : FleetOf σ :=
  { f with processes := Function.update f.processes n (some p) }

def Process.receive (p : Process) (host : Host) : Outcome → Option Process
  -- a process that gets its answer, or gives up with an error
  | .registered a =>
    match p.phase with
    | .registering hb _ => some (p.registered hb host a)
    | _ => none
  | .grpc a =>
    match p.phase with
    | .reporting _ _ => some (p.reported a)
    | _ => none
  | _ => none

def Phase.handler? : Phase → Option Nat
  | .registering _ handler | .reporting _ handler => handler
  | _ => none

def Process.underway (p : Process) : Option Kind :=
  match p.phase with
  | .registering hb none => some (.registerWorker hb)
  | .reporting hb none => some (.reportHeartbeat hb)
  | _ => none

section Steps
variable {σ X : Type}

def FleetOf.stepIn (S : System Kind Call Env X Outcome σ Call.Answer) (f : FleetOf σ) :
    EventOf X → Option (FleetOf σ)
  | .orchestrator a => (S.step f.orchestrator a).map fun o => { f with orchestrator := o }
  | .launch n w =>
    match f.processes n with
    | none => some (f.set n ⟨{ w with fencingToken := 0 }, true, .idle⟩)
    | some _ => none
  | .begin n host =>
    match f.processes n with
    | some ⟨w, r, .idle⟩ => some (f.set n (Process.begin ⟨w, r, .idle⟩ host))
    | _ => none
  | .deliver n =>
    match f.processes n with
    | some ⟨w, r, .registering hb none⟩ =>
      (S.step f.orchestrator (.spawn (.registerWorker hb))).map fun o =>
        ({ f with orchestrator := o } : FleetOf σ).set n ⟨w, r, .registering hb f.orchestrator.next⟩
    | some ⟨w, r, .reporting hb none⟩ =>
      (S.step f.orchestrator (.spawn (.reportHeartbeat hb))).map fun o =>
        ({ f with orchestrator := o } : FleetOf σ).set n ⟨w, r, .reporting hb f.orchestrator.next⟩
    | _ => none
  | .answered n host => do
    let p ← f.processes n
    let j ← p.phase.handler?
    match f.orchestrator.threads j with
    | some ⟨_, .ret a⟩ => (p.receive host a).map (f.set n)
    | _ => none
  | .lost n host code text =>
    if code = .notFound then none
    else
      match f.processes n with
      | some ⟨w, r, .registering hb h⟩ =>
        some (f.set n (Process.registered ⟨w, r, .registering hb h⟩ hb host
          (.error (.rpc code text))))
      | some ⟨w, r, .reporting hb h⟩ =>
        some (f.set n (Process.reported ⟨w, r, .reporting hb h⟩ (.error (.rpc code text))))
      | _ => none
  | .crash n => (f.processes n).map fun p => f.set n { p with phase := .crashed }

def ReachesIn (S : System Kind Call Env X Outcome σ Call.Answer) : FleetOf σ → FleetOf σ → Prop :=
  Relation.ReflTransGen fun f g => ∃ a, f.stepIn S a = some g

def FleetOf.runIn (S : System Kind Call Env X Outcome σ Call.Answer) (f : FleetOf σ) :
    List (EventOf X) → Option (FleetOf σ)
  | [] => some f
  | a :: as => (f.stepIn S a).bind fun g => g.runIn S as

theorem reachesIn_of_run {S : System Kind Call Env X Outcome σ Call.Answer} {f g : FleetOf σ}
    {as : List (EventOf X)} (h : f.runIn S as = some g) : ReachesIn S f g := by
  induction as generalizing f with
  | nil =>
    cases h
    exact .refl
  | cons a as ih =>
    obtain ⟨f', step, rest⟩ := Option.bind_eq_some_iff.1 h
    exact .head ⟨a, step⟩ (ih rest)

/-- What conditions on the orchestrator's calls and external steps say of an
event. -/
def FleetOf.meets (p : Nat → Call → Env → σ → Bool) (r : X → σ → Bool) (f : FleetOf σ) :
    EventOf X → Bool
  | .orchestrator a => System.meets p r f.orchestrator a
  | _ => true

def FleetOf.runIf (S : System Kind Call Env X Outcome σ Call.Answer)
    (p : Nat → Call → Env → σ → Bool) (r : X → σ → Bool) (f : FleetOf σ) :
    List (EventOf X) → Option (FleetOf σ)
  | [] => some f
  | a :: as => if f.meets p r a then (f.stepIn S a).bind fun g => g.runIf S p r as else none

def ReachesWhen (S : System Kind Call Env X Outcome σ Call.Answer)
    (p : Nat → Call → Env → σ → Bool) (r : X → σ → Bool) : FleetOf σ → FleetOf σ → Prop :=
  Relation.ReflTransGen fun f g => ∃ a, f.meets p r a = true ∧ f.stepIn S a = some g

theorem reachesWhen_of_runIf {S : System Kind Call Env X Outcome σ Call.Answer}
    {p : Nat → Call → Env → σ → Bool} {r : X → σ → Bool} {f g : FleetOf σ}
    {as : List (EventOf X)} (h : f.runIf S p r as = some g) : ReachesWhen S p r f g := by
  induction as generalizing f with
  | nil =>
    cases h
    exact .refl
  | cons a as ih =>
    simp only [FleetOf.runIf] at h
    split at h
    · rename_i met
      obtain ⟨f', step, rest⟩ := Option.bind_eq_some_iff.1 h
      exact .head ⟨a, met, step⟩ (ih rest)
    · cases h

end Steps

def Fleet.step (f : Fleet) (a : Event) : Option Fleet := f.stepIn system a

def Reaches : Fleet → Fleet → Prop := ReachesIn system

def Fleet.run (f : Fleet) (as : List Event) : Option Fleet := f.runIn system as

inductive MovesIn {σ X : Type} (S : System Kind Call Env X Outcome σ Call.Answer)
    (o o' : Config Kind Call Outcome σ Call.Answer) : Process → Process → Prop
  | same (p : Process) : MovesIn S o o' p p
  | began {w : Worker} {r : Bool} (host : Host) :
      MovesIn S o o' ⟨w, r, .idle⟩ (Process.begin ⟨w, r, .idle⟩ host)
  | sentRegistration {w : Worker} {r : Bool} {hb : WorkerHeartbeat}
      (h : S.step o (.spawn (.registerWorker hb)) = some o') :
      MovesIn S o o' ⟨w, r, .registering hb none⟩ ⟨w, r, .registering hb o.next⟩
  | sentReport {w : Worker} {r : Bool} {hb : WorkerHeartbeat}
      (h : S.step o (.spawn (.reportHeartbeat hb)) = some o') :
      MovesIn S o o' ⟨w, r, .reporting hb none⟩ ⟨w, r, .reporting hb o.next⟩
  | gotRegistration {w : Worker} {r : Bool} {hb : WorkerHeartbeat} {j : Nat} {k : Kind}
      {a : Except Err Int} (host : Host)
      (h : o.threads j = some ⟨k, .ret (.registered a)⟩) :
      MovesIn S o o' ⟨w, r, .registering hb j⟩
      (Process.registered ⟨w, r, .registering hb j⟩ hb host a)
  | gotReport {w : Worker} {r : Bool} {hb : WorkerHeartbeat} {j : Nat} {k : Kind}
      {a : Except Err Unit} (h : o.threads j = some ⟨k, .ret (.grpc a)⟩) :
      MovesIn S o o' ⟨w, r, .reporting hb j⟩ (Process.reported ⟨w, r, .reporting hb j⟩ a)
  | lostRegistration {w : Worker} {r : Bool} {hb : WorkerHeartbeat} {h : Option Nat} (host : Host)
      (err : Err) : MovesIn S o o' ⟨w, r, .registering hb h⟩
        (Process.registered ⟨w, r, .registering hb h⟩ hb host (.error err))
  | lostReport {w : Worker} {r : Bool} {hb : WorkerHeartbeat} {h : Option Nat} {err : Err}
      (other : err.code ≠ .notFound) : MovesIn S o o' ⟨w, r, .reporting hb h⟩
        (Process.reported ⟨w, r, .reporting hb h⟩ (.error err))
  | crashed (p : Process) : MovesIn S o o' p { p with phase := .crashed }

abbrev Moves (o o' : State) : Process → Process → Prop := MovesIn system o o'

section Moves
variable {σ X : Type} {S : System Kind Call Env X Outcome σ Call.Answer}
  {o o' : Config Kind Call Outcome σ Call.Answer} {f g : FleetOf σ}

def Steps (S : System Kind Call Env X Outcome σ Call.Answer)
    (o o' : Config Kind Call Outcome σ Call.Answer) (before after : Nat → Option Process) : Prop :=
  (∀ n p, before n = some p → ∃ q, after n = some q ∧ MovesIn S o o' p q) ∧
  ∀ n q, before n = none → after n = some q →
    q.needsRegister = true ∧ q.phase = .idle ∧ q.worker.fencingToken = 0

theorem Steps.refl (processes : Nat → Option Process) : Steps S o o' processes processes :=
  ⟨fun _ p found => ⟨p, found, .same p⟩, fun _ _ absent found => nomatch absent.symm.trans found⟩

theorem Steps.set {processes : Nat → Option Process} {n : Nat} {p q : Process}
    (found : processes n = some p) (move : MovesIn S o o' p q) :
    Steps S o o' processes (Function.update processes n (some q)) := by
  refine ⟨fun m p' found' => ?_, fun m q' absent found' => ?_⟩
  · by_cases same : m = n
    · subst same
      cases found.symm.trans found'
      exact ⟨q, Function.update_self _ _ _, move⟩
    · exact ⟨p', (Function.update_of_ne same _ _).trans found', .same p'⟩
  · have other : m ≠ n := by
      rintro rfl
      cases absent.symm.trans found
    rw [Function.update_of_ne other, absent] at found'
    cases found'

theorem receive_moves {p q : Process} {host : Host} {j : Nat} {k : Kind} {a : Outcome}
    (waiting : p.phase.handler? = some j) (done : o.threads j = some ⟨k, .ret a⟩)
    (h : p.receive host a = some q) : MovesIn S o o' p q := by
  obtain ⟨w, r, phase⟩ := p
  cases a with
  | registered a =>
    cases phase with
    | registering hb handler =>
      cases waiting
      cases h
      exact .gotRegistration host done
    | idle => cases h
    | reporting => cases h
    | crashed => cases h
  | grpc a =>
    cases phase with
    | reporting hb handler =>
      cases waiting
      cases h
      exact .gotReport done
    | idle => cases h
    | registering => cases h
    | crashed => cases h
  | http => cases h
  | job => cases h

inductive Acts (S : System Kind Call Env X Outcome σ Call.Answer) (f g : FleetOf σ) :
    EventOf X → Prop
  | alone {b : Action Kind Env X} (ran : S.step f.orchestrator b = some g.orchestrator)
      (same : g.processes = f.processes) : Acts S f g (.orchestrator b)
  | launched {n : Nat} {w : Worker} (absent : f.processes n = none)
      (same : g = f.set n ⟨{ w with fencingToken := 0 }, true, .idle⟩) : Acts S f g (.launch n w)
  | delivered {n : Nat} {p q : Process} {k : Kind} (found : f.processes n = some p)
      (sent : p.underway = some k) (ran : S.step f.orchestrator (.spawn k) = some g.orchestrator)
      (move : MovesIn S f.orchestrator g.orchestrator p q)
      (moved : g.processes = Function.update f.processes n (some q)) : Acts S f g (.deliver n)
  | moved {n : Nat} {a : EventOf X} {p q : Process} (found : f.processes n = some p)
      (move : MovesIn S f.orchestrator g.orchestrator p q) (same : g = f.set n q) : Acts S f g a

theorem stepIn_cases {a : EventOf X} (h : f.stepIn S a = some g) : Acts S f g a := by
  cases a with
  | orchestrator b =>
    obtain ⟨o, ran, rfl⟩ := Option.map_eq_some_iff.1 h
    exact .alone ran rfl
  | launch n w =>
    simp only [FleetOf.stepIn] at h
    split at h
    · rename_i absent
      cases h
      exact .launched absent rfl
    · cases h
  | begin n host =>
    simp only [FleetOf.stepIn] at h
    split at h
    · rename_i found
      cases h
      exact .moved found (.began host) rfl
    · cases h
  | deliver n =>
    simp only [FleetOf.stepIn] at h
    split at h
    · rename_i found
      obtain ⟨o, ran, rfl⟩ := Option.map_eq_some_iff.1 h
      exact .delivered found rfl ran (.sentRegistration ran) rfl
    · rename_i found
      obtain ⟨o, ran, rfl⟩ := Option.map_eq_some_iff.1 h
      exact .delivered found rfl ran (.sentReport ran) rfl
    · cases h
  | answered n host =>
    simp only [FleetOf.stepIn, Option.bind_eq_bind, Option.bind_eq_some_iff] at h
    obtain ⟨p, found, j, waiting, h⟩ := h
    split at h
    · rename_i done
      obtain ⟨q, got, rfl⟩ := Option.map_eq_some_iff.1 h
      exact .moved found (receive_moves waiting done got) rfl
    · cases h
  | lost n host code text =>
    simp only [FleetOf.stepIn] at h
    split at h
    · cases h
    rename_i other
    split at h
    · rename_i found
      cases h
      exact .moved found (.lostRegistration host _) rfl
    · rename_i found
      cases h
      have refused : (Err.rpc code text).code ≠ .notFound := other
      exact .moved found (.lostReport refused) rfl
    · cases h
  | crash n =>
    obtain ⟨p, found, rfl⟩ := Option.map_eq_some_iff.1 h
    exact .moved found (.crashed p) rfl

theorem stepIn_moves {a : EventOf X} (h : f.stepIn S a = some g) :
    (g.orchestrator = f.orchestrator ∨ ∃ b, S.step f.orchestrator b = some g.orchestrator ∧
      ∀ p r, f.meets p r a = true → System.meets p r f.orchestrator b = true) ∧
    Steps S f.orchestrator g.orchestrator f.processes g.processes := by
  cases stepIn_cases h with
  | @alone b ran same => exact ⟨.inr ⟨b, ran, fun _ _ met => met⟩, same ▸ .refl _⟩
  | @launched n w absent same =>
    subst same
    refine ⟨.inl rfl, fun m p found => ⟨p, ?_, .same p⟩, fun m q gone found => ?_⟩
    · refine (Function.update_of_ne ?_ _ _).trans found
      rintro rfl
      cases absent.symm.trans found
    · by_cases same : m = n
      · subst same
        cases (Function.update_self m _ f.processes).symm.trans found
        exact ⟨rfl, rfl, rfl⟩
      · cases gone.symm.trans ((Function.update_of_ne same _ _).symm.trans found)
  | delivered found sent ran move moved =>
    exact ⟨.inr ⟨_, ran, fun _ _ _ => rfl⟩, moved ▸ .set found move⟩
  | moved found move same =>
    subst same
    exact ⟨.inl rfl, .set found move⟩

theorem stepIn_one {a : EventOf X} (h : f.stepIn S a = some g) :
    ∃ n, ∀ m, m ≠ n → g.processes m = f.processes m := by
  cases stepIn_cases h with
  | alone ran same => exact ⟨0, fun m _ => congrFun same m⟩
  | @launched n w absent same =>
    subst same
    exact ⟨n, fun m other => Function.update_of_ne other _ _⟩
  | @delivered n p q k found sent ran move moved =>
    rw [moved]
    exact ⟨n, fun m other => Function.update_of_ne other _ _⟩
  | @moved n a p q found move same =>
    subst same
    exact ⟨n, fun m other => Function.update_of_ne other _ _⟩

end Moves

theorem step_moves {f g : Fleet} {a : Event} (h : f.step a = some g) :
    (g.orchestrator = f.orchestrator ∨ ∃ b, system.step f.orchestrator b = some g.orchestrator) ∧
    Steps system f.orchestrator g.orchestrator f.processes g.processes :=
  ⟨(stepIn_moves h).1.imp_right fun ⟨b, ran, _⟩ => ⟨b, ran⟩, (stepIn_moves h).2⟩

def Held (o : State) (w : Worker) : Prop :=
  -- the worker was registered with the token it holds, or with a later one
  w.id ≠ "" ∧ ∃ n, latestToken (trimSpace w.id) o.shared.log = some n ∧ w.fencingToken ≤ n

structure Watched (arrived o : State) (j : Nat) (k : Kind) : Prop where
  started : System.Started o j
  came : Ages arrived.shared o.shared
  returned : System.Returned tokenSpec (fun _ => Verdict) arrived o j k

def Sane (o : State) (p : Process) : Prop :=
  -- a process that registers holds no token it may use, one that reports holds the token of
  -- its report, and its handlers are those of its requests
  (p.needsRegister = false → Held o p.worker) ∧
  match p.phase with
  | .registering hb handler => p.needsRegister = true ∧ hb.workerID = p.worker.id ∧
    ∀ j, handler = some j → ∃ arrived, Watched arrived o j (.registerWorker hb)
  | .reporting hb handler => p.needsRegister = false ∧ hb.workerID = p.worker.id ∧
    hb.fencingToken = p.worker.fencingToken ∧
    ∀ j, handler = some j → ∃ arrived, Held arrived p.worker ∧
      Watched arrived o j (.reportHeartbeat hb)
  | .idle | .crashed => True

section Sanity
variable {o o' : State} {w : Worker} {p q : Process}

theorem Held.ages (h : Held o w) (ages : Ages o.shared o'.shared) : Held o' w := by
  obtain ⟨named, n, latest, le⟩ := h
  obtain ⟨m, latest', le'⟩ := ages _ n latest
  exact ⟨named, m, latest', Int.le_trans le le'⟩

theorem step_ages (reached : system.Reaches Orchestrator.initial o) {b : Action Kind Env Empty}
    (h : system.step o b = some o') : Ages o.shared o'.shared :=
  (System.safe_step verdict_disciplined (verdict_safe reached)
    (System.meets_of_forall (fun _ _ _ _ => trivial) (fun _ _ => trivial) b) h).2

theorem Watched.step (reached : system.Reaches Orchestrator.initial o) {arrived : State} {j : Nat}
    {k : Kind} (h : Watched arrived o j k) {b : Action Kind Env Empty}
    (moved : system.step o b = some o') : Watched arrived o' j k where
  started := System.started_step h.started moved
  came := h.came.trans (step_ages reached moved)
  returned := System.returned_step verdict_disciplined (verdict_safe reached) h.came h.started
    h.returned (System.meets_of_forall (fun _ _ _ _ => trivial) (fun _ _ => trivial) b) moved

theorem watched_spawn (reached : system.Reaches Orchestrator.initial o) {k : Kind}
    (h : system.step o (.spawn k) = some o') : Watched o' o' o.next k where
  started := (System.spawned h).1
  came := .refl _
  returned := System.returned_spawn verdict_disciplined (verdict_safe reached) h

theorem Sane.step (reached : system.Reaches Orchestrator.initial o) (h : Sane o p)
    {b : Action Kind Env Empty} (moved : system.step o b = some o') : Sane o' p := by
  obtain ⟨held, phase⟩ := h
  refine ⟨fun fresh => (held fresh).ages (step_ages reached moved), ?_⟩
  split
  · rename_i hb handler eq
    simp only [eq] at phase
    refine ⟨phase.1, phase.2.1, fun j waiting => ?_⟩
    obtain ⟨arrived, watched⟩ := phase.2.2 j waiting
    exact ⟨arrived, watched.step reached moved⟩
  · rename_i hb handler eq
    simp only [eq] at phase
    refine ⟨phase.1, phase.2.1, phase.2.2.1, fun j waiting => ?_⟩
    obtain ⟨arrived, held, watched⟩ := phase.2.2.2 j waiting
    exact ⟨arrived, held, watched.step reached moved⟩
  · trivial
  · trivial

theorem registered_held {arrived : State} {hb : WorkerHeartbeat} {j : Nat} {k : Kind} {token : Int}
    (watched : Watched arrived o j (.registerWorker hb))
    (done : o.threads j = some ⟨k, .ret (.registered (.ok token))⟩) (same : hb.workerID = w.id) :
    Held o { w with fencingToken := token } := by
  obtain ⟨rfl, back⟩ := watched.returned _ done
  obtain ⟨v, -, ages, named, n, latest, le⟩ := back _ rfl
  obtain ⟨m, latest', le'⟩ := ages _ n latest
  rw [same] at named latest'
  refine ⟨fun empty => named ?_, m, latest', Int.le_trans le le'⟩
  have blank : w.id = "" := empty
  rw [blank]
  decide

theorem report_known {arrived : State} {hb : WorkerHeartbeat} {j : Nat} {k : Kind} {err : Err}
    (held : Held arrived w) (watched : Watched arrived o j (.reportHeartbeat hb))
    (done : o.threads j = some ⟨k, .ret (.grpc (.error err))⟩) (same : hb.workerID = w.id)
    (token : hb.fencingToken = w.fencingToken) : err.code ≠ .notFound := by
  obtain ⟨rfl, back⟩ := watched.returned _ done
  obtain ⟨v, ages, -, told⟩ := back _ rfl
  obtain ⟨-, n, latest, le⟩ := held
  obtain ⟨m, latest', le'⟩ := ages _ n latest
  rw [← same] at latest'
  have told : Told (trimSpace hb.workerID) hb.fencingToken v (.error err) := told
  cases told with
  | fenced => decide
  | unknown behind =>
    have := behind m latest'
    omega
  | failed text | invalid text h => exact fun eq => nomatch eq

theorem Held.refresh (h : Held o w) (host : Host) (hostname : String) :
    Held o (Process.refresh host hostname w) ∧ (Process.refresh host hostname w).id = w.id := by
  have same : (Process.refresh host hostname w).id = w.id := if_neg h.1
  refine ⟨?_, same⟩
  unfold Held
  rw [same]
  exact h

theorem Sane.moves (reached : system.Reaches Orchestrator.initial o)
    (ages : Ages o.shared o'.shared) (before : Sane o p) (after : Sane o' p)
    (move : Moves o o' p q) : Sane o' q := by
  have idle (w : Worker) (r : Bool) (held : r = false → Held o' w) : Sane o' ⟨w, r, .idle⟩ :=
    ⟨held, trivial⟩
  cases move with
  | same => exact after
  | @began w r host =>
    unfold Process.begin
    split
    · exact after
    · rename_i hostname _
      cases r with
      | true => exact ⟨nofun, rfl, rfl, nofun⟩
      | false =>
        have held := ((after.1 rfl).refresh host hostname).1
        exact ⟨fun _ => held, rfl, rfl, rfl, nofun⟩
  | sentRegistration sent =>
    refine ⟨after.1, after.2.1, after.2.2.1, ?_⟩
    rintro j ⟨⟩
    exact ⟨o', watched_spawn reached sent⟩
  | sentReport sent =>
    refine ⟨after.1, after.2.1, after.2.2.1, after.2.2.2.1, ?_⟩
    rintro j ⟨⟩
    exact ⟨o', after.1 after.2.1, watched_spawn reached sent⟩
  | @gotRegistration w r hb j k a host done =>
    cases a with
    | error err => exact idle w r after.1
    | ok token =>
      simp only [Process.registered]
      split
      · exact idle w r after.1
      · obtain ⟨arrived, watched⟩ := before.2.2.2 j rfl
        have held := (registered_held watched done before.2.2.1).ages ages
        exact ⟨fun _ => held, rfl, before.2.2.1, rfl, nofun⟩
  | @gotReport w r hb j k a done =>
    cases a with
    | error err => exact idle w _ fun known => after.1 (Bool.or_eq_false_iff.1 known).1
    | ok _ => exact idle w r after.1
  | lostRegistration host err => exact idle _ _ after.1
  | lostReport other => exact idle _ _ fun known => after.1 (Bool.or_eq_false_iff.1 known).1
  | crashed => exact ⟨after.1, trivial⟩

/-- The process holds a token that a later registration has overtaken. -/
structure Superseded (o : State) (id : WorkerID) (token : Int) (p : Process) : Prop where
  registered : p.needsRegister = false
  same : p.worker.id = id ∧ p.worker.fencingToken = token
  behind : ∃ n, latestToken (trimSpace id) o.shared.log = some n ∧ token < n

theorem Superseded.ages {id : WorkerID} {token : Int} (h : Superseded o id token p)
    (ages : Ages o.shared o'.shared) : Superseded o' id token p := by
  obtain ⟨n, latest, lt⟩ := h.behind
  obtain ⟨m, latest', le⟩ := ages _ n latest
  exact ⟨h.registered, h.same, m, latest', Int.lt_of_lt_of_le lt le⟩

theorem Sane.keeps (sane : Sane o p) (fresh : p.needsRegister = false) (move : Moves o o' p q) :
    q.needsRegister = false ∧ q.worker.id = p.worker.id ∧
      q.worker.fencingToken = p.worker.fencingToken := by
  cases move with
  | same => exact ⟨fresh, rfl, rfl⟩
  | @began w r host =>
    unfold Process.begin
    split
    · exact ⟨fresh, rfl, rfl⟩
    · rename_i hostname _
      exact ⟨fresh, ((sane.1 fresh).refresh host hostname).2, rfl⟩
  | sentRegistration | gotRegistration | lostRegistration =>
    cases sane.2.1.symm.trans fresh
  | sentReport => exact ⟨fresh, rfl, rfl⟩
  | @gotReport w r hb j k a done =>
    cases a with
    | error err =>
      obtain ⟨-, name, carried, handler⟩ := sane.2
      obtain ⟨arrived, held, watched⟩ := handler j rfl
      have known := report_known held watched done name carried
      exact ⟨Bool.or_eq_false_iff.2 ⟨fresh, decide_eq_false known⟩, rfl, rfl⟩
    | ok _ => exact ⟨fresh, rfl, rfl⟩
  | lostReport other =>
    exact ⟨Bool.or_eq_false_iff.2 ⟨fresh, decide_eq_false other⟩, rfl, rfl⟩
  | crashed => exact ⟨fresh, rfl, rfl⟩

theorem Superseded.moves {id : WorkerID} {token : Int} (h : Superseded o id token p)
    (sane : Sane o p) (move : Moves o o' p q) : Superseded o id token q := by
  obtain ⟨fresh, name, same⟩ := sane.keeps h.registered move
  exact ⟨fresh, ⟨name.trans h.same.1, same.trans h.same.2⟩, h.behind⟩

end Sanity

structure Sound (f : Fleet) : Prop where
  reached : system.Reaches Orchestrator.initial f.orchestrator
  sane : ∀ n p, f.processes n = some p → Sane f.orchestrator p

theorem step_sound {f g : Fleet} {a : Event} (h : Sound f) (step : f.step a = some g) :
    Sound g ∧ Ages f.orchestrator.shared g.orchestrator.shared := by
  obtain ⟨moved, kept, new⟩ := step_moves step
  have ages : Ages f.orchestrator.shared g.orchestrator.shared := by
    rcases moved with same | ⟨b, ran⟩
    · rw [same]
      exact .refl _
    · exact step_ages h.reached ran
  refine ⟨⟨?_, fun n q found => ?_⟩, ages⟩
  · rcases moved with same | ⟨b, ran⟩
    · rw [same]
      exact h.reached
    · exact h.reached.trans (System.Reaches.single ran)
  · cases before : f.processes n with
    | none =>
      obtain ⟨fresh, idle, -⟩ := new n q before found
      refine ⟨fun known => (nomatch fresh.symm.trans known), ?_⟩
      rw [idle]
      trivial
    | some p =>
      obtain ⟨q', found', move⟩ := kept n p before
      cases found'.symm.trans found
      have sane := h.sane n p before
      refine sane.moves h.reached ages ?_ move
      rcases moved with same | ⟨b, ran⟩
      · rw [same]
        exact sane
      · exact sane.step h.reached ran

theorem reaches_sound {f : Fleet} (h : Reaches initial f) : Sound f := by
  induction h with
  | refl => exact ⟨.refl, fun _ _ found => nomatch found⟩
  | tail _ last ih =>
    obtain ⟨a, step⟩ := last
    exact (step_sound ih step).1

theorem reaches_superseded {f g : Fleet} (sound : Sound f) {n : Nat} {p : Process} {id : WorkerID}
    {token : Int} (found : f.processes n = some p) (old : Superseded f.orchestrator id token p)
    (h : Reaches f g) :
    Sound g ∧ ∃ q, g.processes n = some q ∧ Superseded g.orchestrator id token q := by
  induction h with
  | refl => exact ⟨sound, p, found, old⟩
  | tail _ last ih =>
    obtain ⟨a, step⟩ := last
    obtain ⟨sound, q, found, old⟩ := ih
    obtain ⟨sound', ages⟩ := step_sound sound step
    obtain ⟨q', found', move⟩ := (step_moves step).2.1 n q found
    exact ⟨sound', q', found', (old.moves (sound.sane n q found) move).ages ages⟩

theorem reaches_orchestrator {f g : Fleet} (h : Reaches f g) :
    system.Reaches f.orchestrator g.orchestrator := by
  induction h with
  | refl => exact .refl
  | tail _ last ih =>
    obtain ⟨a, step⟩ := last
    obtain same | ⟨b, ran⟩ := (step_moves step).1
    · rw [same]
      exact ih
    · exact ih.trans (System.Reaches.single ran)

/-- In every state of a run with any processes: a heartbeat or an event that
commits a change carries the token of the latest registration of its worker; a
heartbeat that is behind when it is still being handled is refused as stale,
or fails with the database; and a superseded process never registers again and
never holds the current token again. -/
theorem fencing_safety {f : Fleet} (hf : Reaches initial f) :
    (∀ t i e th workerID token, system.step f.orchestrator (.call i e) = some t →
      t.shared.db ≠ f.orchestrator.shared.db → f.orchestrator.threads i = some th →
      th.kind.carries = some (workerID, token) →
      latestToken workerID f.orchestrator.shared.log = some token) ∧
    (∀ g i req c next n k a,
      f.orchestrator.threads i = some ⟨.reportHeartbeat req, .call c next⟩ →
      latestToken (trimSpace req.workerID) f.orchestrator.shared.log = some n →
      req.fencingToken < n → Reaches f g → g.orchestrator.threads i = some ⟨k, .ret a⟩ →
      a = .grpc (.error (.rpc .failedPrecondition "worker fencing token is stale")) ∨
      ∃ text, a = .grpc (.error (.rpc .internal ("heartbeat: " ++ (Err.database text).text)))) ∧
    ∀ g m p n, f.processes m = some p → p.needsRegister = false →
      latestToken (trimSpace p.worker.id) f.orchestrator.shared.log = some n →
      p.worker.fencingToken < n → Reaches f g →
      ∃ q n', g.processes m = some q ∧ q.needsRegister = false ∧
        (∀ hb handler, q.phase ≠ .registering hb handler) ∧
        q.worker.fencingToken = p.worker.fencingToken ∧
        latestToken (trimSpace p.worker.id) g.orchestrator.shared.log = some n' ∧
        q.worker.fencingToken < n' := by
  have sound := reaches_sound hf
  refine ⟨fun t i e th workerID token step changed thread carried => ?_,
    fun g i req c next n k a waiting latest behind later returned => ?_,
    fun g m p n found registered latest behind later => ?_⟩
  · exact request_current sound.reached step changed thread carried
  · exact behind_refused sound.reached waiting latest behind (reaches_orchestrator later) returned
  · obtain ⟨sound', q, found', old⟩ :=
      reaches_superseded sound found ⟨registered, ⟨rfl, rfl⟩, n, latest, behind⟩ later
    obtain ⟨n', latest', behind'⟩ := old.behind
    refine ⟨q, n', found', old.registered, fun hb handler phase => ?_, old.same.2, latest', ?_⟩
    · have sane := (sound'.sane m q found').2
      rw [phase] at sane
      cases sane.1.symm.trans old.registered
    · rw [old.same.2]
      exact behind'

def registration (n j : Nat) : List Event :=
  [.launch n ⟨⟨.active, "10.0.0.1", 1, 50051, 1, 1024, 0, 0, 0, 0⟩, "worker-1"⟩,
    .begin n { hostname := some "host" }, .deliver n, .orchestrator (.call j {}),
    .orchestrator (.call j {}), .answered n {}]

def refusedReport (n j : Nat) : List Event :=
  [.deliver n, .orchestrator (.call j {}), .orchestrator (.call j {}), .orchestrator (.call j {}),
    .answered n {}]

theorem fencing_safety_takeover : ∃ f g q n, Reaches initial f ∧ Reaches f g ∧
    g.processes 0 = some q ∧ q.needsRegister = false ∧
    latestToken "worker-1" g.orchestrator.shared.log = some n ∧ q.worker.fencingToken < n := by
  have run : ((initial.run (registration 0 0 ++ registration 1 1)).bind fun f =>
      (f.run (refusedReport 0 2)).map fun _ =>
        ((f.processes 0).map fun p => (p.needsRegister, p.worker.id, p.worker.fencingToken),
          latestToken "worker-1" f.orchestrator.shared.log)) =
      some (some (false, "worker-1", 1), some 2) := by
    decide +kernel
  simp only [Option.bind_eq_some_iff, Option.map_eq_some_iff, Prod.mk.injEq] at run
  obtain ⟨f, hf, g, hg, ⟨p, found, registered, name, token⟩, latest⟩ := run
  have reached := reachesIn_of_run hf
  have later := reachesIn_of_run hg
  have current : latestToken (trimSpace p.worker.id) f.orchestrator.shared.log = some 2 := by
    rw [name, ← latest]
    congr 1
  obtain ⟨q, n, found', fresh, -, -, latest', behind⟩ :=
    (fencing_safety reached).2.2 g 0 p 2 found registered current (by rw [token]; decide) later
  refine ⟨f, g, q, n, reached, later, found', fresh, ?_, behind⟩
  rw [← latest', name]
  congr 1

end Fire2.Processes
