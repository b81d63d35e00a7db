import Fire2.Creations
import Fire2.ManagerCalls
import Fire2.Runs

/-! The orchestrator and its workers. A request to create or to remove a sandbox
is mail until its worker takes it up, in any order or never. Whoever has sent
it waits for the answer of its handler, but may get an error of the transport
at any time, which says nothing of the handler. OK and NotFound are only ever
the worker's own answers. -/

namespace Fire2.Cluster
open Interleaving

inductive Request where
  | create (req : CreateSandboxRequest)
  | remove (id : SandboxID)
  deriving DecidableEq, Repr

structure Message where
  workerID : WorkerID
  request : Request
  deriving DecidableEq, Repr

namespace WorkerGRPCServer

def refusal [Uuid] : Request → Option Err
  | .create req =>
    (SandboxMgr.checkSandboxID req.id).or
      (HTTPHandlers.checkSandboxSize req.vcpuCount req.memSizeMib)
  | .remove id => SandboxMgr.checkSandboxID id

def kind : Request → SandboxMgr.Kind
  | .create req => .create ⟨req.id, req.vcpuCount, req.memSizeMib⟩
  | .remove id => .remove id

def sandboxError (err : Err) : Code :=
  -- an error of the Manager is no gRPC status: what is not mapped is Unknown
  if err.is .sandboxNotOnWorker then .notFound
  else if err.is .busy then .unavailable
  else if err.is .atCapacity then .resourceExhausted
  else if err.is .invalidSandboxID then .invalidArgument
  else .unknown

end WorkerGRPCServer

/-- `mail` is every request sent so far, `handlers` the thread of its worker that
a request was taken up by, and `waits` the last request of a thread of the
orchestrator. -/
structure State where
  orchestrator : Creations.State
  workers : WorkerID → SandboxMgr.State
  mail : List Message
  handlers : Nat → Option Nat
  waits : Nat → Option Nat

def initial (hosts : WorkerID → Table SandboxID SandboxMgr.Remnant) : State where
  orchestrator := Creations.initial
  workers workerID := System.init (SandboxMgr.booting (hosts workerID))
  mail := []
  handlers _ := none
  waits _ := none

inductive Event where
  | orchestrator (a : Action Orchestrator.Kind Env Empty)
  | worker (workerID : WorkerID) (a : Action SandboxMgr.Kind SandboxMgr.Env SandboxMgr.Event)
  | deliver (n : Nat)

def message : Call → Option Message
  | .sendCreate workerID _ req => some ⟨workerID, .create req⟩
  | .sendRemove workerID _ id => some ⟨workerID, .remove id⟩
  | _ => none

def mailed : Action SandboxMgr.Kind SandboxMgr.Env SandboxMgr.Event → Bool
  | .spawn (.create _) | .spawn (.remove _) => true
  | _ => false

namespace State

def received [Uuid] (s : State) (i : Nat) : Option (Option (Code × String)) :=
  -- what thread `i` is answered, once it is: the error's code and text, none for OK
  (s.waits i).bind fun n => (s.mail[n]?).bind fun m =>
    match WorkerGRPCServer.refusal m.request with
    | some err => some (some (.invalidArgument, err.text))
    | none => (s.handlers n).bind fun j =>
      match (s.workers m.workerID).threads j with
      | some ⟨_, .ret a⟩ => some (a.map fun err => (WorkerGRPCServer.sandboxError err, err.text))
      | _ => none

def admits [Uuid] (s : State) (i : Nat) (e : Env) : Call → Bool
  | .await _ => e.rpc.any (fun r => r.1 ≠ .notFound) || s.received i = some e.rpc
  | _ => true

def post (s : State) (i : Nat) (c : Call) : State :=
  -- the request that a call of thread `i` sends is mail from then on
  match message c with
  | some m =>
    { s with mail := s.mail ++ [m], waits := Function.update s.waits i (some s.mail.length) }
  | none => s

def setWorker (s : State) (workerID : WorkerID) (w : SandboxMgr.State) : State :=
  { s with workers := Function.update s.workers workerID w }

@[simp] theorem setWorker_self (s : State) (workerID : WorkerID) (w : SandboxMgr.State) :
    (s.setWorker workerID w).workers workerID = w := Function.update_self _ _ _

theorem setWorker_of_ne (s : State) {workerID k : WorkerID} (w : SandboxMgr.State)
    (other : k ≠ workerID) : (s.setWorker workerID w).workers k = s.workers k :=
  Function.update_of_ne other _ _

def step [Uuid] (s : State) : Event → Option State
  | .orchestrator (.call i e) =>
    match s.orchestrator.threads i with
    | some ⟨_, .call c _⟩ =>
      if s.admits i e c then
        (Creations.system.step s.orchestrator (.call i e)).map fun o =>
          { s.post i c with orchestrator := o }
      else none
    | _ => none
  | .orchestrator a =>
    (Creations.system.step s.orchestrator a).map fun o => { s with orchestrator := o }
  | .worker workerID a =>
    if mailed a then none
    else (SandboxMgr.system.step (s.workers workerID) a).map fun w => s.setWorker workerID w
  | .deliver n => (s.mail[n]?).bind fun m =>
    if s.handlers n = none ∧ WorkerGRPCServer.refusal m.request = none then
      let worker := s.workers m.workerID
      (SandboxMgr.system.step worker (.spawn (WorkerGRPCServer.kind m.request))).map fun w =>
        { s.setWorker m.workerID w with
          handlers := Function.update s.handlers n (some worker.next) }
    else none

end State

def meets (p : Nat → Call → Env → Creations.Log → Bool)
    (q : Nat → SandboxMgr.Call → SandboxMgr.Env → SandboxMgr.Manager → Bool)
    (s : State) : Event → Bool
  -- conditions on the calls of the orchestrator and of the workers
  | .orchestrator a => System.meets p (fun _ _ => true) s.orchestrator a
  | .worker workerID a => System.meets q (fun _ _ => true) (s.workers workerID) a
  | .deliver _ => true

inductive Acts [Uuid] (s : State) : Event → State → Prop
  | call {i : Nat} {e : Env} {k : Orchestrator.Kind} {c : Call}
    {f : c.Answer → Job Orchestrator.Outcome}
      {a : c.Answer} {o : Creations.State} (thread : s.orchestrator.threads i = some ⟨k, .call c f⟩)
      (admitted : s.admits i e c = true)
      (moved : Creations.system.step s.orchestrator (.call i e) = some o)
      (ran : Creations.exec i c e s.orchestrator.shared = some (a, o.shared)) :
      Acts s (.orchestrator (.call i e)) { s.post i c with orchestrator := o }
  | control {a : Action Orchestrator.Kind Env Empty} {o : Creations.State}
      (other : ∀ i e, a ≠ .call i e) (moved : Creations.system.step s.orchestrator a = some o) :
      Acts s (.orchestrator a) { s with orchestrator := o }
  | worker {workerID : WorkerID} {a : Action SandboxMgr.Kind SandboxMgr.Env SandboxMgr.Event}
      {w : SandboxMgr.State} (own : mailed a = false)
      (moved : SandboxMgr.system.step (s.workers workerID) a = some w) :
      Acts s (.worker workerID a) (s.setWorker workerID w)
  | deliver {n : Nat} {m : Message} {w : SandboxMgr.State} (sent : s.mail[n]? = some m)
      (moved : SandboxMgr.system.step (s.workers m.workerID)
        (.spawn (WorkerGRPCServer.kind m.request)) = some w) :
      Acts s (.deliver n) { s.setWorker m.workerID w with
        handlers := Function.update s.handlers n (some (s.workers m.workerID).next) }

theorem step_acts [Uuid] {s t : State} {a : Event} (h : s.step a = some t) : Acts s a t := by
  cases a with
  | orchestrator a =>
    cases a with
    | call i e =>
      simp only [State.step] at h
      split at h
      · rename_i k c f thread
        split at h
        · rename_i admitted
          obtain ⟨o, moved, rfl⟩ := Option.map_eq_some_iff.1 h
          have found := moved
          simp only [System.step, thread, Option.map_eq_some_iff] at found
          obtain ⟨⟨a, v⟩, ran, rfl⟩ := found
          exact .call thread admitted moved ran
        · cases h
      · cases h
    | spawn k | stop i =>
      simp only [State.step, Option.map_eq_some_iff] at h
      obtain ⟨o, moved, rfl⟩ := h
      exact .control (fun _ _ eq => by cases eq) moved
    | ext x => cases x
  | worker workerID a =>
    simp only [State.step] at h
    split at h
    · cases h
    · rename_i own
      obtain ⟨w, moved, rfl⟩ := Option.map_eq_some_iff.1 h
      exact .worker (by simpa using own) moved
  | deliver n =>
    simp only [State.step, Option.bind_eq_some_iff] at h
    obtain ⟨m, sent, h⟩ := h
    split at h
    · obtain ⟨w, moved, rfl⟩ := Option.map_eq_some_iff.1 h
      exact .deliver sent moved
    · cases h

section Runs
variable [Uuid] {p : Nat → Call → Env → Creations.Log → Bool}
  {q : Nat → SandboxMgr.Call → SandboxMgr.Env → SandboxMgr.Manager → Bool} {s t : State}

theorem reaches_orchestrator (h : Runs.ReachesWhen State.step (meets p q) s t) :
    Creations.system.ReachesWhen p (fun _ _ => true) s.orchestrator t.orchestrator := by
  induction h with
  | refl => exact .refl
  | tail _ last ih =>
    obtain ⟨a, met, step⟩ := last
    cases step_acts step with
    | @call i e _ _ _ _ _ _ _ moved => exact ih.tail ⟨.call i e, System.meets_iff.1 met, moved⟩
    | control _ moved => exact ih.tail ⟨_, System.meets_iff.1 met, moved⟩
    | worker => exact ih
    | deliver => exact ih

theorem reaches_set {workers : WorkerID → SandboxMgr.State} {workerID : WorkerID}
    {w : SandboxMgr.State} {a : Action SandboxMgr.Kind SandboxMgr.Env SandboxMgr.Event}
    (met : System.meets q (fun _ _ => true) (workers workerID) a = true)
    (moved : SandboxMgr.system.step (workers workerID) a = some w) (k : WorkerID) :
    SandboxMgr.system.ReachesWhen q (fun _ _ => true) (workers k)
      (Function.update workers workerID w k) := by
  by_cases same : k = workerID
  · subst same
    rw [Function.update_self]
    exact .single ⟨a, System.meets_iff.1 met, moved⟩
  · rw [Function.update_of_ne same]
    exact .refl

theorem reaches_worker (h : Runs.ReachesWhen State.step (meets p q) s t)
    (workerID : WorkerID) : SandboxMgr.system.ReachesWhen q (fun _ _ => true) (s.workers workerID)
    (t.workers workerID) := by
  induction h with
  | refl => exact .refl
  | tail _ last ih =>
    obtain ⟨a, met, step⟩ := last
    cases step_acts step with
    | @call i _ _ c =>
      unfold State.post
      cases message c <;> exact ih
    | control => exact ih
    | worker _ moved => exact ih.trans (reaches_set met moved workerID)
    | deliver _ moved => exact ih.trans (reaches_set rfl moved workerID)

end Runs

structure Linked (s : State) : Prop where
  handled : ∀ n j, s.handlers n = some j → ∃ m p, s.mail[n]? = some m ∧
    (s.workers m.workerID).threads j = some ⟨WorkerGRPCServer.kind m.request, p⟩
  ordered : ∀ workerID j input p, (s.workers workerID).threads j = some ⟨.create input, p⟩ →
    ∃ req, ⟨workerID, .create req⟩ ∈ s.mail ∧ req.id = input.id
  asked : ∀ workerID req, ⟨workerID, .create req⟩ ∈ s.mail →
    (workerID, req.id) ∈ s.orchestrator.shared.record.asked
  removing : ∀ i n workerID id, s.waits i = some n →
    s.orchestrator.shared.record.removing i = some (workerID, id) →
    s.mail[n]? = some ⟨workerID, .remove id⟩
  creating : ∀ i n workerID id, s.waits i = some n →
    s.orchestrator.shared.creating i = some (workerID, id) →
    ∃ req, s.mail[n]? = some ⟨workerID, .create req⟩ ∧ req.id = id

section Links
variable {s t : State} {i : Nat} {e : Env} {c : Call} {a : c.Answer}

theorem control_log {o o' : Creations.State} {a : Action Orchestrator.Kind Env Empty}
    (other : ∀ i e, a ≠ .call i e) (moved : Creations.system.step o a = some o') :
    ∃ kinds, o'.shared = { o.shared with record := { o.shared.record with kinds } } := by
  obtain ⟨k, v, rfl, started, rfl⟩ | ⟨i, e, _, _, _, _, _, rfl, -⟩ | ⟨_, _, -,
      -, -, rfl⟩ | ⟨x, -⟩ :=
    System.step_cases moved
  · exact ⟨_, (Creations.start_eq_some started).2⟩
  · exact absurd rfl (other i e)
  · exact ⟨o.shared.record.kinds, rfl⟩
  · exact nomatch x

theorem call_log {s v : Creations.Log} (ran : Creations.exec i c e s = some (a, v)) :
    v = s.after i c a (s.record.after i c a v.record.world) := by
  obtain ⟨ran, log⟩ := Creations.exec_log ran
  exact log.trans (congrArg _ (Removals.exec_after ran).2)

theorem call_unsent {s v : Creations.Log} (ran : Creations.exec i c e s = some (a, v))
    (none : message c = none) : v.record.asked = s.record.asked ∧ v.record.removing =
      s.record.removing ∧ v.creating = s.creating := by
  rw [call_log ran]
  cases c with
  | sendCreate | sendRemove => cases none
  | _ => exact ⟨rfl, rfl, rfl⟩

theorem linked_sent (h : Linked s) {o : Creations.State} {m : Message}
    (asked : ∀ x ∈ s.orchestrator.shared.record.asked, x ∈ o.shared.record.asked)
    (others : ∀ j, j ≠ i → o.shared.record.removing j = s.orchestrator.shared.record.removing j ∧
      o.shared.creating j = s.orchestrator.shared.creating j)
    (ordered : ∀ req, m.request = .create req → (m.workerID, req.id) ∈ o.shared.record.asked)
    (removing : ∀ workerID id, o.shared.record.removing i = some (workerID, id) →
      m = ⟨workerID, .remove id⟩)
    (creating : ∀ workerID id, o.shared.creating i = some (workerID, id) →
      ∃ req, m = ⟨workerID, .create req⟩ ∧ req.id = id) :
    Linked { s with
      orchestrator := o
      mail := s.mail ++ [m]
      waits := Function.update s.waits i (some s.mail.length) } := by
  have kept {n : Nat} {x : Message} (found : s.mail[n]? = some x) : (s.mail ++ [m])[n]? = some x :=
    (List.getElem?_append_left (List.getElem?_eq_some_iff.1 found).1).trans found
  have last : (s.mail ++ [m])[s.mail.length]? = some m := List.getElem?_concat_length
  refine ⟨fun n j taken => ?_, fun workerID j input p thread => ?_, fun workerID req mem => ?_,
    fun j n workerID id waits gone => ?_, fun j n workerID id waits made => ?_⟩
  · obtain ⟨x, p, found, thread⟩ := h.handled n j taken
    exact ⟨x, p, kept found, thread⟩
  · obtain ⟨req, mem, same⟩ := h.ordered workerID j input p thread
    exact ⟨req, List.mem_append_left _ mem, same⟩
  · rcases List.mem_append.1 mem with old | new
    · exact asked _ (h.asked workerID req old)
    · obtain rfl := List.mem_singleton.1 new
      exact ordered req rfl
  · by_cases mine : j = i
    · subst mine
      simp only [Function.update_self, Option.some.injEq] at waits
      rw [← waits, ← removing workerID id gone]
      exact last
    · simp only [Function.update_of_ne mine] at waits
      exact kept (h.removing j n workerID id waits ((others j mine).1.symm.trans gone))
  · by_cases mine : j = i
    · subst mine
      simp only [Function.update_self, Option.some.injEq] at waits
      obtain ⟨req, rfl, same⟩ := creating workerID id made
      exact ⟨req, waits ▸ last, same⟩
    · simp only [Function.update_of_ne mine] at waits
      obtain ⟨req, found, same⟩ := h.creating j n workerID id waits
        ((others j mine).2.symm.trans made)
      exact ⟨req, kept found, same⟩

theorem linked_call (h : Linked s) {o : Creations.State}
    (ran : Creations.exec i c e s.orchestrator.shared = some (a, o.shared)) :
    Linked { s.post i c with orchestrator := o } := by
  have log := call_log ran
  have asked : ∀ x ∈ s.orchestrator.shared.record.asked, x ∈ o.shared.record.asked := by
    rw [log]
    exact fun x => Removals.after_asked
  have others (j : Nat) (other : j ≠ i) :
      o.shared.record.removing j = s.orchestrator.shared.record.removing j ∧
        o.shared.creating j = s.orchestrator.shared.creating j := by
    rw [log]
    exact ⟨Removals.after_removing other, Creations.after_creating other⟩
  cases c with
  | sendCreate workerID address req =>
    have made : o.shared.creating i = some (workerID, req.id) := by
      rw [log]
      exact Function.update_self _ _ _
    have gone : o.shared.record.removing i = none := by
      rw [log]
      exact Function.update_self _ _ _
    refine linked_sent h asked others (fun x eq => ?_) (fun w id eq => ?_) fun w id eq => ?_
    · cases eq
      rw [log]
      exact List.mem_cons_self
    · cases gone.symm.trans eq
    · cases made.symm.trans eq
      exact ⟨req, rfl, rfl⟩
  | sendRemove workerID address id =>
    have made : o.shared.creating i = none := by
      rw [log]
      exact Function.update_self _ _ _
    have gone : o.shared.record.removing i = some (workerID, id) := by
      rw [log]
      exact Function.update_self _ _ _
    refine linked_sent h asked others (fun x eq => nomatch eq) (fun w id eq => ?_) fun w id eq => ?_
    · cases gone.symm.trans eq
      rfl
    · cases made.symm.trans eq
  | _ =>
    obtain ⟨asked, removing, creating⟩ := call_unsent ran rfl
    exact ⟨h.handled, h.ordered, asked ▸ h.asked, removing ▸ h.removing, creating ▸ h.creating⟩

theorem linked_worker [Uuid] (h : Linked s) {hosts : WorkerID → Table SandboxID SandboxMgr.Remnant}
    (reached : ∀ k, SandboxMgr.system.Reaches (System.init (SandboxMgr.booting (hosts k)))
      (s.workers k))
    {workerID : WorkerID} {a : Action SandboxMgr.Kind SandboxMgr.Env SandboxMgr.Event}
    {w : SandboxMgr.State} (moved : SandboxMgr.system.step (s.workers workerID) a = some w)
    (own : ∀ input, a = .spawn (.create input) → ∃ req, ⟨workerID, .create req⟩ ∈ s.mail ∧
      req.id = input.id) :
    Linked (s.setWorker workerID w) := by
  refine ⟨fun n j taken => ?_, fun k j input p thread => ?_, h.asked, h.removing, h.creating⟩
  · obtain ⟨m, p, found, thread⟩ := h.handled n j taken
    by_cases same : m.workerID = workerID
    · subst same
      obtain ⟨q, still⟩ := System.thread_kept (fun _ => rfl)
        (System.started_of_thread (reached m.workerID) thread) moved thread
      exact ⟨m, q, found, by rwa [State.setWorker_self]⟩
    · exact ⟨m, p, found, by rwa [s.setWorker_of_ne w same]⟩
  · by_cases same : k = workerID
    · subst same
      rw [State.setWorker_self] at thread
      obtain ⟨q, before⟩ | ⟨rfl, -⟩ := System.thread_origin moved thread
      · exact h.ordered k j input q before
      · exact own input rfl
    · rw [s.setWorker_of_ne w same] at thread
      exact h.ordered k j input p thread

end Links

theorem linked_step [Uuid] {hosts : WorkerID → Table SandboxID SandboxMgr.Remnant}
    {s t : State} {a : Event}
    (reached : ∀ k, SandboxMgr.system.Reaches (System.init (SandboxMgr.booting (hosts k)))
      (s.workers k))
    (h : Linked s) (step : s.step a = some t) : Linked t := by
  cases step_acts step with
  | call _ _ _ ran => exact linked_call h ran
  | control other moved =>
    obtain ⟨kinds, log⟩ := control_log other moved
    exact ⟨h.handled, h.ordered, log ▸ h.asked, log ▸ h.removing, log ▸ h.creating⟩
  | worker own moved =>
    refine linked_worker h reached moved ?_
    rintro input rfl
    cases own
  | @deliver n m w sent moved =>
    have links : Linked (s.setWorker m.workerID w) := by
      refine linked_worker h reached moved fun input eq => ?_
      obtain ⟨workerID, request⟩ := m
      cases request with
      | create req =>
        cases eq
        exact ⟨req, List.mem_of_getElem? sent, rfl⟩
      | remove id => cases eq
    refine ⟨fun k j taken => ?_, links.ordered, links.asked, links.removing, links.creating⟩
    by_cases new : k = n
    · subst new
      cases (Function.update_self k _ s.handlers).symm.trans taken
      refine ⟨m, SandboxMgr.body (WorkerGRPCServer.kind m.request), sent, ?_⟩
      exact (congrArg (fun w => Config.threads w _) (s.setWorker_self _ w)).trans
        (System.spawned moved).2
    · exact links.handled k j ((Function.update_of_ne new _ _).symm.trans taken)

theorem initial_linked {hosts : WorkerID → Table SandboxID SandboxMgr.Remnant} :
    Linked (initial hosts) where
  handled _ _ taken := nomatch taken
  ordered _ _ _ _ thread := nomatch thread
  asked _ _ mem := nomatch mem
  removing _ _ _ _ waits := nomatch waits
  creating _ _ _ _ waits := nomatch waits

structure Told (A : SandboxMgr.Assume) (s : State) : Prop where
  created : A.booted → ∀ workerID id, (workerID, id) ∈ s.orchestrator.shared.created →
    id ∈ (s.workers workerID).shared.booted
  confirmed : ∀ workerID id, (workerID, id) ∈ s.orchestrator.shared.record.confirmed →
    id ∈ (s.workers workerID).shared.gone

section Answers
variable {s : State} {i : Nat} {e : Env} {c : Call} {a : c.Answer} {v : Creations.Log}

theorem received_eq_some [Uuid] (h : Linked s) {r : Option (Code × String)}
    (told : s.received i = some r) : ∃ n m, s.waits i = some n ∧ s.mail[n]? = some m ∧
      ((∃ text, r = some (.invalidArgument, text)) ∨
        ∃ j b, (s.workers m.workerID).threads j = some ⟨WorkerGRPCServer.kind m.request, .ret b⟩ ∧
          r = b.map fun err => (WorkerGRPCServer.sandboxError err, err.text)) := by
  simp only [State.received, Option.bind_eq_some_iff] at told
  obtain ⟨n, waits, m, found, told⟩ := told
  refine ⟨n, m, waits, found, ?_⟩
  split at told
  · exact .inl ⟨_, (Option.some.inj told).symm⟩
  · obtain ⟨j, taken, told⟩ := Option.bind_eq_some_iff.1 told
    split at told
    · rename_i k b thread
      obtain ⟨m', p, found', thread'⟩ := h.handled n j taken
      cases found.symm.trans found'
      cases thread.symm.trans thread'
      exact .inr ⟨j, b, thread, (Option.some.inj told).symm⟩
    · cases told

theorem await_answer {ref : Nat} {a : Except Err Unit} {s : Creations.Log}
    (ran : Creations.exec i (.await ref) e s = some (a, v)) : a = rpcAnswer e () :=
  (congrArg Prod.fst (Removals.exec_world (Creations.exec_log ran).1)).symm

theorem call_created [Uuid] (admitted : s.admits i e c = true)
    (ran : Creations.exec i c e s.orchestrator.shared = some (a, v)) {x : WorkerID × SandboxID}
    (mem : x ∈ v.created) : x ∈ s.orchestrator.shared.created ∨
      s.orchestrator.shared.creating i = some x ∧ s.received i = some none := by
  rw [call_log ran] at mem
  cases c with
  | await ref =>
    have answer := await_answer ran
    cases rpc : e.rpc with
    | none =>
      simp only [rpcAnswer, rpc] at answer
      subst answer
      refine (List.mem_append.1 mem).symm.imp_right fun mine => ⟨Option.mem_toList.1 mine, ?_⟩
      simpa [State.admits, rpc] using admitted
    | some r =>
      simp only [rpcAnswer, rpc] at answer
      subst answer
      exact .inl mem
  | _ => exact .inl mem

theorem call_confirmed [Uuid] (admitted : s.admits i e c = true)
    (ran : Creations.exec i c e s.orchestrator.shared = some (a, v)) {x : WorkerID × SandboxID}
    (mem : x ∈ v.record.confirmed) : x ∈ s.orchestrator.shared.record.confirmed ∨
      s.orchestrator.shared.record.removing i = some x ∧
        ∃ r, s.received i = some r ∧ ∀ code text, r = some (code, text) → code = .notFound := by
  rw [call_log ran] at mem
  cases c with
  | await ref =>
    have answer := await_answer ran
    cases rpc : e.rpc with
    | none =>
      simp only [rpcAnswer, rpc] at answer
      subst answer
      refine (List.mem_append.1 mem).symm.imp_right fun mine =>
        ⟨Option.mem_toList.1 mine, none, ?_, nofun⟩
      simpa [State.admits, rpc] using admitted
    | some r =>
      obtain ⟨code, text⟩ := r
      simp only [rpcAnswer, rpc] at answer
      subst answer
      by_cases known : code = .notFound
      · subst known
        refine (List.mem_append.1 mem).symm.imp_right fun mine =>
          ⟨Option.mem_toList.1 mine, some (.notFound, text), ?_, fun _ _ eq => ?_⟩
        · simpa [State.admits, rpc] using admitted
        · cases eq
          rfl
      · refine .inl ?_
        simpa [Creations.Log.after, Removals.Record.after, Removals.confirms,
          Err.code, known] using mem
  | _ => exact .inl mem

theorem confirms_of_notFound {b : Option Err} (h : ∀ code text,
    (b.map fun err => (WorkerGRPCServer.sandboxError err, err.text)) = some (code, text) →
      code = .notFound) : SandboxMgr.Manager.confirms b = true := by
  cases b with
  | none => rfl
  | some err =>
    have code := h _ _ rfl
    unfold WorkerGRPCServer.sandboxError at code
    split at code
    · assumption
    · split_ifs at code

end Answers

section Workers
variable [Uuid] {A : SandboxMgr.Assume} {q : Nat → SandboxMgr.Call → SandboxMgr.Env →
  SandboxMgr.Manager → Bool} {host : Table SandboxID SandboxMgr.Remnant} {w w' : SandboxMgr.State}

theorem worker_reaches (hq : ∀ i c e v, q i c e v = true → SandboxMgr.Meets A i c e v)
    (h : SandboxMgr.system.ReachesWhen q (fun _ _ => true) w w') :
    SandboxMgr.system.ReachesIf (SandboxMgr.spec A).Cond (SandboxMgr.spec A).Out w w' :=
  System.ReachesIf.mono hq (fun _ _ _ => trivial) h

theorem worker_safe (hA : ¬ A.clean)
    (hq : ∀ i c e v, q i c e v = true → SandboxMgr.Meets A i c e v)
    (h : SandboxMgr.system.ReachesWhen q (fun _ _ => true)
      (System.init (SandboxMgr.booting host)) w) :
    SandboxMgr.system.Safe (SandboxMgr.spec A) (SandboxMgr.Answers A) w :=
  (System.safe_reachesIf (SandboxMgr.disciplined A)
    (System.safe_init (SandboxMgr.booting_sane fun clean => absurd clean hA))
    (worker_reaches hq h)).1

theorem worker_evolves (hA : ¬ A.clean)
    (hq : ∀ i c e v, q i c e v = true → SandboxMgr.Meets A i c e v)
    (h : SandboxMgr.system.ReachesWhen q (fun _ _ => true)
      (System.init (SandboxMgr.booting host)) w)
    (later : SandboxMgr.system.ReachesWhen q (fun _ _ => true) w w') :
    SandboxMgr.Evolves w.shared w'.shared :=
  (System.safe_reachesIf (SandboxMgr.disciplined A) (worker_safe hA hq h)
    (worker_reaches hq later)).2

theorem worker_answers (hA : ¬ A.clean)
    (hq : ∀ i c e v, q i c e v = true → SandboxMgr.Meets A i c e v)
    (h : SandboxMgr.system.ReachesWhen q (fun _ _ => true)
      (System.init (SandboxMgr.booting host)) w)
    {j : Nat} {k : SandboxMgr.Kind} {b : Option Err} (thread : w.threads j = some ⟨k, .ret b⟩) :
    ∃ v, SandboxMgr.Evolves v w.shared ∧ SandboxMgr.Answers A j k b v :=
  System.safe_results (SandboxMgr.disciplined A)
    (SandboxMgr.booting_sane fun clean => absurd clean hA) (worker_reaches hq h) thread

end Workers

section Truth
variable {A : SandboxMgr.Assume} {p : Nat → Call → Env → Creations.Log → Bool}
  {q : Nat → SandboxMgr.Call → SandboxMgr.Env → SandboxMgr.Manager → Bool}
  {hosts : WorkerID → Table SandboxID SandboxMgr.Remnant} {s t : State}

theorem Told.evolves (h : Told A s)
    (created : t.orchestrator.shared.created = s.orchestrator.shared.created)
    (confirmed : t.orchestrator.shared.record.confirmed = s.orchestrator.shared.record.confirmed)
    (workers : ∀ k, SandboxMgr.Evolves (s.workers k).shared (t.workers k).shared) : Told A t where
  created assumed workerID id mem :=
    (workers workerID).booted id (h.created assumed workerID id (created ▸ mem))
  confirmed workerID id mem := (workers workerID).gone id
    (h.confirmed workerID id (confirmed ▸ mem))

theorem told_created [Uuid] (hA : ¬ A.clean)
    (hq : ∀ i c e v, q i c e v = true → SandboxMgr.Meets A i c e v)
    (reached : ∀ k, SandboxMgr.system.ReachesWhen q (fun _ _ => true)
      (System.init (SandboxMgr.booting (hosts k))) (s.workers k)) (linked : Linked s)
      (assumed : A.booted)
    {i : Nat} {workerID : WorkerID} {id : SandboxID}
    (mine : s.orchestrator.shared.creating i = some (workerID, id))
    (received : s.received i = some none) : id ∈ (s.workers workerID).shared.booted := by
  obtain ⟨n, m, waits, found, ⟨text, eq⟩ | ⟨j, b, thread, eq⟩⟩ := received_eq_some linked received
  · cases eq
  · obtain ⟨req, found', rfl⟩ := linked.creating i n workerID id waits mine
    cases found.symm.trans found'
    obtain ⟨v, evolves, answers⟩ := worker_answers hA hq (reached workerID) thread
    cases b with
    | none => exact evolves.booted _ (answers rfl assumed)
    | some err => cases eq

theorem told_confirmed [Uuid] (hA : ¬ A.clean)
    (hq : ∀ i c e v, q i c e v = true → SandboxMgr.Meets A i c e v)
    (reached : ∀ k, SandboxMgr.system.ReachesWhen q (fun _ _ => true)
      (System.init (SandboxMgr.booting (hosts k))) (s.workers k)) (linked : Linked s)
    {i : Nat} {workerID : WorkerID} {id : SandboxID}
    (mine : s.orchestrator.shared.record.removing i = some (workerID, id))
    {r : Option (Code × String)} (received : s.received i = some r)
    (known : ∀ code text, r = some (code, text) → code = .notFound) :
    id ∈ (s.workers workerID).shared.gone := by
  obtain ⟨n, m, waits, found, ⟨text, rfl⟩ | ⟨j, b, thread, rfl⟩⟩ := received_eq_some linked received
  · cases known _ _ rfl
  · cases found.symm.trans (linked.removing i n workerID id waits mine)
    obtain ⟨v, evolves, answers⟩ := worker_answers hA hq (reached workerID) thread
    exact evolves.gone id (answers (confirms_of_notFound known)).1

theorem told_step [Uuid] (hA : ¬ A.clean)
    (hq : ∀ i c e v, q i c e v = true → SandboxMgr.Meets A i c e v)
    (reached : ∀ k, SandboxMgr.system.ReachesWhen q (fun _ _ => true)
      (System.init (SandboxMgr.booting (hosts k))) (s.workers k)) (linked : Linked s) (h : Told A s)
    {a : Event} (met : meets p q s a = true) (step : s.step a = some t) : Told A t := by
  have moved (k : WorkerID) : SandboxMgr.Evolves (s.workers k).shared (t.workers k).shared :=
    worker_evolves hA hq (reached k) (reaches_worker (.single ⟨a, met, step⟩) k)
  cases step_acts step with
  | @call i _ _ c _ _ _ _ admitted _ ran =>
    refine ⟨fun assumed workerID id mem => (moved workerID).booted id ?_,
      fun workerID id mem => (moved workerID).gone id ?_⟩
    · obtain old | ⟨mine, received⟩ := call_created admitted ran mem
      · exact h.created assumed workerID id old
      · exact told_created hA hq reached linked assumed mine received
    · obtain old | ⟨mine, r, received, known⟩ := call_confirmed admitted ran mem
      · exact h.confirmed workerID id old
      · exact told_confirmed hA hq reached linked mine received known
  | control other done =>
    obtain ⟨kinds, log⟩ := control_log other done
    exact h.evolves (by simp only [log]) (by simp only [log]) moved
  | worker | deliver => exact h.evolves rfl rfl moved

theorem reaches_told [Uuid] (hA : ¬ A.clean)
    (hq : ∀ i c e v, q i c e v = true → SandboxMgr.Meets A i c e v)
    (h : Runs.ReachesWhen State.step (meets p q) (initial hosts) s) : Linked s ∧ Told A s := by
  induction h with
  | refl => exact ⟨initial_linked, fun _ _ _ mem => (nomatch mem), fun _ _ mem => nomatch mem⟩
  | tail before last ih =>
    obtain ⟨a, met, step⟩ := last
    have reached (k : WorkerID) := reaches_worker before k
    exact ⟨linked_step (fun k => (reached k).reaches) ih.1 step,
      told_step hA hq reached ih.1 ih.2 met step⟩

end Truth

end Fire2.Cluster
