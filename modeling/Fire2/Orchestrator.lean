import Fire2.Handlers
import Fire2.Lifecycle

/-! The orchestrator as a system: HTTP and gRPC requests arrive at any time and
in any number, River runs any inserted job any number of times, and a process
may stop between any two calls. -/

namespace Fire2.Orchestrator
open Interleaving Lifecycle

inductive Kind where
  | createSandbox (user : Option String) (body : Option CreateBody)
  | deleteSandbox (user : Option String) (id : SandboxID)
  | createJob (id : SandboxID) (isFinal : Bool)
  | cleanupJob (id : SandboxID) (targetStatus : Option Status) (isFinal : Bool)
  | removeOrphanJob (workerID : WorkerID) (id : SandboxID)
  | reapSandboxes (livenessTimeout workerLostTimeout createTimeout : Int)
  | reapWorkers (timeout : Int)
  | registerWorker (req : WorkerHeartbeat)
  | reportHeartbeat (req : WorkerHeartbeat)
  | ingestEvent (req : SandboxEventRequest)
  deriving DecidableEq

inductive Outcome where
  | http (response : Response)
  | job (err : Option Err)
  | registered (answer : Except Err Int)
  | grpc (answer : Except Err Unit)

def body : Kind → Job Outcome
  | .createSandbox user body => return .http (← HTTPHandlers.createSandbox user body)
  | .deleteSandbox user id => return .http (← HTTPHandlers.deleteSandbox user id)
  | .createJob id isFinal => return .job (← CreateSandboxWorker.work id isFinal)
  | .cleanupJob id targetStatus isFinal =>
    return .job (← CleanupSandboxWorker.work id targetStatus isFinal)
  | .removeOrphanJob workerID id => return .job (← removeSandboxOnWorker workerID id)
  | .reapSandboxes livenessTimeout workerLostTimeout createTimeout =>
    return .job (← Fire2.reapSandboxes livenessTimeout workerLostTimeout createTimeout)
  | .reapWorkers timeout => return .job (← Fire2.reapWorkers timeout)
  | .registerWorker req => return .registered (← EventGRPCServer.registerWorker req)
  | .reportHeartbeat req => return .grpc (← EventGRPCServer.reportWorkerHeartbeat req)
  | .ingestEvent req => return .grpc (← EventGRPCServer.ingestSandboxEvent req)

def enabled (k : Kind) (db : Database) : Bool :=
  -- an attempt runs an inserted job; requests and periodic jobs come at will
  match k with
  | .createJob id _ => JobArgs.createSandbox id ∈ db.jobs
  | .cleanupJob id targetStatus _ => JobArgs.cleanupSandbox id targetStatus ∈ db.jobs
  | .removeOrphanJob workerID id => JobArgs.removeOrphan workerID id ∈ db.jobs
  | _ => true

def system : System Kind Call Env Empty Outcome World Call.Answer where
  exec := exec
  body := body
  start _ k s := if enabled k s.db then some s else none
  stoppable _ := true
  ext x := nomatch x

abbrev State := Config Kind Call Outcome World Call.Answer

def initial : State := System.init ⟨.empty, []⟩

def Lawful : Call → Prop
  -- the arguments every program of the orchestrator keeps to
  | .updateStatus _ status allowedFrom => ∃ l, Allowed status allowedFrom l
  | .updateStatusFenced _ _ _ status allowedFrom =>
    status = .running ∧ allowedFrom = [.starting, .running]
  | .createTx s => s.status = .pending ∧ s.workerID = none
  | _ => True

def CreateCall (id : SandboxID) : Call → Prop
  | .getSandbox k | .assignWorker k _ | .cleanupTx k => k = id
  | .updateStatus k status allowedFrom => k = id ∧ (status, allowedFrom) ∈
      [(Status.scheduling, [Status.pending]), (.starting, [.assigned]), (.running, [.starting])]
  | .sendCreate _ _ req => req.id = id
  | .listWorkers | .getWorker _ | .timeNow | .draw | .newClient _ | .getWorkerInfo .. | .await _ =>
    True
  | _ => False

def PlainCall (id : SandboxID) : Call → Prop
  -- those of them that say nothing to the worker and do not follow its answer
  | .updateStatus k status allowedFrom => k = id ∧ (status, allowedFrom) ∈
      [(Status.scheduling, [Status.pending]), (.running, [.starting])]
  | .sendCreate .. => False
  | c => CreateCall id c

def RemoveCall (workerID : WorkerID) (id : SandboxID) : Call → Prop
  | .getWorker k => k = workerID
  | .sendRemove k _ i => k = workerID ∧ i = id
  | .newClient _ | .await _ => True
  | _ => False

def CleanupCall (id : SandboxID) : Call → Prop
  | .getSandbox k | .clearWorker k | .sendRemove _ _ k => k = id
  | .updateStatus k status allowedFrom => k = id ∧ status ∈ Status.terminal ∧
      allowedFrom = CleanupSandboxWorker.allowedFrom
  | .getWorker _ | .newClient _ | .await _ => True
  | _ => False

def HandlerCall : Call → Prop
  -- the calls of the requests and the periodic jobs, heartbeats apart
  | .updateStatusFenced _ _ _ status allowedFrom =>
    status = .running ∧ allowedFrom = [.starting, .running]
  | .createTx s => s.status = .pending ∧ s.workerID = none
  | .getSandbox _ | .deleteTx _ | .reapTx .. | .listWorkers | .register _ | .markStaleInactive _
  | .createSandboxEvent _ | .timeNow | .newUUID | .awaitJob => True
  | _ => False

def RequestCall : Call → Prop
  | .updateStatusFenced _ _ _ status allowedFrom =>
    status = .running ∧ allowedFrom = [.starting, .running]
  | .createTx s => s.status = .pending ∧ s.workerID = none
  | .getSandbox _ | .deleteTx _ | .reapTx .. | .listWorkers | .register _ | .updateWorker _
  | .whyRefused .. | .reconcileTx .. | .markStaleInactive _ | .createSandboxEvent _ | .timeNow
  | .newUUID | .awaitJob => True
  | _ => False

def TokenCall (workerID : WorkerID) (token : Int) : Call → Prop
  -- the calls of a heartbeat or an event that carries a token
  | .updateWorker w | .reconcileTx w _ => w.id = workerID ∧ w.fencingToken = token
  | .whyRefused id presented => id = workerID ∧ presented = token
  | .createSandboxEvent e => e.workerID = workerID ∧ e.fencingToken = token
  | .updateStatusFenced _ w t status allowedFrom =>
    w = workerID ∧ t = token ∧ status = .running ∧ allowedFrom = [.starting, .running]
  | .timeNow | .newUUID => True
  | _ => False

def EventCall (workerID : WorkerID) (token : Int) : Call → Prop
  | .updateWorker _ | .reconcileTx .. | .whyRefused .. => False
  | c => TokenCall workerID token c

theorem EventCall.token {workerID : WorkerID} {token : Int} {c : Call}
    (h : EventCall workerID token c) : TokenCall workerID token c := by
  cases c with
  | updateWorker | reconcileTx | whyRefused => exact h.elim
  | _ => exact h

theorem EventCall.handler {workerID : WorkerID} {token : Int} {c : Call}
    (h : EventCall workerID token c) : HandlerCall c := by
  cases c with
  | updateStatusFenced => exact h.2.2
  | createSandboxEvent | timeNow | newUUID => trivial
  | _ => exact h.elim

theorem HandlerCall.request {c : Call} (h : HandlerCall c) : RequestCall c := by
  cases c with
  | updateWorker | reconcileTx | whyRefused => exact h.elim
  | _ => exact h

theorem PlainCall.create {id : SandboxID} {c : Call} (h : PlainCall id c) : CreateCall id c := by
  cases c with
  | updateStatus =>
    refine h.imp_right fun mem => ?_
    simp only [List.mem_cons, List.not_mem_nil, or_false] at mem ⊢
    exact mem.imp_right .inr
  | sendCreate => exact h.elim
  | _ => exact h

theorem TokenCall.request {workerID : WorkerID} {token : Int} {c : Call}
    (h : TokenCall workerID token c) : RequestCall c := by
  cases c with
  | updateStatusFenced => exact h.2.2
  | updateWorker | reconcileTx | whyRefused | createSandboxEvent | timeNow | newUUID => trivial
  | _ => exact h.elim

theorem CreateCall.lawful {id : SandboxID} {c : Call} (h : CreateCall id c) : Lawful c := by
  cases c <;> try trivial
  rename_i status allowedFrom
  have mem := h.2
  simp only [List.mem_cons, Prod.mk.injEq, List.not_mem_nil, or_false] at mem
  rcases mem with ⟨rfl, rfl⟩ | ⟨rfl, rfl⟩ | ⟨rfl, rfl⟩
  · exact ⟨_, .scheduling⟩
  · exact ⟨_, .starting⟩
  · exact ⟨_, .running⟩

theorem RemoveCall.lawful {workerID : WorkerID} {id : SandboxID} {c : Call}
    (h : RemoveCall workerID id c) : Lawful c := by
  cases c <;> trivial

theorem RemoveCall.cleanup {workerID : WorkerID} {id : SandboxID} {c : Call}
    (h : RemoveCall workerID id c) : CleanupCall id c := by
  cases c with
  | sendRemove => exact h.2
  | getWorker | newClient | await => trivial
  | _ => exact h.elim

theorem CleanupCall.lawful {id : SandboxID} {c : Call} (h : CleanupCall id c) : Lawful c := by
  cases c with
  | updateStatus k status allowedFrom =>
    obtain ⟨-, ends, rfl⟩ := h
    exact ⟨_, .ended status ends⟩
  | createTx | updateStatusFenced => exact h.elim
  | _ => trivial

theorem RequestCall.lawful {c : Call} (h : RequestCall c) : Lawful c := by
  cases c <;> trivial

abbrev Calls {α : Type} (p : Job α) (P : Call → Prop) : Prop := p.Asks Answered P

theorem calls_ask {β : Type} {P : Call → Prop} {c : Call} {f : c.Answer → Job β} (hc : P c)
    (hf : ∀ r, Answered c r → Calls (f r) P) : Calls (ask c >>= f) P := .call hc hf

theorem Calls.create {α : Type} {p : Job α} {id : SandboxID} (h : Calls p (PlainCall id)) :
    Calls p (CreateCall id) := h.mono fun _ => PlainCall.create

section CreateJob
open CreateSandboxWorker
variable {id : SandboxID} {isFinal : Bool}

theorem maybeCleanup_calls {err : Err} : Calls (maybeCleanup id isFinal err) (PlainCall id) := by
  unfold maybeCleanup
  split
  · refine calls_ask rfl fun r _ => ?_
    cases r <;> exact .ret _
  · exact .ret _

theorem movedUnder_calls {step : String} : Calls (movedUnder id step isFinal) (PlainCall id) := by
  refine calls_ask rfl fun r _ => ?_
  cases r with
  | error err => exact maybeCleanup_calls
  | ok sbx =>
    dsimp only
    split
    · exact .ret _
    · exact maybeCleanup_calls

theorem stepAcknowledge_calls : Calls (stepAcknowledge id isFinal) (PlainCall id) := by
  refine calls_ask rfl fun r _ => ?_
  cases r with
  | error err => exact maybeCleanup_calls
  | ok sbx =>
    dsimp only
    split
    · exact .ret _
    · refine calls_ask ⟨rfl, by decide⟩ fun r _ => ?_
      obtain err | _ | _ := r
      · exact maybeCleanup_calls
      · exact movedUnder_calls
      · exact .ret _

theorem stepStartSandbox_calls {sbx : Sandbox} (h : sbx.id = id) :
    Calls (stepStartSandbox sbx isFinal) (CreateCall id) := by
  subst h
  unfold stepStartSandbox
  split
  · exact maybeCleanup_calls.create
  refine calls_ask trivial fun r _ => ?_
  obtain err | worker := r
  · exact maybeCleanup_calls.create
  refine calls_ask trivial fun r _ => ?_
  obtain err | _ := r
  · exact maybeCleanup_calls.create
  refine calls_ask rfl fun ref _ => calls_ask trivial fun r _ => ?_
  obtain err | _ := r
  · exact maybeCleanup_calls.create
  refine calls_ask ⟨rfl, by decide⟩ fun r _ => ?_
  obtain err | _ := r
  · exact maybeCleanup_calls.create
  · exact stepAcknowledge_calls.create

theorem buildCandidates_calls (workers : List Worker) :
    Calls (buildCandidates workers) (PlainCall id) := by
  induction workers with
  | nil => exact .ret _
  | cons w rest ih =>
    refine calls_ask trivial fun clock _ => ?_
    split
    · exact ih
    refine calls_ask trivial fun r _ => ?_
    obtain err | _ := r
    · exact ih
    refine calls_ask trivial fun r _ => ?_
    obtain err | info := r
    · exact ih
    · exact ih.bind fun _ => .ret _

theorem noChoice_calls {droppedFull : Bool} {err : Err} :
    Calls (noChoice id isFinal droppedFull err) (PlainCall id) := by
  unfold noChoice
  split
  · exact maybeCleanup_calls
  split <;> exact maybeCleanup_calls

theorem assignLoop_calls {next : Option Sandbox → Work}
    (h : ∀ a, (∀ sbx, a = some sbx → sbx.id = id) → Calls (next a) (CreateCall id)) (n : Nat)
    (candidates : List WorkerCandidate) (droppedFull : Bool) :
    Calls (assignLoop id isFinal next n candidates droppedFull) (CreateCall id) := by
  induction n generalizing candidates droppedFull with
  | zero => exact noChoice_calls.create
  | succ n ih =>
    refine calls_ask trivial fun draw _ => ?_
    split
    · exact noChoice_calls.create
    · refine calls_ask rfl fun r answered => ?_
      obtain err | assigned := r
      · dsimp only
        split
        · exact ih _ _
        · exact maybeCleanup_calls.create
      · exact h assigned fun sbx eq => answered.1 sbx (congrArg Except.ok eq)

theorem stepAssign_calls {sbx : Sandbox} (h : sbx.id = id) :
    Calls (stepAssign sbx isFinal) (CreateCall id) := by
  unfold stepAssign
  split
  · exact stepStartSandbox_calls h
  subst h
  refine calls_ask trivial fun r _ => ?_
  obtain err | workers := r
  · exact maybeCleanup_calls.create
  refine (buildCandidates_calls workers).create.bind fun candidates =>
    assignLoop_calls (fun a same => ?_) _ _ _
  split
  · exact movedUnder_calls.create
  · rename_i assigned found
    exact stepStartSandbox_calls (same assigned (Option.filter_eq_some_iff.1 found).1)

theorem stepScheduling_calls : Calls (stepScheduling id isFinal) (CreateCall id) := by
  refine calls_ask ⟨rfl, by decide⟩ fun r _ => ?_
  obtain err | _ | _ := r
  · exact maybeCleanup_calls.create
  · exact movedUnder_calls.create
  refine calls_ask rfl fun r answered => ?_
  obtain err | sbx := r
  · exact maybeCleanup_calls.create
  · exact stepAssign_calls (answered.1 sbx rfl)

theorem createJob_calls : Calls (work id isFinal) (CreateCall id) := by
  refine calls_ask rfl fun r answered => ?_
  obtain err | sbx := r
  · exact .ret _
  dsimp only
  split
  · exact stepScheduling_calls
  · exact stepAssign_calls (answered.1 sbx rfl)
  · exact stepStartSandbox_calls (answered.1 sbx rfl)
  · exact stepAcknowledge_calls.create
  all_goals exact .ret _

end CreateJob

section CleanupJob
variable {id : SandboxID} {isFinal : Bool}

theorem removeSandboxOnWorker_calls {workerID : WorkerID} :
    Calls (removeSandboxOnWorker workerID id) (RemoveCall workerID id) := by
  refine calls_ask rfl fun r _ => ?_
  obtain err | worker := r
  · exact .ret _
  refine calls_ask trivial fun r _ => ?_
  obtain err | _ := r
  · exact .ret _
  refine calls_ask ⟨rfl, rfl⟩ fun ref _ => calls_ask trivial fun r _ => ?_
  obtain err | _ := r
  · dsimp only
    split <;> exact .ret _
  · exact .ret _

def Target (target : Option Status) : Prop :=
  target = none ∨ target = some .stopped ∨ target = some .failed

theorem Target.terminal {target : Option Status} (h : Target target) :
    target.getD .failed ∈ Status.terminal := by
  rcases h with rfl | rfl | rfl <;> decide

theorem finish_calls {target : Status} (h : target ∈ Status.terminal) :
    Calls (CleanupSandboxWorker.finish id target) (CleanupCall id) := by
  refine calls_ask ⟨rfl, h, rfl⟩ fun r _ => ?_
  cases r <;> exact .ret _

theorem clear_calls {target : Status} (h : target ∈ Status.terminal) :
    Calls (CleanupSandboxWorker.clear id target) (CleanupCall id) := by
  refine calls_ask rfl fun r _ => ?_
  cases r with
  | error err => exact .ret _
  | ok _ => exact finish_calls h

theorem cleanupJob_calls {target : Option Status} (h : Target target) :
    Calls (CleanupSandboxWorker.work id target isFinal) (CleanupCall id) := by
  refine calls_ask rfl fun r _ => ?_
  obtain err | sbx := r
  · exact .ret _
  dsimp only
  split
  · exact .ret _
  split
  · exact finish_calls h.terminal
  refine (removeSandboxOnWorker_calls.mono fun _ => RemoveCall.cleanup).bind fun r => ?_
  split
  · exact clear_calls h.terminal
  split
  · exact clear_calls (by decide)
  · exact .ret _

end CleanupJob

section Requests
variable {id : SandboxID} {req : WorkerHeartbeat}

theorem awaitCreation_calls : Calls (HTTPHandlers.awaitCreation id) HandlerCall := by
  refine calls_ask trivial fun event _ => ?_
  cases event with
  | completed =>
    refine calls_ask trivial fun r _ => ?_
    cases r <;> exact .ret _
  | cancelled errors =>
    dsimp only
    split <;> exact .ret _
  | requestDone | closed | discarded => exact .ret _

theorem createSandbox_calls {user : Option String} {body : Option CreateBody} :
    Calls (HTTPHandlers.createSandbox user body) HandlerCall := by
  unfold HTTPHandlers.createSandbox
  split
  · exact .ret _
  · exact .ret _
  split
  · exact .ret _
  split
  · exact .ret _
  refine calls_ask trivial fun r _ => ?_
  obtain err | _ | _ := r
  · exact .ret _
  · exact .ret _
  refine calls_ask trivial fun nanos _ => calls_ask trivial fun uuid _ => calls_ask trivial
    fun clock _ => calls_ask ⟨rfl, rfl⟩ fun r _ => ?_
  cases r with
  | error err => exact .ret _
  | ok _ => exact awaitCreation_calls

theorem deleteSandbox_calls {user : Option String} :
    Calls (HTTPHandlers.deleteSandbox user id) HandlerCall := by
  unfold HTTPHandlers.deleteSandbox
  split
  · exact .ret _
  split
  · exact .ret _
  refine calls_ask trivial fun r _ => ?_
  obtain err | sbx := r
  · dsimp only
    split <;> exact .ret _
  dsimp only
  split
  · unfold HTTPHandlers.deleteOwned
    split
    · exact .ret _
    refine calls_ask trivial fun r _ => ?_
    obtain err | _ | _ := r <;> exact .ret _
  · exact .ret _

theorem registerWorker_calls :
    Calls (EventGRPCServer.registerWorker req) HandlerCall := by
  unfold EventGRPCServer.registerWorker
  split
  · exact .ret _
  refine calls_ask trivial fun clock _ => calls_ask trivial fun r _ => ?_
  cases r <;> exact .ret _

def HeartbeatCall (req : WorkerHeartbeat) : Call → Prop
  -- the calls of a heartbeat carry its token, and reconcile what it lists
  | .reconcileTx w inv => (w.id = trimSpace req.workerID ∧ w.fencingToken = req.fencingToken) ∧
      inv = EventGRPCServer.inventoryFromEntries req.sandboxes
  | c => TokenCall (trimSpace req.workerID) req.fencingToken c

theorem HeartbeatCall.token {c : Call} (h : HeartbeatCall req c) :
    TokenCall (trimSpace req.workerID) req.fencingToken c := by
  cases c with
  | reconcileTx => exact h.1
  | _ => exact h

theorem updated_calls {w : Worker} {r : Except Err Bool}
    (h : w.id = trimSpace req.workerID ∧ w.fencingToken = req.fencingToken) :
    Calls (EventGRPCServer.updated w r) (HeartbeatCall req) := by
  obtain err | _ | _ := r
  · exact .ret _
  · exact calls_ask h fun _ _ => .ret _
  · exact .ret _

theorem reportWorkerHeartbeat_calls :
    Calls (EventGRPCServer.reportWorkerHeartbeat req) fun c =>
      trimSpace req.workerID ≠ "" ∧ 0 < req.fencingToken ∧ HeartbeatCall req c := by
  unfold EventGRPCServer.reportWorkerHeartbeat
  split
  · exact .ret _
  rename_i named
  split
  · exact .ret _
  rename_i positive
  have with_token {c : Call} (h : HeartbeatCall req c) :=
    And.intro named (And.intro (Int.not_le.1 positive) h)
  refine calls_ask (with_token trivial) fun clock _ => ?_
  have sent : (EventGRPCServer.workerFromHeartbeat clock req).id = trimSpace req.workerID ∧
      (EventGRPCServer.workerFromHeartbeat clock req).fencingToken = req.fencingToken := ⟨rfl, rfl⟩
  have after (r : Except Err Bool) :=
    (updated_calls (r := r) sent).mono fun c => with_token (c := c)
  dsimp only
  split
  · exact calls_ask (with_token ⟨sent, rfl⟩) fun r _ => after r
  · exact calls_ask (with_token sent) fun r _ => after r

theorem applyStatusFromState_calls {workerID : WorkerID} {token : Int} {state : SandboxState} :
    Calls (EventGRPCServer.applyStatusFromState id workerID token state)
      (EventCall workerID token) := by
  cases state with
  | running => exact calls_ask ⟨rfl, rfl, rfl, rfl⟩ fun _ _ => .ret _
  | unspecified | starting | paused | unknown | dead => exact .ret _

theorem storeEvent_calls {e : SandboxEvent} {state : SandboxState} :
    Calls (EventGRPCServer.storeEvent e state) (EventCall e.workerID e.fencingToken) := by
  refine calls_ask ⟨rfl, rfl⟩ fun r _ => ?_
  cases r with
  | error err =>
    dsimp only
    split <;> exact .ret _
  | ok _ => exact applyStatusFromState_calls.bind fun _ => .ret _

theorem recordEvent_calls {req : SandboxEventRequest} {eventID : String} {clock : Int} :
    Calls (EventGRPCServer.recordEvent req eventID clock)
      (EventCall (trimSpace req.workerID) req.fencingToken) := by
  unfold EventGRPCServer.recordEvent
  split
  · exact .ret _
  · exact storeEvent_calls

theorem ingestSandboxEvent_calls {req : SandboxEventRequest} :
    Calls (EventGRPCServer.ingestSandboxEvent req)
      (EventCall (trimSpace req.workerID) req.fencingToken) := by
  unfold EventGRPCServer.ingestSandboxEvent
  dsimp only
  split
  · exact calls_ask trivial fun _ _ => calls_ask trivial fun _ _ => recordEvent_calls
  · exact calls_ask trivial fun _ _ => recordEvent_calls

end Requests

def Kind.isRequest : Kind → Bool
  | .createJob .. | .cleanupJob .. | .removeOrphanJob .. => false
  | _ => true

def Kind.isHandler : Kind → Bool
  | .reportHeartbeat _ => false
  | k => k.isRequest

theorem handler_calls {k : Kind} (h : k.isHandler = true) : Calls (body k) HandlerCall := by
  cases k with
  | createSandbox user body => exact createSandbox_calls.bind fun _ => .ret _
  | deleteSandbox user id => exact deleteSandbox_calls.bind fun _ => .ret _
  | createJob id isFinal => cases h
  | cleanupJob id target isFinal => cases h
  | removeOrphanJob workerID id => cases h
  | reapSandboxes livenessTimeout workerLostTimeout createTimeout | reapWorkers timeout =>
    refine calls_ask trivial fun r _ => ?_
    cases r <;> exact .ret _
  | registerWorker req => exact registerWorker_calls.bind fun _ => .ret _
  | reportHeartbeat req => cases h
  | ingestEvent req =>
    exact (ingestSandboxEvent_calls.mono fun _ => EventCall.handler).bind fun _ => .ret _

theorem request_calls {k : Kind} (h : k.isRequest = true) : Calls (body k) RequestCall := by
  by_cases handler : k.isHandler = true
  · exact (handler_calls handler).mono fun _ => HandlerCall.request
  cases k with
  | reportHeartbeat req =>
    exact (reportWorkerHeartbeat_calls.mono fun _ h => h.2.2.token.request).bind fun _ => .ret _
  | _ => exact absurd h handler

def Targets (db : Database) : Prop :=
  ∀ id target, JobArgs.cleanupSandbox id target ∈ db.jobs → Target target

theorem body_lawful {k : Kind} {db : Database} (targets : Targets db) (h : enabled k db = true) :
    Calls (body k) Lawful := by
  by_cases request : k.isRequest = true
  · exact (request_calls request).mono fun _ => RequestCall.lawful
  cases k with
  | createJob id isFinal =>
    exact (createJob_calls.mono fun _ => CreateCall.lawful).bind fun _ => .ret _
  | cleanupJob id target isFinal =>
    have calls : Calls (CleanupSandboxWorker.work id target isFinal) (CleanupCall id) :=
      cleanupJob_calls (targets id target (of_decide_eq_true h))
    exact (calls.mono fun _ => CleanupCall.lawful).bind fun _ => .ret _
  | removeOrphanJob workerID id =>
    exact (removeSandboxOnWorker_calls.mono fun _ => RemoveCall.lawful).bind fun _ => .ret _
  | _ => cases request rfl

section FirstSandbox
/- One sandbox through its life on one worker, for statements about a run that
exists: requests and jobs are numbered in the order they start. -/

def firstHello : WorkerHeartbeat where
  workerID := "worker-1"
  status := "active"
  address := "10.0.0.1"
  port := 50051
  capacity := 1
  cpuBudget := 2
  memBudget := 1024
  cpuUsage := 0
  memUsage := 0
  fencingToken := 0
  inventoryComplete := false
  sandboxes := []

def firstID : SandboxID := "11111111-1111-4111-8111-111111111111"

def firstOrder : CreateBody := ⟨"node", "", 0, 0, "", 0, 0⟩

def firstCreated : List (Action Kind Env Empty) :=
  [.spawn (.registerWorker firstHello), .call 0 {}, .call 0 {},
    .spawn (.createSandbox (some "user-1") (some firstOrder)), .call 1 {}, .call 1 {},
    .call 1 { uuid := firstID }, .call 1 {}, .call 1 {}]

def firstStarted : List (Action Kind Env Empty) :=
  .spawn (.createJob firstID false) :: List.replicate 16 (.call 2 {})

def firstCleared : List (Action Kind Env Empty) :=
  [.spawn (.deleteSandbox (some "user-1") firstID), .call 3 {}, .call 3 {},
    .spawn (.cleanupJob firstID (some .stopped) false)] ++ List.replicate 6 (.call 4 {})

def firstStopped : List (Action Kind Env Empty) := [.call 4 {}]

def firstLink (s : State) : Option (Status × Option WorkerID) :=
  (s.shared.db.sandbox? firstID).map fun r => (r.status, r.workerID)

end FirstSandbox
end Fire2.Orchestrator
