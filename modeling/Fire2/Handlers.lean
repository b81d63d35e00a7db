import Fire2.Budgets
import Fire2.Jobs

/-! The HTTP handlers that create and delete sandboxes, and the gRPC handlers
the workers call: registration, heartbeats, sandbox events. Decoding of the
requests is outside this model: an absent body is one that did not decode, an
absent user a request without a valid session. -/

namespace Fire2
open Interleaving

/-- An HTTP answer; a created sandbox is the body of a 201. -/
inductive Response where
  | text (code : Nat) (body : String)
  | created (sbx : Sandbox)
  | dropped
  deriving DecidableEq, Repr

structure CreateBody where
  runtime : String
  image : String
  port : Int
  ttl : Int
  previewURL : String
  vcpuCount : Int
  memSizeMib : Int
  deriving DecidableEq, Repr

namespace HTTPHandlers

def checkSandboxSize (vcpuCount memSizeMib : Int) : Option Err :=
  if sandboxVcpu < vcpuCount then
    some (.tag (.sentinel .sandboxTooLarge)
      ("vcpu_count " ++ toString vcpuCount ++ ", at most " ++ toString sandboxVcpu))
  else if sandboxMemMiB < memSizeMib then
    some (.tag (.sentinel .sandboxTooLarge)
      ("mem_size_mib " ++ toString memSizeMib ++ ", at most " ++ toString sandboxMemMiB))
  else none

def defaultImageForRuntime (runtime : String) : String :=
  let name := toLower (trimSpace runtime)
  if name ∈ ["node", "nodejs", "javascript", "typescript"] then "node:20-alpine"
  else if name ∈ ["python", "py"] then "python:3.12-alpine"
  else if name ∈ ["go", "golang"] then "golang:1.23-alpine"
  else "node:20-alpine"

def orDefault (value default : Int) : Int := if value ≤ 0 then default else value

def newSandbox (id : SandboxID) (user : String) (createdAt port : Int) (body : CreateBody) :
    Sandbox where
  id := id
  runtime := body.runtime
  status := .pending
  image := if body.image = "" then defaultImageForRuntime body.runtime else body.image
  port := port
  ttl := orDefault body.ttl 3600
  previewURL := body.previewURL
  createdAt := createdAt
  workerID := none
  vcpuCount := orDefault body.vcpuCount sandboxVcpu
  memSizeMib := orDefault body.memSizeMib sandboxMemMiB
  userID := some user

def failedClusterFull (errors : List String) : Bool :=
  match errors.getLast? with
  | none => false
  | some text => text.toList.tails.any fun t => Sentinel.clusterFull.text.toList.isPrefixOf t

def awaitCreation (id : SandboxID) : Job Response := do
  match ← ask .awaitJob with
  | .requestDone => return .dropped
  | .closed => return .text 502 "failed to create sandbox"
  | .completed =>
    match ← ask (.getSandbox id) with
    | .error _ => return .text 500 "failed to fetch sandbox"
    | .ok sbx => return .created sbx
  | .cancelled errors =>
    if failedClusterFull errors then return .text 503 "no worker capacity available"
    else return .text 502 "failed to create sandbox"
  | .discarded => return .text 502 "failed to create sandbox"

def insertSandbox (user : String) (body : CreateBody) : Job Response := do
  let nanos ← ask .timeNow
  let port := orDefault body.port (10000 + nanos.tmod 50000)
  let id ← ask .newUUID
  let clock ← ask .timeNow
  match ← ask (.createTx (newSandbox id user (clock / 1000) port body)) with
  | .error _ => return .text 500 "failed to create sandbox"
  | .ok () => awaitCreation id

def createSandbox (user : Option String) (body : Option CreateBody) : Job Response :=
  match user, body with
  | none, _ => return .text 401 "authentication required"
  | some _, none => return .text 400 "invalid json"
  | some user, some body =>
    if body.runtime = "" then return .text 400 "runtime is required"
    else
      match checkSandboxSize body.vcpuCount body.memSizeMib with
      | some err => return .text 400 err.text
      | none => do
        match ← ask .listWorkers with
        | .error _ => return .text 500 "failed to list workers"
        | .ok [] => return .text 503 "no workers available"
        | .ok (_ :: _) => insertSandbox user body

def deleteOwned (id : SandboxID) (sbx : Sandbox) : Job Response :=
  if sbx.status ∈ [Status.stopped, .failed, .cleanupPending, .cleanedUp] then return .text 204 ""
  else do
    match ← ask (.deleteTx id) with
    | .error _ => return .text 500 "delete sandbox failed"
    | .ok false => return .text 204 ""
    | .ok true => return .text 202 ""

def deleteSandbox (user : Option String) (id : SandboxID) : Job Response :=
  match user with
  | none => return .text 401 "authentication required"
  | some user =>
    if id = "" then return .text 400 "id is required"
    else do
      match ← ask (.getSandbox id) with
      | .error err =>
        if err.is .sandboxNotFound then return .text 404 "not found"
        else return .text 500 "failed to fetch sandbox"
      | .ok sbx =>
        if sbx.userID = some user then deleteOwned id sbx
        else return .text 404 "not found"

end HTTPHandlers

structure InventoryEntry where
  sandboxID : String
  state : SandboxState
  deriving DecidableEq, Repr

structure WorkerHeartbeat where
  workerID : String
  status : String
  address : String
  port : Int
  capacity : Int
  cpuBudget : Int
  memBudget : Int
  cpuUsage : Int
  memUsage : Int
  fencingToken : Int
  inventoryComplete : Bool
  sandboxes : List InventoryEntry
  deriving DecidableEq, Repr

structure SandboxEventRequest where
  id : String
  sandboxID : String
  workerID : String
  occurredAt : Option Int
  fencingToken : Int
  state : SandboxState
  deriving DecidableEq, Repr

namespace EventGRPCServer
open SandboxRepository

def workerFromHeartbeat (clock : Int) (req : WorkerHeartbeat) : Worker where
  -- a status a worker may not report is taken for active
  id := trimSpace req.workerID
  status := if req.status = "inactive" then .inactive else .active
  address := req.address
  port := req.port
  capacity := req.capacity
  cpuBudget := req.cpuBudget
  memBudget := req.memBudget
  cpuUsage := req.cpuUsage
  memUsage := req.memUsage
  fencingToken := req.fencingToken
  lastHeartbeat := clock / 1000

def Inventory.add (inv : Inventory) (id : SandboxID) : SandboxState → Inventory
  | .running => { inv with running := inv.running ++ [id] }
  | .starting | .paused => { inv with live := inv.live ++ [id] }
  | .dead => { inv with dead := inv.dead ++ [id] }
  | .unknown | .unspecified => { inv with unknown := inv.unknown ++ [id] }

def inventoryFromEntries (entries : List InventoryEntry) : Inventory :=
  -- blank IDs are dropped, and so is every entry of an ID but the first
  (entries.foldl (fun (acc : Inventory × List SandboxID) entry =>
    let id := trimSpace entry.sandboxID
    if id = "" ∨ id ∈ acc.2 then acc
    else (Inventory.add acc.1 id entry.state, id :: acc.2)) (⟨[], [], [], []⟩, [])).1

def heartbeatError (err : Err) : Err :=
  if err.is .fenced then .rpc .failedPrecondition "worker fencing token is stale"
  else if err.is .workerUnknown then .rpc .notFound "worker unknown, register again"
  else .rpc .internal ("heartbeat: " ++ err.text)

def registerWorker (req : WorkerHeartbeat) : Job (Except Err Int) :=
  if trimSpace req.workerID = "" then return .error (.rpc .invalidArgument "worker_id is required")
  else do
    let clock ← ask .timeNow
    match ← ask (.register (workerFromHeartbeat clock req)) with
    | .error err => return .error (.rpc .internal ("register worker: " ++ err.text))
    | .ok w => return .ok w.fencingToken

/-- What follows the guarded statement of Update: a row it did not match is
explained by a second read. -/
def updated (w : Worker) : Except Err Bool → Job (Except Err Unit)
  | .ok true => return .ok ()
  | .ok false => do
    let err ← ask (.whyRefused w.id w.fencingToken)
    return .error (heartbeatError err)
  | .error err => return .error (heartbeatError err)

def reportWorkerHeartbeat (req : WorkerHeartbeat) : Job (Except Err Unit) :=
  if trimSpace req.workerID = "" then return .error (.rpc .invalidArgument "worker_id is required")
  else if req.fencingToken ≤ 0 then
    return .error (.rpc .invalidArgument "fencing_token is required")
  else do
    let clock ← ask .timeNow
    let w := workerFromHeartbeat clock req
    if req.inventoryComplete then
      let answer ← ask (.reconcileTx w (inventoryFromEntries req.sandboxes))
      updated w answer
    else
      let answer ← ask (.updateWorker w)
      updated w answer

def statusTransitionForState : SandboxState → Option (Status × List Status)
  | .running => some (.running, [.starting, .running])
  | _ => none

def stateName : SandboxState → String
  | .unspecified => "unspecified"
  | .starting => "starting"
  | .running => "running"
  | .paused => "paused"
  | .unknown => "unknown"
  | .dead => "dead"

def applyStatusFromState (id : SandboxID) (workerID : WorkerID) (token : Int)
    (state : SandboxState) : Job Unit :=
  match statusTransitionForState state with
  | none => return ()
  | some (target, allowedFrom) => do
    let _ ← ask (.updateStatusFenced id workerID token target allowedFrom)
    return ()

def storeEvent (e : SandboxEvent) (state : SandboxState) : Job (Except Err Unit) := do
  match ← ask (.createSandboxEvent e) with
  | .error err =>
    if err.is .eventFenced then
      return .error (.rpc .failedPrecondition
        "worker is not registered or its fencing token is stale")
    else return .error (.rpc .internal ("store sandbox event: " ++ err.text))
  | .ok _ => do
    applyStatusFromState e.sandboxID e.workerID e.fencingToken state
    return .ok ()

def validateEvent (req : SandboxEventRequest) : Option Err :=
  if trimSpace req.sandboxID = "" then some (.rpc .invalidArgument "sandbox_id is required")
  else if trimSpace req.workerID = "" ∨ req.state = .unspecified then
    some (.rpc .invalidArgument "missing required fields")
  else if req.fencingToken ≤ 0 then some (.rpc .invalidArgument "fencing_token is required")
  else none

def recordEvent (req : SandboxEventRequest) (id : String) (clock : Int) : Job (Except Err Unit) :=
  match validateEvent req with
  | some err => return .error err
  | none =>
    storeEvent ⟨id, trimSpace req.sandboxID, trimSpace req.workerID, stateName req.state,
      req.occurredAt.getD (clock / 1000), req.fencingToken⟩ req.state

def ingestSandboxEvent (req : SandboxEventRequest) : Job (Except Err Unit) := do
  let given := trimSpace req.id
  let id ← if given = "" then ask .newUUID else pure given
  let clock ← ask .timeNow
  recordEvent req id clock

end EventGRPCServer
end Fire2
