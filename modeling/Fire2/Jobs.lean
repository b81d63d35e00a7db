import Fire2.Calls

/-! The River jobs: create_sandbox, cleanup_sandbox, remove_orphan_sandbox and
the two reapers. A job returns the error its attempt ends with; `none` is nil.
`isFinal` is `job.Attempt >= job.MaxAttempts`. -/

namespace Fire2
open Interleaving

def ask (c : Call) : Job c.Answer := Prog.perform c

abbrev Work := Job (Option Err)

namespace Address

/-- `net.SplitHostPort` accepts the address. -/
def splitHostPort (s : List Char) : Bool :=
  match s.reverse.findIdx? (· = ':') with
  | none => false
  | some back =>
    let i := s.length - 1 - back
    if s.head? = some '[' then
      match s.findIdx? (· = ']') with
      | none => false
      | some close =>
        close + 1 = i && !(s.drop 1).contains '[' && !(s.drop (close + 1)).contains ']'
    else !(s.take i).contains ':' && !s.contains '[' && !s.contains ']'

/-- `net.JoinHostPort`. -/
def joinHostPort (host port : String) : String :=
  if host.toList.contains ':' then "[" ++ host ++ "]:" ++ port else host ++ ":" ++ port

end Address

def normalizeWorkerAddress (address : String) (port : Int) : String :=
  let trimmed := trimSpace address
  let address := if trimmed = "" then "127.0.0.1" else trimmed
  if Address.splitHostPort address.toList then address
  else if port ≤ 0 then ""
  else Address.joinHostPort address (toString port)

def Worker.dialTarget (w : Worker) : String := normalizeWorkerAddress w.address w.port

namespace CreateSandboxWorker
open Scheduler

def maybeCleanup (id : SandboxID) (isFinal : Bool) (origErr : Err) : Work :=
  -- on the final attempt, claim the sandbox and enqueue its cleanup
  if isFinal then do
    match ← ask (.cleanupTx id) with
    | .error _ => return some origErr
    | .ok () =>
      return some (.jobCancel (.wrap ("max attempts exhausted for sandbox=" ++ id) origErr))
  else return some origErr

/-- What the job has left to do: nothing when the sandbox is running or has
ended, which is a cancellation. -/
def settled (sbx : Sandbox) : Option (Option Err) :=
  match sbx.status with
  | .running => some none
  | .stopped | .failed | .cleanupPending | .cleanedUp =>
    some (some (.jobCancel (.new
      ("sandbox " ++ sbx.id ++ " ended as " ++ sbx.status.text ++ " before it came up"))))
  | _ => none

def movedUnder (id : SandboxID) (step : String) (isFinal : Bool) : Work := do
  -- a guarded update changed nothing: read what the sandbox became
  match ← ask (.getSandbox id) with
  | .error err => maybeCleanup id isFinal err
  | .ok sbx =>
    match settled sbx with
    | some result => return result
    | none =>
      maybeCleanup id isFinal
        (.new ("sandbox " ++ id ++ " moved to " ++ sbx.status.text ++ " during " ++ step))

def stepAcknowledge (id : SandboxID) (isFinal : Bool) : Work := do
  match ← ask (.getSandbox id) with
  | .error err => maybeCleanup id isFinal err
  | .ok sbx =>
    match settled sbx with
    | some result => return result
    | none =>
      match ← ask (.updateStatus id .running [.starting]) with
      | .error err => maybeCleanup id isFinal (.wrap "set running" err)
      | .ok none => movedUnder id "acknowledgement" isFinal
      | .ok (some _) => return none

def createRequest (sbx : Sandbox) : CreateSandboxRequest where
  id := sbx.id
  runtime := sbx.runtime
  image := sbx.image
  port := sbx.port
  ttl := sbx.ttl
  previewURL := sbx.previewURL
  vcpuCount := sbx.vcpuCount
  memSizeMib := sbx.memSizeMib

def stepStartSandbox (sbx : Sandbox) (isFinal : Bool) : Work :=
  match sbx.workerID with
  | none => maybeCleanup sbx.id isFinal (.new "sandbox has no worker_id at assigned step")
  | some workerID => do
    match ← ask (.getWorker workerID) with
    | .error err => maybeCleanup sbx.id isFinal (.wrap ("get worker " ++ workerID) err)
    | .ok worker =>
      match ← ask (.newClient worker.dialTarget) with
      | .error err => maybeCleanup sbx.id isFinal (.wrap ("connect worker " ++ workerID) err)
      | .ok () =>
        let ref ← ask (.sendCreate workerID worker.dialTarget (createRequest sbx))
        match ← ask (.await ref) with
        | .error err => maybeCleanup sbx.id isFinal (.wrap "worker CreateSandbox" err)
        | .ok () =>
          match ← ask (.updateStatus sbx.id .starting [.assigned]) with
          | .error err => maybeCleanup sbx.id isFinal (.wrap "set starting" err)
          | .ok _ => stepAcknowledge sbx.id isFinal

/-- The zero `time.Time`, in microseconds. -/
def zeroTime : Int := -62135596800 * microsecondsPerSecond

def heartbeatExpired (clock lastHeartbeat : Int) : Bool :=
  lastHeartbeat = zeroTime ∨
    WorkerRepository.defaultHeartbeatTimeout < clock - lastHeartbeat * 1000

def buildCandidates : List Worker → Job (List WorkerCandidate)
  | [] => return []
  | w :: rest => do
    let clock ← ask .timeNow
    if heartbeatExpired clock w.lastHeartbeat then buildCandidates rest
    else
      match ← ask (.newClient w.dialTarget) with
      | .error _ => buildCandidates rest
      | .ok () =>
        match ← ask (.getWorkerInfo w.id w.dialTarget) with
        | .error _ => buildCandidates rest
        | .ok info => do
          let others ← buildCandidates rest
          return ⟨w, some info⟩ :: others

def noChoice (id : SandboxID) (isFinal droppedFull : Bool) (err : Err) : Work :=
  -- no worker could be chosen. A full cluster is treated as final.
  if err.is .clusterFull then maybeCleanup id true (.wrap "choose worker" err)
  else if droppedFull && err.is .noWorkerCandidates then
    maybeCleanup id true (.wrap "choose worker" (.sentinel .clusterFull))
  else maybeCleanup id isFinal (.wrap "choose worker" err)

/-- The loop of stepAssign. Every pass that goes on drops the worker it chose,
so the number of candidates bounds the passes and `0` is the pass over none. -/
def assignLoop (id : SandboxID) (isFinal : Bool) (next : Option Sandbox → Work) :
    Nat → List WorkerCandidate → Bool → Work
  | 0, _, droppedFull => noChoice id isFinal droppedFull (.sentinel .noWorkerCandidates)
  | n + 1, candidates, droppedFull => do
    let draw ← ask .draw
    match chooseLeastUsedWorker draw candidates with
    | .error err => noChoice id isFinal droppedFull err
    | .ok chosen =>
      match ← ask (.assignWorker id chosen.worker.id) with
      | .ok assigned => next assigned
      | .error err =>
        if err.is .workerFull then
          assignLoop id isFinal next n
            (candidates.filter fun c => c.worker.id ≠ chosen.worker.id) true
        else maybeCleanup id isFinal (.wrap "assign worker" err)

def stepAssign (sbx : Sandbox) (isFinal : Bool) : Work :=
  if sbx.workerID.isSome then stepStartSandbox sbx isFinal
  else do
    match ← ask .listWorkers with
    | .error err => maybeCleanup sbx.id isFinal (.wrap "list workers" err)
    | .ok workers =>
      let candidates ← buildCandidates workers
      assignLoop sbx.id isFinal (fun assigned =>
        match assigned.filter fun s => s.workerID.isSome with
        | none => movedUnder sbx.id "assignment" isFinal
        | some assigned => stepStartSandbox assigned isFinal) candidates.length candidates false

def stepScheduling (id : SandboxID) (isFinal : Bool) : Work := do
  match ← ask (.updateStatus id .scheduling [.pending]) with
  | .error err => maybeCleanup id isFinal (.wrap "set scheduling" err)
  | .ok none => movedUnder id "scheduling" isFinal
  | .ok (some _) =>
    match ← ask (.getSandbox id) with
    | .error err => maybeCleanup id isFinal err
    | .ok sbx => stepAssign sbx isFinal

def work (id : SandboxID) (isFinal : Bool) : Work := do
  match ← ask (.getSandbox id) with
  | .error err => return some (.wrap ("get sandbox " ++ id) err)
  | .ok sbx =>
    match sbx.status with
    | .pending => stepScheduling id isFinal
    | .scheduling => stepAssign sbx isFinal
    | .assigned => stepStartSandbox sbx isFinal
    | .starting => stepAcknowledge id isFinal
    | .running | .stopped | .failed | .cleanupPending | .cleanedUp =>
      return (settled sbx).join

end CreateSandboxWorker

def removeSandboxOnWorker (workerID : WorkerID) (id : SandboxID) : Work := do
  -- ask the worker to remove the sandbox; `none` once it confirmed
  match ← ask (.getWorker workerID) with
  | .error err => return some (.wrap ("get worker " ++ workerID) err)
  | .ok worker =>
    match ← ask (.newClient worker.dialTarget) with
    | .error err => return some (.wrap ("connect worker " ++ workerID) err)
    | .ok () =>
      let ref ← ask (.sendRemove workerID worker.dialTarget id)
      match ← ask (.await ref) with
      | .ok () => return none
      | .error err =>
        if err.code = .notFound then return none
        else return some (.wrap ("remove sandbox " ++ id ++ " on worker " ++ workerID) err)

namespace CleanupSandboxWorker

def allowedFrom : List Status :=
  [.cleanupPending, .pending, .scheduling, .assigned, .starting, .running]

def finish (id : SandboxID) (target : Status) : Work := do
  match ← ask (.updateStatus id target allowedFrom) with
  | .error err =>
    return some (.wrap ("cleanup: set " ++ target.text ++ " for sandbox=" ++ id) err)
  | .ok _ => return none

def clear (id : SandboxID) (target : Status) : Work := do
  match ← ask (.clearWorker id) with
  | .error err => return some (.wrap ("cleanup: clear worker_id for sandbox=" ++ id) err)
  | .ok () => finish id target

def work (id : SandboxID) (targetStatus : Option Status) (isFinal : Bool) : Work := do
  match ← ask (.getSandbox id) with
  | .error err => return some (.wrap ("cleanup: get sandbox " ++ id) err)
  | .ok sbx =>
    if sbx.status ∈ Status.terminal then return none
    else
      let target := targetStatus.getD .failed
      match sbx.workerID with
      | none => finish id target
      | some workerID =>
        match ← removeSandboxOnWorker workerID id with
        | none => clear id target
        | some err =>
          if isFinal then clear id .failed
          else return some (.wrap ("cleanup: sandbox=" ++ id) err)

end CleanupSandboxWorker

def ReapStage.text : ReapStage → String
  | begin => "begin tx"
  | ttl => "claim ttl-expired"
  | liveness => "claim liveness-expired"
  | stalled => "claim stalled creation"
  | enqueue => "enqueue cleanup"
  | commit => "commit"

def reapSandboxes (livenessTimeout workerLostTimeout createTimeout : Int) : Work := do
  match ← ask (.reapTx livenessTimeout workerLostTimeout createTimeout) with
  | .error (stage, err) => return some (.wrap ("reap sandbox: " ++ stage.text) err)
  | .ok _ => return none

def reapWorkers (timeout : Int) : Work := do
  match ← ask (.markStaleInactive timeout) with
  | .error err => return some (.wrap "reap workers" err)
  | .ok _ => return none

end Fire2
