import Fire2.Directories

/-! Package sandboxmgr: a Manager with its map of sandboxes, one Service (an
actor) per sandbox, and the host they act on.

A section under the Manager's lock is one step, and so is an operation on a
channel. A VM operation takes effect when it returns; it is under way as long
as its thread has it ahead. One that its worker is killed in is one that fails
with what it had done by then, before the restart. One pass of `Service.run`'s
loop is a program of its own, started by what its select has received. A select
among ready cases, what an operation returns and what a failed one leaves are
the environment's. A worker process that ends takes every goroutine along and
leaves the host as it is; the next one starts with `Recover`. -/

namespace Fire2.SandboxMgr
open Interleaving

/-- A `*Service`. -/
abbrev Ref := Nat

structure CreateInput where
  id : SandboxID
  vcpuCount : Int
  memSizeMib : Int
  deriving DecidableEq, Repr

inductive Command where
  | create (input : CreateInput)
  | stop
  | remove
  deriving DecidableEq, Repr

def Command.isCreate : Command → Bool
  | create _ => true
  | _ => false

inductive Wake where
  | ctxDone
  | command (sender : Nat) (cmd : Command)
  | exited
  | tick
  deriving DecidableEq, Repr

/-- Where the goroutine of a Service is: in its select, with a command taken, in
the pass some thread runs, on its way out, or gone (`done` is closed). -/
inductive Phase where
  | idle
  | offered (sender : Nat) (cmd : Command)
  | busy (thread : Nat) (wake : Wake)
  | exiting
  | closed
  deriving DecidableEq, Repr

/-- A firecrackerVM; `spawned` says that its client has a handle on a shim. -/
structure VM where
  spawned : Bool
  deriving DecidableEq, Repr

/-- A reply channel belongs to the command it came with. `creator` is the call of
Create that registered the Service, none for one that was adopted, and `begun`
the create command it has taken; the code keeps neither. -/
structure Service where
  id : SandboxID
  vm : Option VM
  state : SandboxState
  watched : Bool
  phase : Phase
  replies : Nat × Command → Option (Option Err)
  creator : Option Nat
  begun : Option Command

structure Entry where
  svc : Ref
  state : SandboxState
  deriving DecidableEq, Repr

/-- An ID in deleting, with the call that put it there and the Service it took
out of the map. The code keeps the ID alone. -/
structure Deletion where
  owner : Nat
  svc : Option Ref
  deriving DecidableEq, Repr

/-- What the host has of a sandbox: its directory, the device of its volume with
the thin ID the device maps, a thin ID that was made for it and has no device,
its VM's process. -/
structure Remnant where
  dir : Bool
  device : Bool
  leaked : Bool
  vm : Bool
  deriving DecidableEq, Repr

def Remnant.volume (r : Remnant) : Bool := r.device || r.leaked

inductive Stage where
  | fresh
  | recovering (thread : Nat)
  | serving
  deriving DecidableEq, Repr

/-- The Manager of the current worker process, and its host. `born` is the
process a thread belongs to, `booted` the sandboxes a vm.Create has returned
success for, `gone` those a Remove was answered nil or not found for. -/
structure Manager where
  services : Table SandboxID Entry
  deleting : Table SandboxID Deletion
  capacity : Int
  events : List (SandboxID × SandboxState)
  cancelled : Bool
  heap : Ref → Option Service
  next : Ref
  stage : Stage
  host : Table SandboxID Remnant
  process : Nat
  born : Nat → Nat
  booted : List SandboxID
  gone : List SandboxID

/-- The operations of a `vm`, in the steps their effect on the host comes in:
newVM; Create is createVolume, spawn, waitRunning; Cleanup is removeVolume,
removeDir. -/
inductive VMOp where
  | newVM | createVolume | spawn | waitRunning | stop | removeVolume | removeDir
  deriving DecidableEq, Repr

inductive ReapOp where
  | kill | removeVolume | removeDir
  deriving DecidableEq, Repr

inductive Call where
  | register (input : CreateInput)
  | forget (id : SandboxID) (ref : Ref)
  | lookup (id : SandboxID)
  | claim (id : SandboxID)
  | release (id : SandboxID) (confirmed : Bool)
  | claimOrphans (ids : List SandboxID)
  | adopt (id : SandboxID) (state : SandboxState)
  | report (ref : Ref) (state : SandboxState)
  | markDead
  | emit (id : SandboxID) (state : SandboxState)
  | serveRequests
  | offer (ref : Ref) (cmd : Command)
  | await (ref : Ref) (cmd : Command)
  | recheck (ref : Ref) (cmd : Command)
  | reply (ref : Ref) (sender : Nat) (cmd : Command) (err : Option Err) (exit : Bool)
  | resume (ref : Ref)
  | close (ref : Ref)
  | fields (ref : Ref)
  | setField (ref : Ref) (state : SandboxState)
  | watch (ref : Ref)
  | unwatch (ref : Ref)
  | vm (ref : Ref) (op : VMOp)
  | queryVM (ref : Ref)
  | listDisk
  | attach (id : SandboxID)
  | queryState (id : SandboxID)
  | reap (id : SandboxID) (op : ReapOp)
  deriving DecidableEq, Repr

inductive Registered where
  | tracked | busy | full
  | fresh (ref : Ref)
  deriving DecidableEq, Repr

inductive Claim where
  | busy | absent
  | held (ref : Ref)
  deriving DecidableEq, Repr

inductive Ran where
  | ok
  | err (e : Err)
  | panicked
  deriving DecidableEq, Repr

structure Fields where
  id : SandboxID
  vm : Option VM
  state : SandboxState
  deriving DecidableEq, Repr

abbrev Call.Answer : Call → Type
  | register _ => Registered
  | lookup _ => Option Ref
  | claim _ => Claim
  | claimOrphans _ => List SandboxID
  | report .. => Bool
  | markDead => List SandboxID
  | offer .. => Bool
  | await .. | recheck .. => Option (Option Err)
  | fields _ => Fields
  | vm .. => Ran
  | queryVM _ => Option (Except Err SandboxState)
  | listDisk => Except Err (List SandboxID)
  | attach _ => Except Err Unit
  | queryState _ => Except Err SandboxState
  | reap .. => Except Err Unit
  | _ => Unit

inductive Fault where
  | none
  | err (text : String)
  | panic
  deriving DecidableEq, Repr

/-- `took` says that an operation that failed took effect all the same, `leaks`
that one on a volume left a thin ID without a device, `lingers` that a process
outlives the signal that was to kill it, `done` which of two ready cases a select
takes. -/
structure Env where
  fault : Fault := .none
  took : Bool := false
  leaks : Bool := false
  lingers : Bool := false
  state : SandboxState := .running
  done : Bool := false
  deriving DecidableEq, Repr

def Env.effective (e : Env) : Bool := e.fault = .none || e.took

def Env.ran (e : Env) : Ran :=
  match e.fault with
  | .none => .ok
  | .err text => .err (.new text)
  | .panic => .panicked

/-- The answer of a query; none when it panics, which outside of a Service ends
the process. -/
def Env.result {α : Type} (e : Env) (a : α) : Option (Except Err α) :=
  match e.fault with
  | .none => some (.ok a)
  | .err text => some (.error (.new text))
  | .panic => none

def eventBuffer : Nat := 256

def newService (id : SandboxID) (creator : Option Nat) : Service where
  id := id
  vm := none
  state := .starting
  watched := false
  phase := .idle
  replies := fun _ => none
  creator := creator
  begun := none

namespace Remnant

def createVolume (e : Env) (r : Remnant) : Remnant :=
  -- the snapshot comes before its device, and is left if deleting it fails too
  { r with
    device := r.device || e.effective
    leaked := r.leaked || (e.fault ≠ .none && e.leaks) }

def removeVolume (e : Env) (r : Remnant) : Remnant :=
  -- only the thin ID that a device maps is deleted, once the device is gone
  { r with
    device := r.device && !e.effective
    leaked := r.leaked || (r.device && e.fault ≠ .none && e.took && e.leaks) }

end Remnant

/-- What an operation leaves of the VM and of its host. A newVM that returns an
error has not made the directory; a stop without a handle does nothing. -/
def VMOp.apply (op : VMOp) (e : Env) (vm : Option VM) (r : Remnant) : Option VM × Remnant :=
  match op with
  | .newVM =>
    match e.fault with
    | .none => (some ⟨false⟩, { r with dir := true })
    | .err _ => (vm, r)
    | .panic => (vm, { r with dir := r.dir || e.took })
  | .createVolume => (vm, r.createVolume e)
  | .spawn =>
    (if e.fault = .none then some ⟨true⟩ else vm, { r with vm := r.vm || e.effective })
  | .waitRunning => (vm, r)
  | .stop =>
    if vm.any VM.spawned then (vm, { r with vm := r.vm && !e.effective }) else (vm, r)
  | .removeVolume => (vm, r.removeVolume e)
  | .removeDir => (vm, { r with dir := r.dir && !e.effective })

def VMOp.ran (op : VMOp) (e : Env) (vm : Option VM) : Ran :=
  if op = .stop ∧ vm.any VM.spawned = false then .ok else e.ran

def ReapOp.apply (op : ReapOp) (e : Env) (r : Remnant) : Remnant :=
  match op with
  | .kill => { r with vm := r.vm && (!e.effective || e.lingers) }
  | .removeVolume => r.removeVolume e
  | .removeDir => { r with dir := r.dir && !e.effective }

namespace Manager

def remnant (s : Manager) (id : SandboxID) : Remnant :=
  (s.host.get? id).getD ⟨false, false, false, false⟩

def tracks (s : Manager) (id : SandboxID) : Bool := (s.services.get? id).isSome

def deletes (s : Manager) (id : SandboxID) : Bool := (s.deleting.get? id).isSome

def hosted (s : Manager) : Nat := s.services.rows.length + s.deleting.rows.length

def setService (s : Manager) (ref : Ref) (svc : Service) : Manager :=
  { s with heap := Function.update s.heap ref (some svc) }

def register (i : Nat) (input : CreateInput) (s : Manager) : Registered × Manager :=
  -- create's section under the lock, once the ID is shaped right
  if s.tracks input.id then (.tracked, s)
  else if s.deletes input.id then (.busy, s)
  else if 0 < s.capacity ∧ s.capacity ≤ s.hosted then (.full, s)
  else
    (.fresh s.next, { s with
      services := s.services.set input.id ⟨s.next, .starting⟩
      heap := Function.update s.heap s.next (some (newService input.id (some i)))
      next := s.next + 1 })

def claim (i : Nat) (id : SandboxID) (s : Manager) : Claim × Manager :=
  -- remove's section under the lock
  if s.deletes id then (.busy, s)
  else
    match s.services.get? id with
    | none => (.absent, { s with gone := id :: s.gone })
    | some e =>
      (.held e.svc, { s with
        services := s.services.erase id
        deleting := s.deleting.set id ⟨i, some e.svc⟩ })

def forget (id : SandboxID) (ref : Ref) (s : Manager) : Manager :=
  -- a failed Create only drops the entry if it is still its own
  match s.services.get? id with
  | some e => if e.svc = ref then { s with services := s.services.erase id } else s
  | none => s

def claimOrphans (i : Nat) : List SandboxID → Manager → List SandboxID × Manager
  | [], s => ([], s)
  | id :: ids, s =>
    if s.tracks id || s.deletes id then claimOrphans i ids s
    else
      let rest := claimOrphans i ids { s with deleting := s.deleting.set id ⟨i, none⟩ }
      (id :: rest.1, rest.2)

def adopt (id : SandboxID) (state : SandboxState) (s : Manager) : Manager :=
  { s with
    services := s.services.set id ⟨s.next, state⟩
    heap := Function.update s.heap s.next
      (some { newService id none with vm := some ⟨true⟩, state, watched := true })
    next := s.next + 1 }

def report (ref : Ref) (id : SandboxID) (state : SandboxState) (s : Manager) : Bool × Manager :=
  -- records the state unless the entry is another Service's
  match s.services.get? id with
  | some e =>
    if e.svc = ref then (true, { s with services := s.services.set id { e with state } })
    else (false, s)
  | none => (false, s)

def overdue (s : Manager) (e : Entry) : Bool :=
  (s.heap e.svc).any (fun svc => svc.phase = .closed) && e.state ≠ .dead

def markDead (s : Manager) : List SandboxID × Manager :=
  (s.services.select fun _ e => s.overdue e, { s with
    services := s.services.update fun _ e => if s.overdue e then { e with state := .dead } else e })

def emit (id : SandboxID) (state : SandboxState) (s : Manager) : Manager :=
  if s.events.length < eventBuffer then { s with events := s.events ++ [(id, state)] } else s

def dirs [Uuid] (s : Manager) : List SandboxID :=
  s.host.select fun id r => r.dir && Host.isSandboxID id

def snapshot (s : Manager) : List (SandboxID × SandboxState) :=
  s.services.rows.map fun p => (p.1, p.2.state)

end Manager

def onService (s : Manager) (ref : Ref) (f : Service → Option Service) : Option (Unit × Manager) :=
  (s.heap ref).bind fun svc => (f svc).map fun svc' => ((), s.setService ref svc')

def perform [Uuid] (i : Nat) (c : Call) (e : Env) (s : Manager) : Option (c.Answer × Manager) :=
  -- one step of thread `i`; none where it has to wait
  match c with
  | .register input => some (s.register i input)
  | .forget id ref => some ((), s.forget id ref)
  | .lookup id => some ((s.services.get? id).map Entry.svc, s)
  | .claim id => some (s.claim i id)
  | .release id confirmed => some ((), { s with
      deleting := s.deleting.erase id
      gone := if confirmed then id :: s.gone else s.gone })
  | .claimOrphans ids => some (s.claimOrphans i ids)
  | .adopt id state => some ((), s.adopt id state)
  | .report ref state => (s.heap ref).map fun svc => s.report ref svc.id state
  | .markDead => some s.markDead
  | .emit id state => some ((), s.emit id state)
  | .serveRequests => some ((), { s with stage := .serving })
  | .offer ref cmd => (s.heap ref).bind fun svc =>
      match svc.phase with
      | .idle => some (true, s.setService ref { svc with
          phase := .offered i cmd
          begun := if cmd.isCreate then some cmd else svc.begun })
      | .closed => some (false, s)
      | _ => none
  | .await ref cmd => (s.heap ref).bind fun svc =>
      if e.done then if svc.phase = .closed then some (none, s) else none
      else (svc.replies (i, cmd)).map fun err => (some err, s)
  | .recheck ref cmd => (s.heap ref).map fun svc => (svc.replies (i, cmd), s)
  | .reply ref sender cmd err exit => onService s ref fun svc => some { svc with
      replies := Function.update svc.replies (sender, cmd) (some err)
      phase := if exit then .exiting else svc.phase }
  | .resume ref => onService s ref fun svc => some { svc with phase := .idle }
  | .close ref => onService s ref fun svc => some { svc with phase := .closed }
  | .fields ref => (s.heap ref).map fun svc => (⟨svc.id, svc.vm, svc.state⟩, s)
  | .setField ref state => onService s ref fun svc => some { svc with state }
  | .watch ref => onService s ref fun svc => some { svc with watched := true }
  | .unwatch ref => onService s ref fun svc => some { svc with watched := false }
  | .vm ref op => (s.heap ref).map fun svc =>
      let left := op.apply e svc.vm (s.remnant svc.id)
      (op.ran e svc.vm, { s.setService ref { svc with vm := left.1 } with
        host := s.host.set svc.id left.2
        booted := if op = .waitRunning ∧ e.fault = .none then svc.id :: s.booted else s.booted })
  | .queryVM ref => (s.heap ref).map fun _ => (e.result e.state, s)
  | .listDisk => (e.result s.dirs).map fun r => (r, s)
  | .attach id =>
      if (s.remnant id).vm || e.fault ≠ .none then (e.result ()).map fun r => (r, s) else none
  | .queryState _ => (e.result e.state).map fun r => (r, s)
  | .reap id op => (e.result ()).map fun r =>
      (r, { s with host := s.host.set id (op.apply e (s.remnant id)) })

def exec [Uuid] : Exec Call Env Manager Call.Answer := fun i c e s =>
  if s.born i = s.process then perform i c e s else none

abbrev M := Prog Call Call.Answer

def ask (c : Call) : M c.Answer := Prog.perform c

namespace Service

/-- Hand a command to the actor and wait for its reply. The actor may close done
right after it has replied: the reply is checked again before giving up. -/
def do_ (ref : Ref) (cmd : Command) : M (Option Err) := do
  if ← ask (.offer ref cmd) then
    match ← ask (.await ref cmd) with
    | some err => return err
    | none =>
      match ← ask (.recheck ref cmd) with
      | some err => return err
      | none => return some (.sentinel .serviceExited)
  else return some (.sentinel .serviceExited)

def setState (ref : Ref) (state : SandboxState) : M Unit := do
  let fields ← ask (.fields ref)
  if fields.state = state then return ()
  else do
    ask (.setField ref state)
    if ← ask (.report ref state) then ask (.emit fields.id state)
    else return ()

def poll (ref : Ref) : M Bool := do
  -- `false` when the query panics
  let fields ← ask (.fields ref)
  if fields.vm = none ∨ fields.state = .dead then return true
  else
    match ← ask (.queryVM ref) with
    | none => return false
    | some (.ok state) => do
      setState ref state
      return true
    | some (.error _) => do
      setState ref .unknown
      return true

/-- `firecrackerVM.Create`. -/
def vmCreate (ref : Ref) : M Ran := do
  match ← ask (.vm ref .createVolume) with
  | .ok =>
    match ← ask (.vm ref .spawn) with
    | .ok => ask (.vm ref .waitRunning)
    | other => return other
  | other => return other

/-- `firecrackerVM.Cleanup`. -/
def vmCleanup (ref : Ref) : M Ran := do
  match ← ask (.vm ref .removeVolume) with
  | .ok =>
    match ← ask (.vm ref .removeDir) with
    | .err err => return .err (.wrap "remove sandbox dir" err)
    | other => return other
  | other => return other

def remove (ref : Ref) : M Ran := do
  -- Stop and clean up; a failed stop does not keep it from cleaning up
  let fields ← ask (.fields ref)
  if fields.vm = none then return .ok
  else
    match ← ask (.vm ref .stop) with
    | .panicked => return .panicked
    | stopped =>
      match ← vmCleanup ref with
      | .err err => return .err (.wrap ("remove sandbox " ++ fields.id) err)
      | .panicked => return .panicked
      | .ok =>
        match stopped with
        | .err err => return .err (.wrap ("stop sandbox " ++ fields.id ++ " (cleaned up)") err)
        | other => return other

def create (ref : Ref) : M Ran := do
  let fields ← ask (.fields ref)
  if fields.vm ≠ none then
    return .err (.new ("sandbox " ++ fields.id ++ ": already created"))
  else
    match ← ask (.vm ref .newVM) with
    | .ok =>
      match ← vmCreate ref with
      | .ok => do
        ask (.watch ref)
        if ← poll ref then return .ok else return .panicked
      | .err err =>
        match ← remove ref with
        | .panicked => return .panicked
        | _ => return .err err
      | .panicked => return .panicked
    | other => return other

def stop (ref : Ref) : M Ran := do
  let fields ← ask (.fields ref)
  if fields.vm = none then return .ok
  else
    match ← ask (.vm ref .stop) with
    | .err err => return .err (.wrap ("stop sandbox " ++ fields.id) err)
    | other => return other

def handle (ref : Ref) : Command → M Ran
  | .create _ => create ref
  | .stop => stop ref
  | .remove => remove ref

def exits (cmd : Command) (err : Option Err) : Bool :=
  -- the actor is done after a remove, or a create that failed
  match cmd with
  | .create _ => err.isSome
  | .stop => false
  | .remove => true

def die (ref : Ref) : M Unit := do
  setState ref .dead
  ask (.close ref)

def answer (ref : Ref) (sender : Nat) (cmd : Command) (err : Option Err) : M Unit := do
  ask (.reply ref sender cmd err (exits cmd err))
  if exits cmd err then ask (.close ref) else ask (.resume ref)

def pass (ref : Ref) : Wake → M Unit
  | .ctxDone => ask (.close ref)
  | .command sender cmd => do
    match ← handle ref cmd with
    | .ok => answer ref sender cmd none
    | .err err => answer ref sender cmd (some err)
    | .panicked => die ref
  | .exited => do
    ask (.unwatch ref)
    setState ref .dead
    ask (.resume ref)
  | .tick => do
    if ← poll ref then ask (.resume ref) else die ref

end Service

def checkSandboxID [Uuid] (id : SandboxID) : Option Err :=
  if Host.isSandboxID id then none
  else some (.tag (.sentinel .invalidSandboxID) (Host.quote id))

/-- `Config.reap`. -/
def reap [Uuid] (id : SandboxID) : M (Option Err) := do
  if !Host.isSandboxID id then
    return some (.new ("refusing to reap " ++ Host.quote id ++ ": not a sandbox id"))
  else
    match ← ask (.reap id .kill) with
    | .error err => return some err
    | .ok () =>
      match ← ask (.reap id .removeVolume) with
      | .error err => return some err
      | .ok () =>
        match ← ask (.reap id .removeDir) with
        | .error err => return some (.wrap ("remove orphaned sandbox dir " ++ id) err)
        | .ok () => return none

namespace Manager

def create [Uuid] (input : CreateInput) : M (Option Err) :=
  match checkSandboxID input.id with
  | some err => return some err
  | none => do
    match ← ask (.register input) with
    | .tracked => return none
    | .busy => return some (.tag (.sentinel .busy) input.id)
    | .full => return some (.sentinel .atCapacity)
    | .fresh ref =>
      match ← Service.do_ ref (.create input) with
      | none => return none
      | some err => do
        ask (.forget input.id ref)
        return some err

def stop (id : SandboxID) : M (Option Err) := do
  match ← ask (.lookup id) with
  | none => return some (.tag (.sentinel .sandboxNotOnWorker) id)
  | some ref =>
    match ← Service.do_ ref .stop with
    | none => return none
    | some err => if err.is .serviceExited then return none else return some err

def tearDown [Uuid] (id : SandboxID) (ref : Ref) : M (Option Err) := do
  -- once the actor is gone, nothing owns the VM any more: reap it from disk
  match ← Service.do_ ref .remove with
  | none => return none
  | some err => if err.is .serviceExited then reap id else return some err

/-- The answers removeSandboxOnWorker takes as the confirmation that a sandbox is
gone. -/
def confirms : Option Err → Bool
  | none => true
  | some err => err.is .sandboxNotOnWorker

def remove [Uuid] (id : SandboxID) : M (Option Err) :=
  match checkSandboxID id with
  | some err => return some err
  | none => do
    match ← ask (.claim id) with
    | .busy => return some (.tag (.sentinel .busy) id)
    | .absent => return some (.tag (.sentinel .sandboxNotOnWorker) id)
    | .held ref => do
      let err ← tearDown id ref
      ask (.release id (confirms err))
      return err

def adoptListed [Uuid] : List SandboxID → M Unit
  -- take over what has a live shim and reap the rest
  | [] => return ()
  | id :: ids => do
    match ← ask (.attach id) with
    | .error _ => do
      let _ ← Fire2.SandboxMgr.reap id
      adoptListed ids
    | .ok () =>
      match ← ask (.queryState id) with
      | .ok state => do
        ask (.adopt id state)
        adoptListed ids
      | .error _ => do
        ask (.adopt id .unknown)
        adoptListed ids

def recover [Uuid] : M (Option Err) := do
  match ← ask .listDisk with
  | .error err => return some (.wrap "list sandboxes on disk" err)
  | .ok ids => do
    adoptListed ids
    return none

def reapClaimed [Uuid] : List SandboxID → M Unit
  | [] => return ()
  | id :: ids => do
    let _ ← Fire2.SandboxMgr.reap id
    ask (.release id false)
    reapClaimed ids

def reconcileDisk [Uuid] : M Unit := do
  match ← ask .listDisk with
  | .error _ => return ()
  | .ok ids => do
    let orphans ← ask (.claimOrphans ids)
    reapClaimed orphans

def emitDead : List SandboxID → M Unit
  | [] => return ()
  | id :: ids => do
    ask (.emit id .dead)
    emitDead ids

def checkLiveness : M Unit := do
  let dead ← ask .markDead
  emitDead dead

/-- The start of the worker's `main`: a failed Recover is logged, and the worker
goes on to serve. -/
def startup [Uuid] : M (Option Err) := do
  let err ← recover
  ask .serveRequests
  return err

end Manager

inductive Kind where
  | startup
  | create (input : CreateInput)
  | stop (id : SandboxID)
  | remove (id : SandboxID)
  | reconcileDisk
  | checkLiveness
  | serve (ref : Ref) (wake : Wake)
  deriving DecidableEq, Repr

def body [Uuid] : Kind → M (Option Err)
  | .startup => Manager.startup
  | .create input => Manager.create input
  | .stop id => Manager.stop id
  | .remove id => Manager.remove id
  | .reconcileDisk => do
    Manager.reconcileDisk
    return none
  | .checkLiveness => do
    Manager.checkLiveness
    return none
  | .serve ref wake => do
    Service.pass ref wake
    return none

def Service.ready (s : Manager) (svc : Service) : Wake → Bool
  -- the select of a Service has something to receive
  | .command sender cmd => svc.phase = .offered sender cmd
  | .ctxDone => svc.phase = .idle && s.cancelled
  | .exited => svc.phase = .idle && svc.watched && (!(s.remnant svc.id).vm || s.cancelled)
  | .tick => svc.phase = .idle

def begin (i : Nat) (k : Kind) (s : Manager) : Option Manager :=
  let s' := { s with born := Function.update s.born i s.process }
  match k with
  | .startup => if s.stage = .fresh then some { s' with stage := .recovering i } else none
  | .serve ref wake => (s.heap ref).bind fun svc =>
      if svc.ready s wake then some (s'.setService ref { svc with phase := .busy i wake }) else none
  | _ => if s.stage = .serving then some s' else none

inductive Event where
  | restart
  | vmExit (id : SandboxID)
  | cancel
  | setCapacity (capacity : Int)
  | takeEvent
  deriving DecidableEq, Repr

def happen : Event → Manager → Manager
  | .restart, s => { s with
      services := .empty
      deleting := .empty
      capacity := 0
      events := []
      cancelled := false
      heap := fun _ => none
      stage := .fresh
      process := s.process + 1 }
  | .vmExit id, s => { s with host := s.host.set id { s.remnant id with vm := false } }
  | .cancel, s => { s with cancelled := true }
  | .setCapacity capacity, s => { s with capacity }
  | .takeEvent, s => { s with events := s.events.drop 1 }

def system [Uuid] : System Kind Call Env Event (Option Err) Manager Call.Answer where
  exec := exec
  body := body
  start := begin
  stoppable _ := false
  ext x s := some (happen x s)

abbrev State := Config Kind Call (Option Err) Manager Call.Answer

def booting (host : Table SandboxID Remnant) : Manager where
  -- a worker process that starts over what its host has
  services := .empty
  deleting := .empty
  capacity := 0
  events := []
  cancelled := false
  heap := fun _ => none
  next := 0
  stage := .fresh
  host := host
  process := 0
  born := fun _ => 0
  booted := []
  gone := []

end Fire2.SandboxMgr
