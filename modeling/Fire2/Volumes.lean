import Mathlib.Algebra.Group.Nat.Defs
import Fire2.Interleaving
import Fire2.Model

/-! The host a worker runs on: the base directory, the device-mapper devices and
the thin IDs of the pool, and package thin over them.

One call is one file-system or device-mapper operation. It may fail, and the
worker process may crash between any two of them: a crash ends every thread of
the process, so calls are only made by threads of the current epoch. What udev
does to `/dev/mapper` and what the settings files hold is left to the
environment. -/

namespace Fire2.Host
open Interleaving

/-- The error numbers the code tests, and any other. -/
inductive Errno where
  | enxio | eexist | ebusy | enoent | enotempty | other (text : String)
  deriving DecidableEq, Repr

def Errno.text : Errno → String
  | enxio => "no such device or address"
  | eexist => "file exists"
  | ebusy => "device or resource busy"
  | enoent => "no such file or directory"
  | enotempty => "directory not empty"
  | other t => t

/-- A Go error of the host packages. `wrap` is `fmt.Errorf` with the wrapped
error last, `join` is `errors.Join`. -/
inductive Fault where
  | errno (n : Errno)
  | new (text : String)
  | wrap (before : String) (e : Fault)
  | join (e e' : Fault)
  deriving DecidableEq, Repr

namespace Fault

def text : Fault → String
  | errno n => n.text
  | new t => t
  | wrap b e => b ++ ": " ++ e.text
  | join e e' => e.text ++ "\n" ++ e'.text

/-- `errors.Is`. -/
def is (n : Errno) : Fault → Bool
  | errno m => m = n
  | new _ => false
  | wrap _ e => e.is n
  | join e e' => e.is n || e'.is n

/-- `errors.Join(errs...)`: nil if there is none. -/
def joined : List Fault → Except Fault Unit
  | [] => .ok ()
  | e :: es => .error (es.foldl join e)

end Fault

def quote (s : String) : String := "\"" ++ s ++ "\""

structure Target where
  start : Nat
  length : Nat
  typ : String
  params : String
  deriving DecidableEq, Repr

/-- A device, with the table that is loaded and the one that is live. -/
structure Device where
  number : Nat
  loaded : Option (List Target)
  live : Option (List Target)
  deriving DecidableEq, Repr

/-- An entry of the base directory; of a directory, the names of its files. -/
inductive Entry where
  | file
  | dir (files : List String)
  deriving DecidableEq, Repr

def Entry.isDir : Entry → Bool
  | file => false
  | dir _ => true

structure Pool where
  name : String
  dir : String
  firstSandboxID : Nat
  deriving DecidableEq, Repr

structure Base where
  thinID : Nat
  sectors : Nat
  deriving DecidableEq, Repr

/-- Steps that touch neither the base directory nor a device. -/
inductive Probe where
  | statKernel | openControl | startShim | connectShim | waitRunning | stopShim
  | killStale | findFirecracker | killFirecracker | attach | tracked
  deriving DecidableEq, Repr

inductive Call where
  | own (id : SandboxID)
  | disown (id : SandboxID)
  | probe (p : Probe)
  | loadPool
  | loadBase
  | rand (n : Nat)
  | createSnap (thinID baseID : Nat)
  | delete (thinID : Nat)
  | devCreate (name : String)
  | tableLoad (name : String) (targets : List Target)
  | devResume (name : String)
  | devRemove (name : String)
  | tableStatus (name : String)
  | statNode (path : String)
  | removeNode (path : String)
  | mknod (path : String) (dev : Nat)
  | readDir
  | stat (name : String)
  | mkdirBase
  | mkdir (name : String)
  | writeFile (name file : String)
  | removeFile (name file : String)
  | readNames (name : String)
  | remove (name : String)

/-- `statNode` answers with the device number of a block device, `tableStatus`
with nothing when the table did not fit the buffer. -/
abbrev Call.Answer : Call → Type
  | own _ | disown _ => Unit
  | probe _ => Bool
  | loadPool => Except Errno Pool
  | loadBase => Except Fault Base
  | rand _ => Nat
  | devCreate _ => Except Errno Nat
  | tableStatus _ => Except Errno (Option (List Target))
  | statNode _ => Except Errno (Option Nat)
  | readDir => Except Errno (List (String × Bool))
  | stat _ => Except Errno Bool
  | readNames _ => Except Errno (List String)
  | createSnap .. | delete _ | tableLoad .. | devResume _ | devRemove _ | removeNode _ | mknod ..
  | mkdirBase | mkdir _ | writeFile .. | removeFile .. | remove _ => Except Errno Unit

/-- `fails` is an error the state does not account for; it is never one of the
error numbers that say what the state is. -/
structure Env where
  fails : Option String := none
  busy : Bool := false
  ok : Bool := true
  pool : Pool := ⟨"fire2-pool", "/var/lib/fire2/pool", 2⟩
  base : Base := ⟨1, 2048⟩
  draw : Nat := 0
  number : Nat := 0
  full : Bool := false
  targets : List Target := []
  node : Option Nat := none

structure Files where
  hasBase : Bool
  entries : Table String Entry
  devices : Table String Device
  thin : List Nat

/-- The host, with whose operation on an ID is under way and in which epoch each
thread started. -/
structure Disk extends Files where
  epoch : Nat
  born : Nat → Nat
  owner : SandboxID → Option Nat

def Files.boot (h : Files) : Disk :=
  { h with epoch := 0, born := fun _ => 0, owner := fun _ => none }

def attempt {α : Type} (e : Env) (s : Disk) (r : Except Errno α × Disk) : Except Errno α × Disk :=
  -- an operation that fails changes nothing
  match e.fails with
  | some text => (.error (.other text), s)
  | none => r

def onDevice (name : String) (s : Disk) (f : Device → Device) : Except Errno Unit × Disk :=
  match s.devices.get? name with
  | none => (.error .enxio, s)
  | some d => (.ok (), { s with devices := s.devices.set name (f d) })

def onFiles (name : String) (s : Disk) (f : List String → List String) : Except Errno Unit × Disk :=
  match s.entries.get? name with
  | some (.dir files) => (.ok (), { s with entries := s.entries.set name (.dir (f files)) })
  | _ => (.error .enoent, s)

def devCreate (name : String) (e : Env) (s : Disk) : Except Errno Nat × Disk :=
  match s.devices.get? name with
  | some _ => (.error .ebusy, s)
  | none => (.ok e.number, { s with devices := s.devices.set name ⟨e.number, none, none⟩ })

def devRemove (name : String) (e : Env) (s : Disk) : Except Errno Unit × Disk :=
  match s.devices.get? name with
  | none => (.error .enxio, s)
  | some _ => if e.busy then (.error .ebusy, s)
      else (.ok (), { s with devices := s.devices.erase name })

def tableStatus (name : String) (e : Env) (s : Disk) : Except Errno (Option (List Target)) :=
  -- a device without a live table reports no target
  match s.devices.get? name with
  | none => .error .enxio
  | some d => .ok (if e.full then none else some (if d.live.isSome then e.targets else []))

def stat (name : String) (s : Disk) : Except Errno Bool :=
  match s.entries.get? name with
  | none => .error .enoent
  | some entry => .ok entry.isDir

def mkdir (name : String) (s : Disk) : Except Errno Unit × Disk :=
  match s.entries.get? name with
  | some _ => (.error .eexist, s)
  | none => if s.hasBase then (.ok (), { s with entries := s.entries.set name (.dir []) })
      else (.error .enoent, s)

/-- `os.Remove`: a file, or a directory that is empty. -/
def remove (name : String) (s : Disk) : Except Errno Unit × Disk :=
  match s.entries.get? name with
  | none => (.error .enoent, s)
  | some (.dir (_ :: _)) => (.error .enotempty, s)
  | some _ => (.ok (), { s with entries := s.entries.erase name })

def readDir (s : Disk) : Except Errno (List (String × Bool)) :=
  if s.hasBase then .ok (s.entries.rows.map fun p => (p.1, p.2.isDir)) else .error .enoent

def operate (i : Nat) : (c : Call) → Env → Disk → c.Answer × Disk
  | .own id, _, s => ((), { s with owner := Function.update s.owner id (some i) })
  | .disown id, _, s => ((), { s with owner := Function.update s.owner id none })
  | .probe _, e, s => (e.ok, s)
  | .loadPool, e, s => attempt e s (.ok e.pool, s)
  | .loadBase, e, s => (match e.fails with
      | some text => .error (.wrap "no base volume imported" (.errno (.other text)))
      | none => .ok e.base, s)
  | .rand n, e, s => (e.draw % n, s)
  | .createSnap thinID _, e, s => attempt e s
      (if thinID ∈ s.thin then (.error .eexist, s)
        else (.ok (), { s with thin := thinID :: s.thin }))
  | .delete thinID, e, s => attempt e s (.ok (), { s with thin := s.thin.erase thinID })
  | .devCreate name, e, s => attempt e s (devCreate name e s)
  | .tableLoad name targets, e, s =>
      attempt e s (onDevice name s fun d => { d with loaded := some targets })
  | .devResume name, e, s =>
      attempt e s (onDevice name s fun d => { d with loaded := none, live := d.loaded.or d.live })
  | .devRemove name, e, s => attempt e s (devRemove name e s)
  | .tableStatus name, e, s => attempt e s (tableStatus name e s, s)
  | .statNode _, e, s => attempt e s (.ok e.node, s)
  | .removeNode _, e, s => attempt e s (if e.ok then .ok () else .error .enoent, s)
  | .mknod .., e, s => attempt e s (if e.ok then .ok () else .error .eexist, s)
  | .readDir, e, s => attempt e s (readDir s, s)
  | .stat name, e, s => attempt e s (stat name s, s)
  | .mkdirBase, e, s => attempt e s (.ok (), { s with hasBase := true })
  | .mkdir name, e, s => attempt e s (mkdir name s)
  | .writeFile name file, e, s => attempt e s (onFiles name s fun files => files.insert file)
  | .removeFile name file, e, s => attempt e s
      (if e.ok then onFiles name s fun files => files.erase file else (.error .enoent, s))
  | .readNames name, e, s => attempt e s
      (match s.entries.get? name with
        | some (.dir files) => .ok files
        | _ => .error .enoent, s)
  | .remove name, e, s => attempt e s (remove name s)

/-- A thread of a process that crashed makes no more calls, and operations on
one ID do not overlap. -/
def exec : Exec Call Env Disk Call.Answer := fun i c e s =>
  if s.born i ≠ s.epoch then none
  else match c with
    | .own id => if s.owner id = none then some (operate i (.own id) e s) else none
    | c => some (operate i c e s)

abbrev M := Prog Call Call.Answer

def call (c : Call) : M c.Answer := Prog.perform c

/-! Package thin. -/

def volumePrefix : String := "fire2-sb-"
def mapperDir : String := "/dev/mapper/"
def maxThinID : Nat := 2 ^ 24 - 1
def createAttempts : Nat := 16
def nameSize : Nat := 128
def targetTypeSize : Nat := 16
def removeRetries : Nat := 25

/-- `^[A-Za-z0-9_-]{1,64}$`. -/
def validSandboxID (id : String) : Bool :=
  0 < id.toList.length && id.toList.length ≤ 64 &&
    id.toList.all fun c => c.isAlphanum || c = '_' || c = '-'

def volumeName (sandboxID : SandboxID) : Except Fault String :=
  if validSandboxID sandboxID then .ok (volumePrefix ++ sandboxID)
  else .error (.new ("invalid sandbox id " ++ quote sandboxID))

def volumePath (sandboxID : SandboxID) : String := mapperDir ++ volumePrefix ++ sandboxID

/-- `strconv.ParseUint(s, 10, bits)`. -/
def parseUint (s : String) (bits : Nat) : Option Nat :=
  if s.toList ≠ [] ∧ s.toList.all Char.isDigit then
    let n := s.toList.foldl (fun n c => 10 * n + (c.toNat - '0'.toNat)) 0
    if n < 2 ^ bits then some n else none
  else none

abbrev Settings := String → String

/-- `LoadPool`, of a file that was read. -/
def loadPool (confPath : String) (vars : Settings) : Except Fault Pool :=
  if vars "POOL_NAME" = "" ∨ vars "POOL_DIR" = "" then
    .error (.new (confPath ++ ": POOL_NAME and POOL_DIR are required"))
  else
    let invalid :=
      .error (.new (confPath ++ ": invalid FIRST_SANDBOX_ID " ++ quote (vars "FIRST_SANDBOX_ID")))
    match parseUint (vars "FIRST_SANDBOX_ID") 32 with
    | some first =>
      if first = 0 ∨ first > maxThinID then invalid
        else .ok ⟨vars "POOL_NAME", vars "POOL_DIR", first⟩
    | none => invalid

/-- `loadBase`, of a file that was read. -/
def loadBase (p : Pool) (vars : Settings) : Except Fault Base :=
  let invalid (key : String) :=
    .error (.new (p.dir ++ "/base.env: invalid " ++ key ++ " " ++ quote (vars key)))
  match parseUint (vars "BASE_THIN_ID") 32 with
  | some id =>
    if id = 0 ∨ id ≥ p.firstSandboxID then invalid "BASE_THIN_ID"
    else
      match parseUint (vars "BASE_SECTORS") 64 with
      | some sectors => if sectors = 0 then invalid "BASE_SECTORS" else .ok ⟨id, sectors⟩
      | none => invalid "BASE_SECTORS"
  | none => invalid "BASE_THIN_ID"

/-- The checks of `newRequest` and `encodeTargets`. -/
def newRequest (name : String) : Except Fault Unit :=
  if name.utf8ByteSize ≥ nameSize then .error (.new ("device name " ++ quote name ++ " too long"))
  else .ok ()

def encodeTargets (targets : List Target) : Except Fault Unit :=
  match targets.find? fun t => t.typ.utf8ByteSize ≥ targetTypeSize with
  | some t => .error (.new ("target type " ++ quote t.typ ++ " too long"))
  | none => .ok ()

def request {α : Type} (name what : String) (c : M (Except Errno α)) : M (Except Fault α) :=
  -- builds a request and makes the call, naming what it was for on failure
  match newRequest name with
  | .error err => pure (.error err)
  | .ok () => do
    match ← c with
    | .error n => return .error (.wrap what (.errno n))
    | .ok a => return .ok a

def removeDevice (name : String) : Nat → M (Except Fault Unit)
  -- a busy device is tried again: its VM may still be exiting
  | 0 => request name ("remove device " ++ name) (call (.devRemove name))
  | left + 1 => do
    match ← request name ("remove device " ++ name) (call (.devRemove name)) with
    | .ok () => return .ok ()
    | .error err => if err.is .ebusy then removeDevice name left else return .error err

def loadTable (name : String) (targets : List Target) : M (Except Fault Unit) := do
  match encodeTargets targets with
  | .error err => return .error err
  | .ok () =>
    match ← request name ("load table of " ++ name) (call (.tableLoad name targets)) with
    | .error err => return .error err
    | .ok () => request name ("resume " ++ name) (call (.devResume name))

def createDevice (name : String) (targets : List Target) : M (Except Fault Nat) := do
  match ← request name ("create device " ++ name) (call (.devCreate name)) with
  | .error err => return .error err
  | .ok dev =>
    match ← loadTable name targets with
    | .ok () => return .ok dev
    | .error err =>
      match ← removeDevice name removeRetries with
      | .error rmErr => return .error (.join err rmErr)
      | .ok () => return .error err

def table (name : String) : Nat → M (Except Fault (List Target))
  -- the buffer doubles from 4096 bytes to 1 MiB: nine sizes
  | 0 => return .error (.new ("table of " ++ name ++ ": too large"))
  | left + 1 => do
    match ← request name ("table of " ++ name) (call (.tableStatus name)) with
    | .error err => return .error err
    | .ok (some targets) => return .ok targets
    | .ok none => table name left

def message (name msg : String) (c : M (Except Errno Unit)) : M (Except Fault Unit) :=
  request name ("message " ++ quote msg ++ " to " ++ name) c

def createSnapshot (p : Pool) (baseID : Nat) : Nat → M (Except Fault Nat)
  | 0 => return .error (.new ("no free thin id after " ++ toString createAttempts ++ " attempts"))
  | left + 1 => do
    let drawn ← call (.rand (maxThinID - p.firstSandboxID + 1))
    let id := p.firstSandboxID + drawn
    match ← message p.name ("create_snap " ++ toString id ++ " " ++ toString baseID)
        (call (.createSnap id baseID)) with
    | .ok () => return .ok id
    | .error err =>
      if err.is .eexist then createSnapshot p baseID left else return .error err

def deleteThin (p : Pool) (thinID : Nat) : M (Except Fault Unit) :=
  message p.name ("delete " ++ toString thinID) (call (.delete thinID))

def removeNode (path : String) : M (Except Fault Unit) := do
  match ← call (.removeNode path) with
  | .ok () | .error .enoent => return .ok ()
  | .error n => return .error (.wrap ("remove node " ++ path) (.errno n))

def ensureNode (path : String) (dev : Nat) : Nat → M (Except Fault Unit)
  | 0 => do
    match ← call (.statNode path) with
    | .ok (some found) => if found = dev then return .ok () else return .error misplaced
    | _ => return .error misplaced
  | left + 1 => do
    let found ← call (.statNode path)
    if found = .ok (some dev) then return .ok ()
    else
      match ← (match found with
        | .ok _ => call (.removeNode path)
        | .error _ => pure (.ok ())) with
      | .ok () | .error .enoent =>
        match ← call (.mknod path dev) with
        | .ok () | .error .eexist => ensureNode path dev left
        | .error n => return .error (.wrap ("mknod " ++ path) (.errno n))
      | .error n => return .error (.wrap ("remove stale node " ++ path) (.errno n))
where
  misplaced : Fault :=
    .new ("node " ++ path ++ " does not point to device " ++ toString dev)

/-- `strings.Fields`. -/
def fields (s : String) : List String :=
  ((s.toList.splitOnP isSpace).filter (· ≠ [])).map String.ofList

def sandboxThinID (p : Pool) (name : String) (table : List Target) : Except Fault Nat :=
  -- a volume of the pool that is a sandbox's; anything else is refused
  let refused := .error (.new ("refusing to remove " ++ name ++ ", unexpected table"))
  match table with
  | [t] =>
    match t.typ, fields t.params with
    | "thin", [_, f] =>
      match parseUint f 32 with
      | some id => if p.firstSandboxID ≤ id ∧ id ≤ maxThinID then .ok id else refused
      | none => refused
    | _, _ => refused
  | _ => refused

def removeVolume (p : Pool) (sandboxID : SandboxID) : M (Except Fault Unit) := do
  match volumeName sandboxID with
  | .error err => return .error err
  | .ok name =>
    if !(← call (.probe .openControl)) then
      return .error (.new "open /dev/mapper/control")
    else
      match ← table name 9 with
      | .error err => if err.is .enxio then removeNode (volumePath sandboxID) else return .error err
      | .ok targets =>
        match sandboxThinID p name targets with
        | .error err => return .error err
        | .ok thinID =>
          match ← removeDevice name removeRetries with
          | .error err => return .error err
          | .ok () =>
            match ← removeNode (volumePath sandboxID) with
            | .error err => return .error err
            | .ok () => deleteThin p thinID

def createVolume (p : Pool) (sandboxID : SandboxID) : M (Except Fault String) := do
  match volumeName sandboxID with
  | .error err => return .error err
  | .ok name =>
    match ← call .loadBase with
    | .error err => return .error err
    | .ok b =>
      if !(← call (.probe .openControl)) then
        return .error (.new "open /dev/mapper/control")
      else
        match ← createSnapshot p b.thinID createAttempts with
        | .error err => return .error err
        | .ok thinID =>
          let params := mapperDir ++ p.name ++ " " ++ toString thinID
          match ← createDevice name [⟨0, b.sectors, "thin", params⟩] with
          | .error err =>
            match ← deleteThin p thinID with
            | .error delErr => return .error (.join err delErr)
            | .ok () => return .error err
          | .ok dev =>
            let path := volumePath sandboxID
            match ← ensureNode path dev 2 with
            | .ok () => return .ok path
            | .error err =>
              match ← removeVolume p sandboxID with
              | .error rmErr => return .error (.join err rmErr)
              | .ok () => return .error err

/-! The calls each of them makes. -/

section Calls
variable {α : Type} {V : (c : Call) → c.Answer → Prop} {P : Call → Prop}
  {name path : String} {dev left : Nat} {targets : List Target}

theorem call_asks {c : Call} (h : P c) : (call c).Asks V P := .call h fun r _ => .ret r

theorem request_asks {what : String} {c : M (Except Errno α)} (h : c.Asks V P) :
    (request name what c).Asks V P := by
  unfold request
  split
  · exact .ret _
  · refine h.bind fun r => ?_
    cases r <;> exact .ret _

theorem removeDevice_asks (remove : P (.devRemove name)) : (removeDevice name left).Asks V P := by
  induction left with
  | zero => exact request_asks (call_asks remove)
  | succ left ih =>
    refine (request_asks (call_asks remove)).bind fun r => ?_
    cases r with
    | ok => exact .ret _
    | error err =>
      dsimp only
      split
      · exact ih
      · exact .ret _

theorem loadTable_asks (load : P (.tableLoad name targets)) (resume : P (.devResume name)) :
    (loadTable name targets).Asks V P := by
  unfold loadTable
  split
  · exact .ret _
  · refine (request_asks (call_asks load)).bind fun r => ?_
    cases r with
    | error => exact .ret _
    | ok => exact request_asks (call_asks resume)

theorem createDevice_asks (create : P (.devCreate name)) (load : P (.tableLoad name targets))
    (resume : P (.devResume name)) (remove : P (.devRemove name)) :
    (createDevice name targets).Asks V P := by
  refine (request_asks (call_asks create)).bind fun r => ?_
  cases r with
  | error => exact .ret _
  | ok =>
    refine (loadTable_asks load resume).bind fun r => ?_
    cases r with
    | ok => exact .ret _
    | error =>
      refine (removeDevice_asks remove).bind fun r => ?_
      cases r <;> exact .ret _

theorem table_asks (status : P (.tableStatus name)) : (table name left).Asks V P := by
  induction left with
  | zero => exact .ret _
  | succ left ih =>
    refine (request_asks (call_asks status)).bind fun r => ?_
    split
    · exact .ret _
    · exact .ret _
    · exact ih

theorem createSnapshot_asks {p : Pool} {baseID : Nat}
    (draw : P (.rand (maxThinID - p.firstSandboxID + 1)))
    (create : ∀ n, P (.createSnap n baseID)) : (createSnapshot p baseID left).Asks V P := by
  induction left with
  | zero => exact .ret _
  | succ left ih =>
    refine (call_asks draw).bind fun drawn => (request_asks (call_asks (create _))).bind fun r => ?_
    cases r with
    | ok => exact .ret _
    | error err =>
      dsimp only
      split
      · exact ih
      · exact .ret _

theorem removeNode_asks (remove : P (.removeNode path)) : (removeNode path).Asks V P := by
  refine (call_asks remove).bind fun r => ?_
  split <;> exact .ret _

theorem ensureNode_asks (stat : P (.statNode path)) (remove : P (.removeNode path))
    (make : P (.mknod path dev)) : (ensureNode path dev left).Asks V P := by
  induction left with
  | zero =>
    refine (call_asks stat).bind fun r => ?_
    split
    · split <;> exact .ret _
    · exact .ret _
  | succ left ih =>
    have made : (do
        match ← call (.mknod path dev) with
        | .ok () | .error .eexist => ensureNode path dev left
        | .error n =>
          return .error (.wrap ("mknod " ++ path) (.errno n)) : M
              (Except Fault Unit)).Asks V P := by
      refine (call_asks make).bind fun r => ?_
      split
      · exact ih
      · exact ih
      · exact .ret _
    refine (call_asks stat).bind fun found => ?_
    split
    · exact .ret _
    refine Prog.Asks.bind ?_ fun r => ?_
    · split
      · exact call_asks remove
      · exact .ret _
    split
    · exact made
    · exact made
    · exact .ret _

end Calls
end Fire2.Host
