import Fire2.Volumes

/-! Sandbox directories: packages runtime and sandboxmgr over the host.

The directory of a sandbox is its ownership marker. It is made before the
volume and removed after it, so a volume only exists while its directory does,
whatever fails and wherever the worker crashes. -/

namespace Fire2

def isHex (c : Char) : Bool := c ∈ "0123456789abcdefABCDEF".toList

/-- Hexadecimal digits in five groups. -/
def Grouped (name : String) : Prop := name.toList.length = 36 ∧
  ∀ n c, name.toList[n]? = some c → if n ∈ [8, 13, 18, 23] then c = '-' else isHex c = true

/-- `uuid.Parse`, of which is known what it accepts at most where a text has 36
bytes. -/
class Uuid where
  parses : String → Bool
  grouped : ∀ name, parses name = true → name.utf8ByteSize = 36 → Grouped name

namespace Uuid.Standard

scoped instance : Uuid where
  parses name := name.toList.length = 36 &&
    name.toList.zipIdx.all fun p => if p.2 ∈ [8, 13, 18, 23] then p.1 = '-' else isHex p.1
  grouped name parsed _ := by
    simp only [Bool.and_eq_true, decide_eq_true_iff, List.all_eq_true, Prod.forall,
      List.mk_mem_zipIdx_iff_getElem?] at parsed
    refine ⟨parsed.1, fun n c found => ?_⟩
    have fits := parsed.2 c n found
    split at fits
    · rename_i dash
      rw [if_pos dash]
      exact of_decide_eq_true fits
    · rename_i digit
      rwa [if_neg digit]

end Uuid.Standard

namespace Host
open Interleaving

def isSandboxID [Uuid] (name : String) : Bool := Uuid.parses name && name.utf8ByteSize = 36

theorem isSandboxID_grouped [Uuid] {name : String} (valid : isSandboxID name = true) :
    Grouped name := by
  obtain ⟨parsed, long⟩ := Bool.and_eq_true_iff.1 valid
  exact Uuid.grouped name parsed (of_decide_eq_true long)

theorem sandboxID_char [Uuid] {name : String} (valid : isSandboxID name = true) {c : Char}
    (mem : c ∈ name.toList) : c = '-' ∨ isHex c = true := by
  obtain ⟨n, found⟩ := List.getElem?_of_mem mem
  have fits := (isSandboxID_grouped valid).2 n c found
  split at fits
  · exact .inl fits
  · exact .inr fits

def checkSandboxID [Uuid] (id : SandboxID) : Except Fault Unit :=
  if isSandboxID id then .ok () else .error (.new ("invalid sandbox id: " ++ quote id))

/-- `os.MkdirAll` of an entry of the base directory. -/
def mkdirAll (name : String) : M (Except Fault Unit) := do
  match ← call (.stat name) with
  | .ok true => return .ok ()
  | .ok false => return .error (.errno (.other "not a directory"))
  | .error _ =>
    match ← call .mkdirBase with
    | .error n => return .error (.errno n)
    | .ok () =>
      match ← call (.mkdir name) with
      | .ok () => return .ok ()
      | .error n =>
        match ← call (.stat name) with
        | .ok true => return .ok ()
        | _ => return .error (.errno n)

def newClient [Uuid] (sandboxID : SandboxID) : M (Except Fault Unit) := do
  match checkSandboxID sandboxID with
  | .error err => return .error err
  | .ok () =>
    match ← mkdirAll sandboxID with
    | .error err => return .error (.wrap "create sandbox dir" err)
    | .ok () => return .ok ()

def removeFiles (name : String) : List String → M Unit
  | [] => return ()
  | file :: files => do
    let _ ← call (.removeFile name file)
    removeFiles name files

/-- `os.RemoveAll` of an entry of the base directory. -/
def removeAll (name : String) : M (Except Fault Unit) := do
  match ← call (.remove name) with
  | .ok () | .error .enoent => return .ok ()
  | .error _ =>
    match ← call (.readNames name) with
    | .error .enoent => return .ok ()
    | .error n => return .error (.errno n)
    | .ok files => do
      removeFiles name files
      match ← call (.remove name) with
      | .ok () | .error .enoent => return .ok ()
      | .error n => return .error (.errno n)

/-- The entries that are sandbox directories; a base directory that does not
exist has none. -/
def sandboxDirs [Uuid] : Except Errno (List (String × Bool)) → Except Fault (List SandboxID)
  | .error .enoent => .ok []
  | .error n => .error (.wrap "read sandbox base dir" (.errno n))
  | .ok entries => .ok ((entries.filter fun e => e.2 && isSandboxID e.1).map Prod.fst)

def listSandboxDirs [Uuid] : M (Except Fault (List SandboxID)) := do
  return sandboxDirs (← call .readDir)

/-- `Config.RemoveVolume`. -/
def configRemoveVolume (sandboxID : SandboxID) : M (Except Fault Unit) := do
  match ← call .loadPool with
  | .error n => return .error (.errno n)
  | .ok pool => removeVolume pool sandboxID

def reapSandbox [Uuid] (sandboxID : SandboxID) : M (Except Fault Unit) := do
  if !isSandboxID sandboxID then
    return .error (.new ("refusing to reap " ++ quote sandboxID ++ ": not a sandbox id"))
  else if !(← call (.probe .killStale)) then
    return .error (.new "kill shim")
  else
    match ← killFirecracker with
    | .error err => return .error err
    | .ok () =>
      match ← configRemoveVolume sandboxID with
      | .error err => return .error err
      | .ok () =>
        match ← removeAll sandboxID with
        | .error err => return .error (.wrap ("remove orphaned sandbox dir " ++ sandboxID) err)
        | .ok () => return .ok ()
where
  killFirecracker : M (Except Fault Unit) := do
    if ← call (.probe .findFirecracker) then
      if ← call (.probe .killFirecracker) then return .ok ()
      else return .error (.new ("kill orphaned firecracker for " ++ sandboxID))
    else return .ok ()

/-- `Client.Spawn` and `shim.Spawn`. -/
def spawn (sandboxID : SandboxID) (rootDrivePath : String) : M (Except Fault Unit) := do
  if rootDrivePath = "" then return .error (.new "no root drive")
  else
    match ← call (.writeFile sandboxID "vm.json") with
    | .error n => return .error (.wrap "write vm config" (.errno n))
    | .ok () =>
      match ← call (.writeFile sandboxID "shim.log") with
      | .error n => return .error (.wrap "open shim log" (.errno n))
      | .ok () =>
        match ← call (.removeFile sandboxID "shim.exit") with
        | .ok () | .error .enoent =>
          if !(← call (.probe .startShim)) then return .error (.new "start shim")
          else if !(← call (.probe .connectShim)) then return .error (.new "shim did not listen")
          else return .ok ()
        | .error n => return .error (.wrap "remove stale exit file" (.errno n))

/-- `newFirecrackerVM`: the directory is made here, before the volume. -/
def newFirecrackerVM [Uuid] (imageDir : String) (sandboxID : SandboxID) :
    M (Except Fault Unit) := do
  if imageDir = "" then
    return .error (.new "FIRECRACKER_IMAGE_DIR environment variable is not set")
  else if !(← call (.probe .statKernel)) then
    return .error (.new "vmlinux not found in FIRECRACKER_IMAGE_DIR")
  else
    match ← newClient sandboxID with
    | .error err => return .error (.wrap ("create runtime client for sandbox " ++ sandboxID) err)
    | .ok () => return .ok ()

/-- `firecrackerVM.Create`. -/
def vmCreate (sandboxID : SandboxID) : M (Except Fault Unit) := do
  match ← call .loadPool with
  | .error n => return .error (.errno n)
  | .ok pool =>
    match ← createVolume pool sandboxID with
    | .error err => return .error err
    | .ok rootDrive =>
      match ← spawn sandboxID rootDrive with
      | .error err => return .error err
      | .ok () =>
        if ← call (.probe .waitRunning) then return .ok ()
          else return .error (.new "vm not running")

/-- `firecrackerVM.Stop`. -/
def vmStop : M (Except Fault Unit) := do
  if ← call (.probe .stopShim) then return .ok () else return .error (.new "signal shim")

/-- `firecrackerVM.Cleanup`. -/
def vmCleanup (sandboxID : SandboxID) : M (Except Fault Unit) := do
  match ← configRemoveVolume sandboxID with
  | .error err => return .error err
  | .ok () =>
    match ← removeAll sandboxID with
    | .error err =>
      if err.is .enoent then return .ok () else return .error (.wrap "remove sandbox dir" err)
    | .ok () => return .ok ()

/-- `Service.remove`: a failed stop does not keep it from cleaning up. -/
def serviceRemove (sandboxID : SandboxID) : M (Except Fault Unit) := do
  let stopped ← vmStop
  match ← vmCleanup sandboxID with
  | .error err => return .error (.wrap ("remove sandbox " ++ sandboxID) err)
  | .ok () =>
    match stopped with
    | .error err => return .error (.wrap ("stop sandbox " ++ sandboxID ++ " (cleaned up)") err)
    | .ok () => return .ok ()

/-- `Service.create` of a sandbox that has no VM yet. -/
def serviceCreate [Uuid] (imageDir : String) (sandboxID : SandboxID) : M (Except Fault Unit) := do
  match ← newFirecrackerVM imageDir sandboxID with
  | .error err => return .error err
  | .ok () =>
    match ← vmCreate sandboxID with
    | .ok () => return .ok ()
    | .error err => do
      let _ ← serviceRemove sandboxID
      return .error err

def owned (id : SandboxID) (p : M (Except Fault Unit)) : M (Except Fault Unit) := do
  -- an operation on one ID, while no other one is under way
  call (.own id)
  let r ← p
  call (.disown id)
  return r

/-- Reaps the listed sandboxes that a probe does not find in hand: `Recover`
keeps those it can attach to, `reconcileDisk` those the Manager tracks. -/
def reapUnless [Uuid] (kept : Probe) : List SandboxID → M (List Fault)
  | [] => return []
  | id :: ids => do
    if ← call (.probe kept) then reapUnless kept ids
    else
      match ← owned id (reapSandbox id) with
      | .ok () => reapUnless kept ids
      | .error err => return err :: (← reapUnless kept ids)

def reapListed [Uuid] (kept : Probe) : M (Except Fault Unit) := do
  match ← listSandboxDirs with
  | .error err => return .error err
  | .ok ids => do
    let _ ← reapUnless kept ids
    return .ok ()

def reapAll [Uuid] : List SandboxID → M (List Fault)
  | [] => return []
  | id :: ids => do
    match ← owned id (reapSandbox id) with
    | .ok () => reapAll ids
    | .error err => return err :: (← reapAll ids)

def reapOrphans [Uuid] : M (Except Fault Unit) := do
  match ← listSandboxDirs with
  | .error err => return .error err
  | .ok ids => return Fault.joined (← reapAll ids)

inductive Kind where
  | create (imageDir : String) (id : SandboxID)
  | remove (id : SandboxID)
  | reap (id : SandboxID)
  | recover
  | reconcileDisk
  | reapOrphans
  deriving DecidableEq, Repr

def body [Uuid] : Kind → M (Except Fault Unit)
  | .create imageDir id => owned id (serviceCreate imageDir id)
  | .remove id => owned id (serviceRemove id)
  | .reap id => owned id (reapSandbox id)
  | .recover => reapListed .attach
  | .reconcileDisk => reapListed .tracked
  | .reapOrphans => reapOrphans

/-- A crash ends every operation; a shim or a VM that is left running writes
into its directory while that exists. -/
inductive Event where
  | crash
  | write (name file : String)
  deriving DecidableEq, Repr

def happen : Event → Disk → Disk
  | .crash, s => { s with epoch := s.epoch + 1, owner := fun _ => none }
  | .write name file, s => (onFiles name s fun files => files.insert file).2

def system [Uuid] : System Kind Call Env Event (Except Fault Unit) Disk Call.Answer where
  exec := exec
  body := body
  start i _ s := some { s with born := Function.update s.born i s.epoch }
  stoppable _ := false
  ext x s := some (happen x s)

abbrev State := Config Kind Call (Except Fault Unit) Disk Call.Answer

namespace Disk

def hasVolume (s : Disk) (id : SandboxID) : Bool := (s.devices.get? (volumePrefix ++ id)).isSome

def hasDir (s : Disk) (id : SandboxID) : Bool := (s.entries.get? id).any Entry.isDir

end Disk

inductive Touch where
  | nothing
  | owner (id : SandboxID)
  | entry (name : String)
  | device (name : String)
  deriving DecidableEq

def touches : Call → Touch
  | .own id | .disown id => .owner id
  | .mkdir name | .remove name => .entry name
  | .devCreate name | .devRemove name => .device name
  | _ => .nothing

def Based (s : Disk) : Prop := ∀ id, s.hasDir id = true → s.hasBase = true

structure Frame (c : Call) (s t : Disk) : Prop where
  born : t.born = s.born
  epoch : t.epoch = s.epoch
  owner : ∀ id, touches c ≠ .owner id → t.owner id = s.owner id
  dir : ∀ id, touches c ≠ .entry id → t.hasDir id = s.hasDir id
  volume : ∀ id, touches c ≠ .device (volumePrefix ++ id) → t.hasVolume id = s.hasVolume id
  based : Based s → Based t

section Operations
variable {i : Nat} {c : Call} {e : Env} {s t : Disk} {id : SandboxID} {name : String}

theorem Frame.refl (c : Call) (s : Disk) : Frame c s s :=
  ⟨rfl, rfl, fun _ _ => rfl, fun _ _ => rfl, fun _ _ => rfl, id⟩

theorem Frame.attempt {α : Type} {r : Except Errno α × Disk} (h : Frame c s r.2) :
    Frame c s (attempt e s r).2 := by
  unfold Host.attempt
  split
  · exact .refl c s
  · exact h

theorem Frame.devices {devices : Table String Device}
    (h : ∀ id, touches c ≠ .device (volumePrefix ++ id) →
      (devices.get? (volumePrefix ++ id)).isSome = s.hasVolume id) :
    Frame c s { s with devices } :=
  ⟨rfl, rfl, fun _ _ => rfl, fun _ _ => rfl, h, id⟩

theorem Frame.entries {entries : Table String Entry}
    (h : ∀ id, touches c ≠ .entry id → (entries.get? id).any Entry.isDir = s.hasDir id)
    (based : Based s → Based { s with entries }) : Frame c s { s with entries } :=
  ⟨rfl, rfl, fun _ _ => rfl, h, fun _ _ => rfl, based⟩

theorem onDevice_frame {f : Device → Device} : Frame c s (onDevice name s f).2 := by
  unfold onDevice
  split
  · exact .refl c s
  · rename_i d found
    refine .devices fun id _ => ?_
    by_cases same : volumePrefix ++ id = name
    · simp [Disk.hasVolume, same, found]
    · simp [Disk.hasVolume, same]

theorem onFiles_frame {f : List String → List String} : Frame c s (onFiles name s f).2 := by
  unfold onFiles
  split
  · rename_i files found
    have same (id : SandboxID) : ((s.entries.set name (.dir (f files))).get? id).any Entry.isDir =
        s.hasDir id := by
      by_cases same : id = name
      · simp [Disk.hasDir, same, found, Entry.isDir]
      · simp [Disk.hasDir, same]
    exact .entries (fun id _ => same id) fun based id dir => based id ((same id).symm.trans dir)
  · exact .refl c s

theorem mkdir_frame : Frame (.mkdir name) s (mkdir name s).2 := by
  unfold mkdir
  split
  · exact .refl _ s
  · split
    · rename_i base
      refine .entries (fun id other => ?_) fun _ _ _ => base
      have other : id ≠ name := fun eq => other (by rw [eq]; rfl)
      simp [Disk.hasDir, other]
    · exact .refl _ s

theorem remove_frame : Frame (.remove name) s (remove name s).2 := by
  unfold remove
  split
  · exact .refl _ s
  · exact .refl _ s
  · refine .entries (fun id other => ?_) fun based id dir => based id ?_
    · have other : id ≠ name := fun eq => other (by rw [eq]; rfl)
      simp [Disk.hasDir, other]
    · by_cases same : id = name
      · simp [Disk.hasDir, same] at dir
      · simpa [Disk.hasDir, same] using dir

theorem devCreate_frame : Frame (.devCreate name) s (devCreate name e s).2 := by
  unfold devCreate
  split
  · exact .refl _ s
  · refine .devices fun id other => ?_
    have other : volumePrefix ++ id ≠ name := fun eq => other (by rw [eq]; rfl)
    simp [Disk.hasVolume, other]

theorem devRemove_frame : Frame (.devRemove name) s (devRemove name e s).2 := by
  unfold devRemove
  split
  · exact .refl _ s
  · split
    · exact .refl _ s
    · refine .devices fun id other => ?_
      have other : volumePrefix ++ id ≠ name := fun eq => other (by rw [eq]; rfl)
      simp [Disk.hasVolume, other]

theorem owner_frame {j : Option Nat} (h : touches c = .owner id) :
    Frame c s { s with owner := Function.update s.owner id j } :=
  ⟨rfl, rfl, fun k other => Function.update_of_ne (fun eq : k = id => other (eq ▸ h)) _ _,
    fun _ _ => rfl, fun _ _ => rfl, fun based => based⟩

theorem operate_frame (i : Nat) (c : Call) (e : Env) (s : Disk) :
    Frame c s (operate i c e s).2 := by
  cases c with
  | own | disown => exact owner_frame rfl
  | probe | rand | loadBase => exact .refl _ s
  | createSnap thinID =>
    refine .attempt ?_
    split
    · exact .refl _ s
    · exact ⟨rfl, rfl, fun _ _ => rfl, fun _ _ => rfl, fun _ _ => rfl, id⟩
  | delete => exact .attempt ⟨rfl, rfl, fun _ _ => rfl, fun _ _ => rfl, fun _ _ => rfl, id⟩
  | mkdirBase =>
    exact .attempt ⟨rfl, rfl, fun _ _ => rfl, fun _ _ => rfl, fun _ _ => rfl, fun _ _ _ => rfl⟩
  | devCreate => exact .attempt devCreate_frame
  | devRemove => exact .attempt devRemove_frame
  | tableLoad | devResume => exact .attempt onDevice_frame
  | mkdir => exact .attempt mkdir_frame
  | remove => exact .attempt remove_frame
  | writeFile => exact .attempt onFiles_frame
  | removeFile =>
    refine .attempt ?_
    split
    · exact onFiles_frame
    · exact .refl _ s
  | loadPool | tableStatus | statNode | removeNode | mknod | readDir | stat | readNames =>
    exact .attempt (.refl _ s)

theorem exec_operate {a : c.Answer} (h : exec i c e s = some (a, t)) :
    s.born i = s.epoch ∧ operate i c e s = (a, t) ∧ ∀ id, c = .own id → s.owner id = none := by
  unfold exec at h
  split at h
  · cases h
  · rename_i current
    refine ⟨Decidable.not_not.1 current, ?_⟩
    cases c with
    | own id =>
      dsimp only at h
      split at h
      · rename_i free
        exact ⟨Option.some.inj h, fun id' eq => by cases eq; exact free⟩
      · cases h
    | _ => exact ⟨Option.some.inj h, fun id' eq => by cases eq⟩

end Operations

/-- Every volume is a sandbox's, and its directory exists. -/
structure Marked [Uuid] (s : Disk) : Prop where
  volume : ∀ id, s.hasVolume id = true → isSandboxID id = true ∧ s.hasDir id = true
  based : Based s

def Current (i : Nat) (s : Disk) : Prop := s.born i = s.epoch

/-- When a thread may make a call. A directory is only removed without its
volume, a volume only made in its directory. -/
def may [Uuid] (i : Nat) (s : Disk) : Call → Prop
  | .disown id => s.owner id = some i
  | .mkdir name => s.owner name = some i
  | .remove name => s.owner name = some i ∧ s.hasVolume name = false
  | .devCreate name => ∃ id, name = volumePrefix ++ id ∧ s.owner id = some i ∧
      isSandboxID id = true ∧ s.hasDir id = true
  | .devRemove name => ∃ id, name = volumePrefix ++ id ∧ s.owner id = some i
  | _ => True

def Undisturbed (i : Nat) (s t : Disk) : Prop :=
  Current i t → Current i s ∧ ∀ id, s.owner id = some i →
    t.owner id = some i ∧ t.hasDir id = s.hasDir id ∧ t.hasVolume id = s.hasVolume id

def spec [Uuid] : Spec Call Env Event Disk where
  Inv s := Marked s ∧ ∀ i, s.born i ≤ s.epoch
  Evolves _ _ := True
  Keeps := Undisturbed
  Pre i c s := Current i s → may i s c
  Cond _ _ _ _ := True
  Out _ _ := True

theorem volumePrefix_inj {id id' : SandboxID} (h : volumePrefix ++ id = volumePrefix ++ id') :
    id = id' := by
  have chars := congrArg String.toList h
  simp only [String.toList_append, List.append_cancel_left_eq] at chars
  exact String.toList_inj.1 chars

section Sound
variable {i : Nat} {c : Call} {e : Env} {a : c.Answer} {s t : Disk}

theorem may_owner [Uuid] (allowed : may i s c) {id : SandboxID}
    (h : touches c = .entry id ∨ touches c = .device (volumePrefix ++ id)) :
    s.owner id = some i := by
  cases c with
  | mkdir name =>
    obtain h | h := h
    · cases h
      exact allowed
    · cases h
  | remove name =>
    obtain h | h := h
    · cases h
      exact allowed.1
    · cases h
  | devCreate name =>
    obtain ⟨id', rfl, owner, -⟩ := allowed
    obtain h | h := h
    · cases h
    · rw [← volumePrefix_inj (Touch.device.inj h)]
      exact owner
  | devRemove name =>
    obtain ⟨id', rfl, owner⟩ := allowed
    obtain h | h := h
    · cases h
    · rw [← volumePrefix_inj (Touch.device.inj h)]
      exact owner
  | _ => rcases h with h | h <;> cases h

theorem mkdir_hasDir {name : String} (h : s.hasDir name = true) :
    (operate i (.mkdir name) e s).2.hasDir name = true := by
  simp only [operate, attempt]
  split
  · exact h
  · unfold mkdir
    split
    · exact h
    · rename_i missing
      simp [Disk.hasDir, missing] at h

theorem devRemove_hasVolume {id : SandboxID} (h : s.hasVolume id = false) :
    (operate i (.devRemove (volumePrefix ++ id)) e s).2.hasVolume id = false := by
  simp only [operate, attempt]
  split
  · exact h
  · unfold devRemove
    split
    · exact h
    · split
      · exact h
      · simp [Disk.hasVolume]

theorem operate_marked [Uuid] (inv : Marked s) (allowed : may i s c) :
    Marked (operate i c e s).2 := by
  have frame := operate_frame i c e s
  refine ⟨fun id volume => ?_, frame.based inv.based⟩
  by_cases device : touches c = .device (volumePrefix ++ id)
  · -- a device is made in a directory that exists, and removing one removes no other
    have dir : (operate i c e s).2.hasDir id = s.hasDir id :=
      frame.dir id (by rw [device]; exact nofun)
    rw [dir]
    cases c with
    | devCreate name =>
      obtain ⟨id', rfl, -, valid, made⟩ := allowed
      rw [← volumePrefix_inj (Touch.device.inj device)]
      exact ⟨valid, made⟩
    | devRemove name =>
      cases device
      cases before : s.hasVolume id with
      | true => exact inv.volume id before
      | false =>
        rw [devRemove_hasVolume before] at volume
        cases volume
    | _ => cases device
  · rw [frame.volume id device] at volume
    obtain ⟨valid, dir⟩ := inv.volume id volume
    refine ⟨valid, ?_⟩
    by_cases entry : touches c = .entry id
    · cases c with
      | mkdir name =>
        cases entry
        exact mkdir_hasDir dir
      | remove name =>
        cases entry
        rw [allowed.2] at volume
        cases volume
      | _ => cases entry
    · rw [frame.dir id entry]
      exact dir

theorem operate_undisturbed [Uuid] (allowed : may i s c)
    (free : ∀ id, c = .own id → s.owner id = none)
    {j : Nat} (other : j ≠ i) : Undisturbed j s (operate i c e s).2 := by
  have frame := operate_frame i c e s
  intro current
  refine ⟨?_, fun id mine => ?_⟩
  · simpa only [Current, frame.born, frame.epoch] using current
  have theirs : s.owner id ≠ some i := fun eq => other (Option.some.inj (mine.symm.trans eq))
  refine ⟨?_, frame.dir id fun h => theirs (may_owner allowed (.inl h)),
    frame.volume id fun h => theirs (may_owner allowed (.inr h))⟩
  rw [frame.owner id ?_, mine]
  intro h
  cases c with
  | own id' =>
    cases h
    rw [free id rfl] at mine
    cases mine
  | disown id' =>
    cases h
    exact theirs allowed
  | _ => cases h

theorem spec_sound [Uuid] : spec.Sound exec where
  evolves_refl _ := trivial
  evolves_trans _ _ := trivial
  keeps_refl _ _ current := ⟨current, fun _ mine => ⟨mine, rfl, rfl⟩⟩
  keeps_trans first second current := by
    obtain ⟨current, later⟩ := second current
    obtain ⟨current, before⟩ := first current
    refine ⟨current, fun id mine => ?_⟩
    obtain ⟨mine, dir, volume⟩ := before id mine
    obtain ⟨mine, dir', volume'⟩ := later id mine
    exact ⟨mine, dir'.trans dir, volume'.trans volume⟩
  step {i c e s a t} inv pre _ ran := by
    obtain ⟨current, done, free⟩ := exec_operate ran
    have allowed := pre current
    have after := congrArg Prod.snd done
    dsimp only at after
    subst after
    refine ⟨⟨operate_marked inv.1 allowed, fun j => ?_⟩, trivial,
      fun j => operate_undisturbed allowed free⟩
    have frame := operate_frame i c e s
    simpa only [frame.born, frame.epoch] using inv.2 j

end Sound

/-- What a thread knows of an ID it owns: that its directory exists, that it has
no volume. -/
structure Owns (i : Nat) (id : SandboxID) (made clear : Prop) (s : Disk) : Prop where
  owner : Current i s → s.owner id = some i
  dir : Current i s → made → s.hasDir id = true
  volume : Current i s → clear → s.hasVolume id = false

section Triples
variable {α β : Type} {i : Nat} {id : SandboxID} {made clear made' clear' : Prop} {s t : Disk}
  {Q : α → Disk → Prop} {c : Call} {p : Pool}

theorem Owns.rely [Uuid] (h : Owns i id made clear s) (rely : spec.Rely i s t) :
    Owns i id made clear t := by
  have kept (current : Current i t) := (rely.2 current).2 id (h.owner (rely.2 current).1)
  refine ⟨fun current => (kept current).1, fun current known => ?_, fun current known => ?_⟩
  · rw [(kept current).2.1]
    exact h.dir (rely.2 current).1 known
  · rw [(kept current).2.2]
    exact h.volume (rely.2 current).1 known

theorem Owns.weaken (h : Owns i id made clear s) (less : made' → made) (less' : clear' → clear) :
    Owns i id made' clear' s :=
  ⟨h.owner, fun current known => h.dir current (less known),
    fun current known => h.volume current (less' known)⟩

theorem owned_call [Uuid] {k : c.Answer → M α} (h : Owns i id made clear s)
    (allowed : ∀ t, Current i t → Owns i id made clear t → may i t c)
    (next : ∀ t e, Current i t → Owns i id made clear t →
      WP exec spec i Q (k (operate i c e t).1) (operate i c e t).2) :
    WP exec spec i Q (.call c k) s := by
  refine .call (fun t _ rely current => allowed t current (h.rely rely)) ?_
  intro t e a u _ rely _ ran _
  obtain ⟨current, done, -⟩ := exec_operate ran
  have after := next t e current (h.rely rely)
  rw [done] at after
  exact after

theorem Owns.frame {e : Env} (h : Owns i id made clear s)
    (owner : touches c ≠ .owner id) (entry : touches c ≠ .entry id)
    (device : touches c ≠ .device (volumePrefix ++ id)) :
    Owns i id made clear (operate i c e s).2 := by
  have frame := operate_frame i c e s
  have back (current : Current i (operate i c e s).2) : Current i s := by
    simpa only [Current, frame.born, frame.epoch] using current
  refine ⟨fun current => ?_, fun current known => ?_, fun current known => ?_⟩
  · rw [frame.owner id owner]
    exact h.owner (back current)
  · rw [frame.dir id entry]
    exact h.dir (back current) known
  · rw [frame.volume id device]
    exact h.volume (back current) known

abbrev Quiet (p : M α) : Prop := p.Asks (fun _ _ => True) fun c => touches c = .nothing

theorem quiet_call (h : touches c = .nothing) : Quiet (call c) := call_asks h

theorem quiet_wp [Uuid] {p : M α} (quiet : Quiet p) (h : Owns i id made clear s) :
    WP exec spec i (fun _ t => Owns i id made clear t) p s := by
  induction quiet generalizing s with
  | ret a => exact .ret h
  | @call c k hc _ ih =>
    refine owned_call h (fun t _ _ => ?_) fun t e _ known => ih _ trivial (known.frame ?_ ?_ ?_)
    · cases c with
      | own | disown | mkdir | remove | devCreate | devRemove => cases hc
      | _ => trivial
    all_goals rw [hc]; exact nofun

theorem createSnapshot_quiet {baseID left : Nat} :
    Quiet (createSnapshot p baseID left) := by
  induction left with
  | zero => exact .ret _
  | succ left ih =>
    refine (quiet_call rfl).bind fun drawn => ?_
    refine (request_asks (quiet_call rfl)).bind fun r => ?_
    cases r with
    | ok => exact .ret _
    | error err =>
      dsimp only
      split
      · exact ih
      · exact .ret _

theorem deleteThin_quiet {thinID : Nat} : Quiet (deleteThin p thinID) :=
  request_asks (quiet_call rfl)

theorem removeFiles_quiet {name : String} {files : List String} :
    Quiet (removeFiles name files) := by
  induction files with
  | nil => exact .ret _
  | cons file files ih => exact (quiet_call rfl).bind fun _ => ih

theorem spawn_quiet {path : String} : Quiet (spawn id path) := by
  have started : Quiet (do
      if !(← call (.probe .startShim)) then return .error (Fault.new "start shim")
      else if !(← call (.probe .connectShim)) then return .error (.new "shim did not listen")
      else return .ok () : M (Except Fault Unit)) := by
    refine (quiet_call rfl).bind fun r => ?_
    split
    · exact .ret _
    refine (quiet_call rfl).bind fun r => ?_
    split <;> exact .ret _
  unfold spawn
  split
  · exact .ret _
  refine (quiet_call rfl).bind fun r => ?_
  cases r with
  | error => exact .ret _
  | ok =>
    refine (quiet_call rfl).bind fun r => ?_
    cases r with
    | error => exact .ret _
    | ok =>
      refine (quiet_call rfl).bind fun r => ?_
      split
      · exact started
      · exact started
      · exact .ret _

theorem vmStop_quiet : Quiet vmStop := by
  refine (quiet_call rfl).bind fun r => ?_
  split <;> exact .ret _

theorem killFirecracker_quiet : Quiet (reapSandbox.killFirecracker id) := by
  refine (quiet_call rfl).bind fun r => ?_
  split
  · refine (quiet_call rfl).bind fun r => ?_
    split <;> exact .ret _
  · exact .ret _

theorem devRemove_wp [Uuid] (h : Owns i id made clear s) :
    WP exec spec i (fun r t => Owns i id made (r = .ok ()) t)
      (call (.devRemove (volumePrefix ++ id))) s := by
  refine owned_call h (fun t current known => ⟨id, rfl, known.owner current⟩)
    fun t e current known => ?_
  have frame := operate_frame i (.devRemove (volumePrefix ++ id)) e t
  refine .ret ⟨fun _ => ?_, fun _ known' => ?_, fun _ done => ?_⟩
  · rw [frame.owner id (by simp [touches])]
    exact known.owner current
  · rw [frame.dir id (by simp [touches])]
    exact known.dir current known'
  · revert done
    simp only [operate, attempt, devRemove]
    split
    · intro eq
      cases eq
    · split
      · intro eq
        cases eq
      · split
        · intro eq
          cases eq
        · intro _
          simp [Disk.hasVolume]

theorem removeDevice_wp [Uuid] {retries : Nat} (h : Owns i id made clear s) :
    WP exec spec i (fun r t => Owns i id made (r = .ok ()) t)
      (removeDevice (volumePrefix ++ id) retries) s := by
  have tried {clear : Prop} {s : Disk} (h : Owns i id made clear s) :
      WP exec spec i (fun r t => Owns i id made (r = .ok ()) t)
        (request (volumePrefix ++ id) ("remove device " ++ (volumePrefix ++ id))
          (call (.devRemove (volumePrefix ++ id)))) s := by
    unfold request
    split
    · exact .ret (h.weaken (fun known => known) nofun)
    · refine (devRemove_wp h).bind fun r t known => ?_
      cases r with
      | error => exact .ret (known.weaken (fun known => known) nofun)
      | ok => exact .ret (known.weaken (fun known => known) fun _ => rfl)
  induction retries generalizing clear s with
  | zero => exact tried h
  | succ left ih =>
    refine (tried h).bind fun r t known => ?_
    cases r with
    | ok => exact .ret known
    | error err =>
      dsimp only
      split
      · exact ih known
      · exact .ret (known.weaken (fun known => known) nofun)

theorem table_wp [Uuid] {left : Nat} (h : Owns i id made False s) :
    WP exec spec i (fun r t => Owns i id made (∃ err, r = .error err ∧ err.is .enxio = true) t)
      (table (volumePrefix ++ id) left) s := by
  induction left generalizing s with
  | zero => exact .ret (h.weaken (fun known => known) (by rintro ⟨_, ⟨⟩, ⟨⟩⟩))
  | succ left ih =>
    unfold table request
    split
    · rename_i err refused
      refine .ret (h.weaken (fun known => known) ?_)
      rintro ⟨_, ⟨⟩, missing⟩
      unfold newRequest at refused
      split at refused
      · cases refused
        cases missing
      · cases refused
    · refine owned_call h (fun _ _ _ => trivial) fun t e current known => ?_
      have kept : Owns i id made False (operate i (.tableStatus (volumePrefix ++ id)) e t).2 :=
        known.frame nofun nofun nofun
      revert kept
      simp only [operate, attempt]
      split
      · intro kept
        exact .ret (kept.weaken (fun known => known) (by rintro ⟨_, ⟨⟩, ⟨⟩⟩))
      · unfold tableStatus
        split
        · rename_i missing
          intro kept
          exact .ret ⟨kept.owner, kept.dir, fun _ _ => by simp [Disk.hasVolume, missing]⟩
        · split
          · exact fun kept => ih kept
          · exact fun kept => .ret (kept.weaken (fun known => known) (by rintro ⟨_, ⟨⟩, ⟨⟩⟩))

theorem volumeName_eq {name : String} (h : volumeName id = .ok name) :
    name = volumePrefix ++ id := by
  unfold volumeName at h
  split at h
  · exact (Except.ok.inj h).symm
  · cases h

theorem removeVolume_wp [Uuid] (h : Owns i id made False s) :
    WP exec spec i (fun r t => Owns i id made (r = .ok ()) t) (removeVolume p id) s := by
  unfold removeVolume
  split
  · exact .ret (h.weaken (fun known => known) nofun)
  rename_i name named
  cases volumeName_eq named
  refine (quiet_wp (quiet_call rfl) h).bind fun opened t known => ?_
  split
  · exact .ret (known.weaken (fun known => known) nofun)
  refine (table_wp known).bind fun r t known => ?_
  cases r with
  | error err =>
    dsimp only
    split
    · rename_i missing
      refine (quiet_wp (removeNode_asks rfl) known).mono fun r t known => ?_
      exact known.weaken (fun known => known) fun _ => ⟨err, rfl, missing⟩
    · exact .ret (known.weaken (fun known => known) nofun)
  | ok targets =>
    dsimp only
    split
    · exact .ret (known.weaken (fun known => known) nofun)
    refine (removeDevice_wp known).bind fun r t known => ?_
    cases r with
    | error => exact .ret (known.weaken (fun known => known) nofun)
    | ok =>
      refine (quiet_wp (removeNode_asks rfl) known).bind fun r t known => ?_
      cases r with
      | error => exact .ret (known.weaken (fun known => known) nofun)
      | ok =>
        refine (quiet_wp deleteThin_quiet known).mono fun r t known => ?_
        exact known.weaken (fun known => known) fun _ => rfl

theorem createDevice_wp [Uuid] {targets : List Target} (valid : isSandboxID id = true)
    (h : Owns i id True False s) :
    WP exec spec i (fun _ t => Owns i id True False t)
      (createDevice (volumePrefix ++ id) targets) s := by
  have created : WP exec spec i (fun _ t => Owns i id True False t)
      (request (volumePrefix ++ id) ("create device " ++ (volumePrefix ++ id))
        (call (.devCreate (volumePrefix ++ id)))) s := by
    unfold request
    split
    · exact .ret h
    · refine owned_call h (fun t current known =>
        ⟨id, rfl, known.owner current, valid, known.dir current trivial⟩)
          fun t e current known => ?_
      have frame := operate_frame i (.devCreate (volumePrefix ++ id)) e t
      have kept : Owns i id True False (operate i (.devCreate (volumePrefix ++ id)) e t).2 := by
        refine ⟨fun _ => ?_, fun _ _ => ?_, fun _ => nofun⟩
        · rw [frame.owner id nofun]
          exact known.owner current
        · rw [frame.dir id nofun]
          exact known.dir current trivial
      generalize (operate i (.devCreate (volumePrefix ++ id)) e t).1 = r
      cases r <;> exact .ret kept
  unfold createDevice
  refine created.bind fun r t known => ?_
  cases r with
  | error => exact .ret known
  | ok dev =>
    refine (quiet_wp (loadTable_asks rfl rfl) known).bind fun r t known => ?_
    cases r with
    | ok => exact .ret known
    | error =>
      refine (removeDevice_wp known).bind fun r t known => ?_
      cases r <;> exact .ret (known.weaken (fun known => known) nofun)

theorem createVolume_wp [Uuid] (valid : isSandboxID id = true) (h : Owns i id True False s) :
    WP exec spec i (fun _ t => Owns i id True False t) (createVolume p id) s := by
  unfold createVolume
  split
  · exact .ret h
  rename_i name named
  cases volumeName_eq named
  refine (quiet_wp (quiet_call rfl) h).bind fun r t known => ?_
  cases r with
  | error => exact .ret known
  | ok b =>
    refine (quiet_wp (quiet_call rfl) known).bind fun opened t known => ?_
    split
    · exact .ret known
    refine (quiet_wp createSnapshot_quiet known).bind fun r t known => ?_
    cases r with
    | error => exact .ret known
    | ok thinID =>
      refine (createDevice_wp valid known).bind fun r t known => ?_
      cases r with
      | error =>
        refine (quiet_wp deleteThin_quiet known).bind fun r t known => ?_
        cases r <;> exact .ret known
      | ok dev =>
        refine (quiet_wp (ensureNode_asks rfl rfl rfl) known).bind fun r t known => ?_
        cases r with
        | ok => exact .ret known
        | error =>
          refine (removeVolume_wp known).bind fun r t known => ?_
          cases r <;> exact .ret (known.weaken (fun known => known) nofun)

theorem stat_wp [Uuid] (h : Owns i id made clear s) :
    WP exec spec i (fun r t => Owns i id (r = .ok true) clear t) (call (.stat id)) s := by
  refine owned_call h (fun _ _ _ => trivial) fun t e current known => .ret ?_
  have kept : Owns i id made clear (operate i (.stat id) e t).2 :=
    known.frame (by simp [touches]) (by simp [touches]) (by simp [touches])
  refine ⟨kept.owner, fun _ => ?_, kept.volume⟩
  simp only [operate, attempt, stat, Disk.hasDir]
  split
  · intro eq
    cases eq
  · split
    · intro eq
      cases eq
    · rename_i found
      intro isDir
      simpa [found] using isDir

theorem mkdir_wp [Uuid] (h : Owns i id made clear s) :
    WP exec spec i (fun r t => Owns i id (r = .ok ()) clear t) (call (.mkdir id)) s := by
  refine owned_call h (fun t current known => known.owner current) fun t e current known => .ret ?_
  have frame := operate_frame i (.mkdir id) e t
  refine ⟨fun _ => ?_, fun _ => ?_, fun _ known' => ?_⟩
  · rw [frame.owner id (by simp [touches])]
    exact known.owner current
  · simp only [operate, attempt, mkdir]
    split
    · intro eq
      cases eq
    · split
      · intro eq
        cases eq
      · split
        · exact fun _ => by simp [Disk.hasDir, Entry.isDir]
        · intro eq
          cases eq
  · rw [frame.volume id (by simp [touches])]
    exact known.volume current known'

theorem mkdirAll_wp [Uuid] (h : Owns i id made clear s) :
    WP exec spec i (fun r t => Owns i id (r = .ok ()) clear t) (mkdirAll id) s := by
  have keep {p : Prop} {r : Except Fault Unit} {t : Disk} (known : Owns i id p clear t)
      (fits : r = .ok () → p) : WP exec spec i (fun r t => Owns i id (r = .ok ()) clear t)
      (.ret r) t :=
    .ret (known.weaken fits fun known => known)
  refine (stat_wp h).bind fun r t known => ?_
  match r, known with
  | .ok true, known => exact keep known fun _ => rfl
  | .ok false, known => exact keep known nofun
  | .error _, known =>
    refine (quiet_wp (quiet_call rfl) known).bind fun r t known => ?_
    cases r with
    | error => exact keep known nofun
    | ok =>
      refine (mkdir_wp known).bind fun r t known => ?_
      cases r with
      | ok => exact keep known fun _ => rfl
      | error =>
        refine (stat_wp known).bind fun r t known => ?_
        match r, known with
        | .ok true, known => exact keep known fun _ => rfl
        | .ok false, known => exact keep known nofun
        | .error _, known => exact keep known nofun

theorem newClient_wp [Uuid] (h : Owns i id made clear s) :
    WP exec spec i (fun r t => Owns i id (r = .ok ()) clear t ∧
      (r = .ok () → isSandboxID id = true)) (newClient id) s := by
  unfold newClient checkSandboxID
  by_cases valid : isSandboxID id = true
  · simp only [valid, if_true]
    refine (mkdirAll_wp h).bind fun r t known => ?_
    cases r with
    | error => exact .ret ⟨known.weaken nofun fun known => known, nofun⟩
    | ok => exact .ret ⟨known.weaken (fun _ => rfl) fun known => known, fun _ => trivial⟩
  · simp only [valid]
    exact .ret ⟨h.weaken nofun fun known => known, nofun⟩

theorem newFirecrackerVM_wp [Uuid] {imageDir : String} (h : Owns i id made clear s) :
    WP exec spec i (fun r t => Owns i id (r = .ok ()) clear t ∧
      (r = .ok () → isSandboxID id = true)) (newFirecrackerVM imageDir id) s := by
  unfold newFirecrackerVM
  split
  · exact .ret ⟨h.weaken nofun fun known => known, nofun⟩
  refine (quiet_wp (quiet_call rfl) h).bind fun r t known => ?_
  split
  · exact .ret ⟨known.weaken nofun fun known => known, nofun⟩
  refine (newClient_wp known).bind fun r t known => ?_
  cases r with
  | error => exact .ret ⟨known.1.weaken nofun fun known => known, nofun⟩
  | ok => exact .ret ⟨known.1.weaken (fun _ => rfl) fun known => known, fun _ => known.2 rfl⟩

theorem remove_wp [Uuid] (h : Owns i id made True s) :
    WP exec spec i (fun _ t => Owns i id False True t) (call (.remove id)) s := by
  refine owned_call h (fun t current known => ⟨known.owner current, known.volume current trivial⟩)
    fun t e current known => .ret ?_
  have frame := operate_frame i (.remove id) e t
  refine ⟨fun _ => ?_, fun _ => nofun, fun _ _ => ?_⟩
  · rw [frame.owner id nofun]
    exact known.owner current
  · rw [frame.volume id nofun]
    exact known.volume current trivial

theorem removeAll_wp [Uuid] (h : Owns i id made True s) :
    WP exec spec i (fun _ t => Owns i id False True t) (removeAll id) s := by
  refine (remove_wp h).bind fun r t known => ?_
  split
  · exact .ret known
  · exact .ret known
  refine (quiet_wp (quiet_call rfl) known).bind fun r t known => ?_
  split
  · exact .ret known
  · exact .ret known
  refine (quiet_wp removeFiles_quiet known).bind fun _ t known => ?_
  refine (remove_wp known).bind fun r t known => ?_
  split <;> exact .ret known

theorem configRemoveVolume_wp [Uuid] (h : Owns i id made False s) :
    WP exec spec i (fun r t => Owns i id made (r = .ok ()) t) (configRemoveVolume id) s := by
  refine (quiet_wp (quiet_call rfl) h).bind fun r t known => ?_
  cases r with
  | error => exact .ret (known.weaken (fun known => known) nofun)
  | ok pool => exact removeVolume_wp known

theorem Owns.forget (h : Owns i id made clear s) : Owns i id False False s :=
  h.weaken nofun nofun

theorem vmCleanup_wp [Uuid] (h : Owns i id made False s) :
    WP exec spec i (fun _ t => Owns i id False False t) (vmCleanup id) s := by
  refine (configRemoveVolume_wp h).bind fun r t known => ?_
  cases r with
  | error => exact .ret known.forget
  | ok =>
    refine (removeAll_wp (known.weaken (fun known => known) fun _ => rfl)).bind fun r t known => ?_
    cases r with
    | ok => exact .ret known.forget
    | error =>
      dsimp only
      split <;> exact .ret known.forget

theorem reapSandbox_wp [Uuid] (h : Owns i id made False s) :
    WP exec spec i (fun _ t => Owns i id False False t) (reapSandbox id) s := by
  unfold reapSandbox
  split
  · exact .ret h.forget
  refine (quiet_wp (quiet_call rfl) h).bind fun r t known => ?_
  split
  · exact .ret known.forget
  refine (quiet_wp killFirecracker_quiet known).bind fun r t known => ?_
  cases r with
  | error => exact .ret known.forget
  | ok =>
    refine (configRemoveVolume_wp known).bind fun r t known => ?_
    cases r with
    | error => exact .ret known.forget
    | ok =>
      refine (removeAll_wp (known.weaken (fun known => known) fun _ => rfl)).bind
        fun r t known => ?_
      cases r <;> exact .ret known.forget

theorem serviceRemove_wp [Uuid] (h : Owns i id made False s) :
    WP exec spec i (fun _ t => Owns i id False False t) (serviceRemove id) s := by
  refine (quiet_wp vmStop_quiet h).bind fun stopped t known => ?_
  refine (vmCleanup_wp known).bind fun r t known => ?_
  cases r with
  | error => exact .ret known
  | ok => cases stopped <;> exact .ret known

theorem vmCreate_wp [Uuid] (valid : isSandboxID id = true) (h : Owns i id True False s) :
    WP exec spec i (fun _ t => Owns i id True False t) (vmCreate id) s := by
  refine (quiet_wp (quiet_call rfl) h).bind fun r t known => ?_
  cases r with
  | error => exact .ret known
  | ok pool =>
    refine (createVolume_wp valid known).bind fun r t known => ?_
    cases r with
    | error => exact .ret known
    | ok path =>
      refine (quiet_wp spawn_quiet known).bind fun r t known => ?_
      cases r with
      | error => exact .ret known
      | ok =>
        refine (quiet_wp (quiet_call rfl) known).bind fun r t known => ?_
        split <;> exact .ret known

theorem serviceCreate_wp [Uuid] {imageDir : String} (h : Owns i id made False s) :
    WP exec spec i (fun _ t => Owns i id False False t) (serviceCreate imageDir id) s := by
  refine (newFirecrackerVM_wp h).bind fun r t known => ?_
  cases r with
  | error => exact .ret known.1.forget
  | ok =>
    obtain ⟨known, valid⟩ := known
    refine (vmCreate_wp (valid rfl) (known.weaken (fun _ => rfl) nofun)).bind fun r t known => ?_
    cases r with
    | ok => exact .ret known.forget
    | error => exact (serviceRemove_wp known).bind fun _ t known => .ret known

theorem owned_wp [Uuid] {p : M (Except Fault Unit)}
    (h : ∀ s, Owns i id False False s → WP exec spec i (fun _ t => Owns i id False False t) p s) :
    WP exec spec i (fun _ _ => True) (owned id p) s := by
  refine .call (fun _ _ _ _ => trivial) ?_
  intro t e a u _ _ _ ran _
  obtain ⟨-, done, -⟩ := exec_operate ran
  have after := congrArg Prod.snd done
  dsimp only at after
  subst after
  refine (h _ ⟨fun _ => Function.update_self .., fun _ => nofun, fun _ => nofun⟩).bind
    fun r t known => ?_
  exact owned_call known (fun t current known => known.owner current) fun _ _ _ _ => .ret trivial

theorem reap_wp [Uuid] : WP exec spec i (fun _ _ => True) (owned id (reapSandbox id)) s :=
  owned_wp fun _ known => reapSandbox_wp known

theorem probe_wp [Uuid] (h : touches c = .nothing) :
    WP exec spec i (fun _ _ => True) (call c) s := by
  refine .call (fun _ _ _ _ => ?_) fun _ _ _ _ _ _ _ _ _ => .ret trivial
  cases c with
  | own | disown | mkdir | remove | devCreate | devRemove => cases h
  | _ => trivial

theorem reapUnless_wp [Uuid] {kept : Probe} {ids : List SandboxID} :
    WP exec spec i (fun _ _ => True) (reapUnless kept ids) s := by
  induction ids generalizing s with
  | nil => exact .ret trivial
  | cons id ids ih =>
    refine (probe_wp rfl).bind fun held t _ => ?_
    split
    · exact ih
    refine reap_wp.bind fun r t _ => ?_
    cases r with
    | ok => exact ih
    | error => exact ih.bind fun _ _ _ => .ret trivial

theorem reapAll_wp [Uuid] {ids : List SandboxID} :
    WP exec spec i (fun _ _ => True) (reapAll ids) s := by
  induction ids generalizing s with
  | nil => exact .ret trivial
  | cons id ids ih =>
    refine reap_wp.bind fun r t _ => ?_
    cases r with
    | ok => exact ih
    | error => exact ih.bind fun _ _ _ => .ret trivial

theorem listSandboxDirs_wp [Uuid] : WP exec spec i (fun _ _ => True) listSandboxDirs s :=
  (probe_wp rfl).bind fun _ _ _ => .ret trivial

theorem reapListed_wp [Uuid] {kept : Probe} :
    WP exec spec i (fun _ _ => True) (reapListed kept) s := by
  refine listSandboxDirs_wp.bind fun r t _ => ?_
  cases r with
  | error => exact .ret trivial
  | ok ids => exact reapUnless_wp.bind fun _ _ _ => .ret trivial

theorem reapOrphans_wp [Uuid] : WP exec spec i (fun _ _ => True) reapOrphans s := by
  refine listSandboxDirs_wp.bind fun r t _ => ?_
  cases r with
  | error => exact .ret trivial
  | ok ids => exact reapAll_wp.bind fun _ _ _ => .ret trivial

theorem body_wp [Uuid] (k : Kind) : WP exec spec i (fun _ _ => True) (body k) s := by
  cases k with
  | create imageDir id => exact owned_wp fun _ known => serviceCreate_wp known
  | remove id => exact owned_wp fun _ known => serviceRemove_wp known
  | reap id => exact reap_wp
  | recover => exact reapListed_wp
  | reconcileDisk => exact reapListed_wp
  | reapOrphans => exact reapOrphans_wp

end Triples

theorem happen_marked [Uuid] {x : Event} {s : Disk} (inv : Marked s) : Marked (happen x s) := by
  cases x with
  | crash => exact ⟨inv.volume, inv.based⟩
  | write name file =>
    have frame : Frame .readDir s (onFiles name s fun files => files.insert file).2 := onFiles_frame
    refine ⟨fun id volume => ?_, frame.based inv.based⟩
    have before := inv.volume id ((frame.volume id nofun).symm.trans volume)
    exact ⟨before.1, (frame.dir id nofun).trans before.2⟩

theorem happen_undisturbed {x : Event} {s : Disk} (born : ∀ i, s.born i ≤ s.epoch) (i : Nat) :
    Undisturbed i s (happen x s) := by
  cases x with
  | crash =>
    intro current
    have late : s.born i = s.epoch + 1 := current
    have := born i
    omega
  | write name file =>
    have frame : Frame .readDir s (onFiles name s fun files => files.insert file).2 := onFiles_frame
    intro current
    refine ⟨?_, fun id mine => ⟨?_, frame.dir id nofun, frame.volume id nofun⟩⟩
    · simpa only [Current, happen, frame.born, frame.epoch] using current
    · exact (frame.owner id nofun).trans mine

theorem happen_born {x : Event} {s : Disk} (born : ∀ i, s.born i ≤ s.epoch) (i : Nat) :
    (happen x s).born i ≤ (happen x s).epoch := by
  cases x with
  | crash => exact Nat.le_succ_of_le (born i)
  | write name file =>
    have frame : Frame .readDir s (onFiles name s fun files => files.insert file).2 := onFiles_frame
    simpa only [happen, frame.born, frame.epoch] using born i

theorem disciplined [Uuid] : system.Disciplined spec fun _ _ _ _ => True where
  sound := spec_sound
  start i k s t inv started := by
    cases started
    refine ⟨⟨⟨inv.1.volume, inv.1.based⟩, fun j => ?_⟩, trivial,
      fun j other current => ?_, body_wp k⟩
    · by_cases same : j = i
      · simp [same]
      · simpa [Function.update_of_ne same] using inv.2 j
    · refine ⟨?_, fun id mine => ⟨mine, rfl, rfl⟩⟩
      simpa [Current, Function.update_of_ne other] using current
  ext x s t inv _ happened := by
    cases happened
    exact ⟨⟨happen_marked inv.1, happen_born inv.2⟩, trivial, happen_undisturbed inv.2⟩

theorem reaches_marked [Uuid] {h : Files} (marked : Marked h.boot) {t : State}
    (run : system.Reaches (System.init h.boot) t) : Marked t.shared :=
  (System.safe_reaches disciplined (fun _ _ _ _ => trivial) (fun _ _ => trivial)
    (System.safe_init ⟨marked, fun _ => Nat.le_refl 0⟩) run).1.inv.1

theorem Marked.listed [Uuid] {s : Disk} (marked : Marked s) {id : SandboxID}
    (volume : s.hasVolume id = true) : ∃ ids, sandboxDirs (readDir s) = .ok ids ∧ id ∈ ids := by
  obtain ⟨valid, dir⟩ := marked.volume id volume
  have base := marked.based id dir
  simp only [readDir, base, if_true, sandboxDirs]
  refine ⟨_, rfl, ?_⟩
  obtain ⟨entry, found, isDir⟩ := (Option.any_eq_true _ _).1 dir
  have row := (Table.get?_eq_some_iff s.entries id entry).1 found
  simp only [List.mem_map, List.mem_filter]
  exact ⟨(id, true), ⟨⟨(id, entry), row, by rw [isDir]⟩, by simp [valid]⟩, rfl⟩

/-- In every state, however the operations failed and wherever the worker
crashed, a volume that exists has its directory, so it is listed and whoever
next lists the directories to reap them comes to it. -/
theorem volume_has_directory [Uuid] {h : Files} (marked : Marked h.boot) {t : State}
    (run : system.Reaches (System.init h.boot) t) {id : SandboxID}
    (volume : t.shared.hasVolume id = true) :
    t.shared.hasDir id = true ∧ ∃ ids, sandboxDirs (readDir t.shared) = .ok ids ∧ id ∈ ids ∧
      ∀ i k kept e u, t.threads i = some ⟨k, reapListed kept⟩ → e.fails = none →
        system.step t (.call i e) = some u →
        u.threads i = some ⟨k, reapUnless kept ids >>= fun _ => .ret (.ok ())⟩ := by
  have here := reaches_marked marked run
  obtain ⟨ids, listed, found⟩ := here.listed volume
  refine ⟨(here.volume id volume).2, ids, listed, found, ?_⟩
  intro i k kept e u thread works step
  have shape : reapListed kept = .call .readDir fun r =>
      match sandboxDirs r with
      | .error err => .ret (.error err)
      | .ok ids => reapUnless kept ids >>= fun _ => .ret (.ok ()) := rfl
  rw [shape] at thread
  simp only [System.step, thread, Option.map_eq_some_iff] at step
  obtain ⟨⟨r, v⟩, ran, rfl⟩ := step
  have ran : exec i .readDir e t.shared = some (r, v) := ran
  have read := (exec_operate ran).2.1
  simp only [operate, attempt, works, Prod.mk.injEq] at read
  simp [← read.1, listed]

def emptyHost : Files := ⟨false, .empty, .empty, []⟩

theorem emptyHost_marked [Uuid] : Marked emptyHost.boot := ⟨nofun, nofun⟩

def someID : SandboxID := "0a1b2c3d-4e5f-6071-8293-a4b5c6d7e8f9"

def crashed : List (Action Kind Env Event) :=
  -- a worker that crashes between creating the device of a volume and loading its table
  .spawn (.create "/images" someID) :: List.replicate 11 (.call 0 {}) ++ [.ext .crash]

open Uuid.Standard in
theorem volume_has_directory_crashed : ∃ s t u ids, system.Reaches (System.init emptyHost.boot) t ∧
    system.step s (.spawn .recover) = some t ∧ t.shared.hasVolume someID = true ∧
    t.shared.hasDir someID = true ∧ someID ∈ ids ∧ system.step t (.call 1 {}) = some u ∧
    u.threads 1 = some ⟨.recover, reapUnless .attach ids >>= fun _ => .ret (.ok ())⟩ := by
  -- the next worker finds it
  have run : ((system.run (System.init emptyHost.boot) crashed).bind fun s =>
      (system.step s (.spawn .recover)).bind fun t => (system.step t (.call 1 {})).map fun _ =>
        (s.next, t.shared.hasVolume someID)) = some (1, true) := by
    decide +kernel
  obtain ⟨s, hs, run⟩ := Option.bind_eq_some_iff.1 run
  obtain ⟨t, ht, run⟩ := Option.bind_eq_some_iff.1 run
  obtain ⟨u, hu, seen⟩ := Option.map_eq_some_iff.1 run
  obtain ⟨next, volume⟩ := Prod.mk.inj seen
  have reached : system.Reaches (System.init emptyHost.boot) t :=
    (System.reaches_of_run hs).trans (System.Reaches.single ht)
  have thread : t.threads 1 = some ⟨.recover, reapListed .attach⟩ := next ▸ (System.spawned ht).2
  obtain ⟨dir, ids, -, found, comes⟩ := volume_has_directory emptyHost_marked reached volume
  exact ⟨s, t, u, ids, reached, ht, volume, dir, found, hu, comes 1 _ _ {} u thread rfl hu⟩

end Host
end Fire2
