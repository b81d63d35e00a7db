import Fire2.Directories
import Fire2.Protocols

/-! Worker processes on one host: the lock on the base dir, and main.

Any number of workers and of `worker -reap-all` may be started, and each may be
killed between any two steps. What they do to the base dir and to the devices is
what package sandboxmgr does there. That there is one worker at a time is not
assumed: a call is made whenever its process is alive, and whom the Manager takes
an ID to belong to is known to its own process only. -/

namespace Fire2.Locking
open Interleaving
open Host (Fault Errno)

def lockFileName : String := ".fire2-worker.lock"

inductive FlockErr where
  | wouldBlock
  | other (text : String)
  deriving DecidableEq, Repr

inductive Call where
  | host (c : Host.Call)
  | mkdirBase
  | openLock
  | flock (inode : Nat)
  | close (inode : Nat)
  | serve
  | exit (code : Nat)

abbrev Call.Answer : Call → Type
  | host c => c.Answer
  | mkdirBase => Except Errno Unit
  | openLock => Except Errno Nat
  | flock _ => Except FlockErr Unit
  | close _ | serve | exit _ => Unit

/-- The host and its processes. A lock is on a file, whatever path it was opened
by, and has a process for holder. `mainOf` is the thread that runs main. `epoch`
counts the holders of the lock of the base dir that are gone, and `born` is that
count when a thread came to work on the base dir; nothing that happens depends
on the two. -/
structure Machine where
  files : Host.Files
  inode : Nat
  holder : Nat → Option Nat
  processes : Nat
  process : Nat → Nat
  mainOf : Nat → Nat
  alive : Nat → Bool
  serving : Nat → Bool
  owners : Nat → SandboxID → Option Nat
  epoch : Nat
  born : Nat → Nat

namespace Machine

def seen (s : Machine) (p : Nat) : Host.Disk :=
  { s.files with epoch := s.epoch, born := s.born, owner := s.owners p }

def put (s : Machine) (p : Nat) (d : Host.Disk) : Machine :=
  { s with files := d.toFiles, owners := Function.update s.owners p d.owner }

def die (p : Nat) (s : Machine) : Machine :=
  -- the process is gone, and the kernel drops its locks
  { s with
    alive := Function.update s.alive p false
    holder := fun n => if s.holder n = some p then none else s.holder n
    epoch := if s.holder s.inode = some p then s.epoch + 1 else s.epoch }

def openLock (s : Machine) : Except Errno Nat × Machine :=
  if s.files.hasBase then
    match s.files.entries.get? lockFileName with
    | some .file => (.ok s.inode, s)
    | some (.dir _) => (.error (.other "is a directory"), s)
    | none => (.ok (s.inode + 1), { s with
        files := { s.files with entries := s.files.entries.set lockFileName .file }
        inode := s.inode + 1 })
  else (.error .enoent, s)

/-- `LOCK_EX|LOCK_NB`. -/
def flock (i inode : Nat) (s : Machine) : Except FlockErr Unit × Machine :=
  match s.holder inode with
  | some _ => (.error .wouldBlock, s)
  | none => (.ok (), { s with
      holder := Function.update s.holder inode (some (s.process i))
      born := Function.update s.born i s.epoch })

end Machine

def waits : Host.Call → Host.Disk → Bool
  | .own id, s => (s.owner id).isSome
  | _, _ => false

def perform (i : Nat) (c : Call) (e : Host.Env) (s : Machine) : Option (c.Answer × Machine) :=
  -- a file that is closed before the exit has no lock
  let p := s.process i
  match c, e.fails with
  | .host c, _ =>
    if waits c (s.seen p) then none
    else
      let r := Host.operate i c e (s.seen p)
      some (r.1, s.put p r.2)
  | .mkdirBase, some text => some (.error (.other text), s)
  | .mkdirBase, none => some (.ok (), { s with files := { s.files with hasBase := true } })
  | .openLock, some text => some (.error (.other text), s)
  | .openLock, none => some s.openLock
  | .flock _, some text => some (.error (.other text), s)
  | .flock inode, none => some (s.flock i inode)
  | .close _, _ => some ((), s)
  | .serve, _ => some ((), { s with serving := Function.update s.serving p true })
  | .exit _, _ => some ((), s.die p)

def exec : Exec Call Host.Env Machine Call.Answer := fun i c e s =>
  if s.alive (s.process i) then perform i c e s else none

abbrev M := Prog Call Call.Answer

def call (c : Call) : M c.Answer := Prog.perform c

def onHost {α : Type} (p : Host.M α) : M α := p.embed Call.host fun _ a => a

def lockBaseDir (baseDir : String) : M (Except Fault Nat) := do
  let path := baseDir ++ "/" ++ lockFileName
  match ← call .mkdirBase with
  | .error n => return .error (.wrap "create sandbox base dir" (.errno n))
  | .ok () =>
    match ← call .openLock with
    | .error n => return .error (.wrap "open lock file" (.errno n))
    | .ok f =>
      match ← call (.flock f) with
      | .ok () => return .ok f
      | .error err => do
        call (.close f)
        match err with
        | .wouldBlock =>
          return .error (.wrap "sandbox base dir is locked by another worker" (.new path))
        | .other text => return .error (.wrap ("lock " ++ path) (.new text))

def leave (code : Nat) (r : Except Fault Unit) : M (Except Fault Unit) := do
  call (.exit code)
  return r

def main [Uuid] (baseDir : String) (reapAll : Bool) : M (Except Fault Unit) := do
  match ← lockBaseDir baseDir with
  | .error err => leave 1 (.error err)
  | .ok _ =>
    if reapAll then
      match ← onHost Host.reapOrphans with
      | .error err => leave 1 (.error err)
      | .ok () => leave 0 (.ok ())
    else do
      let r ← onHost (Host.reapListed .attach)
      call .serve
      return r

def checked [Uuid] (id : SandboxID) (p : Host.M (Except Fault Unit)) : Host.M (Except Fault Unit) :=
  -- Create and Remove begin with the check of the ID
  match Host.checkSandboxID id with
  | .error err => return .error err
  | .ok () => p

/-- What a worker does while it serves requests and audits. -/
inductive Task where
  | create (imageDir : String) (id : SandboxID)
  | remove (id : SandboxID)
  | reap (id : SandboxID)
  | reconcileDisk
  deriving DecidableEq, Repr

def Task.body [Uuid] : Task → Host.M (Except Fault Unit)
  | .create imageDir id => checked id (Host.body (.create imageDir id))
  | .remove id => checked id (Host.body (.remove id))
  | .reap id => checked id (Host.body (.reap id))
  | .reconcileDisk => Host.body .reconcileDisk

inductive Kind where
  | main (reapAll : Bool)
  | task (process : Nat) (t : Task)
  deriving DecidableEq, Repr

def body [Uuid] (baseDir : String) : Kind → M (Except Fault Unit)
  | .main reapAll => main baseDir reapAll
  | .task _ t => onHost t.body

def begin (i : Nat) : Kind → Machine → Option Machine
  | .main _, s => some { s with
      processes := s.processes + 1
      process := Function.update s.process i s.processes
      mainOf := Function.update s.mainOf s.processes i
      alive := Function.update s.alive s.processes true }
  | .task p _, s =>
    if s.alive p && s.serving p then
      some { s with
        process := Function.update s.process i p, born := Function.update s.born i s.epoch }
    else none

/-- A process is killed; a shim or a VM writes into its directory. -/
inductive Event where
  | kill (process : Nat)
  | write (name file : String)
  deriving DecidableEq, Repr

def happen : Event → Machine → Machine
  | .kill p, s => s.die p
  | .write name file, s =>
    { s with files := (Host.onFiles name (s.seen 0) fun files => files.insert file).2.toFiles }

def system [Uuid] (baseDir : String) :
    System Kind Call Host.Env Event (Except Fault Unit) Machine Call.Answer where
  exec := exec
  body := body baseDir
  start := begin
  stoppable _ := false
  ext x s := some (happen x s)

abbrev State := Config Kind Call (Except Fault Unit) Machine Call.Answer

def boot (h : Host.Files) : Machine where
  -- a host on which no worker runs
  files := h
  inode := 0
  holder := fun _ => none
  processes := 1
  process := fun _ => 0
  mainOf := fun _ => 0
  alive := fun _ => false
  serving := fun _ => false
  owners := fun _ _ => none
  epoch := 0
  born := fun _ => 0

def Machine.disk (s : Machine) : Host.Disk :=
  -- the host as the holder of the lock takes it to be
  { s.files with
    epoch := s.epoch
    born := s.born
    owner := match s.holder s.inode with
      | some p => s.owners p
      | none => fun _ => none }

def Present (s : Machine) : Prop := s.files.entries.get? lockFileName = some .file

def Holding (s : Machine) (i : Nat) : Prop :=
  s.holder s.inode = some (s.process i) ∧ s.born i = s.epoch

def Starting (s : Machine) (i : Nat) : Prop :=
  s.mainOf (s.process i) = i ∧ s.serving (s.process i) = false

structure Sane [Uuid] (s : Machine) : Prop where
  lock : ∀ n p, s.holder n = some p → n = s.inode ∧ s.alive p = true ∧ Present s
  serving : ∀ p, s.alive p = true → s.serving p = true → s.holder s.inode = some p
  unborn : ∀ p, s.processes ≤ p → s.alive p = false ∧ s.serving p = false
  threads : ∀ i, s.process i < s.processes
  disk : Host.spec.Inv s.disk

def Evolves (s t : Machine) : Prop := Present s → Present t ∧ t.inode = s.inode

/-- A process that lives on keeps the lock, and nobody else touches what its
threads own. While it is starting, nobody but its main touches a directory. -/
structure Keeps (i : Nat) (s t : Machine) : Prop where
  process : t.process i = s.process i
  starting : Starting s i → Starting t i
  serving : s.serving (s.process i) = true → t.serving (s.process i) = true
  alive : t.alive (s.process i) = true → s.alive (s.process i) = true ∧ (Holding s i → Holding t i)
  current : Holding s i → Host.Current i t.disk → Holding t i
  disk : Host.Undisturbed i s.disk t.disk
  dirs : Holding s i → Starting s i → Host.Current i t.disk → ∀ id,
    t.disk.hasDir id = s.disk.hasDir id

def Spares [Uuid] : Host.Call → Prop
  | .mkdir name | .remove name => Host.isSandboxID name = true
  | _ => True

def Cleared [Uuid] (s : Machine) : Prop :=
  ∀ id, Host.isSandboxID id = true → s.disk.hasDir id = false ∧ s.disk.hasVolume id = false

def may [Uuid] (i : Nat) (s : Machine) : Call → Prop
  | .host c => Holding s i ∧ Host.may i s.disk c ∧ Spares c ∧
      (s.serving (s.process i) = true ∨ s.mainOf (s.process i) = i)
  | .flock inode => inode = s.inode ∧ Present s
  | .serve => Holding s i ∧ Starting s i
  | .exit code => code = 0 → Cleared s
  | _ => True

def spec [Uuid] : Spec Call Host.Env Event Machine where
  Inv := Sane
  Evolves := Evolves
  Keeps := Keeps
  Pre i c s := s.alive (s.process i) = true → may i s c
  Cond _ _ _ _ := True
  Out _ _ := True

section Steps
variable {i : Nat} {s t u : Machine} {e : Host.Env}

theorem Evolves.trans (h : Evolves s t) (k : Evolves t u) : Evolves s u := by
  intro here
  obtain ⟨here, same⟩ := h here
  obtain ⟨here, same'⟩ := k here
  exact ⟨here, same'.trans same⟩

theorem Keeps.refl [Uuid] (i : Nat) (s : Machine) : Keeps i s s :=
  ⟨rfl, fun h => h, fun h => h, fun alive => ⟨alive, fun h => h⟩, fun holding _ => holding,
    Host.spec_sound.keeps_refl i s.disk, fun _ _ _ _ => rfl⟩

theorem Keeps.trans [Uuid] (h : Keeps i s t) (k : Keeps i t u) : Keeps i s u := by
  refine ⟨k.process.trans h.process, fun starting => k.starting
    (h.starting starting), fun serving => ?_,
    fun alive => ?_, fun holding current => k.current
    (h.current holding (k.disk current).1) current,
    Host.spec_sound.keeps_trans h.disk k.disk, fun holding starting current id => ?_⟩
  · exact h.process ▸ k.serving (h.process.symm ▸ h.serving serving)
  · obtain ⟨alive, holds'⟩ := k.alive (h.process.symm ▸ alive)
    obtain ⟨alive, holds⟩ := h.alive (h.process ▸ alive)
    exact ⟨alive, fun holding => holds' (holds holding)⟩
  · have before := (k.disk current).1
    exact (k.dirs (h.current holding before) (h.starting starting) current id).trans
      (h.dirs holding starting before id)

structure Fits [Uuid] (i : Nat) (s t : Machine) : Prop where
  sane : Sane t
  evolves : Evolves s t
  keeps : ∀ j, j ≠ i → Keeps j s t

theorem Fits.refl [Uuid] (sane : Sane s) : Fits i s s :=
  ⟨sane, fun here => ⟨here, rfl⟩, fun j _ => .refl j s⟩

theorem Keeps.of_disk (process : t.process = s.process) (main : t.mainOf = s.mainOf)
    (serving : t.serving = s.serving) (alive : t.alive = s.alive)
    (holding : Holding s i → Holding t i) (disk : Host.Undisturbed i s.disk t.disk)
    (dirs : Holding s i → Starting s i → ∀ id, t.disk.hasDir id = s.disk.hasDir id) :
    Keeps i s t where
  process := congrFun process i
  starting h := by rwa [Starting, process, main, serving]
  serving h := by rwa [serving]
  alive h := ⟨alive ▸ h, holding⟩
  current held _ := holding held
  disk := disk
  dirs held starting _ := dirs held starting

theorem seen_eq_disk {p : Nat} (h : s.holder s.inode = some p) : s.seen p = s.disk := by
  simp only [Machine.seen, Machine.disk, h]

theorem put_disk {p : Nat} {d : Host.Disk} (h : s.holder s.inode = some p)
    (epoch : d.epoch = s.epoch) (born : d.born = s.born) : (s.put p d).disk = d := by
  obtain ⟨files, e, b, o⟩ := d
  subst epoch born
  simp [Machine.put, Machine.disk, h]

theorem lockFileName_not_id [Uuid] : Host.isSandboxID lockFileName = false := by
  have short : ¬ lockFileName.utf8ByteSize = 36 := by decide
  simp [Host.isSandboxID, short]

theorem onFiles_present {name : String} {d : Host.Disk} {f : List String → List String}
    (here : d.entries.get? lockFileName = some .file) :
    (Host.onFiles name d f).2.entries.get? lockFileName = some .file := by
  unfold Host.onFiles
  split
  · rename_i files found
    have other : lockFileName ≠ name := by
      rintro rfl
      cases here.symm.trans found
    exact (Table.get?_set _ _ _ _).trans ((if_neg other).trans here)
  · exact here

theorem attempt_present {α : Type} {d : Host.Disk} {r : Except Errno α × Host.Disk}
    (here : d.entries.get? lockFileName = some .file)
    (done : r.2.entries.get? lockFileName = some .file) :
    (Host.attempt e d r).2.entries.get? lockFileName = some .file := by
  unfold Host.attempt
  split
  · exact here
  · exact done

theorem operate_present [Uuid] {c : Host.Call} {d : Host.Disk} (spares : Spares c)
    (here : d.entries.get? lockFileName = some .file) :
    (Host.operate i c e d).2.entries.get? lockFileName = some .file := by
  have differs {name : String} (valid : Host.isSandboxID name = true) : lockFileName ≠ name := by
    rintro rfl
    cases valid.symm.trans lockFileName_not_id
  cases c with
  | own | disown | probe | loadBase | rand => exact here
  | createSnap =>
    refine attempt_present here ?_
    split <;> exact here
  | devCreate name =>
    refine attempt_present here ?_
    unfold Host.devCreate
    split <;> exact here
  | devRemove name =>
    refine attempt_present here ?_
    unfold Host.devRemove
    split
    · exact here
    · split <;> exact here
  | tableLoad name | devResume name =>
    refine attempt_present here ?_
    unfold Host.onDevice
    split <;> exact here
  | mkdir name =>
    refine attempt_present here ?_
    unfold Host.mkdir
    split
    · exact here
    split
    · exact (Table.get?_set _ _ _ _).trans ((if_neg (differs spares)).trans here)
    · exact here
  | remove name =>
    refine attempt_present here ?_
    unfold Host.remove
    split
    · exact here
    · exact here
    · exact (Table.get?_erase _ _ _).trans ((if_neg (differs spares)).trans here)
  | writeFile => exact attempt_present here (onFiles_present here)
  | removeFile =>
    refine attempt_present here ?_
    split
    · exact onFiles_present here
    · exact here
  | delete | mkdirBase | loadPool | tableStatus | statNode | removeNode | mknod | readDir
      | stat | readNames =>
    exact attempt_present here here

theorem waits_own {c : Host.Call} {d : Host.Disk} (h : waits c d = false) (id : SandboxID)
    (own : c = .own id) : d.owner id = none := by
  subst own
  simpa [waits] using h

theorem host_fits [Uuid] {c : Host.Call} (sane : Sane s) (ok : may i s (.host c))
    (free : waits c (s.seen (s.process i)) = false) :
    Fits i s (s.put (s.process i) (Host.operate i c e (s.seen (s.process i))).2) := by
  obtain ⟨⟨holder, born⟩, ok, spares, role⟩ := ok
  rw [seen_eq_disk holder] at free ⊢
  have frame := Host.operate_frame i c e s.disk
  have after := put_disk holder frame.epoch frame.born
  have present (here : Present s) : Present (s.put (s.process i) (Host.operate i c e s.disk).2) :=
    operate_present spares here
  refine ⟨⟨fun n p held => ?_, sane.serving, sane.unborn, sane.threads, ?_⟩,
    fun here => ⟨present here, rfl⟩, fun j other => .of_disk rfl rfl rfl rfl (fun h => h) ?_
    fun holding starting => ?_⟩
  · obtain ⟨same, alive, here⟩ := sane.lock n p held
    exact ⟨same, alive, present here⟩
  · rw [after]
    refine ⟨Host.operate_marked sane.disk.1 ok, fun j => ?_⟩
    rw [frame.born, frame.epoch]
    exact sane.disk.2 j
  · rw [after]
    exact Host.operate_undisturbed ok (waits_own free) other
  · -- of a process that is starting only the main makes calls
    have same : s.process j = s.process i := Option.some.inj (holding.1.symm.trans holder)
    obtain ⟨main, idle⟩ := starting
    rw [same] at main idle
    obtain serving | mine := role
    · cases idle.symm.trans serving
    · exact absurd (main.symm.trans mine) other

theorem mkdirBase_fits [Uuid] (sane : Sane s) :
    Fits i s { s with files := { s.files with hasBase := true } } := by
  have marked : Host.Marked { s.disk with hasBase := true } := ⟨sane.disk.1.volume, fun _ _ => rfl⟩
  exact ⟨⟨sane.lock, sane.serving, sane.unborn, sane.threads, marked, sane.disk.2⟩,
    fun here => ⟨here, rfl⟩, fun j _ => .of_disk rfl rfl rfl rfl (fun h => h)
    (fun current => ⟨current, fun _ mine => ⟨mine, rfl, rfl⟩⟩)
      fun _ _ _ => rfl⟩

theorem openLock_fits [Uuid] (sane : Sane s) : Fits i s s.openLock.2 := by
  unfold Machine.openLock
  split
  swap
  · exact .refl sane
  split
  · exact .refl sane
  · exact .refl sane
  rename_i missing
  -- nobody has a lock on a file that is not there
  have absent : ¬ Present s := fun here => by cases missing.symm.trans here
  have free (n : Nat) : s.holder n = none := by
    cases held : s.holder n with
    | none => rfl
    | some p => exact absurd (sane.lock n p held).2.2 absent
  have dirs (id : SandboxID) : Host.Disk.hasDir
      { s.disk with entries := s.files.entries.set lockFileName .file } id = s.disk.hasDir id := by
    change ((s.files.entries.set lockFileName .file).get? id).any Host.Entry.isDir =
      (s.files.entries.get? id).any Host.Entry.isDir
    rw [Table.get?_set]
    split
    · rename_i same
      rw [same, missing]
      rfl
    · rfl
  have marked : Host.Marked { s.disk with entries := s.files.entries.set lockFileName .file } := by
    refine ⟨fun id volume => ?_, fun id dir => sane.disk.1.based id ((dirs id).symm.trans dir)⟩
    obtain ⟨valid, dir⟩ := sane.disk.1.volume id volume
    exact ⟨valid, (dirs id).trans dir⟩
  refine ⟨⟨fun n p held => ?_, fun p alive serves => ?_, sane.unborn, sane.threads,
    ⟨marked.volume, marked.based⟩, sane.disk.2⟩, fun here => absurd here absent,
    fun j _ => .of_disk rfl rfl rfl rfl (fun holding => ?_)
    (fun current => ⟨current, fun id mine => ?_⟩)
      fun _ _ => dirs⟩
  · cases (free n).symm.trans held
  · cases (free _).symm.trans (sane.serving p alive serves)
  · cases (free _).symm.trans holding.1
  · simp [Machine.disk, free] at mine

theorem flock_fits [Uuid] (sane : Sane s) {inode : Nat} (ok : may i s (.flock inode))
    (alive : s.alive (s.process i) = true) : Fits i s (s.flock i inode).2 := by
  obtain ⟨rfl, here⟩ := ok
  unfold Machine.flock
  split
  · exact .refl sane
  rename_i free
  have holder (n : Nat) (other : n ≠ s.inode) : s.holder n = none := by
    cases held : s.holder n with
    | none => rfl
    | some p => exact absurd (sane.lock n p held).1 other
  refine ⟨⟨fun n p held => ?_, fun p living serves => ?_, sane.unborn,
    sane.threads, ?_, fun j => ?_⟩, fun here => ⟨here, rfl⟩, fun j other =>
    .of_disk rfl rfl rfl rfl (fun holding => ?_)
      (fun current => ⟨?_, fun id mine => ?_⟩) fun _ _ _ => rfl⟩
  · by_cases same : n = s.inode
    · subst same
      cases (Function.update_self s.inode _ s.holder).symm.trans held
      exact ⟨rfl, alive, here⟩
    · cases (holder n same).symm.trans ((Function.update_of_ne same _ _).symm.trans held)
  · cases free.symm.trans (sane.serving p living serves)
  · exact ⟨sane.disk.1.volume, sane.disk.1.based⟩
  · by_cases same : j = i
    · subst same
      exact Nat.le_of_eq (Function.update_self _ _ _)
    · exact Nat.le_trans (Nat.le_of_eq (Function.update_of_ne same _ _)) (sane.disk.2 j)
  · cases free.symm.trans holding.1
  · exact (Function.update_of_ne other _ _).symm.trans current
  · simp [Machine.disk, free] at mine

theorem serve_fits [Uuid] (sane : Sane s) (holding : Holding s i) (starting : Starting s i) :
    Fits i s { s with serving := Function.update s.serving (s.process i) true } := by
  refine ⟨⟨sane.lock, fun p alive serves => ?_, fun p unborn => ⟨(sane.unborn p unborn).1, ?_⟩,
    sane.threads, sane.disk⟩, fun here => ⟨here, rfl⟩, fun j other =>
    ⟨rfl, fun other_ => ?_, fun serves => ?_, fun alive => ⟨alive, fun h => h⟩,
      fun holding _ => holding, Host.spec_sound.keeps_refl j s.disk, fun _ _ _ _ => rfl⟩⟩
  · by_cases same : p = s.process i
    · rw [same]
      exact holding.1
    · exact sane.serving p alive ((Function.update_of_ne same _ _).symm.trans serves)
  · have other : p ≠ s.process i := fun same => absurd (sane.threads i)
      (Nat.not_lt.2 (same ▸ unborn))
    exact (Function.update_of_ne other _ _).trans (sane.unborn p unborn).2
  · have differ : s.process j ≠ s.process i := by
      intro same
      refine other ?_
      rw [← other_.1, ← starting.1, same]
    exact ⟨other_.1, (Function.update_of_ne differ _ _).trans other_.2⟩
  · change Function.update s.serving (s.process i) true (s.process j) = true
    by_cases same : s.process j = s.process i
    · rw [same]
      exact Function.update_self _ _ _
    · exact (Function.update_of_ne same _ _).trans serves

theorem die_sane [Uuid] (sane : Sane s) (p : Nat) :
    Sane (s.die p) ∧ Evolves s (s.die p) ∧ ∀ j, Keeps j s (s.die p) := by
  have holder {n q : Nat} (h : (s.die p).holder n = some q) : s.holder n = some q ∧ q ≠ p := by
    have h : (if s.holder n = some p then none else s.holder n) = some q := h
    split at h
    · cases h
    · rename_i other
      exact ⟨h, fun same => other (same ▸ h)⟩
  have keeps {n q : Nat} (h : s.holder n = some q)
      (other : q ≠ p) : (s.die p).holder n = some q := by
    refine (if_neg fun same => other ?_).trans h
    exact Option.some.inj (h.symm.trans same)
  have alive {q : Nat} (h : (s.die p).alive q = true) : s.alive q = true ∧ q ≠ p := by
    by_cases same : q = p
    · have h : Function.update s.alive p false q = true := h
      rw [same, Function.update_self] at h
      cases h
    · exact ⟨(Function.update_of_ne same _ _).symm.trans h, same⟩
  have still {j : Nat} (current : Host.Current j (s.die p).disk) : s.holder s.inode ≠ some p := by
    intro held
    have before : s.born j ≤ s.epoch := sane.disk.2 j
    have now : s.born j = (s.die p).epoch := current
    have : (s.die p).epoch = s.epoch + 1 := if_pos held
    omega
  have epoch : s.epoch ≤ (s.die p).epoch := by
    change s.epoch ≤ if s.holder s.inode = some p then s.epoch + 1 else s.epoch
    split <;> omega
  refine ⟨⟨fun n q held => ?_, fun q living serves => ?_, fun q unborn => ?_,
    sane.threads, ?_, fun i => ?_⟩, fun here => ⟨here, rfl⟩, fun j => ⟨rfl, fun h => h, fun h => h,
    fun living => ?_, fun holding current => ?_,
      fun current => ?_, fun _ _ _ _ => rfl⟩⟩
  · obtain ⟨held, other⟩ := holder held
    obtain ⟨same, living, here⟩ := sane.lock n q held
    exact ⟨same, (Function.update_of_ne other _ _).trans living, here⟩
  · obtain ⟨living, other⟩ := alive living
    exact keeps (sane.serving q living serves) other
  · refine ⟨?_, (sane.unborn q unborn).2⟩
    by_cases same : q = p
    · rw [same]
      exact Function.update_self _ _ _
    · exact (Function.update_of_ne same _ _).trans (sane.unborn q unborn).1
  · exact ⟨sane.disk.1.volume, sane.disk.1.based⟩
  · exact Nat.le_trans (sane.disk.2 i) epoch
  · obtain ⟨living, other⟩ := alive living
    refine ⟨living, fun holding => ⟨keeps holding.1 other, holding.2.trans ?_⟩⟩
    refine (if_neg fun same => other ?_).symm
    exact Option.some.inj (holding.1.symm.trans same)
  · exact ⟨(if_neg (still current)).trans holding.1, current⟩
  · have same := still current
    refine ⟨?_, fun id mine => ⟨?_, rfl, rfl⟩⟩
    · have : (s.die p).epoch = s.epoch := if_neg same
      exact current.trans this
    have owner : (s.die p).disk.owner = s.disk.owner := by
      have kept : (s.die p).holder (s.die p).inode = s.holder s.inode := if_neg same
      simp only [Machine.disk, kept]
      rfl
    rw [owner]
    exact mine

theorem perform_fits [Uuid] {c : Call} {x : c.Answer × Machine} (sane : Sane s)
    (alive : s.alive (s.process i) = true) (ok : may i s c) (ran : perform i c e s = some x) :
    Fits i s x.2 := by
  cases c with
  | host c =>
    simp only [perform] at ran
    split at ran
    · cases ran
    · rename_i free
      cases ran
      exact host_fits sane ok (by simpa using free)
  | mkdirBase =>
    cases fails : e.fails <;> simp only [perform, fails] at ran <;> cases ran
    · exact mkdirBase_fits sane
    · exact .refl sane
  | openLock =>
    cases fails : e.fails <;> simp only [perform, fails] at ran <;> cases ran
    · exact openLock_fits sane
    · exact .refl sane
  | flock inode =>
    cases fails : e.fails <;> simp only [perform, fails] at ran <;> cases ran
    · exact flock_fits sane ok alive
    · exact .refl sane
  | close inode =>
    cases ran
    exact .refl sane
  | serve =>
    cases ran
    exact serve_fits sane ok.1 ok.2
  | exit code =>
    cases ran
    obtain ⟨sane', evolves, keeps⟩ := die_sane sane (s.process i)
    exact ⟨sane', evolves, fun j _ => keeps j⟩

theorem spec_sound [Uuid] : spec.Sound exec where
  evolves_refl _ here := ⟨here, rfl⟩
  evolves_trans := Evolves.trans
  keeps_refl := Keeps.refl
  keeps_trans := Keeps.trans
  step {i c e s a t} sane ok _ ran := by
    unfold exec at ran
    split at ran
    · rename_i alive
      have fits := perform_fits sane alive (ok alive) ran
      exact ⟨fits.sane, fits.evolves, fits.keeps⟩
    · cases ran

end Steps

section Reaping
variable {α : Type} {i : Nat} {id : SandboxID} {e : Host.Env} {s t u : Host.Disk} {c : Host.Call}
  {ids : List SandboxID}

def Reaps [Uuid] : Host.Call → Prop
  | .mkdir _ => False
  | .remove name => Host.isSandboxID name = true
  | _ => True

theorem Reaps.spares [Uuid] (h : Reaps c) : Spares c := by
  cases c with
  | mkdir => exact h.elim
  | remove => exact h
  | _ => trivial

abbrev Reaping [Uuid] (p : Host.M α) : Prop := p.Asks (fun _ _ => True) Reaps

theorem reaping_of_quiet [Uuid] {p : Host.M α} (quiet : Host.Quiet p) : Reaping p := by
  refine quiet.mono fun c touches => ?_
  cases c with
  | mkdir | remove => cases touches
  | _ => trivial

theorem asks_call {P : Host.Call → Prop} {k : c.Answer → Host.M α} (h : P c)
    (rest : ∀ r, (k r).Asks (fun _ _ => True) P) : (Host.call c >>= k).Asks (fun _ _ => True) P :=
  .call h fun r _ => rest r

theorem removeVolume_reaping [Uuid] {p : Host.Pool} : Reaping (Host.removeVolume p id) := by
  unfold Host.removeVolume
  split
  · exact .ret _
  refine asks_call trivial fun r => ?_
  split
  · exact .ret _
  refine (Host.table_asks trivial).bind fun r => ?_
  split
  · split
    · exact Host.removeNode_asks trivial
    · exact .ret _
  split
  · exact .ret _
  refine (Host.removeDevice_asks trivial).bind fun r => ?_
  split
  · exact .ret _
  refine (Host.removeNode_asks trivial).bind fun r => ?_
  split
  · exact .ret _
  · exact reaping_of_quiet Host.deleteThin_quiet

theorem configRemoveVolume_reaping [Uuid] : Reaping (Host.configRemoveVolume id) := by
  refine asks_call trivial fun r => ?_
  split
  · exact .ret _
  · exact removeVolume_reaping

theorem removeAll_reaping [Uuid] (valid : Host.isSandboxID id = true) :
    Reaping (Host.removeAll id) := by
  refine asks_call valid fun r => ?_
  split
  · exact .ret _
  · exact .ret _
  refine asks_call trivial fun r => ?_
  split
  · exact .ret _
  · exact .ret _
  refine (reaping_of_quiet Host.removeFiles_quiet).bind fun _ => asks_call valid fun r => ?_
  split <;> exact .ret _

theorem reapSandbox_reaping [Uuid] : Reaping (Host.reapSandbox id) := by
  unfold Host.reapSandbox
  split
  · exact .ret _
  rename_i valid
  refine asks_call trivial fun r => ?_
  split
  · exact .ret _
  refine (reaping_of_quiet Host.killFirecracker_quiet).bind fun r => ?_
  split
  · exact .ret _
  refine configRemoveVolume_reaping.bind fun r => ?_
  split
  · exact .ret _
  refine (removeAll_reaping (by simpa using valid)).bind fun r => ?_
  split <;> exact .ret _

theorem owned_asks {P : Host.Call → Prop} {p : Host.M (Except Fault Unit)} (own : P (.own id))
    (disown : P (.disown id)) (h : p.Asks (fun _ _ => True) P) :
    (Host.owned id p).Asks (fun _ _ => True) P :=
  asks_call own fun _ => h.bind fun _ => asks_call disown fun _ => .ret _

theorem reapUnless_reaping [Uuid] {kept : Host.Probe} : Reaping (Host.reapUnless kept ids) := by
  induction ids with
  | nil => exact .ret _
  | cons id ids ih =>
    refine asks_call trivial fun held => ?_
    split
    · exact ih
    refine (owned_asks trivial trivial reapSandbox_reaping).bind fun r => ?_
    split
    · exact ih
    · exact ih.bind fun _ => .ret _

theorem reapListed_reaping [Uuid] {kept : Host.Probe} : Reaping (Host.reapListed kept) := by
  refine Prog.Asks.bind (asks_call trivial fun _ => .ret _) fun r => ?_
  split
  · exact .ret _
  · exact reapUnless_reaping.bind fun _ => .ret _

theorem reapAll_reaping [Uuid] : Reaping (Host.reapAll ids) := by
  induction ids with
  | nil => exact .ret _
  | cons id ids ih =>
    refine (owned_asks trivial trivial reapSandbox_reaping).bind fun r => ?_
    split
    · exact ih
    · exact ih.bind fun _ => .ret _

theorem reapOrphans_reaping [Uuid] : Reaping Host.reapOrphans := by
  refine Prog.Asks.bind (asks_call trivial fun _ => .ret _) fun r => ?_
  split
  · exact .ret _
  · exact reapAll_reaping.bind fun _ => .ret _

def clearing [Uuid] : Spec Host.Call Host.Env Host.Event Host.Disk :=
  { Host.spec with
    Keeps := fun i s t => Host.Undisturbed i s t ∧
      (Host.Current i t → ∀ id, t.hasDir id = s.hasDir id) }

def unasked [Uuid] : Spec Host.Call Host.Env Host.Event Host.Disk :=
  { clearing with Pre := fun _ _ _ => True }

def Shrinks (i : Nat) (s t : Host.Disk) : Prop :=
  Host.Current i t → Host.Current i s ∧ ∀ id, t.hasDir id = true → s.hasDir id = true

theorem Shrinks.refl (i : Nat) (s : Host.Disk) : Shrinks i s s :=
  fun current => ⟨current, fun _ dir => dir⟩

theorem Shrinks.trans (h : Shrinks i s t) (k : Shrinks i t u) : Shrinks i s u := by
  intro current
  obtain ⟨current, back⟩ := k current
  obtain ⟨current, back'⟩ := h current
  exact ⟨current, fun id dir => back' id (back id dir)⟩

theorem Shrinks.of_rely [Uuid] (h : unasked.Rely i s t) : Shrinks i s t := fun current =>
  ⟨(h.2.1 current).1, fun id dir => (h.2.2 current id).symm.trans dir⟩

theorem remove_hasDir {name : String}
    (dir : (Host.operate i (.remove name) e s).2.hasDir id = true) : s.hasDir id = true := by
  simp only [Host.operate, Host.attempt] at dir
  split at dir
  · exact dir
  unfold Host.remove at dir
  split at dir
  · exact dir
  · exact dir
  · change ((s.entries.erase name).get? id).any Host.Entry.isDir = true at dir
    rw [Table.get?_erase] at dir
    split at dir
    · cases dir
    · exact dir

theorem operate_shrinks [Uuid] (reaps : Reaps c) : Shrinks i s (Host.operate i c e s).2 := by
  have frame := Host.operate_frame i c e s
  intro current
  refine ⟨by simpa only [Host.Current, frame.born, frame.epoch] using current, fun id dir => ?_⟩
  cases c with
  | mkdir => exact reaps.elim
  | remove name => exact remove_hasDir dir
  | _ => exact (frame.dir id (by simp [Host.touches])).symm.trans dir

theorem exec_shrinks [Uuid] {a : c.Answer}
    (ran : Host.exec i c e s = some (a, t)) (reaps : Reaps c) : Shrinks i s t := by
  have done := (Host.exec_operate ran).2.1
  have after := congrArg Prod.snd done
  dsimp only at after
  exact after ▸ operate_shrinks reaps

theorem reaping_wp [Uuid] {p : Host.M α} (reaping : Reaping p) :
    WP Host.exec unasked i (fun _ t => Shrinks i s t) p s := by
  refine WP.within (φ := Shrinks i s) (fun t u shrinks rely => shrinks.trans (.of_rely rely))
    (fun _ _ _ _ _ => trivial) (fun c e t a u reaps _ shrinks _ ran => ?_) reaping (.refl i s)
  exact ⟨trivial, shrinks.trans (exec_shrinks ran reaps)⟩

theorem call_wp [Uuid] {k : c.Answer → Host.M α} {Q : α → Host.Disk → Prop}
    (next : ∀ t e a u, Host.spec.Inv t → Shrinks i s t → Host.exec i c e t = some (a, u) →
      WP Host.exec unasked i Q (k a) u) : WP Host.exec unasked i Q (Host.call c >>= k) s :=
  .call (fun _ _ _ => trivial) fun t e a u inv rely _ ran _ => next t e a u inv (.of_rely rely) ran

theorem remove_gone {a : Except Errno Unit} (ran : Host.exec i (.remove id) e s = some (a, t))
    (done : a = .ok () ∨ a = .error .enoent) : t.hasDir id = false := by
  obtain ⟨-, ran, -⟩ := Host.exec_operate ran
  simp only [Host.operate, Host.attempt] at ran
  split at ran
  · obtain rfl | rfl := done <;> simp at ran
  unfold Host.remove at ran
  split at ran
  · rename_i missing
    cases ran
    simp [Host.Disk.hasDir, missing]
  · cases ran
    simp at done
  · cases ran
    change ((s.entries.erase id).get? id).any Host.Entry.isDir = false
    simp [Table.get?_erase]

theorem readNames_gone (ran : Host.exec i (.readNames id) e s = some (.error .enoent, t)) :
    t.hasDir id = false := by
  obtain ⟨-, ran, -⟩ := Host.exec_operate ran
  simp only [Host.operate, Host.attempt] at ran
  split at ran
  · simp at ran
  cases found : s.entries.get? id with
  | none =>
    rw [found] at ran
    cases ran
    simp [Host.Disk.hasDir, found]
  | some entry =>
    cases entry with
    | file =>
      rw [found] at ran
      cases ran
      simp [Host.Disk.hasDir, found, Host.Entry.isDir]
    | dir files => simp [found] at ran

def Rids (i : Nat) (id : SandboxID) (s : Host.Disk) (r : Except Fault Unit)
    (t : Host.Disk) : Prop :=
  Shrinks i s t ∧ (r = .ok () → Host.Current i t → t.hasDir id = false)

theorem Rids.failed {err : Fault} (h : Shrinks i s t) : Rids i id s (.error err) t :=
  ⟨h, fun eq => by cases eq⟩

theorem removeAll_rids [Uuid] (valid : Host.isSandboxID id = true) :
    WP Host.exec unasked i (Rids i id s) (Host.removeAll id) s := by
  refine call_wp fun t e a u _ came ran => ?_
  have shrinks : Shrinks i s u := came.trans (exec_shrinks ran valid)
  split
  · exact .ret ⟨shrinks, fun _ _ => remove_gone ran (.inl rfl)⟩
  · exact .ret ⟨shrinks, fun _ _ => remove_gone ran (.inr rfl)⟩
  refine call_wp fun t₂ e₂ a₂ u₂ _ came₂ ran₂ => ?_
  have shrinks₂ : Shrinks i s u₂ := shrinks.trans (came₂.trans (exec_shrinks ran₂ trivial))
  split
  · exact .ret ⟨shrinks₂, fun _ _ => readNames_gone ran₂⟩
  · exact .ret (.failed shrinks₂)
  refine (reaping_wp (reaping_of_quiet Host.removeFiles_quiet)).bind fun _ u₃ shrinks₃ => ?_
  refine call_wp fun t₄ e₄ a₄ u₄ _ came₄ ran₄ => ?_
  have shrinks₄ : Shrinks i s u₄ :=
    shrinks₂.trans (shrinks₃.trans (came₄.trans (exec_shrinks ran₄ valid)))
  split
  · exact .ret ⟨shrinks₄, fun _ _ => remove_gone ran₄ (.inl rfl)⟩
  · exact .ret ⟨shrinks₄, fun _ _ => remove_gone ran₄ (.inr rfl)⟩
  · exact .ret (.failed shrinks₄)

theorem reapSandbox_rids [Uuid] : WP Host.exec unasked i (Rids i id s) (Host.reapSandbox id) s := by
  unfold Host.reapSandbox
  split
  · exact .ret (.failed (.refl i s))
  rename_i valid
  refine (reaping_wp (asks_call (c := .probe .killStale) trivial fun r => .ret r)).bind
    fun r t shrinks => ?_
  split
  · exact .ret (.failed shrinks)
  refine (reaping_wp (reaping_of_quiet Host.killFirecracker_quiet)).bind fun r t₂ shrinks₂ => ?_
  split
  · exact .ret (.failed (shrinks.trans shrinks₂))
  refine (reaping_wp configRemoveVolume_reaping).bind fun r t₃ shrinks₃ => ?_
  have shrinks₃ := shrinks.trans (shrinks₂.trans shrinks₃)
  split
  · exact .ret (.failed shrinks₃)
  refine (removeAll_rids (by simpa using valid)).bind fun r t₄ rids => ?_
  split
  · exact .ret (.failed (shrinks₃.trans rids.1))
  · exact .ret ⟨shrinks₃.trans rids.1, rids.2⟩

theorem owned_rids [Uuid] :
    WP Host.exec unasked i (Rids i id s) (Host.owned id (Host.reapSandbox id)) s := by
  refine call_wp fun t e a u _ came ran => ?_
  have shrinks : Shrinks i s u := came.trans (exec_shrinks ran trivial)
  refine reapSandbox_rids.bind fun r t₂ rids => ?_
  refine call_wp fun t₃ e₃ a₃ u₃ _ came₃ ran₃ => .ret ?_
  have shrinks₃ : Shrinks i t₂ u₃ := came₃.trans (exec_shrinks ran₃ trivial)
  refine ⟨shrinks.trans (rids.1.trans shrinks₃), fun ok current => ?_⟩
  obtain ⟨before, back⟩ := shrinks₃ current
  exact Bool.eq_false_iff.2 fun dir => by cases (rids.2 ok before).symm.trans (back id dir)

theorem reapAll_clears [Uuid] :
    WP Host.exec unasked i (fun errs t => Shrinks i s t ∧
      (errs = [] → Host.Current i t → ∀ id ∈ ids, t.hasDir id = false)) (Host.reapAll ids) s := by
  induction ids generalizing s with
  | nil => exact .ret ⟨.refl i s, fun _ _ _ mem => by cases mem⟩
  | cons id ids ih =>
    refine owned_rids.bind fun r t rids => ?_
    cases r with
    | error err =>
      exact ih.bind fun errs u known => .ret ⟨rids.1.trans known.1, fun eq => by cases eq⟩
    | ok =>
      refine ih.mono fun errs u known => ⟨rids.1.trans known.1, fun none current id' mem => ?_⟩
      obtain rfl | mem := List.mem_cons.1 mem
      · obtain ⟨before, back⟩ := known.1 current
        exact Bool.eq_false_iff.2 fun dir => by cases (rids.2 rfl before).symm.trans (back _ dir)
      · exact known.2 none current id' mem

theorem listSandboxDirs_lists [Uuid] : WP Host.exec unasked i
    (fun r t => ∀ ids, r = .ok ids → ∀ id, Host.isSandboxID id = true →
      t.hasDir id = true → id ∈ ids)
    Host.listSandboxDirs s := by
  refine call_wp fun t e a u inv _ ran => .ret fun ids listed id valid dir => ?_
  obtain ⟨-, read, -⟩ := Host.exec_operate ran
  have read : Host.attempt e t (Host.readDir t, t) = (a, u) := read
  unfold Host.attempt at read
  split at read
  · cases read
    cases listed
  · cases read
    have base := inv.1.based id dir
    simp only [Host.readDir, base, if_true, Host.sandboxDirs, Except.ok.injEq] at listed
    obtain ⟨entry, found, isDir⟩ := (Option.any_eq_true _ _).1 dir
    have row := (Table.get?_eq_some_iff t.entries id entry).1 found
    rw [← listed]
    simp only [List.mem_map, List.mem_filter]
    exact ⟨(id, true), ⟨⟨(id, entry), row, by rw [isDir]⟩, by simp [valid]⟩, rfl⟩

theorem reapOrphans_clears [Uuid] : WP Host.exec unasked i
    (fun r t => r = .ok () → Host.Current i t → ∀ id, Host.isSandboxID id = true →
      t.hasDir id = false)
    Host.reapOrphans s := by
  refine listSandboxDirs_lists.bind fun r u all => ?_
  cases r with
  | error err => exact .ret fun eq => by cases eq
  | ok ids =>
    refine reapAll_clears.bind fun errs v known => .ret fun ok current id valid => ?_
    have none : errs = [] := by
      cases errs with
      | nil => rfl
      | cons err errs => cases ok
    obtain ⟨-, back⟩ := known.1 current
    refine Bool.eq_false_iff.2 fun dir => ?_
    cases (known.2 none current id (all ids rfl id valid (back id dir))).symm.trans dir

end Reaping

section Programs
variable {i : Nat} {s : Machine} {id : SandboxID} {α : Type} {starts : Bool}

/-- What a thread past the lock knows for as long as its process lives. It runs
main, or the process serves. -/
structure Working (starts : Bool) (i : Nat) (s : Machine) : Prop where
  holding : s.alive (s.process i) = true ∨ Host.Current i s.disk → Holding s i
  role : if starts then Starting s i else s.serving (s.process i) = true

theorem Working.rely [Uuid] {t : Machine} (h : Working starts i s) (rely : spec.Rely i s t) :
    Working starts i t := by
  obtain ⟨-, keeps⟩ := rely
  refine ⟨fun either => ?_, ?_⟩
  · obtain alive | current := either
    · rw [keeps.process] at alive
      obtain ⟨alive, holds⟩ := keeps.alive alive
      exact holds (h.holding (.inl alive))
    · exact keeps.current (h.holding (.inr (keeps.disk current).1)) current
  · cases starts with
    | true => exact keeps.starting h.role
    | false =>
      have serving := keeps.serving h.role
      rwa [← keeps.process] at serving

theorem host_exec {c : Host.Call} {e : Host.Env} {d : Host.Disk} (current : d.born i = d.epoch)
    (free : waits c d = false) : Host.exec i c e d = some (Host.operate i c e d) := by
  unfold Host.exec
  rw [if_neg (not_not.2 current)]
  cases c with
  | own id => exact if_pos (waits_own free id rfl)
  | _ => rfl

theorem onHost_wp [Uuid] {K : Nat → Host.Disk → Host.Disk → Prop}
    {Q : α → Host.Disk → Prop} {p : Host.M α}
    (keeps : ∀ s t, Working starts i s → spec.Rely i s t → K i s.disk t.disk)
    (asks : p.Asks (fun _ _ => True) Spares) (working : Working starts i s)
    (hp : WP Host.exec { Host.spec with Keeps := K } i Q p s.disk) :
    WP exec spec i (fun a t => Q a t.disk ∧ Working starts i t) (onHost p) s := by
  refine WP.embed_within (D := { Host.spec with Keeps := K }) (fun s (sane : Sane s) => sane.disk)
    (fun s t working rely => ⟨trivial, keeps s t working rely⟩)
    (fun s t working rely => working.rely rely) (fun c s spares _ working pre alive => ?_)
    (fun c e s a t _ sane working _ ran => ?_) rfl asks working hp
  · have holding := working.holding (.inl alive)
    refine ⟨holding, pre holding.2, spares, ?_⟩
    have role := working.role
    split at role
    · exact .inr role.1
    · exact .inl role
  · unfold exec at ran
    split at ran
    swap
    · cases ran
    rename_i alive
    obtain ⟨holder, born⟩ := working.holding (.inl alive)
    simp only [perform, seen_eq_disk holder] at ran
    split at ran
    · cases ran
    rename_i free
    cases ran
    have frame := Host.operate_frame i c e s.disk
    refine ⟨⟨fun _ => ⟨holder, born⟩, working.role⟩, trivial, e, trivial, ?_⟩
    rw [put_disk holder frame.epoch frame.born]
    exact host_exec born (by simpa using free)

theorem undisturbed_of_rely [Uuid] {t : Machine} (_ : Working starts i s) (rely : spec.Rely i s t) :
    Host.Undisturbed i s.disk t.disk := rely.2.disk

theorem clearing_of_rely [Uuid] {t : Machine} (working : Working true i s)
    (rely : spec.Rely i s t) : clearing.Keeps i s.disk t.disk := by
  refine ⟨rely.2.disk, fun current => ?_⟩
  exact rely.2.dirs (working.holding (.inr (rely.2.disk current).1)) working.role current

theorem call_ran {c : Call} {e : Host.Env} {a : c.Answer} {t : Machine}
    (ran : exec i c e s = some (a, t)) : perform i c e s = some (a, t) := by
  unfold exec at ran
  split at ran
  · exact ran
  · cases ran

theorem openLock_ok {e : Host.Env} {f : Nat} {t : Machine}
    (ran : exec i .openLock e s = some (.ok f, t)) : f = t.inode ∧ Present t := by
  have ran := call_ran ran
  cases fails : e.fails with
  | some text => simp [perform, fails] at ran
  | none =>
    simp only [perform, fails, Option.some.injEq] at ran
    unfold Machine.openLock at ran
    split at ran
    · split at ran
      · rename_i here
        cases ran
        exact ⟨rfl, here⟩
      · cases ran
      · cases ran
        exact ⟨rfl, (Table.get?_set _ _ _ _).trans (if_pos rfl)⟩
    · cases ran

theorem flock_ok {e : Host.Env} {t : Machine}
    (ran : exec i (.flock s.inode) e s = some (.ok (), t)) : Holding t i := by
  have ran := call_ran ran
  cases fails : e.fails with
  | some text => simp [perform, fails] at ran
  | none =>
    simp only [perform, fails, Option.some.injEq] at ran
    unfold Machine.flock at ran
    split at ran
    · cases ran
    · cases ran
      exact ⟨Function.update_self _ _ _, Function.update_self _ _ _⟩

theorem exec_starting {c : Call} {e : Host.Env} {a : c.Answer} {t : Machine}
    (ran : exec i c e s = some (a, t)) (other : c ≠ .serve) (starting : Starting s i) :
    Starting t i := by
  have ran := call_ran ran
  cases c with
  | serve => exact absurd rfl other
  | host c =>
    simp only [perform] at ran
    split at ran
    · cases ran
    · cases ran
      exact starting
  | close | exit =>
    cases ran
    exact starting
  | mkdirBase =>
    cases fails : e.fails <;> simp only [perform, fails] at ran <;> cases ran <;> exact starting
  | openLock =>
    cases fails : e.fails with
    | some text =>
      simp only [perform, fails] at ran
      cases ran
      exact starting
    | none =>
      simp only [perform, fails, Option.some.injEq] at ran
      unfold Machine.openLock at ran
      split at ran
      · split at ran <;> cases ran <;> exact starting
      · cases ran
        exact starting
  | flock inode =>
    cases fails : e.fails with
    | some text =>
      simp only [perform, fails] at ran
      cases ran
      exact starting
    | none =>
      simp only [perform, fails, Option.some.injEq] at ran
      unfold Machine.flock at ran
      split at ran <;> cases ran <;> exact starting

theorem lockBaseDir_wp [Uuid] {baseDir : String} (starting : Starting s i) :
    WP exec spec i (fun r t => ∀ f, r = .ok f → Working true i t) (lockBaseDir baseDir) s := by
  refine .step spec_sound fun t sane rely => ⟨fun _ => trivial, fun e a u _ ran _ _ => ?_⟩
  have starting := exec_starting ran (by simp) (rely.2.starting starting)
  cases a with
  | error n => exact .ret fun _ eq => by cases eq
  | ok =>
    refine .step spec_sound fun t sane rely => ⟨fun _ => trivial, fun e a u _ ran _ _ => ?_⟩
    have starting := exec_starting ran (by simp) (rely.2.starting starting)
    cases a with
    | error n => exact .ret fun _ eq => by cases eq
    | ok f =>
      -- the file that was opened is still the one that is there
      obtain ⟨rfl, here⟩ := openLock_ok ran
      refine .step spec_sound fun t sane rely => ?_
      obtain ⟨here, same⟩ := rely.1 here
      refine ⟨fun _ => ⟨same.symm, here⟩, fun e a v _ ran _ _ => ?_⟩
      have starting := exec_starting ran (by simp) (rely.2.starting starting)
      cases a with
      | ok => exact .ret fun f _ => ⟨fun _ => flock_ok (same ▸ ran), starting⟩
      | error err =>
        refine .step spec_sound fun t _ _ => ⟨fun _ => trivial, fun e a w _ _ _ _ => ?_⟩
        cases err <;> exact .ret fun _ eq => by cases eq

abbrev Sparing [Uuid] (p : Host.M α) : Prop := p.Asks (fun _ _ => True) Spares

theorem Reaping.sparing [Uuid] {p : Host.M α} (h : Reaping p) : Sparing p :=
  h.mono fun _ => Reaps.spares

theorem mkdirAll_sparing [Uuid] (valid : Host.isSandboxID id = true) :
    Sparing (Host.mkdirAll id) := by
  refine asks_call trivial fun r => ?_
  split
  · exact .ret _
  · exact .ret _
  refine asks_call trivial fun r => ?_
  split
  · exact .ret _
  refine asks_call valid fun r => ?_
  split
  · exact .ret _
  refine asks_call trivial fun r => ?_
  split <;> exact .ret _

theorem valid_of_check [Uuid] (h : Host.checkSandboxID id = .ok ()) :
    Host.isSandboxID id = true := by
  unfold Host.checkSandboxID at h
  split at h
  · assumption
  · cases h

theorem newFirecrackerVM_sparing [Uuid] {imageDir : String} :
    Sparing (Host.newFirecrackerVM imageDir id) := by
  unfold Host.newFirecrackerVM
  split
  · exact .ret _
  refine asks_call trivial fun r => ?_
  split
  · exact .ret _
  refine Prog.Asks.bind ?_ fun r => ?_
  · unfold Host.newClient
    split
    · exact .ret _
    · rename_i check
      refine (mkdirAll_sparing (valid_of_check check)).bind fun r => ?_
      split <;> exact .ret _
  · split <;> exact .ret _

theorem createVolume_sparing [Uuid] {p : Host.Pool} : Sparing (Host.createVolume p id) := by
  unfold Host.createVolume
  split
  · exact .ret _
  refine asks_call trivial fun r => ?_
  split
  · exact .ret _
  refine asks_call trivial fun r => ?_
  split
  · exact .ret _
  refine (reaping_of_quiet Host.createSnapshot_quiet).sparing.bind fun r => ?_
  split
  · exact .ret _
  refine (Host.createDevice_asks trivial trivial trivial trivial).bind fun r => ?_
  split
  · refine (reaping_of_quiet Host.deleteThin_quiet).sparing.bind fun r => ?_
    split <;> exact .ret _
  refine (Host.ensureNode_asks trivial trivial trivial).bind fun r => ?_
  split
  · exact .ret _
  · refine removeVolume_reaping.sparing.bind fun r => ?_
    split <;> exact .ret _

theorem vmCreate_sparing [Uuid] : Sparing (Host.vmCreate id) := by
  refine asks_call trivial fun r => ?_
  split
  · exact .ret _
  refine createVolume_sparing.bind fun r => ?_
  split
  · exact .ret _
  refine (reaping_of_quiet Host.spawn_quiet).sparing.bind fun r => ?_
  split
  · exact .ret _
  refine asks_call trivial fun r => ?_
  split <;> exact .ret _

theorem serviceRemove_reaping [Uuid] (valid : Host.isSandboxID id = true) :
    Reaping (Host.serviceRemove id) := by
  refine (reaping_of_quiet Host.vmStop_quiet).bind fun stopped => ?_
  refine Prog.Asks.bind (configRemoveVolume_reaping.bind fun r => ?_) fun r => ?_
  · split
    · exact .ret _
    refine (removeAll_reaping valid).bind fun r => ?_
    split
    · split <;> exact .ret _
    · exact .ret _
  · split
    · exact .ret _
    · split <;> exact .ret _

theorem serviceCreate_sparing [Uuid] {imageDir : String} (valid : Host.isSandboxID id = true) :
    Sparing (Host.serviceCreate imageDir id) := by
  refine newFirecrackerVM_sparing.bind fun r => ?_
  split
  · exact .ret _
  refine vmCreate_sparing.bind fun r => ?_
  split
  · exact .ret _
  · exact (serviceRemove_reaping valid).sparing.bind fun _ => .ret _

theorem checked_sparing [Uuid] {p : Host.M (Except Fault Unit)}
    (h : Host.isSandboxID id = true → Sparing p) : Sparing (checked id p) := by
  unfold checked
  split
  · exact .ret _
  · rename_i ok
    exact h (valid_of_check ok)

theorem task_sparing [Uuid] (t : Task) : Sparing t.body := by
  cases t with
  | create imageDir id =>
    exact checked_sparing fun valid => owned_asks trivial trivial (serviceCreate_sparing valid)
  | remove id =>
    exact checked_sparing fun valid => owned_asks trivial trivial
      (serviceRemove_reaping valid).sparing
  | reap id => exact checked_sparing fun _ => owned_asks trivial trivial reapSandbox_reaping.sparing
  | reconcileDisk => exact reapListed_reaping.sparing

theorem task_wp [Uuid] (t : Task) {d : Host.Disk} :
    WP Host.exec Host.spec i (fun _ _ => True) t.body d := by
  have check {id : SandboxID} {k : Host.Kind} :
      WP Host.exec Host.spec i (fun _ _ => True) (checked id (Host.body k)) d := by
    unfold checked
    split
    · exact .ret trivial
    · exact Host.body_wp k
  cases t with
  | create | remove | reap => exact check
  | reconcileDisk => exact Host.body_wp .reconcileDisk

theorem leave_wp [Uuid] {code : Nat} {r : Except Fault Unit}
    (clean : code = 0 → ∀ t, Sane t → spec.Rely i s t → t.alive (t.process i) = true → Cleared t) :
    WP exec spec i (fun _ _ => True) (leave code r) s :=
  .step spec_sound fun t sane rely => ⟨fun alive zero => clean zero t sane rely alive,
    fun _ _ _ _ _ _ _ => .ret trivial⟩

theorem main_wp [Uuid] {baseDir : String} {reapAll : Bool} (starting : Starting s i) :
    WP exec spec i (fun _ _ => True) (main baseDir reapAll) s := by
  refine (lockBaseDir_wp starting).bind fun r t locked => ?_
  cases r with
  | error err => exact leave_wp fun eq => by cases eq
  | ok f =>
    have working := locked f rfl
    dsimp only
    split
    · have clears : WP Host.exec clearing i (fun r d => True ∧ (r = .ok () → Host.Current i d →
          ∀ id, Host.isSandboxID id = true → d.hasDir id = false)) Host.reapOrphans t.disk := by
        refine WP.both (fun d => d) ?_ ?_ ?_ ?_ rfl Host.reapOrphans_wp reapOrphans_clears
        · exact fun _ inv => inv
        · exact fun _ _ rely => ⟨trivial, rely.2.1⟩
        · exact fun _ _ pre _ => pre
        · exact fun _ e _ _ _ _ ran => ⟨e, trivial, ran⟩
      refine (onHost_wp (fun _ _ => clearing_of_rely) reapOrphans_reaping.sparing
        working clears).bind fun r u known => ?_
      obtain ⟨⟨-, gone⟩, working⟩ := known
      cases r with
      | error err => exact leave_wp fun eq => by cases eq
      | ok =>
        refine leave_wp fun _ v sane rely alive id valid => ?_
        have current := ((working.rely rely).holding (.inl alive)).2
        obtain ⟨undisturbed, same⟩ := clearing_of_rely working rely
        have empty : v.disk.hasDir id = false := (same current id).trans
          (gone rfl (undisturbed current).1 id valid)
        refine ⟨empty, Bool.eq_false_iff.2 fun volume => ?_⟩
        cases empty.symm.trans (sane.disk.1.volume id volume).2
    · refine (onHost_wp (fun _ _ => undisturbed_of_rely) reapListed_reaping.sparing working
        Host.reapListed_wp).bind fun r u known => ?_
      refine .step spec_sound fun v _ rely => ⟨fun alive => ?_, fun _ _ _ _ _ _ _ => .ret trivial⟩
      have working := known.2.rely rely
      exact ⟨working.holding (.inl alive), working.role⟩

end Programs

theorem begin_main [Uuid] {i : Nat} {reapAll : Bool} {s t : Machine} (sane : Sane s)
    (h : begin i (.main reapAll) s = some t) :
    Sane t ∧ Evolves s t ∧ (∀ j, j ≠ i → Keeps j s t) ∧ Starting t i := by
  cases h
  have alive {p : Nat} (old : p ≠ s.processes) : Function.update s.alive s.processes
      true p = s.alive p :=
    Function.update_of_ne old _ _
  refine ⟨⟨fun n p held => ?_, fun p living serves => ?_, fun p unborn => ?_,
    fun j => ?_, sane.disk⟩, fun here => ⟨here, rfl⟩, fun j other => ?_, ?_⟩
  · obtain ⟨same, living, here⟩ := sane.lock n p held
    have old : p ≠ s.processes := by
      rintro rfl
      cases living.symm.trans (sane.unborn _ (Nat.le_refl _)).1
    exact ⟨same, (alive old).trans living, here⟩
  · have old : p ≠ s.processes := by
      rintro rfl
      cases serves.symm.trans (sane.unborn _ (Nat.le_refl _)).2
    exact sane.serving p ((alive old).symm.trans living) serves
  · have later : s.processes + 1 ≤ p := unborn
    obtain ⟨dead, idle⟩ := sane.unborn p (by omega)
    exact ⟨(alive (by omega)).trans dead, idle⟩
  · change Function.update s.process i s.processes j < s.processes + 1
    by_cases same : j = i
    · rw [same, Function.update_self]
      omega
    · rw [Function.update_of_ne same]
      exact Nat.lt_succ_of_lt (sane.threads j)
  · have process : Function.update s.process i s.processes j = s.process j :=
      Function.update_of_ne other _ _
    have old := Nat.ne_of_lt (sane.threads j)
    have holds (holding : Holding s j) : s.holder s.inode =
      some (Function.update s.process i s.processes j) ∧
        s.born j = s.epoch := by rwa [process]
    refine ⟨process, fun starting => ?_, fun h => h, fun living =>
      ⟨(alive old).symm.trans living, holds⟩, fun holding _ => holds holding,
      Host.spec_sound.keeps_refl j s.disk, fun _ _ _ _ => rfl⟩
    change Function.update s.mainOf s.processes i (Function.update s.process i s.processes j) = j ∧
      s.serving (Function.update s.process i s.processes j) = false
    rw [process, Function.update_of_ne old]
    exact starting
  · change Function.update s.mainOf s.processes i (Function.update s.process i s.processes i) = i ∧
      s.serving (Function.update s.process i s.processes i) = false
    rw [Function.update_self, Function.update_self]
    exact ⟨rfl, (sane.unborn _ (Nat.le_refl _)).2⟩

theorem begin_task [Uuid] {i p : Nat} {task : Task} {s t : Machine} (sane : Sane s)
    (h : begin i (.task p task) s = some t) :
    Sane t ∧ Evolves s t ∧ (∀ j, j ≠ i → Keeps j s t) ∧ Working false i t := by
  simp only [begin, Bool.and_eq_true] at h
  split at h
  swap
  · cases h
  rename_i serves
  cases h
  have held := sane.serving p serves.1 serves.2
  have known : p < s.processes := by
    by_contra unborn
    cases serves.1.symm.trans (sane.unborn p (Nat.not_lt.1 unborn)).1
  refine ⟨⟨sane.lock, sane.serving, sane.unborn, fun j => ?_,
    ⟨sane.disk.1.volume, sane.disk.1.based⟩, fun j => ?_⟩,
    fun here => ⟨here, rfl⟩, fun j other => ?_, ?_⟩
  · change Function.update s.process i p j < s.processes
    by_cases same : j = i
    · rw [same, Function.update_self]
      exact known
    · rw [Function.update_of_ne same]
      exact sane.threads j
  · change Function.update s.born i s.epoch j ≤ s.epoch
    by_cases same : j = i
    · rw [same]
      exact Nat.le_of_eq (Function.update_self i _ _)
    · rw [Function.update_of_ne same]
      exact sane.disk.2 j
  · have process : Function.update s.process i p j = s.process j := Function.update_of_ne other _ _
    have born : Function.update s.born i s.epoch j = s.born j := Function.update_of_ne other _ _
    have holds (holding : Holding s j) : s.holder s.inode = some (Function.update s.process i p j) ∧
        Function.update s.born i s.epoch j = s.epoch := by rwa [process, born]
    refine ⟨process, fun starting => ?_, fun h => h, fun living => ⟨living, holds⟩,
      fun holding _ => holds holding, fun current => ⟨born.symm.trans current, fun _ mine =>
        ⟨mine, rfl, rfl⟩⟩, fun _ _ _ _ => rfl⟩
    change s.mainOf (Function.update s.process i p j) = j ∧
      s.serving (Function.update s.process i p j) = false
    rwa [process]
  · have process : Function.update s.process i p i = p := Function.update_self _ _ _
    refine ⟨fun _ => ⟨held.trans (congrArg some process.symm), Function.update_self _ _ _⟩, ?_⟩
    change s.serving (Function.update s.process i p i) = true
    rw [process]
    exact serves.2

theorem write_disk {name file : String} {s : Machine} :
    (happen (.write name file) s).disk = Host.happen (.write name file) s.disk := by
  simp only [happen, Host.happen, Host.onFiles, Machine.seen, Machine.disk]
  split <;> rfl

theorem write_fits [Uuid] {name file : String} {s : Machine} (sane : Sane s) :
    Sane (happen (.write name file) s) ∧ Evolves s (happen (.write name file) s) ∧
      ∀ j, Keeps j s (happen (.write name file) s) := by
  have present (here : Present s) : Present (happen (.write name file) s) := onFiles_present
    (d := s.seen 0) here
  refine ⟨⟨fun n p held => ?_, sane.serving, sane.unborn, sane.threads, ?_⟩,
    fun here => ⟨present here, rfl⟩,
    fun j => .of_disk rfl rfl rfl rfl (fun h => h) ?_ fun _ _ id => ?_⟩
  · obtain ⟨same, alive, here⟩ := sane.lock n p held
    exact ⟨same, alive, present here⟩
  · rw [write_disk]
    exact ⟨Host.happen_marked sane.disk.1, Host.happen_born sane.disk.2⟩
  · rw [write_disk]
    exact Host.happen_undisturbed sane.disk.2 j
  · rw [write_disk]
    have frame : Host.Frame .readDir s.disk (Host.onFiles name s.disk fun files =>
        files.insert file).2 :=
      Host.onFiles_frame
    exact frame.dir id (by simp [Host.touches])

theorem disciplined [Uuid] (baseDir : String) :
    (system baseDir).Disciplined spec fun _ _ _ _ => True where
  sound := spec_sound
  start i k s t sane started := by
    have started : begin i k s = some t := started
    cases k with
    | main reapAll =>
      obtain ⟨sane', evolves, keeps, starting⟩ := begin_main sane started
      exact ⟨sane', evolves, keeps, main_wp starting⟩
    | task p task =>
      obtain ⟨sane', evolves, keeps, working⟩ := begin_task sane started
      have served := onHost_wp (fun _ _ => undisturbed_of_rely)
        (task_sparing task) working (task_wp task)
      exact ⟨sane', evolves, keeps, served.mono fun _ _ _ => trivial⟩
  ext x s t sane _ happened := by
    have happened : some (happen x s) = some t := happened
    cases happened
    cases x with
    | kill p => exact die_sane sane p
    | write name file => exact write_fits sane

theorem boot_sane [Uuid] {h : Host.Files} (marked : Host.Marked h.boot) : Sane (boot h) where
  lock n p held := by cases held
  serving p alive := by cases alive
  unborn p _ := ⟨rfl, rfl⟩
  threads i := Nat.zero_lt_one
  disk := ⟨⟨marked.volume, marked.based⟩, fun _ => Nat.le_refl 0⟩

section Runs
variable {h : Host.Files} {baseDir : String} {t : State}

def Works (t : State) (i : Nat) (c : Host.Call) : Prop :=
  t.shared.alive (t.shared.process i) = true ∧ ∃ k f, t.threads i = some ⟨k, .call (.host c) f⟩

theorem reached_safe [Uuid] (marked : Host.Marked h.boot)
    (run : (system baseDir).Reaches (System.init (boot h)) t) :
    (system baseDir).Safe spec (fun _ _ _ _ => True) t :=
  (System.safe_reaches (disciplined baseDir) (fun _ _ _ _ => trivial) (fun _ _ => trivial)
    (System.safe_init (boot_sane marked)) run).1

/-- However many workers and `worker -reap-all` are started on a host, and
wherever they are killed, only one of them works on the base dir at a time, and
never by a path that is the lock file's. So no device of a sandbox is ever without
its directory, and a lock whose process is gone is free. -/
theorem one_process_works [Uuid] (marked : Host.Marked h.boot)
    (run : (system baseDir).Reaches (System.init (boot h)) t) :
    (∀ i j c c', Works t i c → Works t j c' → t.shared.process i = t.shared.process j) ∧
    (∀ i c, Works t i c → t.shared.holder t.shared.inode = some (t.shared.process i) ∧ Spares c) ∧
    (∀ id, t.shared.disk.hasVolume id = true → Host.isSandboxID id = true ∧
      t.shared.disk.hasDir id = true) ∧
    ∀ n p, t.shared.holder n = some p → n = t.shared.inode ∧ t.shared.alive p = true := by
  have safe := reached_safe marked run
  have holds (i : Nat) (c : Host.Call) (works : Works t i c) :
      t.shared.holder t.shared.inode = some (t.shared.process i) ∧ Spares c := by
    obtain ⟨alive, k, f, thread⟩ := works
    obtain ⟨holding, -, spares, -⟩ := System.safe_pre (disciplined baseDir) safe thread alive
    exact ⟨holding.1, spares⟩
  refine ⟨fun i j c c' works works' => ?_, holds, safe.inv.disk.1.volume, fun n p held => ?_⟩
  · exact Option.some.inj ((holds i c works).1.symm.trans (holds j c' works').1)
  · obtain ⟨same, alive, -⟩ := safe.inv.lock n p held
    exact ⟨same, alive⟩

/-- `worker -reap-all` only exits with 0 where no sandbox has a directory or a
device left, whatever workers were killed over it before and are started beside it. -/
theorem reapAll_exits_clean [Uuid] (marked : Host.Marked h.boot)
    (run : (system baseDir).Reaches (System.init (boot h)) t)
    {i : Nat} {f : Unit → M (Except Fault Unit)}
    (exits : t.threads i = some ⟨.main true, .call (.exit 0) f⟩)
    (alive : t.shared.alive (t.shared.process i) = true) (id : SandboxID) :
    (Host.isSandboxID id = true → t.shared.disk.hasDir id = false) ∧
    t.shared.disk.hasVolume id = false := by
  have safe := reached_safe marked run
  have cleared : Cleared t.shared := System.safe_pre (disciplined baseDir) safe exits alive rfl
  refine ⟨fun valid => (cleared id valid).1, Bool.eq_false_iff.2 fun volume => ?_⟩
  cases (cleared id (safe.inv.disk.1.volume id volume).1).2.symm.trans volume

def exitsClean (t : State) (i : Nat) : Bool :=
  t.shared.alive (t.shared.process i) &&
    match t.threads i with
    | some ⟨.main true, .call (.exit code) _⟩ => code == 0
    | _ => false

theorem exits_of_exitsClean {i : Nat} (h : exitsClean t i = true) :
    t.shared.alive (t.shared.process i) = true ∧
    ∃ f, t.threads i = some ⟨.main true, .call (.exit 0) f⟩ := by
  unfold exitsClean at h
  obtain ⟨alive, exits⟩ := Bool.and_eq_true_iff.1 h
  refine ⟨alive, ?_⟩
  split at exits
  · rename_i code f thread
    obtain rfl := beq_iff_eq.1 exits
    exact ⟨f, thread⟩
  · cases exits

def maintained : List (Action Kind Host.Env Event) :=
  -- a worker is killed in the middle of a create, once the volume is there, and then
  -- everything is reaped
  .spawn (.main false) :: List.replicate 5 (.call 0 {}) ++
    .spawn (.task 1 (.create "/images" Host.someID)) :: List.replicate 14 (.call 1 {}) ++
    [.ext (.kill 1), .spawn (.main true)] ++ List.replicate 16
    (.call 2 { targets := [⟨0, 2048, "thin", "253:0 2"⟩] })

open Uuid.Standard in
theorem reapAll_exits_clean_maintained :
    ∃ t f, (system "/tmp").Reaches (System.init (boot Host.emptyHost)) t ∧
    t.threads 2 = some ⟨.main true, .call (.exit 0) f⟩ ∧ t.shared.disk.hasDir Host.someID = false ∧
    t.shared.disk.hasVolume Host.someID = false := by
  have run : ((system "/tmp").run (System.init (boot Host.emptyHost)) maintained).map
      (exitsClean · 2) = some true := by
    decide +kernel
  obtain ⟨t, ht, exits⟩ := Option.map_eq_some_iff.1 run
  obtain ⟨alive, f, exits⟩ := exits_of_exitsClean exits
  have reached := System.reaches_of_run ht
  have clean := reapAll_exits_clean Host.emptyHost_marked reached exits alive Host.someID
  exact ⟨t, f, reached, exits, clean.1 (by decide +kernel), clean.2⟩

def readsDir (t : State) (i : Nat) : Bool :=
  t.shared.alive (t.shared.process i) &&
    match t.threads i with
    | some ⟨_, .call (.host .readDir) _⟩ => true
    | _ => false

theorem works_of_readsDir {i : Nat} (h : readsDir t i = true) : Works t i .readDir := by
  unfold readsDir at h
  obtain ⟨alive, reads⟩ := Bool.and_eq_true_iff.1 h
  refine ⟨alive, ?_⟩
  split at reads
  · exact ⟨_, _, by assumption⟩
  · cases reads

def answered (t : State) (i : Nat) : Option (Except Fault Unit) :=
  match t.threads i with
  | some ⟨_, .ret r⟩ => some r
  | _ => none

def restarted : List (Action Kind Host.Env Event) :=
  -- a `worker -reap-all` beside a worker is refused, and a worker that is started once the
  -- first was killed is not
  [.spawn (.main false), .call 0 {}, .call 0 {}, .call 0 {}, .spawn (.main true)] ++
    List.replicate 5 (.call 1 {}) ++ [.ext (.kill 1), .spawn (.main false), .call 2 {},
      .call 2 {}, .call 2 {}]

open Uuid.Standard in
theorem one_process_works_restarted :
    ∃ t, (system "/tmp").Reaches (System.init (boot Host.emptyHost)) t ∧
    answered t 1 = some (.error (.wrap "sandbox base dir is locked by another worker"
      (.new "/tmp/.fire2-worker.lock"))) ∧ Works t 2 .readDir ∧ t.shared.alive 1 = false ∧
    t.shared.holder t.shared.inode = some (t.shared.process 2) := by
  have run : ((system "/tmp").run (System.init (boot Host.emptyHost)) restarted).map
      (fun t => (answered t 1, readsDir t 2, t.shared.alive 1)) =
      some (some (.error (.wrap "sandbox base dir is locked by another worker"
        (.new "/tmp/.fire2-worker.lock"))), true, false) := by
    decide +kernel
  simp only [Option.map_eq_some_iff, Prod.mk.injEq] at run
  obtain ⟨t, ht, refused, reads, killed⟩ := run
  have reached := System.reaches_of_run ht
  have works := works_of_readsDir reads
  obtain ⟨-, holds, -⟩ := one_process_works Host.emptyHost_marked reached
  exact ⟨t, reached, refused, works, killed, (holds 2 _ works).1⟩

end Runs

end Fire2.Locking
