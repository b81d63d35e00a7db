import Fire2.SandboxMgr

/-! Who may touch a sandbox on its worker.

A Service that can still act is in the map, or was taken out of it by the
removal that has its ID in deleting. So as long as an ID is in neither nobody
acts on it, and whoever has it in deleting acts alone once that Service is done.

What follows from the answers of the VM operations is kept alongside, under the
assumptions it needs. -/

namespace Fire2.SandboxMgr
open Interleaving

/-- What a run is assumed to meet: nothing is left behind by an operation, a
sandbox is not ordered again before it has booted, nor after its removal was
answered. -/
structure Assume where
  clean : Prop
  booted : Prop
  ordered : Prop

def Service.active (svc : Service) : Bool := svc.phase ≠ .exiting && svc.phase ≠ .closed

namespace Manager

def svcOf (s : Manager) (id : SandboxID) : Option Ref := (s.services.get? id).map Entry.svc

def Held (s : Manager) (id : SandboxID) (ref : Ref) : Prop :=
  s.svcOf id = some ref ∨ ∃ d, s.deleting.get? id = some d ∧ d.svc = some ref

def Bare (s : Manager) (id : SandboxID) : Prop := s.remnant id = ⟨false, false, false, false⟩

end Manager

/-- What is left of a sandbox has its directory, and can be removed. -/
structure Remnant.Marked (r : Remnant) : Prop where
  unleaked : r.leaked = false
  dir : r.device = true ∨ r.vm = true → r.dir = true

structure Shrinks (r r' : Remnant) : Prop where
  dir : r'.dir = true → r.dir = true
  volume : r'.volume = true → r.volume = true
  vm : r'.vm = true → r.vm = true

structure Stays (r r' : Remnant) : Prop where
  dir : r'.dir = r.dir
  volume : r'.volume = r.volume
  vm : r'.vm = true → r.vm = true

/-- What the host may have of a sandbox, seen from the VM its Service has: nothing
as long as there is none, and no process without a handle on it. -/
def Accounts (vm : Option VM) (r : Remnant) : Prop :=
  match vm with
  | none => r = ⟨false, false, false, false⟩
  | some v => v.spawned = false → r.vm = false

def Service.Takes (svc : Service) (j : Nat) (cmd : Command) : Prop :=
  svc.phase = .offered j cmd ∨ ∃ i, svc.phase = .busy i (.command j cmd)

/-- Who owns what, whatever the VM operations do. -/
structure Owned (s : Manager) : Prop where
  tracked : ∀ id ref, s.svcOf id = some ref →
    s.deleting.get? id = none ∧ ∃ svc, s.heap ref = some svc ∧ svc.id = id
  held : ∀ ref svc, s.heap ref = some svc → svc.active = true → s.Held svc.id ref
  settled : ∀ ref svc j cmd err, s.heap ref = some svc → svc.replies (j, cmd) = some err →
    Service.exits cmd err = true → svc.active = false
  made : ∀ ref svc j cmd, s.heap ref = some svc → svc.Takes j cmd → s.stage = .serving ∧
    (cmd.isCreate = true → svc.creator = some j ∧ svc.begun = some cmd ∧
      (svc.phase = .offered j cmd → svc.vm = none))
  used : ∀ ref svc, s.heap ref = some svc → svc.vm ≠ none → svc.creator ≠ none → svc.begun ≠ none
  booted : ∀ ref svc j input, s.heap ref = some svc → svc.replies (j, .create input) = some none →
    svc.id ∈ s.booted
  bound : ∀ ref svc, s.heap ref = some svc → ref < s.next
  early : s.stage ≠ .serving → ∀ id, s.deleting.get? id = none
  fresh : s.stage = .fresh → (∀ ref, s.heap ref = none) ∧ ∀ id, s.svcOf id = none
  born : ∀ i, s.born i ≤ s.process

/-- What the host has is accounted for, as long as nothing is left behind. -/
structure Clean [Uuid] (s : Manager) : Prop where
  marked : ∀ id, (s.remnant id).Marked
  account : ∀ ref svc, s.heap ref = some svc → s.Held svc.id ref →
    Accounts svc.vm (s.remnant svc.id)
  failed : ∀ ref svc j input err, s.heap ref = some svc →
    svc.replies (j, .create input) = some (some err) → s.Held svc.id ref → s.Bare svc.id
  removed : ∀ ref svc j err, s.heap ref = some svc → svc.replies (j, .remove) = some err →
    s.Held svc.id ref → s.Bare svc.id
  taken : ∀ ref svc j cmd, s.heap ref = some svc → svc.creator = some j → svc.begun = some cmd →
    cmd.isCreate = true → svc.Takes j cmd ∨ ∃ err, svc.replies (j, cmd) = some err
  untracked : s.stage = .serving → ∀ id, Host.isSandboxID id = true → s.svcOf id = none →
    s.deleting.get? id = none → s.Bare id

def Spent (s : Manager) : Prop :=
  ∀ id ∈ s.gone, ∀ ref svc, s.heap ref = some svc → svc.id = id → svc.active = true →
    svc.creator = none

structure Sane [Uuid] (A : Assume) (s : Manager) : Prop where
  owned : Owned s
  clean : A.clean → Clean s
  spent : A.ordered → Spent s

structure Moves (s t : Manager) : Prop where
  stage : s.stage = .serving → t.stage = .serving
  heap : ∀ ref svc, s.heap ref = some svc → ∃ svc', t.heap ref = some svc' ∧ svc'.id = svc.id ∧
    svc'.creator = svc.creator ∧ (svc.active = false → svc'.active = false)
  left : ∀ ref svc, s.heap ref = some svc → svc.active = false → t.Held svc.id ref →
    s.Held svc.id ref ∧ Shrinks (s.remnant svc.id) (t.remnant svc.id)

def Manager.Idle (s : Manager) (ref : Ref) : Prop :=
  ∃ svc, s.heap ref = some svc ∧ svc.active = false

def Manager.Deletes (s : Manager) (i : Nat) (id : SandboxID) : Prop :=
  ∃ d, s.deleting.get? id = some d ∧ d.owner = i ∧ ∀ ref, d.svc = some ref → s.Idle ref

/-- What the other threads of the process leave alone for thread `i`: the Service
it runs, the IDs it deletes, everything while it recovers, and the command of
the Service it has registered. -/
structure Leaves (i : Nat) (s t : Manager) : Prop where
  serving : ∀ ref svc wake, s.heap ref = some svc → svc.phase = .busy i wake →
    t.heap ref = some svc ∧ Stays (s.remnant svc.id) (t.remnant svc.id)
  deleting : ∀ id d, s.deleting.get? id = some d → d.owner = i → t.deleting.get? id = some d
  reaping : ∀ id, s.Deletes i id → t.Deletes i id ∧ Shrinks (s.remnant id) (t.remnant id)
  recovering : s.stage = .recovering i → t.stage = .recovering i ∧ (∀ id, t.svcOf id = s.svcOf id) ∧
    (∀ ref svc, t.heap ref = some svc → ∃ svc', s.heap ref = some svc' ∧ svc'.id = svc.id) ∧
    ∀ id, Shrinks (s.remnant id) (t.remnant id)
  creator : ∀ ref svc, s.heap ref = some svc → svc.creator = some i →
    ∃ svc', t.heap ref = some svc' ∧ svc'.creator = some i ∧ svc'.begun = svc.begun

def Manager.Serving (s : Manager) (i : Nat) (ref : Ref) (svc : Service) (wake : Wake) : Prop :=
  s.heap ref = some svc ∧ svc.phase = .busy i wake

def Manager.Recovers (s : Manager) (i : Nat) (id : SandboxID) : Prop :=
  s.stage = .recovering i ∧ s.svcOf id = none ∧ ∀ ref svc, s.heap ref = some svc → svc.id ≠ id

def VMOp.may (A : Assume) (op : VMOp) (vm : Option VM) (r : Remnant) (cmd : Command) : Prop :=
  match op with
  | .newVM => cmd.isCreate = true ∧ vm = none
  | .createVolume | .spawn | .waitRunning =>
    cmd.isCreate = true ∧ vm ≠ none ∧ (A.clean → r.dir = true)
  | .stop | .removeVolume => True
  | .removeDir => A.clean → r.volume = false ∧ r.vm = false

def may [Uuid] (A : Assume) (i : Nat) (s : Manager) : Call → Prop
  | .register input => s.stage = .serving ∧ Host.isSandboxID input.id = true
  | .claim _ | .claimOrphans _ => s.stage = .serving
  | .forget id ref => s.stage = .serving ∧ ∃ svc, s.heap ref = some svc ∧ svc.active = false ∧
      (A.clean → s.Held id ref → s.Bare id)
  | .release id _ => s.Deletes i id ∧ (A.clean → Host.isSandboxID id = true → s.Bare id)
  | .adopt id _ => s.Recovers i id
  | .serveRequests => s.stage = .recovering i ∧
      (A.clean → ∀ id, Host.isSandboxID id = true → s.svcOf id = none → s.Bare id)
  | .offer ref cmd => s.stage = .serving ∧ ∃ svc, s.heap ref = some svc ∧
      (cmd.isCreate = true → svc.creator = some i ∧ svc.begun = none)
  | .setField ref _ | .watch ref | .unwatch ref => ∃ svc wake, s.Serving i ref svc wake
  | .resume ref => ∃ svc wake, s.Serving i ref svc wake ∧ (A.clean → ∀ j cmd,
      wake = .command j cmd → cmd.isCreate = true → ∃ err, svc.replies (j, cmd) = some err)
  | .close ref =>
    ∃ svc, s.heap ref = some svc ∧ (svc.active = false ∨ ∃ wake, svc.phase = .busy i wake ∧
      (A.clean → ∀ j cmd, wake = .command j cmd → cmd.isCreate = false))
  | .reply ref sender cmd err exit => exit = Service.exits cmd err ∧
      ∃ svc, s.Serving i ref svc (.command sender cmd) ∧
      (cmd.isCreate = true → err = none → svc.id ∈ s.booted) ∧
      (A.clean → (cmd.isCreate = true ∧ err ≠ none) ∨ cmd = .remove → s.Bare svc.id)
  | .vm ref op => ∃ svc j cmd, s.Serving i ref svc (.command j cmd) ∧
      op.may A svc.vm (s.remnant svc.id) cmd
  | .reap id op => (s.Deletes i id ∨ s.Recovers i id) ∧ (A.clean → op = .removeDir →
      (s.remnant id).volume = false ∧ (s.remnant id).vm = false)
  | _ => True

/-- An operation of a create does not panic, one that fails leaves neither a
process nor a thin ID without a device, and what tears a VM down succeeds. Only a
failed StopSandbox is harmless. -/
def VMOp.tidy (op : VMOp) (cmd : Command) (e : Env) : Bool :=
  match op with
  | .newVM | .waitRunning => e.fault ≠ .panic
  | .createVolume => e.fault ≠ .panic && (e.fault = .none || !e.leaks)
  | .spawn => e.fault ≠ .panic && (e.fault = .none || !e.took)
  | .stop => cmd = .stop || e.fault = .none
  | .removeVolume | .removeDir => e.fault = .none

def Manager.handling (s : Manager) (ref : Ref) : Option Command :=
  (s.heap ref).bind fun svc =>
    match svc.phase with
    | .busy _ (.command _ cmd) => some cmd
    | _ => none

/-- Nothing is left behind: neither by a VM operation nor by a reap, and Recover
gets to see what the host has. -/
def tidy (_ : Nat) (c : Call) (e : Env) (s : Manager) : Bool :=
  match c with
  | .vm ref op => (s.handling ref).all fun cmd => op.tidy cmd e
  | .queryVM ref => (s.handling ref).all fun cmd => !cmd.isCreate || e.fault ≠ .panic
  | .reap .. => e.fault = .none && !e.lingers
  | .listDisk => s.stage = .serving || e.fault = .none
  | _ => true

def prompt (_ : Nat) (c : Call) (_ : Env) (s : Manager) : Bool :=
  -- no sandbox is ordered again before it has booted
  match c with
  | .register input => !s.tracks input.id || input.id ∈ s.booted
  | _ => true

def ordered (_ : Nat) (c : Call) (_ : Env) (s : Manager) : Bool :=
  -- no sandbox is ordered after its removal was answered
  match c with
  | .register input => input.id ∉ s.gone
  | _ => true

structure Meets (A : Assume) (i : Nat) (c : Call) (e : Env) (s : Manager) : Prop where
  clean : A.clean → tidy i c e s = true
  booted : A.booted → prompt i c e s = true
  ordered : A.ordered → ordered i c e s = true

structure Evolves (s t : Manager) : Prop where
  process : s.process ≤ t.process
  booted : ∀ id ∈ s.booted, id ∈ t.booted
  gone : ∀ id ∈ s.gone, id ∈ t.gone
  moves : s.process = t.process → Moves s t

structure Keeps (i : Nat) (s t : Manager) : Prop where
  process : s.process ≤ t.process
  born : t.born i = s.born i
  leaves : s.process = t.process → Leaves i s t

def spec [Uuid] (A : Assume) : Spec Call Env Event Manager where
  Inv := Sane A
  Evolves := Evolves
  Keeps := Keeps
  Pre i c s := s.born i = s.process → may A i s c
  Cond := Meets A
  Out _ _ := True

section Relations
variable {s t u : Manager} {i : Nat} {r r' r'' : Remnant}

theorem Shrinks.refl (r : Remnant) : Shrinks r r := ⟨fun h => h, fun h => h, fun h => h⟩

theorem Shrinks.trans (h : Shrinks r r') (k : Shrinks r' r'') : Shrinks r r'' :=
  ⟨fun x => h.dir (k.dir x), fun x => h.volume (k.volume x), fun x => h.vm (k.vm x)⟩

theorem Shrinks.bare (h : Shrinks r r') (bare : r = ⟨false, false, false, false⟩) :
    r' = ⟨false, false, false, false⟩ := by
  subst bare
  obtain ⟨dir, device, leaked, vm⟩ := r'
  have dir : dir = false := by simpa using h.dir
  have volume : device = false ∧ leaked = false := by simpa [Remnant.volume] using h.volume
  have vm : vm = false := by simpa using h.vm
  simp [dir, volume, vm]

theorem Stays.refl (r : Remnant) : Stays r r := ⟨rfl, rfl, fun h => h⟩

theorem Stays.trans (h : Stays r r') (k : Stays r' r'') : Stays r r'' :=
  ⟨k.dir.trans h.dir, k.volume.trans h.volume, fun x => h.vm (k.vm x)⟩

theorem Stays.shrinks (h : Stays r r') : Shrinks r r' :=
  ⟨fun x => h.dir ▸ x, fun x => h.volume ▸ x, h.vm⟩

theorem Shrinks.accounts {vm : Option VM} (h : Shrinks r r') (was : Accounts vm r) :
    Accounts vm r' := by
  cases vm with
  | none => exact h.bare was
  | some v => exact fun unspawned => by simpa [was unspawned] using h.vm

theorem Moves.refl (s : Manager) : Moves s s :=
  ⟨fun h => h, fun _ svc at_ref => ⟨svc, at_ref, rfl, rfl, fun h => h⟩,
    fun _ _ _ _ held => ⟨held, .refl _⟩⟩

theorem Moves.trans (h : Moves s t) (k : Moves t u) : Moves s u := by
  refine ⟨fun x => k.stage (h.stage x), fun ref svc at_ref => ?_,
    fun ref svc at_ref idle held => ?_⟩
  · obtain ⟨svc', at', id', creator', idle'⟩ := h.heap ref svc at_ref
    obtain ⟨svc'', at'', id'', creator'', idle''⟩ := k.heap ref svc' at'
    exact ⟨svc'', at'', id''.trans id', creator''.trans creator', fun x => idle'' (idle' x)⟩
  · obtain ⟨svc', at', id', -, idle'⟩ := h.heap ref svc at_ref
    rw [← id'] at held ⊢
    obtain ⟨held, shrinks⟩ := k.left ref svc' at' (idle' idle) held
    rw [id'] at held ⊢
    obtain ⟨held', shrinks'⟩ := h.left ref svc at_ref idle held
    exact ⟨held', shrinks'.trans (id' ▸ shrinks)⟩

theorem Moves.deletes {id : SandboxID} (h : Moves s t)
    (deleting : ∀ id d, s.deleting.get? id = some d →
    d.owner = i → t.deleting.get? id = some d) (mine : s.Deletes i id) : t.Deletes i id := by
  obtain ⟨d, found, owner, idle⟩ := mine
  refine ⟨d, deleting id d found owner, owner, fun ref took => ?_⟩
  obtain ⟨svc, at_ref, done⟩ := idle ref took
  obtain ⟨svc', at', -, -, done'⟩ := h.heap ref svc at_ref
  exact ⟨svc', at', done' done⟩

theorem Leaves.refl (i : Nat) (s : Manager) : Leaves i s s :=
  ⟨fun _ _ _ at_ref _ => ⟨at_ref, .refl _⟩, fun _ _ found _ => found, fun _ mine => ⟨mine, .refl _⟩,
    fun h => ⟨h, fun _ => rfl, fun _ svc at_ref => ⟨svc, at_ref, rfl⟩, fun _ => .refl _⟩,
    fun _ svc at_ref made => ⟨svc, at_ref, made, rfl⟩⟩

theorem Leaves.trans (h : Leaves i s t) (k : Leaves i t u) : Leaves i s u := by
  refine ⟨fun ref svc wake at_ref busy => ?_, fun id d found mine => ?_, fun id mine => ?_,
    fun stage => ?_, fun ref svc at_ref made => ?_⟩
  · obtain ⟨at', stays⟩ := h.serving ref svc wake at_ref busy
    obtain ⟨at'', stays'⟩ := k.serving ref svc wake at' busy
    exact ⟨at'', stays.trans stays'⟩
  · exact k.deleting id d (h.deleting id d found mine) mine
  · obtain ⟨mine', shrinks⟩ := h.reaping id mine
    obtain ⟨mine'', shrinks'⟩ := k.reaping id mine'
    exact ⟨mine'', shrinks.trans shrinks'⟩
  · obtain ⟨stage', svcs, old, shrinks⟩ := h.recovering stage
    obtain ⟨stage'', svcs', old', shrinks'⟩ := k.recovering stage'
    refine ⟨stage'', fun id => (svcs' id).trans (svcs id), fun ref svc at_ref => ?_,
      fun id => (shrinks id).trans (shrinks' id)⟩
    obtain ⟨svc', at', id'⟩ := old' ref svc at_ref
    obtain ⟨svc'', at'', id''⟩ := old ref svc' at'
    exact ⟨svc'', at'', id''.trans id'⟩
  · obtain ⟨svc', at', made', begun'⟩ := h.creator ref svc at_ref made
    obtain ⟨svc'', at'', made'', begun''⟩ := k.creator ref svc' at' made'
    exact ⟨svc'', at'', made'', begun''.trans begun'⟩

theorem Evolves.refl (s : Manager) : Evolves s s :=
  ⟨Nat.le_refl _, fun _ h => h, fun _ h => h, fun _ => .refl s⟩

theorem Evolves.trans (h : Evolves s t) (k : Evolves t u) : Evolves s u := by
  refine ⟨Nat.le_trans h.process k.process, fun id x => k.booted id (h.booted id x),
    fun id x => k.gone id (h.gone id x), fun same => ?_⟩
  have mid : s.process = t.process := Nat.le_antisymm h.process (same ▸ k.process)
  exact (h.moves mid).trans (k.moves (mid.symm.trans same))

theorem Keeps.refl (i : Nat) (s : Manager) : Keeps i s s := ⟨Nat.le_refl _, rfl, fun _ => .refl i s⟩

theorem Keeps.trans (h : Keeps i s t) (k : Keeps i t u) : Keeps i s u := by
  refine ⟨Nat.le_trans h.process k.process, k.born.trans h.born, fun same => ?_⟩
  have mid : s.process = t.process := Nat.le_antisymm h.process (same ▸ k.process)
  exact (h.leaves mid).trans (k.leaves (mid.symm.trans same))

end Relations

structure Fits [Uuid] (A : Assume) (i : Nat) (s t : Manager) : Prop where
  sane : Sane A t
  moves : Moves s t
  leaves : ∀ j, j ≠ i → Leaves j s t
  process : t.process = s.process
  born : t.born = s.born
  booted : ∀ id ∈ s.booted, id ∈ t.booted
  gone : ∀ id ∈ s.gone, id ∈ t.gone

section Facts
variable {A : Assume} {s t : Manager} {i : Nat} {id : SandboxID} {ref ref' : Ref}
  {svc svc' : Service}

theorem Fits.refl [Uuid] (h : Sane A s) : Fits A i s s :=
  ⟨h, .refl s, fun j _ => .refl j s, rfl, rfl, fun _ x => x, fun _ x => x⟩

theorem Fits.trans [Uuid] {u : Manager} (h : Fits A i s t) (k : Fits A i t u) : Fits A i s u :=
  ⟨k.sane, h.moves.trans k.moves, fun j other => (h.leaves j other).trans (k.leaves j other),
    k.process.trans h.process, k.born.trans h.born, fun id x => k.booted id (h.booted id x),
    fun id x => k.gone id (h.gone id x)⟩

theorem active_of_busy {wake : Wake} (busy : svc.phase = .busy i wake) : svc.active = true := by
  simp [Service.active, busy]

theorem Owned.held_unique (h : Owned s) (held : s.Held id ref) (held' : s.Held id ref') :
    ref = ref' := by
  rcases held with tracked | ⟨d, found, took⟩ <;> rcases held' with tracked' | ⟨d', found', took'⟩
  · exact Option.some.inj (tracked.symm.trans tracked')
  · cases (h.tracked id ref tracked).1.symm.trans found'
  · cases (h.tracked id ref' tracked').1.symm.trans found
  · cases found.symm.trans found'
    exact Option.some.inj (took.symm.trans took')

theorem Owned.deletes_idle (h : Owned s) (mine : s.Deletes i svc.id)
    (at_ref : s.heap ref = some svc) : svc.active = false := by
  obtain ⟨d, found, -, idle⟩ := mine
  by_contra active
  rcases h.held ref svc at_ref (by simpa using active) with tracked | ⟨d', found', took⟩
  · cases (h.tracked svc.id ref tracked).1.symm.trans found
  · cases found.symm.trans found'
    obtain ⟨_, at', done⟩ := idle ref took
    cases at_ref.symm.trans at'
    exact active done

end Facts

/-- A step on one Service, by the thread that runs it or while nobody does. Only
a Service that acts changes what the host has, and only of its own sandbox. -/
structure Touch (i : Nat) (ref : Ref) (svc svc' : Service) (s t : Manager) : Prop where
  at_ref : s.heap ref = some svc
  heap : t.heap = Function.update s.heap ref (some svc')
  svcOf : ∀ id, t.svcOf id = s.svcOf id
  deleting : t.deleting = s.deleting
  stage : t.stage = s.stage
  next : t.next = s.next
  process : t.process = s.process
  gone : t.gone = s.gone
  booted : ∀ id ∈ s.booted, id ∈ t.booted
  host : ∀ id, t.remnant id = s.remnant id ∨ id = svc.id ∧ svc.active = true ∧ s.stage = .serving
  same : svc'.id = svc.id ∧ svc'.creator = svc.creator
  active : svc'.active = true → svc.active = true
  mine : ∀ j wake, svc.phase = .busy j wake → j = i
  begun : svc'.begun = svc.begun ∨ svc.creator = some i

namespace Touch
variable {A : Assume} {i : Nat} {ref : Ref} {svc svc' : Service} {s t : Manager}

theorem held (h : Touch i ref svc svc' s t) {id : SandboxID} {r : Ref} :
    t.Held id r ↔ s.Held id r := by
  simp only [Manager.Held, h.svcOf, h.deleting]

theorem cases_heap (h : Touch i ref svc svc' s t) {r : Ref} {x : Service}
    (at_r : t.heap r = some x) : r = ref ∧ x = svc' ∨ r ≠ ref ∧ s.heap r = some x := by
  rw [h.heap] at at_r
  by_cases same : r = ref
  · subst same
    rw [Function.update_self] at at_r
    exact .inl ⟨rfl, (Option.some.inj at_r).symm⟩
  · rw [Function.update_of_ne same] at at_r
    exact .inr ⟨same, at_r⟩

theorem remnant_of_held (h : Touch i ref svc svc' s t) (owned : Owned s) {id : SandboxID} {r : Ref}
    (other : r ≠ ref) (held : s.Held id r) : t.remnant id = s.remnant id := by
  rcases h.host id with same | ⟨rfl, active, -⟩
  · exact same
  · exact absurd (owned.held_unique held (owned.held ref svc h.at_ref active)) other

theorem moves (h : Touch i ref svc svc' s t) (owned : Owned s) : Moves s t := by
  refine ⟨fun x => h.stage.trans x, fun r x at_r => ?_, fun r x at_r idle held => ?_⟩
  · by_cases same : r = ref
    · subst same
      cases h.at_ref.symm.trans at_r
      refine ⟨svc', by rw [h.heap, Function.update_self], h.same.1, h.same.2, fun idle => ?_⟩
      by_contra active
      rw [h.active (by simpa using active)] at idle
      cases idle
    · exact ⟨x, by rw [h.heap, Function.update_of_ne same]; exact at_r, rfl, rfl, fun x => x⟩
  · have held := h.held.1 held
    refine ⟨held, ?_⟩
    by_cases same : r = ref
    · subst same
      cases h.at_ref.symm.trans at_r
      rcases h.host svc.id with eq | ⟨-, active, -⟩
      · exact eq ▸ .refl _
      · cases idle.symm.trans active
    · exact h.remnant_of_held owned same held ▸ .refl _

theorem leaves (h : Touch i ref svc svc' s t) (owned : Owned s) {j : Nat} (other : j ≠ i) :
    Leaves j s t := by
  have deleting (id : SandboxID) (d : Deletion)
    (found : s.deleting.get? id = some d) (_ : d.owner = j) :
      t.deleting.get? id = some d := h.deleting ▸ found
  refine ⟨fun r x wake at_r busy => ?_, deleting, fun id mine =>
    ⟨(h.moves owned).deletes deleting mine, ?_⟩, fun recovering => ?_, fun r x at_r made => ?_⟩
  · have apart : r ≠ ref := by
      rintro rfl
      cases h.at_ref.symm.trans at_r
      exact other (h.mine j wake busy)
    refine ⟨by rw [h.heap, Function.update_of_ne apart]; exact at_r, ?_⟩
    exact h.remnant_of_held owned apart (owned.held r x at_r (active_of_busy busy)) ▸ .refl _
  · rcases h.host id with eq | ⟨rfl, active, -⟩
    · exact eq ▸ .refl _
    · cases (owned.deletes_idle mine h.at_ref).symm.trans active
  · refine ⟨h.stage.trans recovering, h.svcOf, fun r x at_r => ?_, fun id => ?_⟩
    · obtain ⟨rfl, rfl⟩ | ⟨-, old⟩ := h.cases_heap at_r
      · exact ⟨svc, h.at_ref, h.same.1.symm⟩
      · exact ⟨x, old, rfl⟩
    · rcases h.host id with eq | ⟨-, -, serving⟩
      · exact eq ▸ .refl _
      · cases serving.symm.trans recovering
  · by_cases same : r = ref
    · subst same
      cases h.at_ref.symm.trans at_r
      refine ⟨svc', by rw [h.heap, Function.update_self], h.same.2.trans made, ?_⟩
      refine h.begun.resolve_right fun mine => ?_
      exact other (Option.some.inj (made.symm.trans mine))
    · exact ⟨x, by rw [h.heap, Function.update_of_ne same]; exact at_r, made, rfl⟩

theorem owned (h : Touch i ref svc svc' s t) (born : ∀ i, t.born i ≤ t.process) (owned : Owned s)
    (settled : ∀ j cmd err, svc'.replies (j, cmd) = some err → Service.exits cmd err = true →
      svc'.active = false)
    (made : ∀ j cmd, svc'.Takes j cmd → s.stage = .serving ∧
      (cmd.isCreate = true → svc'.creator = some j ∧ svc'.begun = some cmd ∧
        (svc'.phase = .offered j cmd → svc'.vm = none)))
    (used : svc'.vm ≠ none → svc'.creator ≠ none → svc'.begun ≠ none)
    (booted : ∀ j input, svc'.replies (j, .create input) = some none → svc'.id ∈ t.booted) :
    Owned t where
  tracked id r x := by
    obtain ⟨free, y, at_r, same⟩ := owned.tracked id r ((h.svcOf id).symm.trans x)
    refine ⟨h.deleting ▸ free, ?_⟩
    obtain ⟨y', at', id', -⟩ := (h.moves owned).heap r y at_r
    exact ⟨y', at', id'.trans same⟩
  held r x at_r active := by
    obtain ⟨rfl, rfl⟩ | ⟨-, old⟩ := h.cases_heap at_r
    · exact h.held.2 (h.same.1 ▸ owned.held r svc h.at_ref (h.active active))
    · exact h.held.2 (owned.held r x old active)
  settled r x j cmd err at_r := by
    obtain ⟨rfl, rfl⟩ | ⟨-, old⟩ := h.cases_heap at_r
    · exact settled j cmd err
    · exact owned.settled r x j cmd err old
  made r x j cmd at_r takes := by
    rw [h.stage]
    obtain ⟨rfl, rfl⟩ | ⟨-, old⟩ := h.cases_heap at_r
    · exact made j cmd takes
    · exact owned.made r x j cmd old takes
  used r x at_r := by
    obtain ⟨rfl, rfl⟩ | ⟨-, old⟩ := h.cases_heap at_r
    · exact used
    · exact owned.used r x old
  booted r x j input at_r replied := by
    obtain ⟨rfl, rfl⟩ | ⟨-, old⟩ := h.cases_heap at_r
    · exact booted j input replied
    · exact h.booted _ (owned.booted r x j input old replied)
  bound r x at_r := by
    rw [h.next]
    obtain ⟨rfl, -⟩ | ⟨-, old⟩ := h.cases_heap at_r
    · exact owned.bound r svc h.at_ref
    · exact owned.bound r x old
  early stage id := by
    rw [h.deleting]
    exact owned.early (h.stage ▸ stage) id
  fresh stage := by
    have none := (owned.fresh (h.stage.symm.trans stage)).1 ref
    cases none.symm.trans h.at_ref
  born := born

theorem spent (h : Touch i ref svc svc' s t) (spent : Spent s) : Spent t := by
  intro id mem r x at_r same active
  rw [h.gone] at mem
  obtain ⟨rfl, rfl⟩ | ⟨-, old⟩ := h.cases_heap at_r
  · exact h.same.2.trans (spent id mem r svc h.at_ref (h.same.1.symm.trans same) (h.active active))
  · exact spent id mem r x old same active

theorem clean [Uuid] (h : Touch i ref svc svc' s t) (owned : Owned s) (clean : Clean s)
    (marked : (t.remnant svc.id).Marked)
    (account : s.Held svc.id ref → Accounts svc'.vm (t.remnant svc.id))
    (failed : ∀ j input err, svc'.replies (j, .create input) = some (some err) → s.Held svc.id ref →
      t.Bare svc.id)
    (removed : ∀ j err, svc'.replies (j, .remove) = some err → s.Held svc.id ref → t.Bare svc.id)
    (taken : ∀ j cmd, svc'.creator = some j → svc'.begun = some cmd → cmd.isCreate = true →
      svc'.Takes j cmd ∨ ∃ err, svc'.replies (j, cmd) = some err) : Clean t := by
  -- what another Service is held for is bare as it was
  have bare {r : Ref} {id : SandboxID} (other : r ≠ ref) (held : t.Held id r)
      (was : s.Held id r → s.Bare id) : t.Bare id :=
    (h.remnant_of_held owned other (h.held.1 held)).trans (was (h.held.1 held))
  refine ⟨fun id => ?_, fun r x at_r held => ?_, fun r x j input err at_r replied held => ?_,
    fun r x j err at_r replied held => ?_, fun r x j cmd at_r => ?_,
    fun stage id valid free free' => ?_⟩
  · rcases h.host id with same | ⟨rfl, -⟩
    · rw [same]
      exact clean.marked id
    · exact marked
  · obtain ⟨rfl, rfl⟩ | ⟨other, old⟩ := h.cases_heap at_r
    · rw [h.same.1] at held ⊢
      exact account (h.held.1 held)
    · rw [h.remnant_of_held owned other (h.held.1 held)]
      exact clean.account r x old (h.held.1 held)
  · obtain ⟨rfl, rfl⟩ | ⟨other, old⟩ := h.cases_heap at_r
    · rw [h.same.1] at held ⊢
      exact failed j input err replied (h.held.1 held)
    · exact bare other held fun held => clean.failed r x j input err old replied held
  · obtain ⟨rfl, rfl⟩ | ⟨other, old⟩ := h.cases_heap at_r
    · rw [h.same.1] at held ⊢
      exact removed j err replied (h.held.1 held)
    · exact bare other held fun held => clean.removed r x j err old replied held
  · obtain ⟨rfl, rfl⟩ | ⟨-, old⟩ := h.cases_heap at_r
    · exact taken j cmd
    · exact clean.taken r x j cmd old
  · rw [h.stage] at stage
    rw [h.svcOf] at free
    rw [h.deleting] at free'
    rcases h.host id with same | ⟨rfl, active, -⟩
    · exact same.trans (clean.untracked stage id valid free free')
    · rcases owned.held ref svc h.at_ref active with tracked | ⟨d, found, -⟩
      · cases free.symm.trans tracked
      · cases free'.symm.trans found

end Touch

/-- A step on the maps alone, while the worker serves. -/
structure Remap (s t : Manager) : Prop where
  heap : t.heap = s.heap
  host : t.host = s.host
  next : t.next = s.next
  process : t.process = s.process
  born : t.born = s.born
  booted : t.booted = s.booted
  gone : ∀ id ∈ s.gone, id ∈ t.gone
  serving : s.stage = .serving ∧ t.stage = .serving
  held : ∀ id ref, t.Held id ref → s.Held id ref

namespace Remap
variable {A : Assume} {i : Nat} {s t : Manager}

theorem remnant (h : Remap s t) (id : SandboxID) : t.remnant id = s.remnant id := by
  unfold Manager.remnant
  rw [h.host]

theorem moves (h : Remap s t) : Moves s t := by
  refine ⟨fun _ => h.serving.2, fun ref svc at_ref => ?_, fun ref svc _ _ held => ?_⟩
  · exact ⟨svc, h.heap ▸ at_ref, rfl, rfl, fun x => x⟩
  · exact ⟨h.held _ _ held, h.remnant _ ▸ .refl _⟩

theorem leaves (h : Remap s t) {j : Nat} (deleting : ∀ id d, s.deleting.get? id = some d →
    d.owner = j → t.deleting.get? id = some d) : Leaves j s t := by
  refine ⟨fun ref svc wake at_ref _ => ⟨h.heap ▸ at_ref, h.remnant _ ▸ .refl _⟩, deleting,
    fun id mine => ⟨h.moves.deletes deleting mine, h.remnant id ▸ .refl _⟩, fun recovering => ?_,
    fun ref svc at_ref made => ⟨svc, h.heap ▸ at_ref, made, rfl⟩⟩
  cases h.serving.1.symm.trans recovering

theorem owned (h : Remap s t) (owned : Owned s)
    (tracked : ∀ id ref, t.svcOf id = some ref → s.svcOf id = some ref ∧ t.deleting.get? id = none)
    (held : ∀ ref svc, s.heap ref = some svc → svc.active = true →
      t.Held svc.id ref) : Owned t where
  tracked id ref x := by
    obtain ⟨was, free⟩ := tracked id ref x
    exact ⟨free, h.heap ▸ (owned.tracked id ref was).2⟩
  held ref svc at_ref := held ref svc (h.heap ▸ at_ref)
  settled ref svc j cmd err at_ref := owned.settled ref svc j cmd err (h.heap ▸ at_ref)
  made ref svc j cmd at_ref takes :=
    ⟨h.serving.2, (owned.made ref svc j cmd (h.heap ▸ at_ref) takes).2⟩
  used ref svc at_ref := owned.used ref svc (h.heap ▸ at_ref)
  booted ref svc j input at_ref := h.booted ▸ owned.booted ref svc j input (h.heap ▸ at_ref)
  bound ref svc at_ref := h.next ▸ owned.bound ref svc (h.heap ▸ at_ref)
  early stage := absurd h.serving.2 stage
  fresh stage := nomatch h.serving.2.symm.trans stage
  born i := by rw [h.born, h.process]; exact owned.born i

theorem clean [Uuid] (h : Remap s t) (clean : Clean s)
    (untracked : ∀ id, Host.isSandboxID id = true → t.svcOf id = none → t.deleting.get? id = none →
      s.Bare id) : Clean t := by
  have bare {id : SandboxID} (was : s.Bare id) : t.Bare id := (h.remnant id).trans was
  refine ⟨fun id => h.remnant id ▸ clean.marked id, fun ref svc at_ref held => ?_,
    fun ref svc j input err at_ref replied held => ?_, fun ref svc j err at_ref replied held => ?_,
    fun ref svc j cmd at_ref => clean.taken ref svc j cmd (h.heap ▸ at_ref),
    fun _ id valid free free' => bare (untracked id valid free free')⟩
  · rw [h.remnant]
    exact clean.account ref svc (h.heap ▸ at_ref) (h.held _ _ held)
  · exact bare (clean.failed ref svc j input err (h.heap ▸ at_ref) replied (h.held _ _ held))
  · exact bare (clean.removed ref svc j err (h.heap ▸ at_ref) replied (h.held _ _ held))

theorem fits [Uuid] (h : Remap s t) (sane : Sane A s) (spent : A.ordered → Spent t)
    (deleting : ∀ j, j ≠ i → ∀ id d, s.deleting.get? id = some d → d.owner = j →
      t.deleting.get? id = some d)
    (tracked : ∀ id ref, t.svcOf id = some ref → s.svcOf id = some ref ∧ t.deleting.get? id = none)
    (held : ∀ ref svc, s.heap ref = some svc → svc.active = true → t.Held svc.id ref)
    (untracked : A.clean → ∀ id, Host.isSandboxID id = true → t.svcOf id = none →
      t.deleting.get? id = none → s.Bare id) : Fits A i s t where
  sane := ⟨h.owned sane.owned tracked held, fun tidy => h.clean (sane.clean tidy) (untracked tidy),
    spent⟩
  moves := h.moves
  leaves j other := h.leaves (deleting j other)
  process := h.process
  born := h.born
  booted _ mem := h.booted ▸ mem
  gone := h.gone

end Remap

theorem Spent.remap {s t : Manager} (h : Spent s) (heap : t.heap = s.heap)
    (gone : t.gone = s.gone) : Spent t := by
  intro id mem ref svc at_ref
  exact h id (gone ▸ mem) ref svc (heap ▸ at_ref)

/-- What the specification sees of a Manager is unchanged but for the host, where
nothing is added. -/
structure Same (s t : Manager) : Prop where
  svcOf : ∀ id, t.svcOf id = s.svcOf id
  deleting : t.deleting = s.deleting
  heap : t.heap = s.heap
  stage : t.stage = s.stage
  next : t.next = s.next
  process : t.process = s.process
  born : t.born = s.born
  booted : t.booted = s.booted
  gone : t.gone = s.gone
  shrinks : ∀ id, Shrinks (s.remnant id) (t.remnant id)

namespace Same
variable {A : Assume} {i : Nat} {s t : Manager}

theorem held (h : Same s t) {id : SandboxID} {ref : Ref} : t.Held id ref ↔ s.Held id ref := by
  simp only [Manager.Held, h.svcOf, h.deleting]

theorem owned (h : Same s t) (owned : Owned s) : Owned t where
  tracked id ref x := by
    rw [h.deleting, h.heap]
    exact owned.tracked id ref ((h.svcOf id).symm.trans x)
  held ref svc at_ref active := h.held.2 (owned.held ref svc (h.heap ▸ at_ref) active)
  settled ref svc j cmd err at_ref := owned.settled ref svc j cmd err (h.heap ▸ at_ref)
  made ref svc j cmd at_ref := h.stage ▸ owned.made ref svc j cmd (h.heap ▸ at_ref)
  used ref svc at_ref := owned.used ref svc (h.heap ▸ at_ref)
  booted ref svc j input at_ref := h.booted ▸ owned.booted ref svc j input (h.heap ▸ at_ref)
  bound ref svc at_ref := h.next ▸ owned.bound ref svc (h.heap ▸ at_ref)
  early stage := h.deleting ▸ owned.early (h.stage ▸ stage)
  fresh stage := by
    obtain ⟨none, free⟩ := owned.fresh (h.stage ▸ stage)
    exact ⟨h.heap ▸ none, fun id => (h.svcOf id).trans (free id)⟩
  born i := by rw [h.born, h.process]; exact owned.born i

theorem clean [Uuid] (h : Same s t) (clean : Clean s)
    (marked : ∀ id, (t.remnant id).Marked) : Clean t where
  marked := marked
  account ref svc at_ref held :=
    (h.shrinks _).accounts (clean.account ref svc (h.heap ▸ at_ref) (h.held.1 held))
  failed ref svc j input err at_ref replied held :=
    (h.shrinks _).bare (clean.failed ref svc j input err (h.heap ▸ at_ref) replied (h.held.1 held))
  removed ref svc j err at_ref replied held :=
    (h.shrinks _).bare (clean.removed ref svc j err (h.heap ▸ at_ref) replied (h.held.1 held))
  taken ref svc j cmd at_ref := clean.taken ref svc j cmd (h.heap ▸ at_ref)
  untracked stage id valid free free' := (h.shrinks id).bare
    (clean.untracked (h.stage ▸ stage) id valid ((h.svcOf id).symm.trans free) (h.deleting ▸ free'))

theorem moves (h : Same s t) : Moves s t := by
  refine ⟨fun x => h.stage.trans x, fun ref svc at_ref => ?_, fun ref svc _ _ held => ?_⟩
  · exact ⟨svc, h.heap ▸ at_ref, rfl, rfl, fun x => x⟩
  · exact ⟨h.held.1 held, h.shrinks _⟩

theorem fits [Uuid] (h : Same s t) (sane : Sane A s)
    (marked : A.clean → ∀ id, (t.remnant id).Marked)
    (apart : ∀ j ref svc wake, j ≠ i → s.heap ref = some svc → svc.phase = .busy j wake →
      Stays (s.remnant svc.id) (t.remnant svc.id)) : Fits A i s t where
  sane := ⟨h.owned sane.owned, fun tidy => h.clean (sane.clean tidy) (marked tidy),
    fun tidy => (sane.spent tidy).remap h.heap h.gone⟩
  moves := h.moves
  leaves j other := by
    refine ⟨fun ref svc wake at_ref busy => ?_, fun id d found _ => h.deleting ▸ found,
      fun id mine => ⟨h.moves.deletes (fun id d found _ => h.deleting ▸ found) mine, h.shrinks id⟩,
      fun recovering => ?_, fun ref svc at_ref made => ⟨svc, h.heap ▸ at_ref, made, rfl⟩⟩
    · exact ⟨h.heap ▸ at_ref, apart j ref svc wake other at_ref busy⟩
    · exact ⟨h.stage.trans recovering, h.svcOf, fun ref svc at_ref => ⟨svc, h.heap ▸ at_ref, rfl⟩,
        h.shrinks⟩
  process := h.process
  born := h.born
  booted _ mem := h.booted ▸ mem
  gone _ mem := h.gone ▸ mem

theorem fits_of_host [Uuid] (h : Same s t) (sane : Sane A s) (host : t.host = s.host) :
    Fits A i s t := by
  have remnant (id : SandboxID) : t.remnant id = s.remnant id := by
    unfold Manager.remnant
    rw [host]
  refine h.fits sane (fun tidy id => remnant id ▸ (sane.clean tidy).marked id)
    fun _ _ _ _ _ _ _ => remnant _ ▸ .refl _

end Same

end Fire2.SandboxMgr
