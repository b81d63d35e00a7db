import Fire2.SandboxMgr
import Fire2.VolumeRollback

/-! What CreateVolume and RemoveVolume leave of a sandbox, as the Manager's model
has it, derived from their programs over the pool. A remnant sees two things of
the pool: the device of the sandbox, and whether a thin ID that was made for it is
allocated while the device does not map it. RemoveVolume finds the thin ID in the
table of the device, so without the device it removes nothing and succeeds. -/

namespace Fire2.Thin
open Interleaving Host

/-- Of the thin IDs that were made for the sandbox one is allocated and not mapped
by its device. -/
def Mapper.leaks (made : List Nat) (id : SandboxID) (s : Mapper) : Bool :=
  made.any fun n => n ∈ s.thin && !s.maps id n

def Mapper.remnant (made : List Nat) (id : SandboxID) (r : SandboxMgr.Remnant) (s : Mapper) :
    SandboxMgr.Remnant :=
  { r with device := (s.device? id).isSome, leaked := s.leaks made id }

/-- The kernel answers ENXIO to a table status call for want of a device only. -/
def truthful : Made → Bool
  | ⟨.tableStatus _, e, _⟩ => e.fails.all fun failure => failure.1 ≠ .enxio
  | _ => true

section Removing
variable {p : Pool} {i : Nat} {id : SandboxID} {name : String} {s t : Kernel} {calls : List Made}
  {made : List Nat} {r : Except Fault Unit} {n : Nat}

theorem Mapper.leaks_iff {s : Mapper} :
    s.leaks made id = true ↔ ∃ n ∈ made, n ∈ s.thin ∧ s.maps id n = false := by
  simp [Mapper.leaks]

theorem tableStatus_enxio {e : Env} {n : Errno}
    (ran : exec p i (.tableStatus name) e s = some (.error n, t))
    (known : truthful ⟨.tableStatus name, e, .error n⟩ = true) (is : n = .enxio) :
    s.devices.get? name = none := by
  subst is
  have answer : (ioctl e s (tableStatus name e s, s)).1 = .error .enxio :=
    congrArg Prod.fst (Option.some.inj ran)
  unfold ioctl at answer
  split at answer
  · dsimp only [tableStatus] at answer
    split at answer
    · assumption
    · cases answer
  · rename_i failed
    cases answer
    simp [truthful, failed] at known

theorem table_found {left : Nat} {r : Except Fault (List Target)}
    (h : (table name left).Ran (exec p) i s calls r t)
    (known : ∀ call ∈ calls, truthful call = true) :
    t = s ∧ (∀ targets, r = .ok targets → ∃ d major minor, s.devices.get? name = some d ∧
      targets = (d.live.getD []).map (printLine major minor)) ∧
    ∀ err, r = .error err → err.is .enxio = true → s.devices.get? name = none := by
  induction left generalizing calls with
  | zero =>
    obtain ⟨rfl, rfl, rfl⟩ := h.of_ret
    exact ⟨rfl, fun _ eq => (by cases eq), fun err eq is => by cases eq; cases is⟩
  | succ left ih =>
    obtain ⟨before, after, b, v, rfl, first, rest⟩ := Prog.Ran.of_bind h
    obtain ⟨err, refused, rfl, rfl, rfl⟩ | ⟨-, a, asked, rfl⟩ := request_ran first
    · obtain ⟨rfl, rfl, rfl⟩ := rest.of_ret
      refine ⟨rfl, fun _ eq => (by cases eq), fun err' eq is => ?_⟩
      cases eq
      unfold newRequest at refused
      split at refused
      · cases refused
        cases is
      · cases refused
    obtain ⟨e, rfl, ran⟩ := call_ran asked
    have same : v = s := (ioctl_state (r := (tableStatus name e s, s)) ran).elim id id
    subst same
    obtain n | found := a
    · obtain ⟨rfl, rfl, rfl⟩ := rest.of_ret
      refine ⟨rfl, fun _ eq => (by cases eq), fun err eq is => ?_⟩
      cases eq
      exact tableStatus_enxio ran (known _ (List.mem_cons_self ..)) (of_decide_eq_true is)
    · have read : tableStatus name e v = .ok found :=
        congrArg Prod.fst (ioctl_ok (r := (tableStatus name e v, v)) ran)
      unfold tableStatus at read
      split at read
      · cases read
      rename_i d there
      obtain _ | targets := found
      · exact ih rest fun call mem => known call (List.mem_append_right _ mem)
      · obtain ⟨rfl, rfl, rfl⟩ := rest.of_ret
        refine ⟨rfl, fun targets' eq => ?_, fun _ eq => (by cases eq)⟩
        cases eq
        rw [Except.ok.injEq, Option.ite_none_left_eq_some] at read
        exact ⟨d, e.major, e.minor, there, (Option.some.inj read.2).symm⟩

theorem devRemove_leaves {e : Env} {a : (Call.devRemove name).Answer}
    (ran : exec p i (.devRemove name) e s = some (a, t)) :
    t.devices.get? name = s.devices.get? name ∨ t.devices.get? name = none := by
  obtain rfl | after := ioctl_state ran
  · exact .inl rfl
  rw [after]
  unfold devRemove
  split
  · exact .inl rfl
  · split
    · exact .inl rfl
    · exact .inr (by simp)

def Unmade (name : String) (s t : Kernel) (r : Except Fault Unit) : Prop :=
  (t.devices.get? name = s.devices.get? name ∨ t.devices.get? name = none) ∧
    (r = .ok () → t.devices.get? name = none)

theorem remove_unmade {what : String}
    (h : (request name what (call (.devRemove name))).Ran (exec p) i s calls r t) :
    Unmade name s t r := by
  obtain ⟨err, -, -, rfl, rfl⟩ | ⟨-, a, asked, rfl⟩ := request_ran h
  · exact ⟨.inl rfl, nofun⟩
  obtain ⟨e, -, ran⟩ := call_ran asked
  refine ⟨devRemove_leaves ran, fun done => ?_⟩
  obtain _ | _ := a
  · cases done
  · exact devRemove_ok ran rfl

theorem removeDevice_unmade {left : Nat}
    (h : (removeDevice name left).Ran (exec p) i s calls r t) : Unmade name s t r := by
  induction left generalizing s calls with
  | zero => exact remove_unmade h
  | succ left ih =>
    obtain ⟨before, after, b, v, rfl, first, rest⟩ := Prog.Ran.of_bind h
    have once := remove_unmade first
    obtain err | _ := b
    · dsimp only at rest
      split at rest
      · obtain ⟨left', gone'⟩ := ih rest
        exact ⟨left'.elim (fun same => same ▸ once.1) .inr, gone'⟩
      · obtain ⟨-, rfl, rfl⟩ := rest.of_ret
        exact ⟨once.1, nofun⟩
    · obtain ⟨-, rfl, rfl⟩ := rest.of_ret
      exact once

theorem deleteThin_leaves
    (h : (deleteThin p n).Ran (exec p) i s calls r t) :
    t.devices = s.devices ∧ (t.thin = s.thin ∨ t.thin = s.thin.filter (· ≠ n)) ∧
      (r = .ok () → t.thin = s.thin.filter (· ≠ n)) := by
  obtain ⟨err, -, -, rfl, rfl⟩ | ⟨sendable, a, asked, rfl⟩ := request_ran h
  · exact ⟨rfl, .inl rfl, nofun⟩
  obtain ⟨e, -, ran⟩ := call_ran asked
  have after : t.devices = s.devices ∧ (t.thin = s.thin ∨ t.thin = s.thin.filter (· ≠ n)) := by
    obtain rfl | after := ioctl_state ran
    · exact ⟨rfl, .inl rfl⟩
    rw [after]
    unfold delete
    split
    · exact ⟨rfl, .inl rfl⟩
    · split
      · exact ⟨rfl, .inr rfl⟩
      · exact ⟨rfl, .inl rfl⟩
  refine ⟨after.1, after.2, fun done => ?_⟩
  obtain ⟨-, freed, -⟩ | ⟨⟨err, failed⟩, -⟩ := deleteThin_ran sendable h
  · exact freed
  · cases done.symm.trans failed

theorem sandboxThinID_only {major minor n : Nat} {d : Device}
    (h : sandboxThinID p name ((d.live.getD []).map (printLine major minor)) = .ok n) :
    ∃ l, d.live = some [l] ∧ l.thinID? = some n := by
  obtain ⟨⟨l, mem, mapped⟩, -⟩ := sandboxThinID_maps h
  have single : ∃ x, d.live.getD [] = [x] := by
    unfold sandboxThinID at h
    dsimp only at h
    split at h
    · rename_i one
      obtain ⟨x, eq, -⟩ := List.map_eq_singleton_iff.1 one
      exact ⟨x, eq⟩
    · cases h
  obtain ⟨x, eq⟩ := single
  rw [eq, List.mem_singleton] at mem
  subst mem
  refine ⟨l, ?_, mapped⟩
  cases live : d.live with
  | none => simp [live] at eq
  | some lines => simpa [live] using eq

/-- How a removal of a volume can end: with the pool as it was, which is a success
where there is no device, or without the device, the thin ID freed or not. -/
theorem removeVolume_leaves {a : Except Fault Unit}
    (h : (removeVolume p id).Ran (exec p) i s calls a t)
    (known : ∀ call ∈ calls, truthful call = true) :
    (t.device? id = s.device? id ∧ t.thin = s.thin ∧ (a = .ok () → s.device? id = none)) ∨
    ∃ d l n, s.device? id = some d ∧ d.live = some [l] ∧ l.thinID? = some n ∧
      t.device? id = none ∧ (t.thin = s.thin ∨ t.thin = s.thin.filter (· ≠ n)) ∧
      (a = .ok () → t.thin = s.thin.filter (· ≠ n)) := by
  unfold removeVolume at h
  split at h
  · obtain ⟨-, rfl, rfl⟩ := h.of_ret
    exact .inl ⟨rfl, rfl, nofun⟩
  rename_i name valid
  obtain rfl := volumeName_eq valid
  obtain ⟨_, after, opened, v, rfl, asked, rest⟩ := Prog.Ran.of_bind h
  obtain ⟨e, rfl, ran⟩ := call_ran asked
  cases ran
  split at rest
  · obtain ⟨-, rfl, rfl⟩ := rest.of_ret
    exact .inl ⟨rfl, rfl, nofun⟩
  · obtain ⟨reading, after, table, v, rfl, read, rest⟩ := Prog.Ran.of_bind rest
    obtain ⟨rfl, found, absent⟩ := table_found read fun call mem => known call (by simp [mem])
    obtain err | targets := table
    · dsimp only at rest
      split at rest
      · rename_i is
        obtain ⟨rfl, -⟩ := removeNode_ran rest
        exact .inl ⟨rfl, rfl, fun _ => absent err rfl is⟩
      · obtain ⟨-, rfl, rfl⟩ := rest.of_ret
        exact .inl ⟨rfl, rfl, nofun⟩
    obtain ⟨d, major, minor, there, rfl⟩ := found targets rfl
    dsimp only at rest
    split at rest
    · obtain ⟨-, rfl, rfl⟩ := rest.of_ret
      exact .inl ⟨rfl, rfl, nofun⟩
    rename_i n mine
    obtain ⟨l, live, mapped⟩ := sandboxThinID_only mine
    obtain ⟨removing, after, removed, w, rfl, remove, rest⟩ := Prog.Ran.of_bind rest
    obtain ⟨left, gone⟩ := removeDevice_unmade remove
    have thin := (beside_ran (removeDevice_asks rfl) remove).thin
    obtain err | _ := removed
    · obtain ⟨-, rfl, rfl⟩ := rest.of_ret
      obtain same | gone := left
      · exact .inl ⟨same, thin, nofun⟩
      · exact .inr ⟨d, l, n, there, live, mapped, gone, .inl thin, nofun⟩
    obtain ⟨unlinking, deleting, unlinked, x, rfl, unlink, rest⟩ := Prog.Ran.of_bind rest
    obtain ⟨rfl, -⟩ := removeNode_ran unlink
    obtain err | _ := unlinked
    · obtain ⟨-, rfl, rfl⟩ := rest.of_ret
      exact .inr ⟨d, l, n, there, live, mapped, gone rfl, .inl thin, nofun⟩
    obtain ⟨devices, freed, done⟩ := deleteThin_leaves rest
    rw [thin] at freed done
    exact .inr ⟨d, l, n, there, live, mapped,
      (congrArg (Table.get? · _) devices).trans (gone rfl), freed, done⟩

theorem Device.maps_live {d : Device} {l : Line} (idle : d.loaded = none)
    (live : d.live = some [l]) (mapped : l.thinID? = some n) (m : Nat) :
    d.maps m = decide (m = n) := by
  simp [Device.maps, Device.lines, idle, live, mapped, eq_comm]

/-- A removal of a volume is the one of the remnant. -/
theorem removeVolume_simulates {a : Except Fault Unit} {r : SandboxMgr.Remnant}
    (ran : (removeVolume p id).Ran (exec p) i s calls a t)
    (known : ∀ call ∈ calls, truthful call = true)
    (idle : ∀ d, s.device? id = some d → d.loaded = none) :
    ∃ e : SandboxMgr.Env, (a = .ok () ↔ e.fault = .none) ∧
      t.remnant made id r = (s.remnant made id r).removeVolume e := by
  obtain ⟨device, thin, done⟩ | ⟨d, l, n, there, live, mapped, gone, thin, done⟩ :=
    removeVolume_leaves ran known
  · have same : t.remnant made id r = s.remnant made id r := by
      simp only [Mapper.remnant, Mapper.leaks, Mapper.maps, device, thin]
    rw [same]
    obtain err | _ := a
    · exact ⟨{ fault := .err "" }, by simp, by simp [SandboxMgr.Remnant.removeVolume,
        SandboxMgr.Env.effective]⟩
    · refine ⟨{}, by simp, ?_⟩
      simp [SandboxMgr.Remnant.removeVolume, Mapper.remnant, done rfl]
  · have unmapped (m : Nat) : t.maps id m = false := by simp [Mapper.maps, gone]
    have only (m : Nat) : s.maps id m = decide (m = n) := by
      simp only [Mapper.maps, there, Option.any_some]
      exact Device.maps_live (idle d there) live mapped m
    -- a thin ID that was left behind before still is, since it is not the one of the device
    have stays (h : s.leaks made id = true) : t.leaks made id = true := by
      obtain ⟨m, mem, allocated, other⟩ := Mapper.leaks_iff.1 h
      rw [only, decide_eq_false_iff_not] at other
      refine Mapper.leaks_iff.2 ⟨m, mem, ?_, unmapped m⟩
      obtain thin | thin := thin <;> simp [thin, allocated, other]
    obtain err | _ := a
    · refine ⟨{ fault := .err "", took := true, leaks := t.leaks made id }, by simp, ?_⟩
      simpa [Mapper.remnant, SandboxMgr.Remnant.removeVolume, SandboxMgr.Env.effective, gone,
        there] using stays
    · refine ⟨{}, by simp, ?_⟩
      have same : t.leaks made id = s.leaks made id := by
        simp [Mapper.leaks, unmapped, only, done rfl]
      simp [Mapper.remnant, SandboxMgr.Remnant.removeVolume, SandboxMgr.Env.effective, gone, same]

end Removing

section Creating
variable {p : Pool} {i : Nat} {id : SandboxID} {name : String} {n : Nat} {s t v : Kernel}
  {calls : List Made}

def Only (name : String) (n : Nat) (s : Kernel) : Prop :=
  ∀ d, s.devices.get? name = some d → ∀ m, d.maps m = true → m = n

theorem Device.maps_iff {d : Device} {m : Nat} :
    d.maps m = true ↔ ∃ l ∈ d.loaded.getD [] ++ d.live.getD [], l.thinID? = some m := by
  simp only [Device.maps, Device.lines, List.any_eq_true, decide_eq_true_eq]

theorem ioctl_only {α : Type} {e : Env} {r : Except Errno α × Kernel} {a : Except Errno α}
    (only : Only name n s) (h : Only name n r.2) (ran : some (ioctl e s r) = some (a, t)) :
    Only name n t := by
  obtain rfl | rfl := ioctl_state ran
  · exact only
  · exact h

theorem set_only {d : Device} (h : ∀ m, d.maps m = true → m = n) :
    Only name n { s with devices := s.devices.set name d } := by
  intro d' found
  obtain rfl : d = d' := by simpa using found
  exact h

theorem exec_only {c : Call} {e : Env} {a : c.Answer} {sectors : Nat} {dev : String}
    (which : c = .devCreate name ∨ c = .devResume name ∨ c = .devRemove name ∨
      c = .tableLoad name [⟨0, sectors, "thin", dev ++ " " ++ toString n⟩])
    (ran : exec p i c e s = some (a, t)) (only : Only name n s) : Only name n t := by
  obtain rfl | rfl | rfl | rfl := which
  · refine ioctl_only only ?_ ran
    unfold devCreate
    split
    · exact only
    · exact set_only fun m mapped => by simp [Device.maps_iff] at mapped
  · refine ioctl_only only ?_ ran
    unfold devResume
    split
    · exact only
    · rename_i d there
      refine set_only fun m mapped => only d there m (Device.maps_iff.2 ?_)
      obtain ⟨l, mem, mapped⟩ := Device.maps_iff.1 mapped
      refine ⟨l, ?_, mapped⟩
      cases loaded : d.loaded with
      | none => simpa [loaded] using mem
      | some lines => exact List.mem_append_left _ (by simpa [loaded] using mem)
  · intro d found
    obtain same | gone := devRemove_leaves ran
    · exact only d (same ▸ found)
    · cases gone.symm.trans found
  · refine ioctl_only only ?_ ran
    unfold tableLoad
    split
    · exact only
    · exact only
    · rename_i d lines there parsed
      split
      · refine set_only fun m mapped => ?_
        obtain ⟨l, mem, carried⟩ := Device.maps_iff.1 mapped
        obtain mem | mem := List.mem_append.1 mem
        · simp only [List.mapM_cons, List.mapM_nil, Option.bind_eq_bind, Option.pure_def,
            Option.bind_some, Option.bind_eq_some_iff, Option.some.injEq] at parsed
          obtain ⟨l', line, rfl⟩ := parsed
          obtain rfl : l = l' := by simpa using mem
          exact Option.some.inj (carried.symm.trans (parseTarget_thinID line))
        · exact only d there m (Device.maps_iff.2 ⟨l, List.mem_append_right _ mem, carried⟩)
      · exact only

theorem createDevice_only {sectors : Nat} {dev : String} {r : Except Fault Nat}
    (h : (createDevice name [⟨0, sectors, "thin", dev ++ " " ++ toString n⟩]).Ran (exec p) i s
      calls r t) (absent : s.devices.get? name = none) : Only name n t := by
  have asks : (createDevice name [⟨0, sectors, "thin", dev ++ " " ++ toString n⟩]).Asks
      (fun _ _ => True) fun c => c = .devCreate name ∨ c = .devResume name ∨
        c = .devRemove name ∨ c = .tableLoad name
        [⟨0, sectors, "thin", dev ++ " " ++ toString n⟩] :=
    createDevice_asks (by simp) (by simp) (by simp) (by simp)
  refine (asks.ran (R := fun s t => Only name n s → Only name n t) (fun _ only => only)
    (fun _ _ _ h h' only => h' (h only))
    (fun c e s r t which ran => ⟨trivial, exec_only which ran⟩) h).1 fun d found => ?_
  cases absent.symm.trans found

structure Keeps (id : SandboxID) (s t : Kernel) : Prop where
  device : s.device? id ≠ none → t.device? id ≠ none
  thin : ∀ m ∈ s.thin, s.maps id m = false → m ∈ t.thin ∧ t.maps id m = false

theorem Snapped.keeps (made : Snapped p n s v)
    (thin : t.thin = v.thin ∨ t.thin = v.thin.filter (· ≠ n))
    (device : t.device? id = s.device? id ∨
      s.device? id = none ∧ Only (volumePrefix ++ id) n t) : Keeps id s t where
  device there := by
    obtain same | ⟨absent, -⟩ := device
    · rwa [same]
    · exact absurd absent there
  thin m mem unmapped := by
    have other : m ≠ n := fun eq => made.fresh (eq ▸ mem)
    refine ⟨?_, ?_⟩
    · obtain thin | thin := thin <;> simp [thin, made.thin, mem, other]
    · obtain same | ⟨-, only⟩ := device
      · rwa [Mapper.maps, same]
      · cases found : t.device? id with
        | none => simp [Mapper.maps, found]
        | some d => simpa [Mapper.maps, found] using fun maps => other (only d found m maps)

theorem Carries.maps {d : Device} (h : Carries n d) (m : Nat) : d.maps m = decide (m = n) := by
  obtain ⟨idle, l, live, mapped⟩ := h
  exact Device.maps_live idle live mapped m

/-- How a create of a volume can end: with one more thin ID and the device that
maps it, or with nothing of the sandbox less than before. -/
theorem createVolume_leaves {a : Except Fault String} (range : p.firstSandboxID ≤ maxThinID)
    (ran : (createVolume p id).Ran (exec p) i s calls a t)
    (real : ∀ call ∈ calls, faithful call = true) (known : ∀ call ∈ calls, truthful call = true) :
    (∃ path n d, a = .ok path ∧ s.device? id = none ∧ n ∉ s.thin ∧ t.thin = n :: s.thin ∧
      t.device? id = some d ∧ Carries n d) ∨ (∃ err, a = .error err) ∧ Keeps id s t := by
  obtain ⟨failed, rfl⟩ | ⟨name, sectors, n, v, opening, snapping, rest, named, rfl, -, -, made,
    ran⟩ := createVolume_ran range ran real
  · exact .inr ⟨failed, fun there => there, fun m mem unmapped => ⟨mem, unmapped⟩⟩
  obtain rfl := volumeName_eq named
  have same : v.device? id = s.device? id := congrArg (Table.get? · _) made.devices
  cases attach_ran ran fun call mem => real call (by simp [mem]) with
  | done path _ mapped =>
    obtain ⟨-, absent, ⟨d, found, carries⟩, beside⟩ := mapped
    exact .inl ⟨path, n, d, rfl, same.symm.trans absent, made.fresh, beside.thin.trans made.thin,
      found, carries⟩
  | unlinked err creating removing w mapped _ removed remove =>
    obtain ⟨-, absent, ⟨d, found, carries⟩, beside⟩ := mapped
    refine .inr ⟨⟨err, rfl⟩, ?_⟩
    obtain ⟨device, thin, -⟩ | ⟨d', l, n', there, live, mapped, gone, thin, -⟩ :=
      removeVolume_leaves remove fun call mem => known call (by simp [mem])
    · refine made.keeps (.inl (thin.trans beside.thin)) (.inr ⟨same.symm.trans absent, ?_⟩)
      intro d' found' m maps
      cases (found'.symm.trans device).trans found
      simpa [carries.maps] using maps
    · cases there.symm.trans found
      obtain ⟨-, l', live', mapped'⟩ := carries
      cases live.symm.trans live'
      cases mapped.symm.trans mapped'
      rw [beside.thin] at thin
      refine made.keeps thin (.inr ⟨same.symm.trans absent, fun d' found' => ?_⟩)
      cases gone.symm.trans found'
  | unmade err creating deleting _ deleted delete =>
    obtain ⟨devices, thin, -⟩ := deleteThin_leaves delete
    refine .inr ⟨⟨err, rfl⟩, made.keeps thin (.inl ?_)⟩
    exact (congrArg (Table.get? · _) devices).trans same
  | removed err sectors dev creating removing deleting _ w _ _ absent _ create _ _ deleted delete =>
    obtain ⟨devices, thin, -⟩ := deleteThin_leaves delete
    rw [(beside_ran (createDevice_asks rfl rfl rfl rfl) create).thin] at thin
    refine .inr ⟨⟨err, rfl⟩, made.keeps thin (.inr ⟨same.symm.trans absent, fun d found => ?_⟩)⟩
    exact createDevice_only create absent d ((congrArg (Table.get? · _) devices).symm.trans found)

def extended (made : List Nat) (s t : Mapper) : List Nat := made ++ t.thin.filter (· ∉ s.thin)

/-- A create of a volume is the one of the remnant. -/
theorem createVolume_simulates {made : List Nat} {a : Except Fault String}
    {r : SandboxMgr.Remnant} (range : p.firstSandboxID ≤ maxThinID)
    (ran : (createVolume p id).Ran (exec p) i s calls a t)
    (real : ∀ call ∈ calls, faithful call = true) (known : ∀ call ∈ calls, truthful call = true) :
    ∃ e : SandboxMgr.Env, ((∃ path, a = .ok path) ↔ e.fault = .none) ∧
      t.remnant (extended made s.toMapper t.toMapper) id r =
        (s.remnant made id r).createVolume e := by
  obtain ⟨path, n, d, rfl, absent, fresh, thin, found, carries⟩ | ⟨⟨err, rfl⟩, keeps⟩ :=
    createVolume_leaves range ran real known
  · refine ⟨{}, by simp, ?_⟩
    have leaks : t.leaks (extended made s.toMapper t.toMapper) id = s.leaks made id := by
      have here (m : Nat) : t.maps id m = decide (m = n) := by
        simpa [Mapper.maps, found] using carries.maps m
      have nowhere (m : Nat) : s.maps id m = false := by simp [Mapper.maps, absent]
      rw [Bool.eq_iff_iff, Mapper.leaks_iff, Mapper.leaks_iff]
      constructor
      · rintro ⟨m, mem, allocated, other⟩
        rw [here, decide_eq_false_iff_not] at other
        have old : m ∈ s.thin := by simpa [thin, other] using allocated
        refine ⟨m, (List.mem_append.1 mem).resolve_right fun new => ?_, old, nowhere m⟩
        simp [old] at new
      · rintro ⟨m, mem, allocated, -⟩
        have other : m ≠ n := fun eq => fresh (eq ▸ allocated)
        exact ⟨m, List.mem_append_left _ mem, by simp [thin, allocated], by simp [here, other]⟩
    simp [Mapper.remnant, SandboxMgr.Remnant.createVolume, SandboxMgr.Env.effective, found, leaks]
  · have stays (h : s.leaks made id = true) :
        t.leaks (extended made s.toMapper t.toMapper) id = true := by
      obtain ⟨m, mem, allocated, unmapped⟩ := Mapper.leaks_iff.1 h
      obtain ⟨allocated', unmapped'⟩ := keeps.thin m allocated unmapped
      exact Mapper.leaks_iff.2 ⟨m, List.mem_append_left _ mem, allocated', unmapped'⟩
    have kept (h : (s.device? id).isSome = true) : (t.device? id).isSome = true := by
      rw [Option.isSome_iff_ne_none] at h ⊢
      exact keeps.device h
    refine ⟨{ fault := .err "", took := (t.device? id).isSome,
              leaks := t.leaks (extended made s.toMapper t.toMapper) id }, by simp, ?_⟩
    simpa [Mapper.remnant, SandboxMgr.Remnant.createVolume, SandboxMgr.Env.effective] using
      ⟨kept, stays⟩

end Creating
end Fire2.Thin
