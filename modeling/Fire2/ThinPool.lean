import Fire2.Directories

/-! Package thin against a pool as device-mapper keeps it: which thin IDs are
allocated, and which of them the tables of a device map. An ID that is allocated
is not created again, one that a table maps is not deleted, device names are
unique. An ioctl may fail with any error number, before or after it took effect,
and base.env may be another one at every create. A call on a sandbox ID starts
when none on the same ID is under way; calls on different IDs run in any order. -/

namespace Fire2.Thin
open Interleaving Host

inductive Line where
  | thin (start length thinID : Nat)
  | other (t : Target) (h : t.typ ≠ "thin")

def Line.thinID? : Line → Option Nat
  | thin _ _ id => some id
  | other _ _ => none

/-- `<pool device> <thin id>`; there is one pool, so a thin target of another
device is refused. -/
def parseTarget (pool : String) (t : Target) : Option Line :=
  if h : t.typ = "thin" then
    match fields t.params with
    | [dev, f] =>
      match parseUint f 32 with
      | some id =>
        if dev = mapperDir ++ pool ∧ id ≤ maxThinID then some (.thin t.start t.length id) else none
      | none => none
    | _ => none
  else some (.other t h)

def printLine (major minor : Nat) : Line → Target
  -- how a table status call prints a line: the pool device by its number
  | .thin start length thinID =>
      ⟨start, length, "thin", toString major ++ ":" ++ toString minor ++ " " ++ toString thinID⟩
  | .other t _ => t

/-- A device, with the table that is loaded and the one that is live. -/
structure Device where
  number : Nat
  loaded : Option (List Line)
  live : Option (List Line)

def Device.lines (d : Device) : List Line := d.loaded.getD [] ++ d.live.getD []

def Device.maps (d : Device) (n : Nat) : Bool := d.lines.any fun l => l.thinID? = some n

structure Mapper where
  thin : List Nat
  devices : Table String Device

def Mapper.device? (s : Mapper) (id : SandboxID) : Option Device :=
  s.devices.get? (volumePrefix ++ id)

def Mapper.maps (s : Mapper) (id : SandboxID) (n : Nat) : Bool :=
  (s.device? id).any fun d => d.maps n

/-- Also whose call on an ID is under way and, of a thin ID, which call created
it or took it off its device last. -/
structure Kernel extends Mapper where
  owner : SandboxID → Option Nat
  holder : Nat → Option Nat

def Mapper.boot (m : Mapper) : Kernel := { m with owner := fun _ => none, holder := fun _ => none }

/-- `fails` is the error number of an ioctl that fails, and whether it took
effect all the same. -/
structure Env where
  fails : Option (Errno × Bool) := none
  busy : Bool := false
  ok : Bool := true
  baseEnv : Except Errno Settings := .error .enoent
  draw : Nat := 0
  number : Nat := 0
  full : Bool := false
  major : Nat := 253
  minor : Nat := 0
  node : Except Errno (Option Nat) := .ok none
  done : Except Errno Unit := .ok ()

def ioctl {α : Type} (e : Env) (s : Kernel) (r : Except Errno α × Kernel) :
    Except Errno α × Kernel :=
  match e.fails with
  | none => r
  | some (n, effect) => (.error n, if effect then r.2 else s)

def createSnap (i thinID : Nat) (s : Kernel) : Except Errno Unit × Kernel :=
  if thinID ∈ s.thin then (.error .eexist, s)
  else (.ok (),
    { s with thin := thinID :: s.thin, holder := Function.update s.holder thinID (some i) })

def delete (thinID : Nat) (s : Kernel) : Except Errno Unit × Kernel :=
  if s.devices.rows.any fun r => r.2.maps thinID then (.error .ebusy, s)
  else if thinID ∈ s.thin then (.ok (), { s with thin := s.thin.filter (· ≠ thinID) })
  else (.error (.other "no data available"), s)

def devCreate (name : String) (e : Env) (s : Kernel) : Except Errno Nat × Kernel :=
  match s.devices.get? name with
  | some _ => (.error .ebusy, s)
  | none => (.ok e.number, { s with devices := s.devices.set name ⟨e.number, none, none⟩ })

def tableLoad (pool name : String) (targets : List Target) (s : Kernel) :
    Except Errno Unit × Kernel :=
  match s.devices.get? name, targets.mapM (parseTarget pool) with
  | none, _ => (.error .enxio, s)
  | some _, none => (.error (.other "invalid argument"), s)
  | some d, some lines =>
    if lines.all fun l => l.thinID?.all (· ∈ s.thin) then
      (.ok (), { s with devices := s.devices.set name { d with loaded := some lines } })
    else (.error (.other "no data available"), s)

def devResume (name : String) (s : Kernel) : Except Errno Unit × Kernel :=
  match s.devices.get? name with
  | none => (.error .enxio, s)
  | some d => (.ok (), { s with
      devices := s.devices.set name { d with loaded := none, live := d.loaded.or d.live } })

def devRemove (i : Nat) (name : String) (e : Env) (s : Kernel) : Except Errno Unit × Kernel :=
  match s.devices.get? name with
  | none => (.error .enxio, s)
  | some d => if e.busy then (.error .ebusy, s)
      else (.ok (), { s with
        devices := s.devices.erase name
        holder := fun n => if d.maps n then some i else s.holder n })

def tableStatus (name : String) (e : Env) (s : Kernel) : Except Errno (Option (List Target)) :=
  match s.devices.get? name with
  | none => .error .enxio
  | some d => .ok (if e.full then none else some ((d.live.getD []).map (printLine e.major e.minor)))

def readBase (p : Pool) (e : Env) : Except Fault Base :=
  match e.baseEnv with
  | .error n => .error (.wrap "no base volume imported" (.errno n))
  | .ok vars => loadBase p vars

def exec (p : Pool) : Exec Call Env Kernel Call.Answer := fun i c e s =>
  match c with
  -- one operation by thread `i`, of those package thin makes
  | .disown id => some ((), { s with owner := Function.update s.owner id none })
  | .probe _ => some (e.ok, s)
  | .loadBase => some (readBase p e, s)
  | .rand n => some (e.draw % n, s)
  | .createSnap thinID _ => some (ioctl e s (createSnap i thinID s))
  | .delete thinID => some (ioctl e s (delete thinID s))
  | .devCreate name => some (ioctl e s (devCreate name e s))
  | .tableLoad name targets => some (ioctl e s (tableLoad p.name name targets s))
  | .devResume name => some (ioctl e s (devResume name s))
  | .devRemove name => some (ioctl e s (devRemove i name e s))
  | .tableStatus name => some (ioctl e s (tableStatus name e s, s))
  | .statNode _ => some (e.node, s)
  | .removeNode _ => some (e.done, s)
  | .mknod .. => some (e.done, s)
  | _ => none

inductive Kind where
  | create (id : SandboxID)
  | remove (id : SandboxID)
  deriving DecidableEq, Repr

def Kind.id : Kind → SandboxID
  | create id | remove id => id

def volumeCall (p : Pool) : Kind → M (Except Fault Unit)
  | .create id => do
    match ← createVolume p id with
    | .ok _ => return .ok ()
    | .error err => return .error err
  | .remove id => removeVolume p id

def body (p : Pool) (k : Kind) : M (Except Fault Unit) := do
  let r ← volumeCall p k
  call (.disown k.id)
  return r

def system (p : Pool) : System Kind Call Env Empty (Except Fault Unit) Kernel Call.Answer where
  exec := exec p
  body := body p
  start i k s := if s.owner k.id = none then
      some { s with owner := Function.update s.owner k.id (some i) } else none
  stoppable _ := false
  ext x _ := nomatch x

abbrev State := Config Kind Call (Except Fault Unit) Kernel Call.Answer

/-! What the configuration files may say. -/

theorem loadPool_valid {confPath : String} {vars : Settings} {p : Pool}
    (h : loadPool confPath vars = .ok p) : 0 < p.firstSandboxID ∧ p.firstSandboxID ≤ maxThinID := by
  unfold loadPool at h
  split at h
  · cases h
  dsimp only at h
  split at h
  · split at h
    · cases h
    · cases h
      dsimp only
      omega
  · cases h

theorem loadBase_below {p : Pool} {vars : Settings} {b : Base} (h : loadBase p vars = .ok b) :
    b.thinID < p.firstSandboxID := by
  unfold loadBase at h
  dsimp only at h
  split at h
  · split at h
    · cases h
    · split at h
      · split at h
        · cases h
        · cases h
          dsimp only
          omega
      · cases h
  · cases h

/-! The thin ID that is written into a table is the one that is read back. -/

section Texts

theorem fields_append (a b : String) : fields (a ++ " " ++ b) = fields a ++ fields b := by
  have space : isSpace ' ' = true := by decide
  simp only [fields, String.toList_append]
  rw [show " ".toList = [' '] from rfl, List.append_assoc, List.singleton_append,
    List.splitOnP_append_cons _ _ space]
  simp

theorem digit_not_space {c : Char} (h : c.isDigit = true) : isSpace c = false := by
  have bounds : 48 ≤ c.toNat ∧ c.toNat ≤ 57 := Char.isDigit_iff_toNat.1 h
  simp [isSpace]
  omega

theorem toString_digits {n : Nat} {c : Char} (h : c ∈ (toString n).toList) : c.isDigit = true := by
  rw [Nat.toString_eq_ofList_toDigits, String.toList_ofList] at h
  exact Nat.isDigit_of_mem_toDigits (by decide) (by decide) h

theorem toString_ne_nil (n : Nat) : (toString n).toList ≠ [] := by
  rw [Nat.toString_eq_ofList_toDigits, String.toList_ofList]
  exact Nat.toDigits_ne_nil

theorem fields_toString (n : Nat) : fields (toString n) = [toString n] := by
  have one := List.splitOnP_eq_singleton (p := isSpace) fun c mem => digit_not_space
    (toString_digits (n := n) mem)
  rw [fields, one, List.filter_singleton, decide_eq_true (toString_ne_nil n),
    cond_true, List.map_singleton, String.ofList_toList]

theorem parseUint_toString (n bits : Nat) :
    parseUint (toString n) bits = if n < 2 ^ bits then some n else none := by
  have digits : (toString n).toList.all Char.isDigit = true :=
    List.all_eq_true.2 fun c mem => toString_digits mem
  have value : (toString n).toList.foldl (fun n c => 10 * n + (c.toNat - '0'.toNat)) 0 = n := by
    rw [← Nat.ofDigitChars_eq_foldl, Nat.toString_eq_ofList_toDigits, String.toList_ofList]
    exact Nat.ofDigitChars_ten_toDigits
  rw [parseUint, if_pos ⟨toString_ne_nil n, digits⟩]
  simp only [value]

theorem fields_last {a dev f : String} {n : Nat} (h : fields (a ++ " " ++ toString n) = [dev, f]) :
    f = toString n := by
  rw [fields_append, fields_toString] at h
  have last := congrArg List.getLast? h
  simp only [List.getLast?_concat, List.getLast?_cons_cons, List.getLast?_singleton] at last
  exact (Option.some.inj last).symm

theorem parseTarget_thinID {pool a : String} {start length n : Nat} {l : Line}
    (h : parseTarget pool ⟨start, length, "thin", a ++ " " ++ toString n⟩ = some l) :
    l.thinID? = some n := by
  unfold parseTarget at h
  rw [dif_pos rfl] at h
  split at h
  · rename_i dev f two
    rw [fields_last two, parseUint_toString] at h
    split at h
    · rename_i small
      rw [Option.ite_none_right_eq_some] at small
      cases small.2
      rw [Option.ite_none_right_eq_some] at h
      cases h.2
      rfl
    · cases h
  · cases h

theorem sandboxThinID_maps {p : Pool} {name : String} {major minor n : Nat} {lines : List Line}
    (h : sandboxThinID p name (lines.map (printLine major minor)) = .ok n) :
    (∃ l ∈ lines, l.thinID? = some n) ∧ p.firstSandboxID ≤ n ∧ n ≤ maxThinID := by
  unfold sandboxThinID at h
  dsimp only at h
  split at h
  · rename_i t single
    obtain ⟨l, rfl, rfl⟩ := List.map_eq_singleton_iff.1 single
    split at h
    · rename_i dev f typ two
      cases l with
      | other t other => exact absurd typ other
      | thin start length thinID =>
        rw [fields_last two, parseUint_toString] at h
        split at h
        · rename_i small
          rw [Option.ite_none_right_eq_some] at small
          cases small.2
          split at h
          · rename_i range
            cases h
            exact ⟨⟨_, List.mem_singleton_self _, rfl⟩, range⟩
          · cases h
        · cases h
    · cases h
  · cases h

end Texts

/-- The IDs that the devices of sandboxes map are allocated, each to one of them. -/
structure Sane (s : Mapper) : Prop where
  allocated : ∀ id n, s.maps id n = true → n ∈ s.thin
  apart : ∀ id id' n, s.maps id n = true → s.maps id' n = true → id = id'

/-- Thread `i` may map the thin ID in the device of the sandbox, or free it. -/
structure Held (i : Nat) (id : SandboxID) (n : Nat) (s : Kernel) : Prop where
  allocated : n ∈ s.thin
  holder : s.holder n = some i
  only : ∀ id', s.maps id' n = true → id' = id

/-- What a call by thread `i` on the volume of a sandbox may change. -/
structure Touch (i : Nat) (id : SandboxID) (s t : Kernel) : Prop where
  owner : ∀ id' j, j ≠ i → s.owner id' = some j → t.owner id' = some j
  device : ∀ id', t.device? id' = s.device? id' ∨ id' = id ∧ s.owner id = some i
  maps : ∀ n, t.maps id n = true → s.maps id n = true ∨ Held i id n s
  holder : ∀ n ∈ s.thin, t.holder n = s.holder n ∨
    t.holder n = some i ∧ s.owner id = some i ∧ s.maps id n = true
  thin : ∀ n ∈ s.thin, n ∈ t.thin ∨ s.holder n = some i ∧ ∀ id', t.maps id' n = false

section Touches
variable {i j : Nat} {id : SandboxID} {n : Nat} {s t : Kernel} {α : Type} {e : Env}

theorem maps_iff {id : SandboxID} {s : Mapper} :
    s.maps id n = true ↔ ∃ d, s.device? id = some d ∧ d.maps n = true := by
  unfold Mapper.maps
  cases s.device? id <;> simp

theorem maps_congr {id : SandboxID} {s t : Mapper} (h : t.device? id = s.device? id) (n : Nat) :
    t.maps id n = s.maps id n := by
  rw [Mapper.maps, h, Mapper.maps]

theorem Touch.refl : Touch i id s s :=
  ⟨fun _ _ _ h => h, fun _ => .inl rfl, fun _ h => .inl h, fun _ _ => .inl rfl, fun _ h => .inl h⟩

theorem Touch.maps_cases (h : Touch i id s t) {id' : SandboxID} (mapped : t.maps id' n = true) :
    s.maps id' n = true ∨ id' = id ∧ Held i id n s := by
  obtain same | ⟨rfl, -⟩ := h.device id'
  · exact .inl (maps_congr same n ▸ mapped)
  · exact (h.maps n mapped).imp_right fun held => ⟨rfl, held⟩

theorem Touch.sane (h : Touch i id s t) (sane : Sane s.toMapper) : Sane t.toMapper where
  allocated id' n mapped := by
    have before : n ∈ s.thin := by
      obtain old | ⟨-, held⟩ := h.maps_cases mapped
      · exact sane.allocated id' n old
      · exact held.allocated
    obtain kept | ⟨-, free⟩ := h.thin n before
    · exact kept
    · exact absurd mapped (by simp [free id'])
  apart id' id'' n mapped mapped' := by
    obtain old | ⟨rfl, held⟩ := h.maps_cases mapped
    · obtain old' | ⟨rfl, held⟩ := h.maps_cases mapped'
      · exact sane.apart id' id'' n old old'
      · exact held.only id' old
    · obtain old' | ⟨rfl, -⟩ := h.maps_cases mapped'
      · exact (held.only id'' old').symm
      · rfl

theorem Touch.held (h : Touch i id s t) (other : j ≠ i) {id' : SandboxID}
    (mine : s.owner id' = some j) (held : Held j id' n s) : Held j id' n t where
  allocated := by
    obtain kept | ⟨taken, -⟩ := h.thin n held.allocated
    · exact kept
    · exact absurd (Option.some.inj (held.holder.symm.trans taken)) other
  holder := by
    obtain same | ⟨-, owner, mapped⟩ := h.holder n held.allocated
    · exact same.trans held.holder
    · rw [held.only id mapped, mine] at owner
      exact absurd (Option.some.inj owner) other
  only id'' mapped := by
    obtain old | ⟨-, theirs⟩ := h.maps_cases mapped
    · exact held.only id'' old
    · exact absurd (Option.some.inj (held.holder.symm.trans theirs.holder)) other

theorem Touch.held_self (h : Touch i id s t) (allocated : n ∈ t.thin) (held : Held i id n s) :
    Held i id n t where
  allocated := allocated
  holder := by
    obtain same | ⟨taken, -⟩ := h.holder n held.allocated
    · exact same.trans held.holder
    · exact taken
  only id' mapped := by
    obtain old | ⟨same, -⟩ := h.maps_cases mapped
    · exact held.only id' old
    · exact same

theorem Touch.devices {devices : Table String Device} (owner : s.owner id = some i)
    (other : ∀ name, name ≠ volumePrefix ++ id → devices.get? name = s.devices.get? name)
    (maps : ∀ d n, devices.get? (volumePrefix ++ id) = some d → d.maps n = true →
      s.maps id n = true ∨ Held i id n s) :
    Touch i id s { s with devices := devices } where
  owner _ _ _ h := h
  device id' := by
    by_cases same : id' = id
    · exact .inr ⟨same, owner⟩
    · exact .inl (other _ fun eq => same (volumePrefix_inj eq))
  maps n mapped := by
    obtain ⟨d, found, mapped⟩ := maps_iff.1 mapped
    exact maps d n found mapped
  holder _ _ := .inl rfl
  thin _ h := .inl h

theorem ioctl_state {r : Except Errno α × Kernel} {a : Except Errno α}
    (ran : some (ioctl e s r) = some (a, t)) : t = s ∨ t = r.2 := by
  have after : t = (ioctl e s r).2 := congrArg Prod.snd (Option.some.inj ran).symm
  rw [after, ioctl]
  split
  · exact .inr rfl
  · dsimp only
    split
    · exact .inr rfl
    · exact .inl rfl

theorem ioctl_ok {r : Except Errno α × Kernel} {a : α}
    (ran : some (ioctl e s r) = some (.ok a, t)) : r = (.ok a, t) := by
  unfold ioctl at ran
  split at ran
  · exact Option.some.inj ran
  · cases ran

theorem ioctl_touch {r : Except Errno α × Kernel} {a : Except Errno α}
    (h : Touch i id s r.2) (ran : some (ioctl e s r) = some (a, t)) : Touch i id s t := by
  obtain rfl | rfl := ioctl_state ran
  · exact .refl
  · exact h

theorem createSnap_touch : Touch i id s (createSnap i n s).2 := by
  unfold createSnap
  split
  · exact .refl
  · rename_i fresh
    refine ⟨fun _ _ _ h => h, fun _ => .inl rfl, fun _ h => .inl h, fun m mem => .inl ?_,
      fun m mem => .inl ?_⟩
    · exact Function.update_of_ne (ne_of_mem_of_not_mem mem fresh) _ _
    · exact List.mem_cons_of_mem _ mem

theorem delete_touch (held : s.holder n = some i) : Touch i id s (delete n s).2 := by
  unfold delete
  split
  · exact .refl
  rename_i unmapped
  have free (id' : SandboxID) : s.maps id' n = false := by
    refine Bool.eq_false_iff.2 fun mapped => unmapped ?_
    obtain ⟨d, found, mapped⟩ := maps_iff.1 mapped
    exact List.any_eq_true.2 ⟨_, (Table.get?_eq_some_iff _ _ d).1 found, mapped⟩
  split
  · refine ⟨fun _ _ _ h => h, fun _ => .inl rfl, fun _ h => .inl h,
      fun _ _ => .inl rfl, fun m mem => ?_⟩
    by_cases same : m = n
    · rw [same]
      exact .inr ⟨held, free⟩
    · exact .inl (List.mem_filter.2 ⟨mem, decide_eq_true same⟩)
  · exact .refl

theorem devCreate_touch (owner : s.owner id = some i) :
    Touch i id s (devCreate (volumePrefix ++ id) e s).2 := by
  unfold devCreate
  split
  · exact .refl
  · refine .devices owner (fun name other => by simp [other]) fun d n found mapped => ?_
    rw [Table.get?_set, if_pos rfl] at found
    cases found
    cases mapped

theorem mem_of_mapM {α β : Type} {f : α → Option β} {l : List α} {l' : List β}
    (h : l.mapM f = some l') {b : β} (mem : b ∈ l') : ∃ a ∈ l, f a = some b := by
  induction l generalizing l' with
  | nil =>
    cases h
    cases mem
  | cons a l ih =>
    simp only [List.mapM_cons, Option.bind_eq_bind, Option.bind_eq_some_iff, Option.pure_def,
      Option.some.injEq] at h
    obtain ⟨b', first, rest, tail, rfl⟩ := h
    obtain rfl | mem := List.mem_cons.1 mem
    · exact ⟨a, List.mem_cons_self, first⟩
    · obtain ⟨a', listed, found⟩ := ih tail mem
      exact ⟨a', List.mem_cons_of_mem _ listed, found⟩

theorem tableLoad_touch {pool : String} {targets : List Target} (owner : s.owner id = some i)
    (held : ∀ t ∈ targets, ∀ l n, parseTarget pool t = some l →
      l.thinID? = some n → Held i id n s) :
    Touch i id s (tableLoad pool (volumePrefix ++ id) targets s).2 := by
  unfold tableLoad
  split
  · exact .refl
  · exact .refl
  rename_i d lines there parsed
  split
  · refine .devices owner (fun name other => by simp [other]) fun d' n found mapped => ?_
    rw [Table.get?_set, if_pos rfl] at found
    cases found
    obtain ⟨l, mem, thin⟩ := List.any_eq_true.1 mapped
    obtain new | old := List.mem_append.1 mem
    · obtain ⟨t, listed, target⟩ := mem_of_mapM parsed new
      exact .inr (held t listed l n target (of_decide_eq_true thin))
    · refine .inl (maps_iff.2 ⟨d, there, List.any_eq_true.2 ⟨l, List.mem_append_right _ old, thin⟩⟩)
  · exact .refl

theorem devResume_touch (owner : s.owner id = some i) :
    Touch i id s (devResume (volumePrefix ++ id) s).2 := by
  unfold devResume
  split
  · exact .refl
  · rename_i d there
    refine .devices owner (fun name other => by simp [other]) fun d' n found mapped => ?_
    rw [Table.get?_set, if_pos rfl] at found
    cases found
    obtain ⟨l, mem, thin⟩ := List.any_eq_true.1 mapped
    refine .inl (maps_iff.2 ⟨d, there, List.any_eq_true.2 ⟨l, ?_, thin⟩⟩)
    rw [Device.lines] at mem ⊢
    cases h : d.loaded with
    | none => simpa [h] using mem
    | some lines => exact List.mem_append_left _ (by simpa [h] using mem)

theorem devRemove_touch (owner : s.owner id = some i) :
    Touch i id s (devRemove i (volumePrefix ++ id) e s).2 := by
  unfold devRemove
  split
  · exact .refl
  rename_i d there
  split
  · exact .refl
  · refine ⟨fun _ _ _ h => h, fun id' => ?_, fun n mapped => ?_, fun n _ => ?_, fun _ h => .inl h⟩
    · by_cases same : id' = id
      · exact .inr ⟨same, owner⟩
      · refine .inl ((Table.get?_erase _ _ _).trans (if_neg fun eq => same (volumePrefix_inj eq)))
    · obtain ⟨d', found, -⟩ := maps_iff.1 mapped
      simp [Mapper.device?] at found
    · dsimp only
      split
      · rename_i mapped
        exact .inr ⟨rfl, owner, maps_iff.2 ⟨d, there, mapped⟩⟩
      · exact .inl rfl

end Touches

def may (p : Pool) (i : Nat) (id : SandboxID) (s : Kernel) : Call → Prop
  | .disown id' => s.owner id' = some i
  | .delete n => s.owner id = some i ∧ Held i id n s ∧ p.firstSandboxID ≤ n ∧ n ≤ maxThinID
  | .devCreate name | .devResume name | .devRemove name =>
    name = volumePrefix ++ id ∧ s.owner id = some i
  | .tableLoad name targets => name = volumePrefix ++ id ∧ s.owner id = some i ∧
      ∀ t ∈ targets, ∀ l n, parseTarget p.name t = some l → l.thinID? = some n → Held i id n s
  | _ => True

/-- Of a sandbox whose call is the thread's, the device is left as it is, and
so is what the thread holds for it. -/
def Undisturbed (i : Nat) (s t : Kernel) : Prop :=
  ∀ id, s.owner id = some i → t.owner id = some i ∧ t.device? id = s.device? id ∧
    ∀ n, Held i id n s → Held i id n t

def spec (p : Pool) : Spec Call Env Empty Kernel where
  Inv s := Sane s.toMapper
  Evolves _ _ := True
  Keeps := Undisturbed
  Pre i c s := ∃ id, may p i id s c
  Cond _ _ _ _ := True
  Out _ _ := True

def steady : Call → Bool
  | .disown _ | .delete _ => false
  | _ => true

section Sound
variable {p : Pool} {i j : Nat} {id : SandboxID} {c : Call} {e : Env} {a : c.Answer} {s t : Kernel}

theorem exec_touch (allowed : may p i id s c) (ran : exec p i c e s = some (a, t)) :
    Touch i id s t := by
  cases c with
  | disown id' =>
    cases ran
    refine ⟨fun id'' j other h => ?_, fun _ => .inl rfl, fun _ h => .inl h,
      fun _ _ => .inl rfl, fun _ h => .inl h⟩
    by_cases same : id'' = id'
    · cases same
      exact absurd (Option.some.inj (h.symm.trans allowed)) other
    · exact (Function.update_of_ne same _ _).trans h
  | probe | loadBase | rand | statNode | removeNode | mknod =>
    cases ran
    exact .refl
  | createSnap thinID => exact ioctl_touch createSnap_touch ran
  | delete thinID => exact ioctl_touch (delete_touch allowed.2.1.holder) ran
  | devCreate name =>
    obtain ⟨rfl, owner⟩ := allowed
    exact ioctl_touch (devCreate_touch owner) ran
  | tableLoad name targets =>
    obtain ⟨rfl, owner, held⟩ := allowed
    exact ioctl_touch (tableLoad_touch owner held) ran
  | devResume name =>
    obtain ⟨rfl, owner⟩ := allowed
    exact ioctl_touch (devResume_touch owner) ran
  | devRemove name =>
    obtain ⟨rfl, owner⟩ := allowed
    exact ioctl_touch (devRemove_touch owner) ran
  | tableStatus name => exact ioctl_touch (r := (tableStatus name e s, s)) .refl ran
  | _ => cases ran

theorem Touch.undisturbed (h : Touch i id s t) (other : j ≠ i) : Undisturbed j s t := by
  intro id' mine
  refine ⟨h.owner id' j other mine, ?_, fun n held => h.held other mine held⟩
  obtain same | ⟨rfl, theirs⟩ := h.device id'
  · exact same
  · exact absurd (Option.some.inj (mine.symm.trans theirs)) other

theorem spec_sound : (spec p).Sound (exec p) where
  evolves_refl _ := trivial
  evolves_trans _ _ := trivial
  keeps_refl _ _ _ h := ⟨h, rfl, fun _ held => held⟩
  keeps_trans h h' id owner := by
    obtain ⟨owner', device, held⟩ := h id owner
    obtain ⟨owner'', device', held'⟩ := h' id owner'
    exact ⟨owner'', device'.trans device, fun n known => held' n (held n known)⟩
  step sane pre _ ran := by
    obtain ⟨id, allowed⟩ := pre
    have touch := exec_touch allowed ran
    exact ⟨touch.sane sane, trivial, fun j other => touch.undisturbed other⟩

theorem exec_frame (h : steady c = true) (ran : exec p i c e s = some (a, t)) :
    t.owner = s.owner ∧ ∀ n ∈ s.thin, n ∈ t.thin := by
  have framed {α : Type} {r : Except Errno α × Kernel} {b : Except Errno α}
      (ran : some (ioctl e s r) = some (b, t))
      (h : r.2.owner = s.owner ∧ ∀ n ∈ s.thin, n ∈ r.2.thin) :
      t.owner = s.owner ∧ ∀ n ∈ s.thin, n ∈ t.thin := by
    obtain rfl | rfl := ioctl_state ran
    · exact ⟨rfl, fun _ mem => mem⟩
    · exact h
  cases c with
  | disown | delete => cases h
  | probe | loadBase | rand | statNode | removeNode | mknod =>
    cases ran
    exact ⟨rfl, fun _ mem => mem⟩
  | createSnap thinID =>
    refine framed ran ?_
    unfold createSnap
    split
    · exact ⟨rfl, fun _ mem => mem⟩
    · exact ⟨rfl, fun _ mem => List.mem_cons_of_mem _ mem⟩
  | devCreate name =>
    refine framed ran ?_
    unfold devCreate
    split <;> exact ⟨rfl, fun _ mem => mem⟩
  | tableLoad name targets =>
    refine framed ran ?_
    unfold tableLoad
    split
    · exact ⟨rfl, fun _ mem => mem⟩
    · exact ⟨rfl, fun _ mem => mem⟩
    · split <;> exact ⟨rfl, fun _ mem => mem⟩
  | devResume name =>
    refine framed ran ?_
    unfold devResume
    split <;> exact ⟨rfl, fun _ mem => mem⟩
  | devRemove name =>
    refine framed ran ?_
    unfold devRemove
    split
    · exact ⟨rfl, fun _ mem => mem⟩
    · split <;> exact ⟨rfl, fun _ mem => mem⟩
  | tableStatus name => exact framed (r := (tableStatus name e s, s)) ran ⟨rfl, fun _ mem => mem⟩
  | _ => cases ran

end Sound

end Fire2.Thin
