import Mathlib.Data.List.Perm.Subperm
import Mathlib.Data.List.Nodup

/-! Finite tables with a primary key. A table cannot hold two rows of one key,
so a statement over it is understood row by row: `update` acts on every row,
`select` lists the keys of the rows a condition holds of, `insert?` refuses a
key that is taken. Row order carries no meaning. -/

namespace Fire2

structure Table (K V : Type) where
  rows : List (K × V)
  nodup : (rows.map Prod.fst).Nodup

namespace Table
variable {K V : Type}

def empty : Table K V := ⟨[], List.nodup_nil⟩

def update (t : Table K V) (f : K → V → V) : Table K V where
  rows := t.rows.map fun p => (p.1, f p.1 p.2)
  nodup := by simpa only [List.map_map, Function.comp_def] using t.nodup

def select (t : Table K V) (p : K → V → Bool) : List K :=
  (t.rows.filter fun r => p r.1 r.2).map Prod.fst

theorem nodup_select (t : Table K V) (p : K → V → Bool) : (t.select p).Nodup :=
  t.nodup.sublist (List.filter_sublist.map _)

theorem select_update (t : Table K V) (f : K → V → V) (p : K → V → Bool) :
    (t.update f).select p = t.select fun k v => p k (f k v) := by
  simp only [select, update, List.filter_map, List.map_map, Function.comp_def]

def count (t : Table K V) (p : K → V → Bool) : Nat := (t.select p).length

theorem count_le_of_subset (t u : Table K V) (p q : K → V → Bool)
    (h : ∀ k ∈ t.select p, k ∈ u.select q) : t.count p ≤ u.count q :=
  ((nodup_select t p).subperm h).length_le

theorem count_le_succ (t u : Table K V) (p q : K → V → Bool) (x : K)
    (h : ∀ k ∈ t.select p, k = x ∨ k ∈ u.select q) : t.count p ≤ u.count q + 1 := by
  have sub : ∀ k ∈ t.select p, k ∈ x :: u.select q := fun k hk => List.mem_cons.2 (h k hk)
  simpa only [count, List.length_cons] using ((nodup_select t p).subperm sub).length_le

variable [DecidableEq K]

def get? (t : Table K V) (k : K) : Option V := t.rows.lookup k

def insert? (t : Table K V) (k : K) (v : V) : Option (Table K V) :=
  if h : k ∈ t.rows.map Prod.fst then none
  else some ⟨(k, v) :: t.rows, List.nodup_cons.2 ⟨h, t.nodup⟩⟩

def erase (t : Table K V) (k : K) : Table K V where
  rows := t.rows.filter fun p => p.1 ≠ k
  nodup := t.nodup.sublist (List.filter_sublist.map _)

def set (t : Table K V) (k : K) (v : V) : Table K V where
  rows := (k, v) :: (t.erase k).rows
  nodup := by
    refine List.nodup_cons.2 ⟨?_, (t.erase k).nodup⟩
    simp [erase]

@[simp] theorem get?_empty (k : K) : (empty : Table K V).get? k = none := rfl

theorem lookup_eq_some_iff_mem {l : List (K × V)} (h : (l.map Prod.fst).Nodup) (k : K) (v : V) :
    l.lookup k = some v ↔ (k, v) ∈ l := by
  induction l with
  | nil => simp
  | cons p rest ih =>
    obtain ⟨k', v'⟩ := p
    obtain ⟨fresh, tail⟩ := List.nodup_cons.1 h
    rw [List.lookup_cons, List.mem_cons]
    by_cases same : k = k'
    · subst same
      have absent : (k, v) ∉ rest := fun m => fresh (List.mem_map.2 ⟨(k, v), m, rfl⟩)
      simp only [beq_self_eq_true, absent, or_false, Option.some.injEq, Prod.mk.injEq, true_and]
      exact eq_comm
    · have other : (k == k') = false := by simpa using same
      simp only [other, Prod.mk.injEq, same, false_and, false_or]
      exact ih tail

theorem get?_eq_some_iff (t : Table K V) (k : K) (v : V) :
    t.get? k = some v ↔ (k, v) ∈ t.rows :=
  lookup_eq_some_iff_mem t.nodup k v

@[simp] theorem get?_update (t : Table K V) (f : K → V → V) (k : K) :
    (t.update f).get? k = (t.get? k).map (f k) := by
  obtain ⟨rows, nodup⟩ := t
  simp only [get?, update]
  clear nodup
  induction rows with
  | nil => rfl
  | cons p rest ih =>
    obtain ⟨k', v⟩ := p
    simp only [List.map_cons, List.lookup_cons, ih]
    by_cases same : k = k'
    · simp [same]
    · have other : (k == k') = false := by simpa using same
      simp [other]

theorem forall_rows {t : Table K V} {P : K → V → Prop} :
    (∀ p ∈ t.rows, P p.1 p.2) ↔ ∀ k v, t.get? k = some v → P k v :=
  ⟨fun h k v found => h (k, v) ((get?_eq_some_iff t k v).1 found),
    fun h p mem => h p.1 p.2 ((get?_eq_some_iff t p.1 p.2).2 mem)⟩

instance decidableForall {t : Table K V} {P : K → V → Prop} [∀ k v, Decidable (P k v)] :
    Decidable (∀ k v, t.get? k = some v → P k v) :=
  decidable_of_iff _ forall_rows

theorem update_eq_self (t : Table K V) (f : K → V → V)
    (h : ∀ k v, t.get? k = some v → f k v = v) : t.update f = t := by
  have fixed : t.rows.map (fun p => (p.1, f p.1 p.2)) = t.rows := by
    conv_rhs => rw [← List.map_id t.rows]
    apply List.map_congr_left
    intro p hp
    rw [h p.1 p.2 ((get?_eq_some_iff t p.1 p.2).2 hp)]
    rfl
  cases t
  simpa only [update, mk.injEq] using fixed

theorem mem_select (t : Table K V) (p : K → V → Bool) (k : K) :
    k ∈ t.select p ↔ ∃ v, t.get? k = some v ∧ p k v = true := by
  simp only [select, List.mem_map, List.mem_filter, get?_eq_some_iff]
  constructor
  · rintro ⟨r, ⟨mem, holds⟩, rfl⟩
    exact ⟨r.2, mem, holds⟩
  · rintro ⟨v, mem, holds⟩
    exact ⟨(k, v), ⟨mem, holds⟩, rfl⟩

theorem select_congr {t : Table K V} {p q : K → V → Bool}
    (h : ∀ k v, t.get? k = some v → p k v = q k v) : t.select p = t.select q := by
  have same : t.rows.filter (fun r => p r.1 r.2) = t.rows.filter fun r => q r.1 r.2 :=
    List.filter_congr fun r mem => h r.1 r.2 ((get?_eq_some_iff t r.1 r.2).2 mem)
  rw [select, select, same]

@[simp] theorem get?_erase (t : Table K V) (k j : K) :
    (t.erase k).get? j = if j = k then none else t.get? j := by
  apply Option.ext
  intro v
  rw [get?_eq_some_iff, erase, List.mem_filter]
  by_cases same : j = k
  · simp [same]
  · simp [same, get?_eq_some_iff]

@[simp] theorem get?_set (t : Table K V) (k j : K) (v : V) :
    (t.set k v).get? j = if j = k then some v else t.get? j := by
  by_cases same : j = k
  · simp [get?, set, same]
  · have other : (j == k) = false := by simpa using same
    have rest := get?_erase t k j
    simp only [get?, same, if_false] at rest
    simp [get?, set, List.lookup_cons, other, same, rest]

theorem get?_eq_none_iff (t : Table K V) (k : K) :
    t.get? k = none ↔ k ∉ t.rows.map Prod.fst := by
  rw [get?, List.lookup_eq_none_iff]
  simp only [List.mem_map, not_exists, not_and, bne_iff_ne, ne_eq]
  exact ⟨fun h p hp e => h p hp e.symm, fun h p hp e => h p hp e.symm⟩

theorem insert?_eq_some {t u : Table K V} {k : K} {v : V} (h : t.insert? k v = some u) :
    t.get? k = none ∧ ∀ j, u.get? j = if j = k then some v else t.get? j := by
  unfold insert? at h
  split at h
  · cases h
  · rename_i free
    cases h
    refine ⟨(get?_eq_none_iff t k).2 free, fun j => ?_⟩
    simp only [get?, List.lookup_cons]
    by_cases same : j = k
    · simp [same]
    · have other : (j == k) = false := by simpa using same
      simp [same, other]

def agrees [DecidableEq V] (t u : Table K V) (p : K → Bool) : Bool :=
  (t.rows ++ u.rows).all fun r => !p r.1 || t.get? r.1 = u.get? r.1

theorem agrees_get? [DecidableEq V] {t u : Table K V} {p : K → Bool} (h : t.agrees u p = true)
    {k : K} (hk : p k = true) : t.get? k = u.get? k := by
  have same (v : V) (mem : (k, v) ∈ t.rows ++ u.rows) : t.get? k = u.get? k := by
    simpa [hk] using List.all_eq_true.1 h (k, v) mem
  cases left : t.get? k with
  | some v => exact left ▸ same v (List.mem_append_left _ ((get?_eq_some_iff t k v).1 left))
  | none =>
    cases right : u.get? k with
    | none => rfl
    | some v =>
      rw [← left, ← right]
      exact same v (List.mem_append_right _ ((get?_eq_some_iff u k v).1 right))

theorem insert?_isSome {t : Table K V} {k : K} {v : V} (h : t.get? k = none) :
    (t.insert? k v).isSome := by
  rw [get?_eq_none_iff] at h
  simp only [insert?, h, not_false_eq_true, dif_neg, Option.isSome_some]

end Table
end Fire2
