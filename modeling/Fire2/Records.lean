import Mathlib.Data.List.Chain
import Mathlib.Data.List.Nodup
import Mathlib.Logic.Function.Basic

/-! Values recorded under keys, one after the other, and changes of them that are
reported later by whoever recorded them. As long as nobody records over a change
that is still to be reported, nor a value that is there already, the reports of a
key are its changes in the order they were made. -/

namespace Fire2

/-- The values of a key, the latest first; the changes a party has recorded and
is still to report, each with a label, the next one first; and the changes
reported of a key, the latest first. -/
structure Records (R V L : Type) where
  recorded : R → List V
  owed : Nat → List (L × R × V)
  reported : R → List V

namespace Records
variable {R V L : Type} [DecidableEq R]

def empty : Records R V L := ⟨fun _ => [], fun _ => [], fun _ => []⟩

def start (s : Records R V L) (r : R) (v : V) : Records R V L :=
  { s with recorded := Function.update s.recorded r [v] }

def record (s : Records R V L) (i : Nat) (rows : List (L × R)) (v : V) : Records R V L where
  recorded r := if r ∈ rows.map Prod.snd then v :: s.recorded r else s.recorded r
  owed := Function.update s.owed i (rows.map (fun p => (p.1, p.2, v)) ++ s.owed i)
  reported := s.reported

def report (s : Records R V L) (i : Nat) (v : V) : Records R V L :=
  match s.owed i with
  | [] => s
  | (_, r, _) :: rest => { s with
      owed := Function.update s.owed i rest
      reported := Function.update s.reported r (v :: s.reported r) }

omit [DecidableEq R] in
def Owes (s : Records R V L) (i : Nat) (r : R) (v : V) : Prop := ∃ l, (l, r, v) ∈ s.owed i

/-- The first value of a key is none of its changes. -/
structure Sound (s : Records R V L) : Prop where
  once : ∀ i j r v w, s.Owes i r v → s.Owes j r w → i = j
  nodup : ∀ i, ((s.owed i).map fun x => x.2.1).Nodup
  owing : ∀ i r v, s.Owes i r v → (s.recorded r).dropLast = v :: s.reported r
  settled : ∀ r, (∀ i v, ¬ s.Owes i r v) → (s.recorded r).dropLast = s.reported r
  differ : ∀ r, (s.recorded r).IsChain (· ≠ ·)

section Laws
variable {s : Records R V L} {i j : Nat} {r k : R} {v w : V} {l : L}

omit [DecidableEq R] in
theorem empty_sound : (empty : Records R V L).Sound := by
  have none (i : Nat) (r : R) (v : V) : ¬ (empty : Records R V L).Owes i r v := by
    rintro ⟨l, mem⟩
    cases mem
  exact ⟨fun i _ r v _ owes => absurd owes (none i r v), fun _ => List.nodup_nil,
    fun i r v owes => absurd owes (none i r v), fun _ _ => rfl, fun _ => .nil⟩

theorem owes_record {rows : List (L × R)} :
    (s.record i rows v).Owes j r w ↔ (j = i ∧ r ∈ rows.map Prod.snd ∧ w = v) ∨ s.Owes j r w := by
  by_cases mine : j = i
  · subst mine
    simp only [Owes, record, Function.update_self, List.mem_append, List.mem_map,
      Prod.mk.injEq, Prod.exists, true_and]
    constructor
    · rintro ⟨l, ⟨l', r', mem, rfl, rfl, rfl⟩ | mem⟩
      · exact .inl ⟨⟨l', r', mem, rfl⟩, rfl⟩
      · exact .inr ⟨l, mem⟩
    · rintro (⟨⟨l, r', mem, rfl⟩, rfl⟩ | ⟨l, mem⟩)
      · exact ⟨l, .inl ⟨l, r', mem, rfl, rfl, rfl⟩⟩
      · exact ⟨l, .inr mem⟩
  · simp [Owes, record, mine]

theorem Sound.owes_report {rest : List (L × R × V)} (sound : s.Sound)
    (next : s.owed i = (l, r, v) :: rest) : (s.report i v).Owes j k w ↔ s.Owes j k w ∧ k ≠ r := by
  have mine : s.Owes i r v := ⟨l, next ▸ List.mem_cons_self⟩
  have nodup := sound.nodup i
  simp only [next, List.map_cons, List.nodup_cons] at nodup
  simp only [Owes, report, next]
  by_cases same : j = i
  · subst same
    simp only [Function.update_self, next, List.mem_cons, Prod.mk.injEq]
    constructor
    · rintro ⟨l', mem⟩
      refine ⟨⟨l', .inr mem⟩, ?_⟩
      rintro rfl
      exact nodup.1 (List.mem_map_of_mem (f := fun x => x.2.1) mem)
    · rintro ⟨⟨l', ⟨-, eq, -⟩ | mem⟩, other⟩
      · exact absurd eq other
      · exact ⟨l', mem⟩
  · simp only [Function.update_of_ne same]
    refine ⟨fun owes => ⟨owes, ?_⟩, fun h => h.1⟩
    rintro rfl
    exact same (sound.once j i k w v owes mine)

theorem Sound.start (sound : s.Sound) (blank : s.recorded r = []) : (s.start r v).Sound := by
  have changes (k : R) : ((s.start r v).recorded k).dropLast = (s.recorded k).dropLast := by
    by_cases same : k = r
    · simp [Records.start, same, blank]
    · simp [Records.start, same]
  refine ⟨sound.once, sound.nodup, fun i k w owes => (changes k).trans (sound.owing i k w owes),
    fun k none => (changes k).trans (sound.settled k none), fun k => ?_⟩
  by_cases same : k = r
  · simp [Records.start, same]
  · simpa [Records.start, same] using sound.differ k

theorem Sound.record {rows : List (L × R)} (sound : s.Sound) (nodup : (rows.map Prod.snd).Nodup)
    (changes : ∀ r ∈ rows.map Prod.snd, (∃ w, (s.recorded r).head? = some w ∧ w ≠ v) ∧
      ∀ j w, ¬ s.Owes j r w) :
    (s.record i rows v).Sound where
  once j j' r w w' owes owes' := by
    obtain ⟨rfl, mem, -⟩ | owes := owes_record.1 owes
    · obtain ⟨rfl, -⟩ | owes' := owes_record.1 owes'
      · rfl
      · exact absurd owes' ((changes r mem).2 _ _)
    · obtain ⟨-, mem, -⟩ | owes' := owes_record.1 owes'
      · exact absurd owes ((changes r mem).2 _ _)
      · exact sound.once _ _ _ _ _ owes owes'
  nodup j := by
    by_cases mine : j = i
    · subst mine
      simp only [Records.record, Function.update_self, List.map_append, List.map_map]
      refine List.nodup_append'.2 ⟨nodup, sound.nodup j, fun r mem owed => ?_⟩
      obtain ⟨⟨l, r', w⟩, due, rfl⟩ := List.mem_map.1 owed
      exact (changes r' mem).2 j w ⟨l, due⟩
    · simpa [Records.record, mine] using sound.nodup j
  owing j r w owes := by
    obtain ⟨-, mem, rfl⟩ | owes := owes_record.1 owes
    · obtain ⟨⟨x, head, -⟩, none⟩ := changes r mem
      obtain ⟨older, eq⟩ := List.head?_eq_some_iff.1 head
      have settled := sound.settled r none
      rw [eq] at settled
      simp only [Records.record, if_pos mem, eq, List.dropLast_cons_cons, settled]
    · have other : r ∉ rows.map Prod.snd := fun mem => (changes r mem).2 j w owes
      simpa only [Records.record, if_neg other] using sound.owing j r w owes
  settled r none := by
    have other : r ∉ rows.map Prod.snd := fun mem => none i v (owes_record.2 (.inl ⟨rfl, mem, rfl⟩))
    simp only [Records.record, if_neg other]
    exact sound.settled r fun j w owes => none j w (owes_record.2 (.inr owes))
  differ r := by
    by_cases mem : r ∈ rows.map Prod.snd
    · obtain ⟨⟨x, head, other⟩, -⟩ := changes r mem
      obtain ⟨older, eq⟩ := List.head?_eq_some_iff.1 head
      have chain := sound.differ r
      simp only [Records.record, if_pos mem]
      rw [eq] at chain ⊢
      exact .cons_cons other.symm chain
    · simpa only [Records.record, if_neg mem] using sound.differ r

theorem Sound.report {rest : List (L × R × V)} (sound : s.Sound)
    (next : s.owed i = (l, r, v) :: rest) : (s.report i v).Sound := by
  have mine : s.Owes i r v := ⟨l, next ▸ List.mem_cons_self⟩
  have recorded : (s.report i v).recorded = s.recorded := by simp [Records.report, next]
  have reported : (s.report i v).reported = Function.update s.reported r (v :: s.reported r) := by
    simp [Records.report, next]
  refine ⟨fun j j' k w w' owes owes' => ?_, fun j => ?_, fun j k w owes => ?_,
    fun k none => ?_, fun k => ?_⟩
  · exact sound.once j j' k w w' ((sound.owes_report next).1 owes).1
      ((sound.owes_report next).1 owes').1
  · by_cases same : j = i
    · subst same
      have nodup := sound.nodup j
      simp only [next, List.map_cons, List.nodup_cons] at nodup
      simpa [Records.report, next] using nodup.2
    · simpa [Records.report, next, same] using sound.nodup j
  · obtain ⟨owes, other⟩ := (sound.owes_report next).1 owes
    rw [recorded, reported, Function.update_of_ne other]
    exact sound.owing j k w owes
  · rw [recorded, reported]
    by_cases same : k = r
    · subst same
      rw [Function.update_self]
      exact sound.owing i k v mine
    · rw [Function.update_of_ne same]
      exact sound.settled k fun j w owes => none j w ((sound.owes_report next).2 ⟨owes, same⟩)
  · rw [recorded]
    exact sound.differ k

omit [DecidableEq R] in
theorem Sound.due (sound : s.Sound) (owes : s.Owes i r v) :
    ∃ w older, s.recorded r = v :: w :: older ∧ v ≠ w := by
  have changes := sound.owing i r v owes
  have chain := sound.differ r
  match recorded : s.recorded r with
  | [] => simp [recorded] at changes
  | [x] => simp [recorded] at changes
  | x :: w :: older =>
    rw [recorded] at changes chain
    obtain ⟨rfl, -⟩ := List.cons.inj changes
    exact ⟨w, older, rfl, (List.isChain_cons_cons.1 chain).1⟩

omit [DecidableEq R] in
theorem Sound.reports (sound : s.Sound) (r : R) :
    ∃ due : List V, due.length ≤ 1 ∧ (s.recorded r).dropLast = due ++ s.reported r := by
  by_cases none : ∀ i v, ¬ s.Owes i r v
  · exact ⟨[], Nat.zero_le 1, sound.settled r none⟩
  · simp only [not_forall, not_not] at none
    obtain ⟨i, v, owes⟩ := none
    exact ⟨[v], Nat.le_refl 1, sound.owing i r v owes⟩

omit [DecidableEq R] in
theorem Sound.reported_differ (sound : s.Sound) (r : R) : (s.reported r).IsChain (· ≠ ·) := by
  obtain ⟨due, -, changes⟩ := sound.reports r
  have chain : (s.recorded r).dropLast.IsChain (· ≠ ·) := (sound.differ r).dropLast
  rw [changes] at chain
  exact chain.suffix (List.suffix_append due _)

end Laws

end Records

end Fire2
