import Mathlib.Data.List.Basic

/-! Histories read backwards: the latest entry comes first, and `Since q p`
says that some entry satisfies `p` and none after it satisfies `q`. -/

namespace Fire2.History
variable {α : Type} {p p' q q' : α → Prop} {e : α} {log : List α}

def Since (q p : α → Prop) : List α → Prop
  | [] => False
  | e :: log => p e ∨ ¬ q e ∧ Since q p log

theorem Since.now (h : p e) : Since q p (e :: log) := .inl h

theorem Since.later (h : Since q p log) (quiet : ¬ q e) : Since q p (e :: log) := .inr ⟨quiet, h⟩

theorem Since.here (h : Since q p (e :: log)) (loud : q e) : p e := by
  rcases h with found | ⟨quiet, -⟩
  · exact found
  · exact absurd loud quiet

theorem Since.back (h : Since q p (e :: log)) (other : ¬ p e) : Since q p log := by
  rcases h with found | ⟨-, before⟩
  · exact absurd found other
  · exact before

theorem Since.mono (hp : ∀ e, p e → p' e) (hq : ∀ e, q' e → q e) (h : Since q p log) :
    Since q' p' log := by
  induction log with
  | nil => exact h
  | cons e log ih =>
    rcases h with found | ⟨quiet, before⟩
    · exact .now (hp e found)
    · exact .later (ih before) fun loud => quiet (hq e loud)

theorem since_iff : Since q p log ↔
    ∃ later e earlier, log = later ++ e :: earlier ∧ p e ∧ ∀ x ∈ later, ¬ q x := by
  constructor
  · intro h
    induction log with
    | nil => exact h.elim
    | cons e log ih =>
      rcases h with found | ⟨quiet, before⟩
      · exact ⟨[], e, log, rfl, found, fun _ mem => nomatch mem⟩
      · obtain ⟨later, x, earlier, rfl, found, rest⟩ := ih before
        exact ⟨e :: later, x, earlier, rfl, found, List.forall_mem_cons.2 ⟨quiet, rest⟩⟩
  · rintro ⟨later, e, earlier, rfl, found, quiet⟩
    induction later with
    | nil => exact .now found
    | cons x later ih =>
      obtain ⟨head, rest⟩ := List.forall_mem_cons.1 quiet
      exact .later (ih rest) head

end Fire2.History
