import Mathlib.Logic.Relation

/-! Runs of a step function, all of whose steps meet a condition on the state
they start from. -/

namespace Fire2.Runs
variable {σ ε : Type} (step : σ → ε → Option σ) (p : σ → ε → Bool)

def runWhen (s : σ) : List ε → Option σ
  | [] => some s
  | a :: as => if p s a then (step s a).bind fun t => runWhen t as else none

def ReachesWhen : σ → σ → Prop :=
  Relation.ReflTransGen fun s t => ∃ a, p s a = true ∧ step s a = some t

abbrev run : σ → List ε → Option σ := runWhen step fun _ _ => true

abbrev Reaches : σ → σ → Prop := ReachesWhen step fun _ _ => true

variable {step p} {s t : σ}

theorem reachesWhen_of_run {as : List ε} (h : runWhen step p s as = some t) :
    ReachesWhen step p s t := by
  induction as generalizing s with
  | nil =>
    cases h
    exact .refl
  | cons a as ih =>
    simp only [runWhen] at h
    split at h
    · rename_i met
      obtain ⟨u, done, rest⟩ := Option.bind_eq_some_iff.1 h
      exact .head ⟨a, met, done⟩ (ih rest)
    · cases h

theorem ReachesWhen.reaches (h : ReachesWhen step p s t) : Reaches step s t :=
  Relation.ReflTransGen.mono (fun _ _ ⟨a, _, done⟩ => ⟨a, rfl, done⟩) s t h

theorem ReachesWhen.invariant {φ : σ → Prop} (h : ReachesWhen step p s t) (first : φ s)
    (preserved : ∀ u v a, φ u → p u a = true → step u a = some v → φ v) : φ t := by
  induction h with
  | refl => exact first
  | tail _ last ih =>
    obtain ⟨a, met, done⟩ := last
    exact preserved _ _ a ih met done

end Fire2.Runs
