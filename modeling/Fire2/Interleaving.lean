import Mathlib.Logic.Function.Basic
import Mathlib.Logic.Relation

/-! Sequential programs over a shared state, run by any number of threads.

A program reaches the shared state only through calls. One call is one atomic
step; everything an execution may choose (clock, failures, random draws, the
answers of other machines) is the environment value `E` of that step. A call
that has to wait is not enabled. Threads start when the state allows it and
run one call at a time in any order; those of a stoppable kind may also be
interrupted between two calls. External steps stand for the parts of a system
that are not programs.

`WP` is a rely-guarantee precondition: it is stable under whatever the other
threads may do between two calls, and its postcondition holds at the moment
of return. The parallel rule is `safe_step`; `safe_reaches` carries it over
whole runs. -/

namespace Fire2.Interleaving

inductive Prog (C : Type) (A : C → Type) (α : Type) where
  | ret (a : α) : Prog C A α
  | call (c : C) (k : A c → Prog C A α) : Prog C A α

namespace Prog
variable {C C' : Type} {A : C → Type} {A' : C' → Type} {α β : Type}

def bind : Prog C A α → (α → Prog C A β) → Prog C A β
  | .ret a, f => f a
  | .call c k, f => .call c fun r => (k r).bind f

instance : Monad (Prog C A) where
  pure := .ret
  bind := bind

def perform (c : C) : Prog C A (A c) := .call c .ret

@[simp] theorem pure_eq_ret (a : α) : (pure a : Prog C A α) = .ret a := rfl

@[simp] theorem ret_bind (a : α) (f : α → Prog C A β) : (Prog.ret a >>= f) = f a := rfl

@[simp] theorem call_bind (c : C) (k : A c → Prog C A α) (f : α → Prog C A β) :
    (Prog.call c k >>= f) = .call c fun r => k r >>= f := rfl

@[simp] theorem perform_bind (c : C) (f : A c → Prog C A β) :
    ((perform c : Prog C A (A c)) >>= f) = .call c f := rfl

def embed (f : C → C') (g : (c : C) → A' (f c) → A c) : Prog C A α → Prog C' A' α
  | .ret a => .ret a
  | .call c k => .call (f c) fun r => (k (g c r)).embed f g

/-- Every call the program can come to make, as long as the answers satisfy
`V`, satisfies `P`. -/
inductive Asks (V : (c : C) → A c → Prop) (P : C → Prop) : Prog C A α → Prop
  | ret (a : α) : Asks V P (.ret a)
  | call {c : C} {k : A c → Prog C A α} (hc : P c) (hk : ∀ r, V c r → Asks V P (k r)) :
      Asks V P (.call c k)

theorem Asks.bind {V : (c : C) → A c → Prop} {P : C → Prop} {p : Prog C A α}
    {f : α → Prog C A β} (hp : p.Asks V P) (hf : ∀ a, (f a).Asks V P) : (p >>= f).Asks V P := by
  induction hp with
  | ret a => exact hf a
  | call hc _ ih => exact .call hc ih

theorem Asks.mono {V : (c : C) → A c → Prop} {P P' : C → Prop} (h : ∀ c, P c → P' c)
    {p : Prog C A α} (hp : p.Asks V P) : p.Asks V P' := by
  induction hp with
  | ret a => exact .ret a
  | call hc _ ih => exact .call (h _ hc) ih

theorem Asks.weaken {V V' : (c : C) → A c → Prop} {P : C → Prop} (h : ∀ c r, V' c r → V c r)
    {p : Prog C A α} (hp : p.Asks V P) : p.Asks V' P := by
  induction hp with
  | ret a => exact .ret a
  | call hc _ ih => exact .call hc fun r answered => ih r (h _ r answered)

theorem Asks.all {V : (c : C) → A c → Prop} {P : C → Prop} (h : ∀ c, P c) (p : Prog C A α) :
    p.Asks V P := by
  induction p with
  | ret a => exact .ret a
  | call c k ih => exact .call (h c) fun r _ => ih r

/-- On every path whose answers satisfy `V`, unless one that satisfies `seen`
is received first, the result satisfies `R`. -/
inductive Until (V seen : (c : C) → A c → Prop) (R : α → Prop) : Prog C A α → Prop
  | ret {a : α} (h : R a) : Until V seen R (.ret a)
  | call {c : C} {k : A c → Prog C A α} (h : ∀ r, V c r → ¬ seen c r → Until V seen R (k r)) :
      Until V seen R (.call c k)

theorem Until.bind {V seen : (c : C) → A c → Prop} {R : β → Prop} {S : α → Prop}
    {p : Prog C A α} {f : α → Prog C A β} (hp : p.Until V seen S)
    (hf : ∀ a, S a → (f a).Until V seen R) : (p >>= f).Until V seen R := by
  induction hp with
  | ret h => exact hf _ h
  | call _ ih => exact .call ih

/-- Once its calls were answered as listed, what is left of the program. -/
inductive Follows : Prog C A α → List (Sigma A) → Prog C A α → Prop
  | refl (p : Prog C A α) : Follows p [] p
  | call {c : C} {k : A c → Prog C A α} {r : A c} {calls : List (Sigma A)} {q : Prog C A α}
      (h : Follows (k r) calls q) : Follows (.call c k) (⟨c, r⟩ :: calls) q

theorem Follows.trans {p q r : Prog C A α} {calls calls' : List (Sigma A)} (h : p.Follows calls q)
    (h' : q.Follows calls' r) : p.Follows (calls ++ calls') r := by
  induction h with
  | refl => exact h'
  | call _ ih => exact .call (ih h')

end Prog

abbrev Exec (C E σ : Type) (A : C → Type) := Nat → (c : C) → E → σ → Option (A c × σ)

namespace Prog
variable {C E σ α : Type} {A : C → Type} {exec : Exec C E σ A} {i : Nat}

/-- What the program comes to when no other thread moves, given what the
environment chooses at its calls. -/
def alone (exec : Exec C E σ A) (i : Nat) : Prog C A α → List E → σ → Option (α × σ)
  | .ret a, _, s => some (a, s)
  | .call _ _, [], _ => none
  | .call c k, e :: es, s => (exec i c e s).bind fun r => (k r.1).alone exec i es r.2

theorem alone_call {c : C} {k : A c → Prog C A α} {es : List E} {s u : σ} {a : α}
    (h : (Prog.call c k).alone exec i es s = some (a, u)) : ∃ e rest r t, es = e :: rest ∧
      exec i c e s = some (r, t) ∧ (k r).alone exec i rest t = some (a, u) := by
  cases es with
  | nil => cases h
  | cons e rest =>
    obtain ⟨⟨r, t⟩, ran, after⟩ := Option.bind_eq_some_iff.1 h
    exact ⟨e, rest, r, t, rfl, ran, after⟩

abbrev Made (C E : Type) (A : C → Type) := (c : C) × E × A c

/-- The program came to its result by these calls, no other thread moving. -/
inductive Ran (exec : Exec C E σ A) (i : Nat) : Prog C A α → σ → List (Made C E A) → α → σ → Prop
  | ret (a : α) (s : σ) : Ran exec i (.ret a) s [] a s
  | call {c : C} {k : A c → Prog C A α} {e : E} {s t u : σ} {r : A c}
    {calls : List (Made C E A)} {a : α}
      (ran : exec i c e s = some (r, t)) (rest : Ran exec i (k r) t calls a u) :
      Ran exec i (.call c k) s (⟨c, e, r⟩ :: calls) a u

theorem Ran.of_bind {β : Type} {p : Prog C A α} {f : α → Prog C A β}
    {calls : List (Made C E A)} {s u : σ} {b : β} (h : (p >>= f).Ran exec i s calls b u) :
    ∃ before after a t, calls = before ++ after ∧
      p.Ran exec i s before a t ∧ (f a).Ran exec i t after b u := by
  induction p generalizing calls s with
  | ret a => exact ⟨[], calls, a, s, rfl, .ret a s, h⟩
  | call c k ih =>
    cases h with
    | call ran rest =>
      obtain ⟨before, after, a, t, rfl, first, second⟩ := ih _ rest
      exact ⟨_ :: before, after, a, t, rfl, .call ran first, second⟩

theorem Ran.of_perform {c : C} {f : A c → Prog C A α} {calls : List (Made C E A)} {s u : σ} {a : α}
    (h : ((perform c : Prog C A (A c)) >>= f).Ran exec i s calls a u) :
    ∃ e r t rest, calls = ⟨c, e, r⟩ :: rest ∧
      exec i c e s = some (r, t) ∧ (f r).Ran exec i t rest a u := by
  rw [perform_bind] at h
  cases h with
  | call ran rest => exact ⟨_, _, _, _, rfl, ran, rest⟩

theorem Ran.of_ret {a b : α} {calls : List (Made C E A)} {s u : σ}
    (h : (Prog.ret b : Prog C A α).Ran exec i s calls a u) : calls = [] ∧ a = b ∧ u = s := by
  cases h
  exact ⟨rfl, rfl, rfl⟩

def made (exec : Exec C E σ A) (i : Nat) : Prog C A α → List E → σ → List (Made C E A)
  | .call c k, e :: es, s =>
    match exec i c e s with
    | some (r, t) => ⟨c, e, r⟩ :: (k r).made exec i es t
    | none => []
  | _, _, _ => []

theorem ran_of_alone {p : Prog C A α} {es : List E} {s u : σ} {a : α}
    (h : p.alone exec i es s = some (a, u)) : p.Ran exec i s (p.made exec i es s) a u := by
  induction p generalizing es s with
  | ret b =>
    cases h
    exact .ret _ _
  | call c k ih =>
    obtain ⟨e, rest, r, t, rfl, ran, after⟩ := alone_call h
    simp only [made, ran]
    exact .call ran (ih r after)

theorem Asks.ran {V : (c : C) → A c → Prop} {P : C → Prop} {R : σ → σ → Prop}
    (refl : ∀ s, R s s) (trans : ∀ s t u, R s t → R t u → R s u)
    (step : ∀ c e s r t, P c → exec i c e s = some (r, t) → V c r ∧ R s t)
    {p : Prog C A α} (hp : p.Asks V P) {calls : List (Made C E A)} {s u : σ} {a : α}
    (h : p.Ran exec i s calls a u) : R s u ∧ ∀ call ∈ calls, P call.1 := by
  induction h with
  | ret a s => exact ⟨refl s, fun _ mem => nomatch mem⟩
  | call ran _ ih =>
    cases hp with
    | call hc next =>
      obtain ⟨answered, first⟩ := step _ _ _ _ _ hc ran
      obtain ⟨rest, calls⟩ := ih (next _ answered)
      exact ⟨trans _ _ _ first rest, List.forall_mem_cons.2 ⟨hc, calls⟩⟩

theorem Asks.alone {V : (c : C) → A c → Prop} {P : C → Prop} {R : σ → σ → Prop}
    (refl : ∀ s, R s s) (trans : ∀ s t u, R s t → R t u → R s u)
    (step : ∀ c e s r t, P c → exec i c e s = some (r, t) → V c r ∧ R s t)
    {p : Prog C A α} (hp : p.Asks V P) {es : List E} {s u : σ} {a : α}
    (h : p.alone exec i es s = some (a, u)) : R s u :=
  (hp.ran refl trans step (ran_of_alone h)).1

theorem Asks.made {P : C → Prop} {p : Prog C A α} (hp : p.Asks (fun _ _ => True) P)
    {calls : List (Made C E A)} {s u : σ} {a : α} (h : p.Ran exec i s calls a u) :
    ∀ call ∈ calls, P call.1 :=
  (hp.ran (R := fun _ _ => True) (fun _ => trivial) (fun _ _ _ _ _ => trivial)
    (fun _ _ _ _ _ _ _ => ⟨trivial, trivial⟩) h).2

/-- The two programs make the same calls and come to the same result, as long
as the answers they get are related by `V`. -/
inductive Alike (V : (c : C) → A c → A c → Prop) : Prog C A α → Prog C A α → Prop
  | ret (a : α) : Alike V (.ret a) (.ret a)
  | call {c : C} {k k' : A c → Prog C A α} (h : ∀ r r', V c r r' → Alike V (k r) (k' r')) :
      Alike V (.call c k) (.call c k')

theorem Alike.bind {β : Type} {V : (c : C) → A c → A c → Prop} {p p' : Prog C A α}
    {f f' : α → Prog C A β} (hp : p.Alike V p') (hf : ∀ a, (f a).Alike V (f' a)) :
    (p >>= f).Alike V (p' >>= f') := by
  induction hp with
  | ret a => exact hf a
  | call _ ih => exact .call ih

theorem Alike.alone {V : (c : C) → A c → A c → Prop} {R : σ → σ → Prop}
    (step : ∀ c e s s', R s s' → Option.Rel (fun x y => V c x.1 y.1 ∧ R x.2 y.2)
      (exec i c e s) (exec i c e s'))
    {p p' : Prog C A α} (hp : p.Alike V p') (es : List E) {s s' : σ} (related : R s s') :
    (p.alone exec i es s).map Prod.fst = (p'.alone exec i es s').map Prod.fst := by
  induction hp generalizing es s s' with
  | ret a => rfl
  | @call c k k' _ ih =>
    cases es with
    | nil => rfl
    | cons e es =>
      have both := step c e s s' related
      simp only [Prog.alone]
      generalize exec i c e s = x at both
      generalize exec i c e s' = y at both
      cases both with
      | none => rfl
      | some h => exact ih _ _ h.1 es h.2

/-- Calls a program has made, each with the state it met and the one it left,
while others move the state by `R` in between. -/
inductive Amid (exec : Exec C E σ A) (i : Nat) (R : σ → σ → Prop) :
    Prog C A α → σ → List (σ × σ) → Prop
  | refl (p : Prog C A α) (s : σ) : Amid exec i R p s []
  | call {c : C} {k : A c → Prog C A α} {e : E} {s v t : σ} {r : A c}
    {steps : List (σ × σ)} (moved : R s v)
      (ran : exec i c e v = some (r, t)) (rest : Amid exec i R (k r) t steps) :
      Amid exec i R (.call c k) s ((v, t) :: steps)

end Prog

/-- What a group of threads maintains: a state invariant, how every step moves
the state, what the other threads leave alone for a thread, when a call may be
made, and what is assumed of the environment when it is, and of an external
step. -/
structure Spec (C E X σ : Type) where
  Inv : σ → Prop
  Evolves : σ → σ → Prop
  Keeps : Nat → σ → σ → Prop
  Pre : Nat → C → σ → Prop
  Cond : Nat → C → E → σ → Prop
  Out : X → σ → Prop

section Logic
variable {C C' E E' X X' σ τ α β : Type} {A : C → Type} {A' : C' → Type}

def Spec.Rely (D : Spec C E X σ) (i : Nat) (s t : σ) : Prop := D.Evolves s t ∧ D.Keeps i s t

structure Spec.Sound (D : Spec C E X σ) (exec : Exec C E σ A) : Prop where
  evolves_refl : ∀ s, D.Evolves s s
  evolves_trans : ∀ {s t u}, D.Evolves s t → D.Evolves t u → D.Evolves s u
  keeps_refl : ∀ i s, D.Keeps i s s
  keeps_trans : ∀ {i s t u}, D.Keeps i s t → D.Keeps i t u → D.Keeps i s u
  step : ∀ {i c e s a t}, D.Inv s → D.Pre i c s → D.Cond i c e s → exec i c e s = some (a, t) →
    D.Inv t ∧ D.Evolves s t ∧ ∀ j, j ≠ i → D.Keeps j s t

/-- `p` may be run by thread `i` from `s`, with interference before each call. -/
inductive WP (exec : Exec C E σ A) (D : Spec C E X σ) (i : Nat) (Q : α → σ → Prop) :
    Prog C A α → σ → Prop
  | ret {a : α} {s : σ} (h : Q a s) : WP exec D i Q (.ret a) s
  | call {c : C} {k : A c → Prog C A α} {s : σ}
      (pre : ∀ t, D.Inv t → D.Rely i s t → D.Pre i c t)
      (next : ∀ t e a u, D.Inv t → D.Rely i s t → D.Cond i c e t → exec i c e t = some (a, u) →
        D.Inv u → WP exec D i Q (k a) u) : WP exec D i Q (.call c k) s

variable {exec : Exec C E σ A} {D : Spec C E X σ} {i : Nat}

theorem Spec.Sound.rely_refl (h : D.Sound exec) (i : Nat) (s : σ) : D.Rely i s s :=
  ⟨h.evolves_refl s, h.keeps_refl i s⟩

theorem Spec.Sound.rely_trans (h : D.Sound exec) {s t u : σ} (hst : D.Rely i s t)
    (htu : D.Rely i t u) : D.Rely i s u :=
  ⟨h.evolves_trans hst.1 htu.1, h.keeps_trans hst.2 htu.2⟩

theorem WP.result {Q : α → σ → Prop} {a : α} {s : σ} (h : WP exec D i Q (.ret a) s) : Q a s := by
  cases h with
  | ret h => exact h

theorem WP.before (h : D.Sound exec) {Q : α → σ → Prop} {c : C} {k : A c → Prog C A α} {s : σ}
    (hp : WP exec D i Q (.call c k) s) (hs : D.Inv s) : D.Pre i c s := by
  cases hp with
  | call pre _ => exact pre s hs (h.rely_refl i s)

theorem WP.after (h : D.Sound exec) {Q : α → σ → Prop} {c : C} {k : A c → Prog C A α} {s t : σ}
    {e : E} {a : A c} (hp : WP exec D i Q (.call c k) s) (hs : D.Inv s) (hc : D.Cond i c e s)
    (he : exec i c e s = some (a, t)) (ht : D.Inv t) : WP exec D i Q (k a) t := by
  cases hp with
  | call _ next => exact next s e a t hs (h.rely_refl i s) hc he ht

theorem WP.rely (h : D.Sound exec) {Q : α → σ → Prop} {c : C} {k : A c → Prog C A α} {s t : σ}
    (hp : WP exec D i Q (.call c k) s) (hst : D.Rely i s t) : WP exec D i Q (.call c k) t := by
  cases hp with
  | call pre next =>
    exact .call (fun u hu htu => pre u hu (h.rely_trans hst htu))
      fun u e a v hu htu => next u e a v hu (h.rely_trans hst htu)

theorem WP.bind {Q : β → σ → Prop} {R : α → σ → Prop} {p : Prog C A α} {f : α → Prog C A β}
    {s : σ} (hp : WP exec D i R p s) (hf : ∀ a t, R a t → WP exec D i Q (f a) t) :
    WP exec D i Q (p >>= f) s := by
  induction hp with
  | ret h => exact hf _ _ h
  | call pre _ ih => exact .call pre ih

theorem WP.mono {Q Q' : α → σ → Prop} (hQ : ∀ a s, Q a s → Q' a s) {p : Prog C A α} {s : σ}
    (hp : WP exec D i Q p s) : WP exec D i Q' p s := by
  induction hp with
  | ret h => exact .ret (hQ _ _ h)
  | call pre _ ih => exact .call pre ih

theorem WP.step (h : D.Sound exec) {Q : α → σ → Prop} {c : C} {k : A c → Prog C A α} {s : σ}
    (next : ∀ t, D.Inv t → D.Rely i s t → D.Pre i c t ∧ ∀ e a u, D.Cond i c e t →
      exec i c e t = some (a, u) → D.Inv u → D.Evolves s u → WP exec D i Q (k a) u) :
    WP exec D i Q (.call c k) s :=
  .call (fun t inv rely => (next t inv rely).1) fun t e a u inv rely cond ran inv' =>
    (next t inv rely).2 e a u cond ran inv' (h.evolves_trans rely.1
      (h.step inv (next t inv rely).1 cond ran).2.1)

theorem WP.keep (h : D.Sound exec) {φ : σ → Prop} (stable : ∀ s t, φ s → D.Evolves s t → φ t)
    {Q : α → σ → Prop} {p : Prog C A α} {s : σ} (hs : φ s) (hp : WP exec D i Q p s) :
    WP exec D i (fun a t => Q a t ∧ φ t) p s := by
  induction hp with
  | ret h => exact .ret ⟨h, hs⟩
  | call pre _ ih =>
    refine .call pre fun t e a u inv rely cond ran inv' => ?_
    have moved := h.evolves_trans rely.1 (h.step inv (pre t inv rely) cond ran).2.1
    exact ih t e a u inv rely cond ran inv' (stable _ u hs moved)

theorem WP.within {V : (c : C) → A c → Prop} {P : C → Prop} {φ : σ → Prop}
    (stable : ∀ s t, φ s → D.Rely i s t → φ t) (hP : ∀ c s, P c → D.Inv s → φ s → D.Pre i c s)
    (own : ∀ c e s r t, P c → D.Inv s → φ s → D.Cond i c e s →
      exec i c e s = some (r, t) → V c r ∧ φ t)
    {p : Prog C A α} {s : σ} (hp : p.Asks V P) (hs : φ s) : WP exec D i (fun _ t => φ t) p s := by
  induction hp generalizing s with
  | ret a => exact .ret hs
  | call hc _ ih =>
    refine .call (fun t ht hst => hP _ t hc ht (stable s t hs hst)) ?_
    intro t e a u ht hst cond ran _
    obtain ⟨answered, after⟩ := own _ e t a u hc ht (stable s t hs hst) cond ran
    exact ih a answered after

theorem WP.of_asks (h : D.Sound exec) {V : (c : C) → A c → Prop} {P : C → Prop} {φ : σ → Prop}
    (stable : ∀ s t, φ s → D.Evolves s t → φ t) (hP : ∀ c s, P c → D.Inv s → φ s → D.Pre i c s)
    (hV : ∀ c e s r t, exec i c e s = some (r, t) → V c r) {p : Prog C A α} {s : σ}
    (hp : p.Asks V P) (hs : φ s) : WP exec D i (fun _ t => φ t) p s := by
  refine .within (fun s t here rely => stable s t here rely.1) hP
    (fun c e s r t hc inv here cond ran => ?_) hp hs
  exact ⟨hV c e s r t ran, stable s t here (h.step inv (hP c s hc inv here) cond ran).2.1⟩

theorem WP.embed {exec' : Exec C' E' τ A'} {D' : Spec C' E' X' τ} {view : τ → σ} {f : C → C'}
    {g : (c : C) → A' (f c) → A c} (hI : ∀ s, D'.Inv s → D.Inv (view s))
    (hR : ∀ s t, D'.Rely i s t → D.Rely i (view s) (view t))
    (hP : ∀ c s, D'.Inv s → D.Pre i c (view s) → D'.Pre i (f c) s)
    (hE : ∀ c e s a t, D'.Inv s → D'.Cond i (f c) e s → exec' i (f c) e s = some (a, t) →
      ∃ e', D.Cond i c e' (view s) ∧ exec i c e' (view s) = some (g c a, view t))
    {Q : α → σ → Prop} {p : Prog C A α} {s : τ} {v : σ} (hv : v = view s)
    (hp : WP exec D i Q p v) : WP exec' D' i (fun a t => Q a (view t)) (p.embed f g) s := by
  induction hp generalizing s with
  | ret h =>
    subst hv
    exact .ret h
  | call pre _ ih =>
    subst hv
    refine .call (fun t ht hst => hP _ t ht (pre _ (hI t ht) (hR s t hst))) ?_
    intro t e a u ht hst hc he hu
    obtain ⟨e', hc', he'⟩ := hE _ e t a u ht hc he
    exact ih _ e' _ _ (hI t ht) (hR s t hst) hc' he' (hI u hu) rfl

theorem WP.lift {exec' : Exec C E' τ A} {D' : Spec C E' X' τ} (h' : D'.Sound exec') (view : τ → σ)
    (hI : ∀ s, D'.Inv s → D.Inv (view s)) (hR : ∀ s t, D'.Rely i s t → D.Rely i (view s) (view t))
    (hE : ∀ c e s a t, D'.Inv s → D'.Cond i c e s → exec' i c e s = some (a, t) →
      ∃ e', D.Cond i c e' (view s) ∧ exec i c e' (view s) = some (a, view t))
    {V : (c : C) → A c → Prop} {P : C → Prop} {φ : τ → Prop}
    (stable : ∀ s t, φ s → D'.Evolves s t → φ t)
    (hP : ∀ c s, P c → D'.Inv s → φ s → D.Pre i c (view s) → D'.Pre i c s)
    (hV : ∀ c e s r t, exec' i c e s = some (r, t) → V c r) {Q : α → σ → Prop} {p : Prog C A α}
    {s : τ} {v : σ} (hv : v = view s) (asks : p.Asks V P) (hs : φ s) (hp : WP exec D i Q p v) :
    WP exec' D' i (fun a t => Q a (view t) ∧ φ t) p s := by
  induction hp generalizing s with
  | ret h =>
    subst hv
    exact .ret ⟨h, hs⟩
  | call pre _ ih =>
    subst hv
    cases asks with
    | call hc next =>
      have may (t : τ) (ht : D'.Inv t) (hst : D'.Rely i s t) : D'.Pre i _ t :=
        hP _ t hc ht (stable s t hs hst.1) (pre _ (hI t ht) (hR s t hst))
      refine .call may fun t e a u ht hst hcond ran hu => ?_
      obtain ⟨e', hc', he'⟩ := hE _ e t a u ht hcond ran
      have evolved := h'.evolves_trans hst.1 (h'.step ht (may t ht hst) hcond ran).2.1
      exact ih _ e' _ _ (hI t ht) (hR s t hst) hc' he' (hI u hu) rfl (next a (hV _ e t a u ran))
        (stable s u hs evolved)

theorem WP.both {exec' : Exec C E' τ A} {D' : Spec C E' X' τ}
    {P : Nat → C → τ → Prop} (view : τ → σ) (hI : ∀ s, D'.Inv s → D.Inv (view s))
    (hR : ∀ s t, D'.Rely i s t → D.Rely i (view s) (view t))
    (hP : ∀ c s, D.Pre i c (view s) → P i c s → D'.Pre i c s)
    (hE : ∀ c e s a t, D'.Cond i c e s → exec' i c e s = some (a, t) →
      ∃ e', D.Cond i c e' (view s) ∧ exec i c e' (view s) = some (a, view t))
    {Q : α → σ → Prop} {Q' : α → τ → Prop} {p : Prog C A α} {s : τ} {v : σ} (hv : v = view s)
    (hp : WP exec D i Q p v) (hp' : WP exec' { D' with Pre := P } i Q' p s) :
    WP exec' D' i (fun a t => Q a (view t) ∧ Q' a t) p s := by
  induction hp generalizing s with
  | ret h =>
    subst hv
    exact .ret ⟨h, hp'.result⟩
  | call pre _ ih =>
    subst hv
    cases hp' with
    | call pre' next' =>
      refine .call (fun t ht hst => hP _ t (pre _ (hI t ht) (hR s t hst)) (pre' t ht hst)) ?_
      intro t e a u ht hst hc he hu
      obtain ⟨e', hc', he'⟩ := hE _ e t a u hc he
      exact ih _ e' _ _ (hI t ht) (hR s t hst) hc' he' (hI u hu) rfl (next' t e a u ht hst hc he hu)

end Logic

/-- Programs, the calls they make and the rest of a system. -/
structure System (K C E X α σ : Type) (A : C → Type) where
  exec : Exec C E σ A
  body : K → Prog C A α
  start : Nat → K → σ → Option σ
  stoppable : K → Bool
  ext : X → σ → Option σ

structure Thread (K C α : Type) (A : C → Type) where
  kind : K
  prog : Prog C A α

/-- Thread identifiers are never reused: `next` is the first free one. -/
structure Config (K C α σ : Type) (A : C → Type) where
  shared : σ
  next : Nat
  threads : Nat → Option (Thread K C α A)

inductive Action (K E X : Type) where
  | spawn (k : K)
  | call (i : Nat) (e : E)
  | stop (i : Nat)
  | ext (x : X)

namespace System
variable {K C E X α σ : Type} {A : C → Type} {a : Action K E X} {as : List (Action K E X)}

def init (s : σ) : Config K C α σ A := ⟨s, 0, fun _ => none⟩

def step (S : System K C E X α σ A) (s : Config K C α σ A) :
    Action K E X → Option (Config K C α σ A)
  | .spawn k => (S.start s.next k s.shared).map fun t =>
      ⟨t, s.next + 1, Function.update s.threads s.next (some ⟨k, S.body k⟩)⟩
  | .call i e =>
      match s.threads i with
      | some ⟨k, .call c f⟩ => (S.exec i c e s.shared).map fun r =>
          ⟨r.2, s.next, Function.update s.threads i (some ⟨k, f r.1⟩)⟩
      | _ => none
  | .stop i =>
      match s.threads i with
      | some ⟨k, _⟩ =>
          if S.stoppable k then some ⟨s.shared, s.next, Function.update s.threads i none⟩ else none
      | none => none
  | .ext x => (S.ext x s.shared).map fun t => ⟨t, s.next, s.threads⟩

def Meets (P : Nat → C → E → σ → Prop) (R : X → σ → Prop) (s : Config K C α σ A) :
    Action K E X → Prop
  -- what a condition on calls and one on external steps say of an action
  | .call i e => ∀ k c f, s.threads i = some ⟨k, .call c f⟩ → P i c e s.shared
  | .ext x => R x s.shared
  | _ => True

def run (S : System K C E X α σ A) (s : Config K C α σ A) :
    List (Action K E X) → Option (Config K C α σ A)
  | [] => some s
  | a :: as => (S.step s a).bind fun t => S.run t as

def ReachesIf (S : System K C E X α σ A) (P : Nat → C → E → σ → Prop) (R : X → σ → Prop) :
    Config K C α σ A → Config K C α σ A → Prop :=
  Relation.ReflTransGen fun s t => ∃ a, Meets P R s a ∧ S.step s a = some t

def Reaches (S : System K C E X α σ A) : Config K C α σ A → Config K C α σ A → Prop :=
  S.ReachesIf (fun _ _ _ _ => True) fun _ _ => True

variable {S : System K C E X α σ A} {s t u : Config K C α σ A} {P : Nat → C → E → σ → Prop}
  {R : X → σ → Prop}

theorem meets_of_forall (h : ∀ i c e v, P i c e v) (h' : ∀ x v, R x v) (a : Action K E X) :
    Meets P R s a := by
  cases a with
  | call i e => exact fun _ c _ _ => h i c e _
  | spawn _ => trivial
  | stop _ => trivial
  | ext x => exact h' x _

theorem Reaches.single (h : S.step s a = some t) : S.Reaches s t :=
  Relation.ReflTransGen.single ⟨a, meets_of_forall (fun _ _ _ _ => trivial)
    (fun _ _ => trivial) a, h⟩

theorem run_cons (h : S.run s (a :: as) = some t) :
    ∃ u, S.step s a = some u ∧ S.run u as = some t := by
  simpa only [run, Option.bind_eq_some_iff] using h

theorem run_append {as bs : List (Action K E X)} (h : S.run s as = some t)
    (h' : S.run t bs = some u) : S.run s (as ++ bs) = some u := by
  induction as generalizing s with
  | nil =>
    cases h
    exact h'
  | cons a as ih =>
    obtain ⟨v, hv, rest⟩ := run_cons h
    simp only [List.cons_append, run, hv, Option.bind_some, ih rest]

theorem run_concat
    (h : S.run s (as ++ [a]) = some t) : ∃ u, S.run s as = some u ∧ S.step u a = some t := by
  induction as generalizing s with
  | nil =>
    obtain ⟨u, hu, done⟩ := run_cons h
    cases done
    exact ⟨s, rfl, hu⟩
  | cons b as ih =>
    obtain ⟨v, hv, rest⟩ := run_cons h
    obtain ⟨u, hu, last⟩ := ih rest
    exact ⟨u, by simp only [run, hv, Option.bind_some, hu], last⟩

theorem reaches_of_run (h : S.run s as = some t) : S.Reaches s t := by
  induction as generalizing s with
  | nil =>
    cases h
    exact .refl
  | cons a as ih =>
    obtain ⟨u, hu, rest⟩ := run_cons h
    exact .head ⟨a, meets_of_forall (fun _ _ _ _ => trivial) (fun _ _ => trivial) a, hu⟩ (ih rest)

theorem ReachesIf.mono {P' : Nat → C → E → σ → Prop} {R' : X → σ → Prop}
    (hP : ∀ i c e v, P i c e v → P' i c e v) (hR : ∀ x v, R x v → R' x v)
    (h : S.ReachesIf P R s t) : S.ReachesIf P' R' s t := by
  refine Relation.ReflTransGen.mono (fun u v => ?_) s t h
  rintro ⟨a, met, ha⟩
  refine ⟨a, ?_, ha⟩
  cases a with
  | call i e => exact fun k c f hi => hP i c e _ (met k c f hi)
  | ext x => exact hR x _ met
  | spawn _ => trivial
  | stop _ => trivial

theorem ReachesIf.reaches (h : S.ReachesIf P R s t) : S.Reaches s t :=
  h.mono (fun _ _ _ _ _ => trivial) fun _ _ _ => trivial

section Conditions
variable (S) (p : Nat → C → E → σ → Bool) (r : X → σ → Bool)

/-- `Meets` for conditions that can be evaluated. -/
def meets (s : Config K C α σ A) : Action K E X → Bool
  | .call i e =>
      match s.threads i with
      | some ⟨_, .call c _⟩ => p i c e s.shared
      | _ => true
  | .ext x => r x s.shared
  | _ => true

def runIf (s : Config K C α σ A) : List (Action K E X) → Option (Config K C α σ A)
  | [] => some s
  | a :: as => if meets p r s a then (S.step s a).bind fun t => runIf t as else none

def ReachesWhen : Config K C α σ A → Config K C α σ A → Prop :=
  S.ReachesIf (fun i c e v => p i c e v = true) fun x v => r x v = true

variable {S p r}

theorem meets_iff {a : Action K E X} : meets p r s a = true ↔
    Meets (fun i c e v => p i c e v = true) (fun x v => r x v = true) s a := by
  cases a with
  | call i e =>
    simp only [meets, Meets]
    split
    · rename_i k c f hi
      exact ⟨fun h _ _ _ eq => by cases hi.symm.trans eq; exact h, fun h => h k c f hi⟩
    · rename_i other
      exact ⟨fun _ k c f eq => (other k c f eq).elim, fun _ => rfl⟩
  | spawn _ | stop _ => exact ⟨fun _ => trivial, fun _ => rfl⟩
  | ext x => exact .rfl

theorem reachesWhen_of_runIf {as : List (Action K E X)} (h : S.runIf p r s as = some t) :
    S.ReachesWhen p r s t := by
  induction as generalizing s with
  | nil =>
    cases h
    exact .refl
  | cons a as ih =>
    simp only [runIf] at h
    split at h
    · rename_i met
      obtain ⟨u, hu, rest⟩ := Option.bind_eq_some_iff.1 h
      exact .head ⟨a, meets_iff.1 met, hu⟩ (ih rest)
    · cases h

end Conditions

theorem threads_update {Q : Nat → Thread K C α A → Prop} {f : Nat → Option (Thread K C α A)}
    {i : Nat} {v : Option (Thread K C α A)} (old : ∀ j th, j ≠ i → f j = some th → Q j th)
    (new : ∀ th, some th = v → Q i th) (j : Nat) (th : Thread K C α A)
    (h : Function.update f i v j = some th) : Q j th := by
  by_cases hj : j = i
  · subst hj
    rw [Function.update_self] at h
    exact new th h.symm
  · rw [Function.update_of_ne hj] at h
    exact old j th hj h

theorem step_call {i : Nat} {e : E} {k : K} {c : C} {f : A c → Prog C A α} {r : A c} {v : σ}
    (thread : s.threads i = some ⟨k, .call c f⟩) (ran : S.exec i c e s.shared = some (r, v)) :
    S.step s (.call i e) = some ⟨v, s.next, Function.update s.threads i (some ⟨k, f r⟩)⟩ := by
  simp only [step, thread, ran, Option.map_some]

theorem step_cases {a : Action K E X} (h : S.step s a = some t) :
    (∃ k v, a = .spawn k ∧ S.start s.next k s.shared = some v ∧
      t = ⟨v, s.next + 1, Function.update s.threads s.next (some ⟨k, S.body k⟩)⟩) ∨
    (∃ i e k c f r v, a = .call i e ∧ s.threads i = some ⟨k, .call c f⟩ ∧
      S.exec i c e s.shared = some (r, v) ∧
      t = ⟨v, s.next, Function.update s.threads i (some ⟨k, f r⟩)⟩) ∨
    (∃ i th, a = .stop i ∧ s.threads i = some th ∧ S.stoppable th.kind = true ∧
      t = ⟨s.shared, s.next, Function.update s.threads i none⟩) ∨
    (∃ x v, a = .ext x ∧ S.ext x s.shared = some v ∧ t = ⟨v, s.next, s.threads⟩) := by
  cases a with
  | spawn k =>
    simp only [step, Option.map_eq_some_iff] at h
    obtain ⟨v, hv, rfl⟩ := h
    exact .inl ⟨k, v, rfl, hv, rfl⟩
  | call i e =>
    simp only [step] at h
    split at h
    · rename_i k c f hi
      obtain ⟨⟨r, v⟩, hr, rfl⟩ := Option.map_eq_some_iff.1 h
      exact .inr (.inl ⟨i, e, k, c, f, r, v, rfl, hi, hr, rfl⟩)
    · cases h
  | stop i =>
    simp only [step] at h
    split at h
    · rename_i k p hi
      split at h
      · exact .inr (.inr (.inl ⟨i, _, rfl, hi, by assumption, (Option.some.inj h).symm⟩))
      · cases h
    · cases h
  | ext x =>
    simp only [step, Option.map_eq_some_iff] at h
    obtain ⟨v, hv, rfl⟩ := h
    exact .inr (.inr (.inr ⟨x, v, rfl, hv, rfl⟩))

section Views
variable {τ : Type} {T : System K C E X α τ A} {view : σ → τ}

def viewed (view : σ → τ) (s : Config K C α σ A) : Config K C α τ A :=
  ⟨view s.shared, s.next, s.threads⟩

/-- `S` runs the programs of `T`, on a state that has more to it. -/
structure Refines (S : System K C E X α σ A) (T : System K C E X α τ A) (view : σ → τ) : Prop where
  body : T.body = S.body
  stoppable : T.stoppable = S.stoppable
  exec : ∀ i c e s a t, S.exec i c e s = some (a, t) → T.exec i c e (view s) = some (a, view t)
  start : ∀ i k s t, S.start i k s = some t → T.start i k (view s) = some (view t)
  ext : ∀ x s t, S.ext x s = some t → T.ext x (view s) = some (view t)

theorem Refines.step (h : Refines S T view) {a : Action K E X} (moves : S.step s a = some t) :
    T.step (viewed view s) a = some (viewed view t) := by
  obtain ⟨k, v, rfl, hv, rfl⟩ | ⟨i, e, k, c, f, r, v, rfl, hi, hr, rfl⟩ |
    ⟨i, th, rfl, hi, may, rfl⟩ | ⟨x, v, rfl, hv, rfl⟩ := step_cases moves
  · simp [System.step, viewed, h.start _ _ _ _ hv, h.body]
  · simp [System.step, viewed, hi, h.exec _ _ _ _ _ _ hr]
  · obtain ⟨k, p⟩ := th
    simp [System.step, viewed, hi, h.stoppable, may]
  · simp [System.step, viewed, h.ext _ _ _ hv]

theorem Refines.reachesIf (h : Refines S T view) {P' : Nat → C → E → τ → Prop} {R' : X → τ → Prop}
    (run : S.ReachesIf (fun i c e v => P' i c e (view v)) (fun x v => R' x (view v)) s t) :
    T.ReachesIf P' R' (viewed view s) (viewed view t) := by
  induction run with
  | refl => exact .refl
  | tail _ last ih =>
    obtain ⟨a, met, moves⟩ := last
    refine ih.tail ⟨a, ?_, h.step moves⟩
    cases a with
    | call i e => exact met
    | ext x => exact met
    | spawn _ => trivial
    | stop _ => trivial

/-- `S` does what `T` does and keeps more of it. -/
structure Observes (S : System K C E X α σ A) (T : System K C E X α τ A) (view : σ → τ) : Prop where
  body : T.body = S.body
  stoppable : T.stoppable = S.stoppable
  exec : ∀ i c e s, T.exec i c e (view s) = (S.exec i c e s).map fun r => (r.1, view r.2)
  start : ∀ i k s, T.start i k (view s) = (S.start i k s).map view
  ext : ∀ x s, T.ext x (view s) = (S.ext x s).map view

theorem Observes.step (h : Observes S T view) (a : Action K E X) :
    T.step (viewed view s) a = (S.step s a).map (viewed view) := by
  cases a with
  | spawn k =>
    simp only [System.step, viewed, h.start, h.body, Option.map_map]
    rfl
  | call i e =>
    simp only [System.step, viewed]
    split
    · rw [h.exec, Option.map_map, Option.map_map]
      rfl
    · rfl
  | stop i =>
    simp only [System.step, viewed, h.stoppable]
    split
    · split <;> rfl
    · rfl
  | ext x =>
    simp only [System.step, viewed, h.ext, Option.map_map]
    rfl

theorem Observes.run (h : Observes S T view) (as : List (Action K E X)) :
    T.run (viewed view s) as = (S.run s as).map (viewed view) := by
  induction as generalizing s with
  | nil => rfl
  | cons a as ih =>
    simp only [System.run, h.step]
    cases S.step s a with
    | none => rfl
    | some t => exact ih

end Views

section Guards
variable {F : Nat → σ → Prop} [∀ i s, Decidable (F i s)]

def guarded (S : System K C E X α σ A) (F : Nat → σ → Prop) [∀ i s, Decidable (F i s)] :
    System K C E X α σ A :=
  { S with start := fun i k s => if F i s then S.start i k s else none }

theorem reaches_guarded (h : ∀ u, S.Reaches s u → F u.next u.shared) (run : S.Reaches s t) :
    (S.guarded F).Reaches s t := by
  induction run with
  | refl => exact .refl
  | @tail u v before last ih =>
    obtain ⟨a, met, step⟩ := last
    have moves : (S.guarded F).step u a = some v := by
      cases a with
      | spawn k => simpa only [System.step, guarded, if_pos (h u before)] using step
      | call i e => exact step
      | stop i => exact step
      | ext x => exact step
    exact ih.tail ⟨a, meets_of_forall (fun _ _ _ _ => trivial) (fun _ _ => trivial) a, moves⟩

end Guards

section Watched
variable {i : Nat} {k : K} {a : Action K E X}

def Started (s : Config K C α σ A) (i : Nat) : Prop := i < s.next

theorem spawned (h : S.step s (.spawn k) = some t) :
    Started t s.next ∧ t.threads s.next = some ⟨k, S.body k⟩ := by
  obtain ⟨v, -, rfl⟩ := Option.map_eq_some_iff.1 h
  exact ⟨Nat.lt_succ_self _, Function.update_self _ _ _⟩

theorem started_step (hs : Started s i) (h : S.step s a = some t) :
    Started t i := by
  obtain ⟨_, _, -, -, rfl⟩ | ⟨_, _, _, _, _, _, _, -, -, -, rfl⟩ | ⟨_, _, -, -, -, rfl⟩ |
    ⟨_, _, -, -, rfl⟩ := step_cases h
  · exact Nat.lt_succ_of_lt hs
  all_goals exact hs

theorem started_of_thread {v : σ} (h : S.Reaches (init v) t) {th : Thread K C α A}
    (ht : t.threads i = some th) : Started t i := by
  induction h generalizing i th with
  | refl => cases ht
  | tail _ last ih =>
    obtain ⟨a, -, ha⟩ := last
    obtain ⟨_, _, -, -, rfl⟩ | ⟨_, _, _, _, _, _, _, -, hj, -, rfl⟩ | ⟨_, _, -, hj, -, rfl⟩ |
      ⟨_, _, -, -, rfl⟩ := step_cases ha
    · refine threads_update (Q := fun j _ => j < _) (fun j th _ hj => ?_) (fun _ _ => ?_) i th ht
      · exact Nat.lt_succ_of_lt (ih hj)
      · exact Nat.lt_succ_self _
    · exact threads_update (Q := fun j _ => j < _) (fun j th _ hj => ih hj)
        (fun _ _ => ih hj) i th ht
    · exact threads_update (Q := fun j _ => j < _) (fun j th _ hj => ih hj)
        (fun _ _ => ih hj) i th ht
    · exact ih ht

theorem thread_step (hs : Started s i) (h : S.step s a = some t) :
    t.threads i = s.threads i ∨ t.threads i = none ∨
    ∃ e k c f r, a = .call i e ∧ s.threads i = some ⟨k, .call c f⟩ ∧
      S.exec i c e s.shared = some (r, t.shared) ∧ t.threads i = some ⟨k, f r⟩ := by
  obtain ⟨k, v, -, -, rfl⟩ | ⟨j, e, k, c, f, r, v, ha, hj, hr, rfl⟩ | ⟨j, th, -, -, -, rfl⟩ |
    ⟨x, v, -, -, rfl⟩ := step_cases h
  · exact .inl (Function.update_of_ne (Nat.ne_of_lt hs) _ _)
  · by_cases hij : i = j
    · subst hij
      exact .inr (.inr ⟨e, k, c, f, r, ha, hj, hr, Function.update_self _ _ _⟩)
    · exact .inl (Function.update_of_ne hij _ _)
  · by_cases hij : i = j
    · subst hij
      exact .inr (.inl (Function.update_self _ _ _))
    · exact .inl (Function.update_of_ne hij _ _)
  · exact .inl rfl

theorem kind_step (hs : Started s i) (h : S.step s a = some t)
    (known : ∀ th, s.threads i = some th → th.kind = k) :
    ∀ th, t.threads i = some th → th.kind = k := by
  intro th ht
  obtain same | gone | ⟨e, k', c, f, r, -, at_call, -, moved⟩ := thread_step hs h
  · exact known th (same.symm.trans ht)
  · cases gone.symm.trans ht
  · have same := known _ at_call
    cases moved.symm.trans ht
    exact same

theorem thread_kept {p : Prog C A α} (unstoppable : ∀ k, S.stoppable k = false)
    (hs : Started s i) (h : S.step s a = some t) (hi : s.threads i = some ⟨k, p⟩) :
    ∃ q, t.threads i = some ⟨k, q⟩ := by
  obtain ⟨_, _, -, -, rfl⟩ | ⟨j, _, _, _, _, _, _, -, hj, -, rfl⟩ | ⟨_, th, -, -, stopped, -⟩ |
    ⟨_, _, -, -, rfl⟩ := step_cases h
  · exact ⟨p, (Function.update_of_ne (Nat.ne_of_lt hs) _ _).trans hi⟩
  · by_cases same : i = j
    · subst same
      cases hi.symm.trans hj
      exact ⟨_, Function.update_self _ _ _⟩
    · exact ⟨p, (Function.update_of_ne same _ _).trans hi⟩
  · cases (unstoppable th.kind).symm.trans stopped
  · exact ⟨p, hi⟩

theorem thread_origin {q : Prog C A α} (h : S.step s a = some t) (ht : t.threads i = some ⟨k, q⟩) :
    (∃ p, s.threads i = some ⟨k, p⟩) ∨ a = .spawn k ∧ i = s.next := by
  obtain ⟨k', v, rfl, -, rfl⟩ | ⟨j, _, k', _, f, r, _, -, hj, -, rfl⟩ | ⟨j, th, -, hj, -, rfl⟩ |
    ⟨_, _, -, -, rfl⟩ := step_cases h
  · by_cases new : i = s.next
    · subst new
      cases (Function.update_self s.next _ s.threads).symm.trans ht
      exact .inr ⟨rfl, rfl⟩
    · exact .inl ⟨q, (Function.update_of_ne new _ _).symm.trans ht⟩
  · by_cases same : i = j
    · subst same
      cases (Function.update_self i _ s.threads).symm.trans ht
      exact .inl ⟨_, hj⟩
    · exact .inl ⟨q, (Function.update_of_ne same _ _).symm.trans ht⟩
  · by_cases same : i = j
    · subst same
      cases (Function.update_self i _ s.threads).symm.trans ht
    · exact .inl ⟨q, (Function.update_of_ne same _ _).symm.trans ht⟩
  · exact .inl ⟨q, ht⟩

theorem gone_run {as : List (Action K E X)} (hs : Started s i) (hi : s.threads i = none)
    (h : S.run s as = some t) : t.threads i = none := by
  induction as generalizing s with
  | nil =>
    cases h
    exact hi
  | cons a as ih =>
    obtain ⟨u, hu, rest⟩ := run_cons h
    refine ih (started_step hs hu) ?_ rest
    obtain same | gone | ⟨_, _, _, _, _, -, at_call, -⟩ := thread_step hs hu
    · rw [same, hi]
    · exact gone
    · rw [hi] at at_call
      cases at_call

theorem until_run {V seen : (c : C) → A c → Prop} {R : α → Prop} {Shown : σ → Prop}
    (hV : ∀ c e v r w, S.exec i c e v = some (r, w) → V c r)
    (hseen : ∀ c e v r w, S.exec i c e v = some (r, w) → seen c r → Shown v ∨ Shown w)
    {as : List (Action K E X)} {p : Prog C A α} {a : α} (hs : Started s i)
    (hi : s.threads i = some ⟨k, p⟩) (hp : p.Until V seen R) (h : S.run s as = some t)
    {k' : K} (ht : t.threads i = some ⟨k', .ret a⟩) :
    R a ∨ ∃ before after u, as = before ++ after ∧ S.run s before = some u ∧ Shown u.shared := by
  induction as generalizing s p with
  | nil =>
    cases h
    rw [hi] at ht
    cases ht
    cases hp with
    | ret done => exact .inl done
  | cons x as ih =>
    obtain ⟨u, hu, rest⟩ := run_cons h
    have later (found : R a ∨ ∃ before after w, as = before ++ after ∧
        S.run u before = some w ∧ Shown w.shared) :
        R a ∨ ∃ before after w, x :: as = before ++ after ∧ S.run s before = some w ∧
          Shown w.shared := by
      obtain done | ⟨before, after, w, rfl, hw, shown⟩ := found
      · exact .inl done
      · exact .inr ⟨x :: before, after, w, rfl, by simp only [run, hu, Option.bind_some, hw], shown⟩
    obtain same | gone | ⟨e, k, c, f, r, -, at_call, hr, moved⟩ := thread_step hs hu
    · exact later (ih (started_step hs hu) (same.trans hi) hp rest)
    · rw [gone_run (started_step hs hu) gone rest] at ht
      cases ht
    · rw [hi] at at_call
      cases at_call
      cases hp with
      | call next =>
        by_cases shown : seen c r
        · obtain now | then_ := hseen c e _ _ _ hr shown
          · exact .inr ⟨[], x :: as, s, rfl, rfl, now⟩
          · exact .inr ⟨[x], as, u, rfl, by simp only [run, hu, Option.bind_some], then_⟩
        · exact later (ih (started_step hs hu) moved (next r (hV c e _ r _ hr) shown) rest)

end Watched

section Asking
variable {V : (c : C) → A c → Prop} {P : K → C → Prop}

def Asking (V : (c : C) → A c → Prop) (P : K → C → Prop) (s : Config K C α σ A) : Prop :=
  ∀ i th, s.threads i = some th → th.prog.Asks V (P th.kind)

theorem asking_step (hV : ∀ i c e v r w, S.exec i c e v = some (r, w) → V c r)
    (body : ∀ k, (S.body k).Asks V (P k)) {a : Action K E X} (hs : Asking V P s)
    (h : S.step s a = some t) : Asking V P t := by
  obtain ⟨k, v, -, -, rfl⟩ | ⟨i, e, k, c, f, r, v, -, hi, hr, rfl⟩ | ⟨i, th, -, -, -, rfl⟩ |
    ⟨x, v, -, -, rfl⟩ := step_cases h
  · refine threads_update (fun j th _ hj => hs j th hj) ?_
    rintro th ⟨⟩
    exact body k
  · refine threads_update (fun j th _ hj => hs j th hj) ?_
    rintro th ⟨⟩
    cases hs i _ hi with
    | call _ next => exact next r (hV i c e _ r v hr)
  · refine threads_update (fun j th _ hj => hs j th hj) ?_
    rintro th ⟨⟩
  · exact hs

theorem asking_reaches (hV : ∀ i c e v r w, S.exec i c e v = some (r, w) → V c r)
    (body : ∀ k, (S.body k).Asks V (P k)) {v : σ} (h : S.Reaches (init v) t) : Asking V P t := by
  induction h with
  | refl => exact fun _ _ hi => nomatch hi
  | tail _ last ih =>
    obtain ⟨a, -, ha⟩ := last
    exact asking_step hV body ih ha

theorem Asking.call (hs : Asking V P s) {i : Nat} {k : K} {c : C} {f : A c → Prog C A α}
    (hi : s.threads i = some ⟨k, .call c f⟩) : P k c := by
  cases hs i _ hi with
  | call hc _ => exact hc

end Asking

section Parallel
variable (S) (D : Spec C E X σ) (Q : Nat → K → α → σ → Prop)

/-- The invariant holds and every thread may continue from here. -/
structure Safe (s : Config K C α σ A) : Prop where
  inv : D.Inv s.shared
  thread : ∀ i k c f, s.threads i = some ⟨k, .call c f⟩ →
    WP S.exec D i (Q i k) (.call c f) s.shared

/-- What the parallel rule asks: the calls respect the specification, a thread
is only started where its body may run, and external steps keep to the rely. -/
structure Disciplined : Prop where
  sound : D.Sound S.exec
  start : ∀ i k s t, D.Inv s → S.start i k s = some t →
    D.Inv t ∧ D.Evolves s t ∧ (∀ j, j ≠ i → D.Keeps j s t) ∧ WP S.exec D i (Q i k) (S.body k) t
  ext : ∀ x s t, D.Inv s → D.Out x s → S.ext x s = some t →
    D.Inv t ∧ D.Evolves s t ∧ ∀ j, D.Keeps j s t

variable {S D Q}

theorem safe_init {v : σ} (h : D.Inv v) : S.Safe D Q (init v) :=
  ⟨h, fun _ _ _ _ hi => by cases hi⟩

theorem safe_step (H : S.Disciplined D Q) {a : Action K E X} (hs : S.Safe D Q s)
    (hm : Meets D.Cond D.Out s a) (h : S.step s a = some t) :
    S.Safe D Q t ∧ D.Evolves s.shared t.shared := by
  -- a thread that does not move is carried across by the rely
  have keep {v : σ} (hv : D.Evolves s.shared v) {j : Nat} (hj : D.Keeps j s.shared v)
      {th : Thread K C α A} (hth : s.threads j = some th) (k : K) (c : C) (f : A c → Prog C A α)
      (e : th = ⟨k, .call c f⟩) : WP S.exec D j (Q j k) (.call c f) v :=
    (hs.thread j k c f (e ▸ hth)).rely H.sound ⟨hv, hj⟩
  obtain ⟨k, v, rfl, hv, rfl⟩ | ⟨i, e, k, c, f, r, v, rfl, hi, hr, rfl⟩ |
    ⟨i, th, rfl, -, -, rfl⟩ | ⟨x, v, rfl, hv, rfl⟩ := step_cases h
  · obtain ⟨inv, ev, keeps, body⟩ := H.start _ k _ _ hs.inv hv
    refine ⟨⟨inv, fun i k' c f hi => ?_⟩, ev⟩
    refine threads_update (Q := fun i th => ∀ k c f, th = ⟨k, .call c f⟩ →
      WP S.exec D i (Q i k) (.call c f) v) (fun j th hj hth => keep ev (keeps j hj) hth) ?_ i _ hi
      k' c f rfl
    rintro th ⟨⟩ k c f eq
    obtain ⟨rfl, hbody⟩ := Thread.mk.inj eq
    exact hbody ▸ body
  · have may := hs.thread i k c f hi
    have cond := hm k c f hi
    obtain ⟨inv, ev, keeps⟩ := H.sound.step hs.inv (may.before H.sound hs.inv) cond hr
    refine ⟨⟨inv, fun j k' c' f' hj => ?_⟩, ev⟩
    refine threads_update (Q := fun i th => ∀ k c f, th = ⟨k, .call c f⟩ →
      WP S.exec D i (Q i k) (.call c f) v) (fun j th hj hth => keep ev (keeps j hj) hth) ?_ j _ hj
      k' c' f' rfl
    rintro th ⟨⟩ k c' f' eq
    obtain ⟨rfl, hcont⟩ := Thread.mk.inj eq
    exact hcont ▸ may.after H.sound hs.inv cond hr inv
  · refine ⟨⟨hs.inv, fun j k c f hj => ?_⟩, H.sound.evolves_refl _⟩
    refine threads_update (Q := fun i th => ∀ k c f, th = ⟨k, .call c f⟩ →
      WP S.exec D i (Q i k) (.call c f) s.shared)
      (fun j th _ hth => keep (H.sound.evolves_refl _) (H.sound.keeps_refl j _) hth) ?_ j _ hj
      k c f rfl
    rintro th ⟨⟩
  · obtain ⟨inv, ev, keeps⟩ := H.ext x _ _ hs.inv hm hv
    exact ⟨⟨inv, fun j k c f hj => keep ev (keeps j) hj k c f rfl⟩, ev⟩

theorem safe_return (H : S.Disciplined D Q) {i : Nat} {e : E} {k : K} {c : C}
    {f : A c → Prog C A α} {a : α} (hs : S.Safe D Q s)
    (hm : Meets D.Cond D.Out s (.call i e : Action K E X))
    (hi : s.threads i = some ⟨k, .call c f⟩) (h : S.step s (.call i e) = some t)
    (ht : t.threads i = some ⟨k, .ret a⟩) : Q i k a t.shared := by
  have may := hs.thread i k c f hi
  have cond := hm k c f hi
  simp only [step, hi, Option.map_eq_some_iff] at h
  obtain ⟨⟨r, v⟩, hr, rfl⟩ := h
  simp only [Function.update_self, Option.some.injEq, Thread.mk.injEq, true_and] at ht
  have cont := may.after H.sound hs.inv cond hr
    (H.sound.step hs.inv (may.before H.sound hs.inv) cond hr).1
  rw [ht] at cont
  exact cont.result

theorem safe_pre (H : S.Disciplined D Q) {i : Nat} {k : K} {c : C} {f : A c → Prog C A α}
    (hs : S.Safe D Q s) (hi : s.threads i = some ⟨k, .call c f⟩) : D.Pre i c s.shared :=
  (hs.thread i k c f hi).before H.sound hs.inv

theorem safe_reachesIf (H : S.Disciplined D Q) (hs : S.Safe D Q s)
    (h : S.ReachesIf D.Cond D.Out s t) : S.Safe D Q t ∧ D.Evolves s.shared t.shared := by
  induction h with
  | refl => exact ⟨hs, H.sound.evolves_refl _⟩
  | tail _ last ih =>
    obtain ⟨a, hm, ha⟩ := last
    obtain ⟨ht, ev⟩ := safe_step H ih.1 hm ha
    exact ⟨ht, H.sound.evolves_trans ih.2 ev⟩

/-- What thread `i` has returned since `s`, it returned in a state on the way to
`t` that satisfies its postcondition. -/
def Returned (D : Spec C E X σ) (Q : Nat → K → α → σ → Prop)
    (s t : Config K C α σ A) (i : Nat) (k : K) : Prop :=
  ∀ th, t.threads i = some th → th.kind = k ∧ ∀ a, th.prog = .ret a →
    ∃ v, D.Evolves s.shared v ∧ D.Evolves v t.shared ∧ Q i k a v

theorem returned_step (H : S.Disciplined D Q) {i : Nat} {k : K} {a : Action K E X}
    (safe : S.Safe D Q t) (came : D.Evolves s.shared t.shared) (began : Started t i)
    (known : Returned D Q s t i k) (hm : Meets D.Cond D.Out t a) (h : S.step t a = some u) :
    Returned D Q s u i k := by
  intro th hu
  have moves := (safe_step H safe hm h).2
  obtain same | gone | ⟨e, k', c, f, r, rfl, at_call, ran, moved⟩ := thread_step began h
  · obtain ⟨kind, back⟩ := known th (same.symm.trans hu)
    refine ⟨kind, fun a eq => ?_⟩
    obtain ⟨v, hv, hv', hq⟩ := back a eq
    exact ⟨v, hv, H.sound.evolves_trans hv' moves, hq⟩
  · cases gone.symm.trans hu
  · obtain ⟨rfl, -⟩ := known _ at_call
    cases moved.symm.trans hu
    refine ⟨rfl, fun a eq => ⟨u.shared, H.sound.evolves_trans came moves,
      H.sound.evolves_refl _, ?_⟩⟩
    dsimp only at eq
    exact safe_return H safe hm at_call h (eq ▸ moved)

theorem returned_spawn (H : S.Disciplined D Q) {k : K} (hs : S.Safe D Q s)
    (h : S.step s (.spawn k) = some t) : Returned D Q t t s.next k := by
  obtain ⟨v, started, rfl⟩ := Option.map_eq_some_iff.1 h
  intro th ht
  cases (Function.update_self s.next _ s.threads).symm.trans ht
  refine ⟨rfl, fun a eq => ⟨v, H.sound.evolves_refl _, H.sound.evolves_refl _, ?_⟩⟩
  have body := (H.start s.next k _ v hs.inv started).2.2.2
  dsimp only at eq
  rw [eq] at body
  exact body.result

theorem safe_returned (H : S.Disciplined D Q) {i : Nat} {k : K} {c : C} {f : A c → Prog C A α}
    (hs : S.Safe D Q s) (started : Started s i) (hi : s.threads i = some ⟨k, .call c f⟩)
    (h : S.ReachesIf D.Cond D.Out s t) : Started t i ∧ Returned D Q s t i k := by
  induction h with
  | refl =>
    refine ⟨started, fun th ht => ?_⟩
    rw [hi] at ht
    cases ht
    exact ⟨rfl, fun _ eq => nomatch eq⟩
  | tail before last ih =>
    obtain ⟨a, hm, ha⟩ := last
    obtain ⟨safe, came⟩ := safe_reachesIf H hs before
    exact ⟨started_step ih.1 ha, returned_step H safe came ih.1 ih.2 hm ha⟩

theorem safe_results (H : S.Disciplined D Q) {v : σ} (hv : D.Inv v)
    (h : S.ReachesIf D.Cond D.Out (init v) t) {i : Nat} {k : K} {a : α}
    (ht : t.threads i = some ⟨k, .ret a⟩) : ∃ w, D.Evolves w t.shared ∧ Q i k a w := by
  induction h generalizing i k a with
  | refl => cases ht
  | @tail s t before last ih =>
    obtain ⟨b, hm, hb⟩ := last
    have safe := (safe_reachesIf H (safe_init hv) before).1
    have moves := (safe_step H safe hm hb).2
    have old {j : Nat} {k : K} {a : α} (hj : s.threads j = some ⟨k, .ret a⟩) :
        ∃ w, D.Evolves w t.shared ∧ Q j k a w := by
      obtain ⟨w, hw, hq⟩ := ih hj
      exact ⟨w, H.sound.evolves_trans hw moves, hq⟩
    obtain ⟨k', w, rfl, started, rfl⟩ | ⟨j, e, k', c, f, r, w, rfl, hj, -, rfl⟩ |
      ⟨j, th, -, -, -, rfl⟩ | ⟨x, w, -, -, rfl⟩ := step_cases hb
    · by_cases new : i = s.next
      · subst new
        have same := Option.some.inj ((Function.update_self s.next _ s.threads).symm.trans ht)
        obtain ⟨rfl, done⟩ := Thread.mk.inj same
        exact ⟨w, H.sound.evolves_refl _,
          (done ▸ (H.start s.next k' _ w safe.inv started).2.2.2).result⟩
      · exact old ((Function.update_of_ne new _ _).symm.trans ht)
    · by_cases mine : i = j
      · subst mine
        have same := Option.some.inj ((Function.update_self i _ s.threads).symm.trans ht)
        obtain ⟨rfl, -⟩ := Thread.mk.inj same
        exact ⟨w, H.sound.evolves_refl _, safe_return H safe hm hj hb ht⟩
      · exact old ((Function.update_of_ne mine _ _).symm.trans ht)
    · by_cases mine : i = j
      · subst mine
        cases (Function.update_self i _ s.threads).symm.trans ht
      · exact old ((Function.update_of_ne mine _ _).symm.trans ht)
    · exact old ht

theorem safe_reaches (H : S.Disciplined D Q) (hD : ∀ i c e v, D.Cond i c e v)
    (hX : ∀ x v, D.Out x v) (hs : S.Safe D Q s) (h : S.Reaches s t) :
    S.Safe D Q t ∧ D.Evolves s.shared t.shared := by
  refine safe_reachesIf H hs (Relation.ReflTransGen.mono (fun u v => ?_) s t h)
  rintro ⟨a, -, ha⟩
  exact ⟨a, meets_of_forall hD hX a, ha⟩

end Parallel
end System
end Fire2.Interleaving
