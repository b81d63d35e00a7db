import Fire2.Interleaving

/-! Protocols: which call a program may make next, by the place it has come to.

A place is reached by the calls made so far and their answers. `Linked` ties the
place of every thread to the shared state, and `linked_step` carries that through
a step, beside a specification the system is already known to keep to.

The second half is about getting done: a thread whose calls can always be answered
comes to its end, and where one call of any unfinished thread can be brought about
without leaving more unfinished, all of them come to their ends. -/

namespace Fire2.Interleaving

structure Protocol (C : Type) (A : C → Type) (Q : Type) where
  may : Q → C → Prop
  next : Q → (c : C) → A c → Q

namespace Prog
variable {C Q α β : Type} {A : C → Type} {T : Protocol C A Q}

/-- From place `q` on the program keeps to the protocol, and ends where `R` holds. -/
inductive Obeys (T : Protocol C A Q) (R : Q → Prop) : Q → Prog C A α → Prop
  | ret {q : Q} (a : α) (h : R q) : Obeys T R q (.ret a)
  | call {q : Q} {c : C} {k : A c → Prog C A α} (hc : T.may q c)
      (hk : ∀ r, Obeys T R (T.next q c r) (k r)) : Obeys T R q (.call c k)

theorem Obeys.bind {R R' : Q → Prop} {q : Q} {p : Prog C A α} {f : α → Prog C A β}
    (hp : p.Obeys T R q) (hf : ∀ a q', R q' → (f a).Obeys T R' q') : (p >>= f).Obeys T R' q := by
  induction hp with
  | ret a h => exact hf a _ h
  | call hc _ ih => exact .call hc ih

theorem Obeys.mono {R R' : Q → Prop} (h : ∀ q, R q → R' q) {q : Q} {p : Prog C A α}
    (hp : p.Obeys T R q) : p.Obeys T R' q := by
  induction hp with
  | ret a hq => exact .ret a (h _ hq)
  | call hc _ ih => exact .call hc ih

theorem Obeys.perform {R : Q → Prop} {q : Q} {c : C} (hc : T.may q c) (h : ∀ r, R (T.next q c r)) :
    (Prog.perform c : Prog C A (A c)).Obeys T R q :=
  .call hc fun r => .ret r (h r)

theorem Obeys.of_asks {V : (c : C) → A c → Prop} {P : C → Prop} {q : Q} {p : Prog C A α}
    (hp : p.Asks V P) (hV : ∀ c r, V c r) (stay : ∀ c, P c → T.may q c ∧ ∀ r, T.next q c r = q) :
    p.Obeys T (· = q) q := by
  induction hp with
  | ret a => exact .ret a rfl
  | call hc _ ih =>
    obtain ⟨may, same⟩ := stay _ hc
    exact .call may fun r => (same r).symm ▸ ih r (hV _ r)

theorem Obeys.goes_on {R : Q → Prop} {q : Q} {p : Prog C A α} (h : p.Obeys T R q) (more : ¬ R q) :
    ∃ c k, p = .call c k ∧ T.may q c := by
  cases h with
  | ret a last => exact absurd last more
  | call hc _ => exact ⟨_, _, rfl, hc⟩

theorem Obeys.next {R : Q → Prop} {q : Q} {c : C} {k : A c → Prog C A α}
    (h : (Prog.call c k).Obeys T R q) : T.may q c ∧ ∀ r, (k r).Obeys T R (T.next q c r) := by
  cases h with
  | call hc hk => exact ⟨hc, hk⟩

theorem Until.all {V seen : (c : C) → A c → Prop} {R : α → Prop} (h : ∀ a, R a) (p : Prog C A α) :
    p.Until V seen R := by
  induction p with
  | ret a => exact .ret (h a)
  | call c k ih => exact .call fun r _ _ => ih r

end Prog

section Embedding
variable {C C' E E' X X' σ τ α : Type} {A : C → Type} {A' : C' → Type} {exec : Exec C E σ A}
  {exec' : Exec C' E' τ A'} {D : Spec C E X σ} {D' : Spec C' E' X' τ} {i : Nat}
  {view : τ → σ} {f : C → C'} {g : (c : C) → A' (f c) → A c}

theorem WP.embed_within {φ : τ → Prop} {V : (c : C) → A c → Prop} {P : C → Prop}
    (hI : ∀ s, D'.Inv s → D.Inv (view s))
    (hR : ∀ s t, φ s → D'.Rely i s t → D.Rely i (view s) (view t))
    (stable : ∀ s t, φ s → D'.Rely i s t → φ t)
    (hP : ∀ c s, P c → D'.Inv s → φ s → D.Pre i c (view s) → D'.Pre i (f c) s)
    (hE : ∀ c e s a t, P c → D'.Inv s → φ s → D'.Cond i (f c) e s →
      exec' i (f c) e s = some (a, t) →
      φ t ∧ V c (g c a) ∧ ∃ e', D.Cond i c e' (view s) ∧ exec i c e' (view s) =
        some (g c a, view t))
    {Q : α → σ → Prop} {p : Prog C A α} {s : τ} {v : σ} (hv : v = view s)
    (asks : p.Asks V P) (hs : φ s) (hp : WP exec D i Q p v) :
    WP exec' D' i (fun a t => Q a (view t) ∧ φ t) (p.embed f g) s := by
  induction hp generalizing s with
  | ret h =>
    subst hv
    exact .ret ⟨h, hs⟩
  | call pre _ ih =>
    subst hv
    cases asks with
    | call hc next =>
      refine .call (fun t ht hst => hP _ t hc ht (stable s t hs hst)
        (pre _ (hI t ht) (hR s t hs hst))) ?_
      intro t e a u ht hst hcond ran hu
      obtain ⟨kept, answered, e', hc', he'⟩ := hE _ e t a u hc ht (stable s t hs hst) hcond ran
      exact ih _ e' _ _ (hI t ht) (hR s t hs hst) hc' he' (hI u hu) rfl (next _ answered) kept

end Embedding

namespace System
variable {K C E X Q α σ : Type} {A : C → Type} {S : System K C E X α σ A} {s t u : Config K C α σ A}

section Links
variable (T : K → Protocol C A Q) (R : Q → Prop) (first : K → Q) (Link : Nat → K → Q → σ → Prop)

def Linked (s : Config K C α σ A) : Prop :=
  ∀ i k p, s.threads i = some ⟨k, p⟩ → ∃ q, p.Obeys (T k) R q ∧ Link i k q s.shared

/-- What it takes for places and state to stay in agreement. -/
structure Linking (S : System K C E X α σ A) (D : Spec C E X σ) : Prop where
  body : ∀ k, (S.body k).Obeys (T k) R (first k)
  start : ∀ {i k s t}, D.Inv s → S.start i k s = some t → Link i k (first k) t
  aside : ∀ {i k s t j k' q}, D.Inv s → S.start i k s = some t → D.Evolves s t →
    j ≠ i → D.Keeps j s t →
    Link j k' q s → Link j k' q t
  own : ∀ {i k q c e s r t}, D.Inv s → D.Pre i c s → Link i k q s → (T k).may q c →
    S.exec i c e s = some (r, t) → D.Evolves s t → Link i k ((T k).next q c r) t
  other : ∀ {i k q c e s r t j k' q'}, D.Inv s → D.Pre i c s → Link i k q s → (T k).may q c →
    S.exec i c e s = some (r, t) → D.Evolves s t → j ≠ i → D.Keeps j s t →
    Link j k' q' s → Link j k' q' t
  ext : ∀ {x s t j k q}, D.Inv s → S.ext x s = some t → Link j k q s → Link j k q t

variable {T R first Link} {D : Spec C E X σ} {P : Nat → K → α → σ → Prop}

theorem linked_step (L : Linking T R first Link S D) (H : S.Disciplined D P)
    (free : ∀ i c e v, D.Cond i c e v) (hs : S.Safe D P s) (linked : Linked T R Link s)
    {a : Action K E X} (h : S.step s a = some t) : Linked T R Link t := by
  intro i k p hi
  obtain ⟨k', v, rfl, hv, rfl⟩ | ⟨i', e, k', c, f, r, v, rfl, hi', hr, rfl⟩ |
    ⟨i', th, rfl, -, -, rfl⟩ | ⟨x, v, rfl, hv, rfl⟩ := step_cases h
  · obtain ⟨-, ev, keeps, -⟩ := H.start _ k' _ _ hs.inv hv
    refine threads_update (Q := fun i th => ∃ q, th.prog.Obeys (T th.kind) R q ∧ Link i th.kind q v)
      (fun j th hj hth => ?_) ?_ i ⟨k, p⟩ hi
    · obtain ⟨q, obeys, link⟩ := linked j th.kind th.prog hth
      exact ⟨q, obeys, L.aside hs.inv hv ev hj (keeps j hj) link⟩
    · rintro th ⟨⟩
      exact ⟨first k', L.body k', L.start hs.inv hv⟩
  · obtain ⟨q, obeys, link⟩ := linked i' k' _ hi'
    obtain ⟨may, next⟩ := obeys.next
    have pre := safe_pre H hs hi'
    obtain ⟨-, ev, keeps⟩ := H.sound.step hs.inv pre (free i' c e _) hr
    refine threads_update (Q := fun i th => ∃ q, th.prog.Obeys (T th.kind) R q ∧ Link i th.kind q v)
      (fun j th hj hth => ?_) ?_ i ⟨k, p⟩ hi
    · obtain ⟨q', obeys', link'⟩ := linked j th.kind th.prog hth
      exact ⟨q', obeys', L.other hs.inv pre link may hr ev hj (keeps j hj) link'⟩
    · rintro th ⟨⟩
      exact ⟨_, next r, L.own hs.inv pre link may hr ev⟩
  · refine threads_update (Q := fun i th => ∃ q, th.prog.Obeys (T th.kind) R q ∧
      Link i th.kind q s.shared) (fun j th _ hth => linked j th.kind th.prog hth) ?_ i ⟨k, p⟩ hi
    rintro th ⟨⟩
  · obtain ⟨q, obeys, link⟩ := linked i k p hi
    exact ⟨q, obeys, L.ext hs.inv hv link⟩

theorem linked_reaches (L : Linking T R first Link S D) (H : S.Disciplined D P)
    (free : ∀ i c e v, D.Cond i c e v) (out : ∀ x v, D.Out x v) {v : σ} (hv : D.Inv v)
    (h : S.Reaches (init v) t) : S.Safe D P t ∧ Linked T R Link t := by
  induction h with
  | refl => exact ⟨safe_init hv, fun _ _ _ hi => by cases hi⟩
  | tail _ last ih =>
    obtain ⟨a, -, ha⟩ := last
    exact ⟨(safe_step H ih.1 (meets_of_forall free out a) ha).1, linked_step L H free ih.1 ih.2 ha⟩

end Links

section Completion
variable (S) (G : Config K C α σ A → Action K E X → Prop)

def ReachesBy : Config K C α σ A → Config K C α σ A → Prop :=
  Relation.ReflTransGen fun s t => ∃ a, G s a ∧ S.step s a = some t

variable {S G}

theorem ReachesBy.single {a : Action K E X} (ha : G s a) (h : S.step s a = some t) :
    S.ReachesBy G s t :=
  Relation.ReflTransGen.single ⟨a, ha, h⟩

theorem ReachesBy.reaches (h : S.ReachesBy G s t) : S.Reaches s t := by
  induction h with
  | refl => exact .refl
  | tail _ last ih =>
    obtain ⟨a, -, step⟩ := last
    exact ih.trans (Reaches.single step)

def Unfinished (L : Nat → σ → Prop) (s : Config K C α σ A) (i : Nat) : Prop :=
  -- a thread that has calls left to make, of those `L` looks at
  L i s.shared ∧ ∃ k c f, s.threads i = some ⟨k, .call c f⟩

theorem drive {I : Config K C α σ A → Prop} {i : Nat} {k : K}
    (able : ∀ s c f, I s → s.threads i = some ⟨k, .call c f⟩ → ∃ e r v, G s (.call i e) ∧
      S.exec i c e s.shared = some (r, v) ∧
      I ⟨v, s.next, Function.update s.threads i (some ⟨k, f r⟩)⟩)
    {c : C} {f : A c → Prog C A α} (hs : I s) (hi : s.threads i = some ⟨k, .call c f⟩) :
    ∃ t u c' f' e r a, S.ReachesBy G s t ∧ I t ∧ I u ∧ t.threads i = some ⟨k, .call c' f'⟩ ∧
      G t (.call i e) ∧ S.step t (.call i e) = some u ∧ S.exec i c' e t.shared =
        some (r, u.shared) ∧
      f' r = .ret a ∧ u.threads i = some ⟨k, .ret a⟩ ∧ u.next = s.next ∧
      ∀ j, j ≠ i → u.threads j = s.threads j := by
  -- the rest of the program is what gets smaller
  generalize hp : Prog.call c f = p at hi
  induction p generalizing s c f with
  | ret => cases hp
  | call c₁ f₁ ih =>
    obtain ⟨e, r, v, allowed, ran, hv⟩ := able s c₁ f₁ hs hi
    have step := step_call hi ran
    generalize hq : f₁ r = q
    cases q with
    | ret a =>
      refine ⟨s, _, c₁, f₁, e, r, a, .refl, hs, hv, hi, allowed, step, ran, hq, ?_,
        rfl, fun j hj => ?_⟩
      · rw [hq]
        exact Function.update_self _ _ _
      · exact Function.update_of_ne hj _ _
    | call c₂ f₂ =>
      obtain ⟨t, u, c', f', e', r', a, run, ht, hu, at_t, allowed', step', ran', last,
          done, same, others⟩ :=
        ih r hv hq.symm (Function.update_self _ _ _)
      refine ⟨t, u, c', f', e', r', a, .head ⟨_, allowed, step⟩ run, ht, hu, at_t,
        allowed', step', ran', last, done, same, fun j hj => ?_⟩
      exact (others j hj).trans (Function.update_of_ne hj _ _)

variable {I : Config K C α σ A → Prop} {L : Nat → σ → Prop}

theorem finish_thread
    (advance : ∀ s i k c f, I s → L i s.shared → s.threads i = some ⟨k, .call c f⟩ →
      ∃ t r, S.ReachesBy G s t ∧ I t ∧ t.threads i = some ⟨k, f r⟩ ∧
        ∀ j, Unfinished L t j → Unfinished L s j)
    {i : Nat} {k : K} {p : Prog C A α} (hs : I s) (hi : s.threads i = some ⟨k, p⟩) :
    ∃ t, S.ReachesBy G s t ∧ I t ∧ ¬ Unfinished L t i ∧ ∀ j, Unfinished L t j →
    Unfinished L s j := by
  induction p generalizing s with
  | ret a =>
    refine ⟨s, .refl, hs, ?_, fun _ h => h⟩
    rintro ⟨-, _, _, _, at_call⟩
    cases hi.symm.trans at_call
  | call c f ih =>
    by_cases here : L i s.shared
    · obtain ⟨t, r, run, ht, moved, fewer⟩ := advance s i k c f hs here hi
      obtain ⟨u, run', hu, done, fewer'⟩ := ih r ht moved
      exact ⟨u, run.trans run', hu, done, fun j h => fewer j (fewer' j h)⟩
    · exact ⟨s, .refl, hs, fun h => here h.1, fun _ h => h⟩

theorem finish
    (advance : ∀ s i k c f, I s → L i s.shared → s.threads i = some ⟨k, .call c f⟩ →
      ∃ t r, S.ReachesBy G s t ∧ I t ∧ t.threads i = some ⟨k, f r⟩ ∧
        ∀ j, Unfinished L t j → Unfinished L s j)
    (n : Nat) (hs : I s) (bound : ∀ i, Unfinished L s i → i < n) :
    ∃ t, S.ReachesBy G s t ∧ I t ∧ ∀ i, ¬ Unfinished L t i := by
  induction n generalizing s with
  | zero => exact ⟨s, .refl, hs, fun i h => Nat.not_lt_zero i (bound i h)⟩
  | succ n ih =>
    by_cases last : Unfinished L s n
    · obtain ⟨-, k, c, f, hi⟩ := last
      obtain ⟨t, run, ht, done, fewer⟩ := finish_thread advance hs hi
      have below (i : Nat) (h : Unfinished L t i) : i < n := by
        have le := Nat.le_of_lt_succ (bound i (fewer i h))
        exact Nat.lt_of_le_of_ne le fun eq => done (eq ▸ h)
      obtain ⟨u, run', hu, all⟩ := ih ht below
      exact ⟨u, run.trans run', hu, all⟩
    · refine ih hs fun i h => ?_
      exact Nat.lt_of_le_of_ne (Nat.le_of_lt_succ (bound i h)) fun eq => last (eq ▸ h)

end Completion

section Returning
variable {V : (c : C) → A c → Prop} {R : K → α → Prop}
  {P : Nat → C → E → σ → Prop} {O : X → σ → Prop}

theorem returns_reachesIf (body : ∀ k, (S.body k).Until V (fun _ _ => False) (R k))
    (answers : ∀ u, S.ReachesIf P O s u → ∀ i c e r v, S.exec i c e u.shared = some (r, v) → V c r)
    (new : ∀ i, s.next ≤ i → s.threads i = none) (h : S.ReachesIf P O s t) {i : Nat}
    {k : K} {p : Prog C A α} (late : s.next ≤ i) (hi : t.threads i = some ⟨k, p⟩) :
    p.Until V (fun _ _ => False) (R k) := by
  induction h generalizing i k p with
  | refl => cases (new i late).symm.trans hi
  | @tail u t before last ih =>
    obtain ⟨a, -, ha⟩ := last
    have goes (j : Nat) (th : Thread K C α A) (hth : u.threads j = some th) :
        s.next ≤ j → th.prog.Until V (fun _ _ => False) (R th.kind) := fun late => ih late hth
    revert late
    obtain ⟨k', v, -, -, rfl⟩ | ⟨i', e, k', c, f, r, v, -, hi', ran, rfl⟩ | ⟨i', th, -, -, -, rfl⟩ |
      ⟨x, v, -, -, rfl⟩ := step_cases ha
    · refine threads_update (Q := fun j th => s.next ≤ j →
        th.prog.Until V (fun _ _ => False) (R th.kind)) (fun j th _ => goes j th) ?_ i ⟨k, p⟩ hi
      rintro th ⟨⟩ -
      exact body k'
    · refine threads_update (Q := fun j th => s.next ≤ j →
        th.prog.Until V (fun _ _ => False) (R th.kind)) (fun j th _ => goes j th) ?_ i ⟨k, p⟩ hi
      rintro th ⟨⟩ late
      cases ih late hi' with
      | call next => exact next r (answers u before i' c e r v ran) id
    · refine threads_update (Q := fun j th => s.next ≤ j →
        th.prog.Until V (fun _ _ => False) (R th.kind)) (fun j th _ => goes j th) ?_ i ⟨k, p⟩ hi
      rintro th ⟨⟩
    · exact goes i ⟨k, p⟩ hi

end Returning

section Alone

theorem alone_reaches {i : Nat} {k : K} {p : Prog C A α} {es : List E} {a : α} {v : σ}
    (thread : s.threads i = some ⟨k, p⟩) (h : p.alone S.exec i es s.shared = some (a, v)) :
    ∃ t, S.Reaches s t ∧ t.shared = v := by
  induction p generalizing es s with
  | ret b =>
    cases h
    exact ⟨s, .refl, rfl⟩
  | call c f ih =>
    obtain ⟨e, rest, r, w, rfl, ran, after⟩ := Prog.alone_call h
    let u : Config K C α σ A := ⟨w, s.next, Function.update s.threads i (some ⟨k, f r⟩)⟩
    have moved : S.step s (.call i e) = some u := by
      simp only [step, thread, ran, Option.map_some, u]
    obtain ⟨t, run, same⟩ := ih r (s := u) (Function.update_self i _ _) after
    exact ⟨t, (Reaches.single moved).trans run, same⟩

theorem spawn_alone_reaches {k : K} {es : List E} {a : α} {v w : σ}
    (started : S.start s.next k s.shared = some v)
    (h : (S.body k).alone S.exec s.next es v = some (a, w)) :
    ∃ t, S.Reaches s t ∧ t.shared = w := by
  let u : Config K C α σ A := ⟨v, s.next + 1, Function.update s.threads s.next (some ⟨k, S.body k⟩)⟩
  have spawned : S.step s (.spawn k) = some u := by
    simp only [step, started, Option.map_some, u]
  obtain ⟨t, run, same⟩ := alone_reaches (s := u) (Function.update_self s.next _ _) h
  exact ⟨t, (Reaches.single spawned).trans run, same⟩

end Alone

end System
end Fire2.Interleaving
