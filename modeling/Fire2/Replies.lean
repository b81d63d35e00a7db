import Fire2.ManagerCalls

/-! Commands handed to a Service, and what its goroutine makes of them.

Any number of calls of do, with any commands, run against the loop of one
Service, which the rest of the worker leaves to them; whatever else the worker
has may change at any time. A command that was received is with the goroutine
until it is answered, unless the goroutine panics over it. The reply of a command
that ends the goroutine is there before done is closed, so that whoever finds done
closed finds the reply when it looks again. -/

namespace Fire2.Replies
open Interleaving SandboxMgr

/-- The worker around a Service, with what became of the commands: `offered` is the
command a call of do has come with and whether it was received, `handled` the calls
whose command the loop has gone on to handle, `panicked` those over whose command
it has panicked. -/
structure Journal where
  manager : Manager
  offered : Nat → Option (Command × Bool)
  handled : List Nat
  panicked : List Nat

inductive Kind where
  | do_ (cmd : Command)
  | pass (wake : Wake)
  deriving DecidableEq, Repr

namespace Journal

def sender (s : Journal) (i : Nat) (ref : Ref) : List Nat :=
  match (s.manager.heap ref).map Service.phase with
  | some (.busy n (.command j _)) => if n = i then [j] else []
  | _ => []

def offers (s : Journal) (i : Nat) : (c : Call) → c.Answer → Nat → Option (Command × Bool)
  | .offer _ cmd => fun received => Function.update s.offered i (some (cmd, received))
  | _ => fun _ => s.offered

def panics (s : Journal) (i : Nat) : (c : Call) → c.Answer → List Nat
  | .vm ref _ => fun ran => if ran = .panicked then s.sender i ref ++ s.panicked else s.panicked
  | .queryVM ref => fun answer =>
    match answer with
    | none => s.sender i ref ++ s.panicked
    | some _ => s.panicked
  | _ => fun _ => s.panicked

def after (s : Journal) (i : Nat) (c : Call) (a : c.Answer) (m : Manager) : Journal :=
  ⟨m, s.offers i c a, s.handled, s.panics i c a⟩

end Journal

def exec [Uuid] : Exec Call Env Journal Call.Answer := fun i c e s =>
  (perform i c e s.manager).map fun r => (r.1, s.after i c r.1 r.2)

def body (ref : Ref) : Kind → M (Option Err)
  | .do_ cmd => Service.do_ ref cmd
  | .pass wake => do
    Service.pass ref wake
    return none

def start (ref : Ref) (i : Nat) (k : Kind) (s : Journal) : Option Journal :=
  match k with
  | .do_ _ => some s
  | .pass wake => (begin i (.serve ref wake) s.manager).map fun m => { s with
      manager := m
      handled :=
        match wake with
        | .command j _ => j :: s.handled
        | _ => s.handled }

def system [Uuid] (ref : Ref) : System Kind Call Env Manager (Option Err) Journal Call.Answer where
  -- an external step puts anything in the place of the rest of the worker
  exec := exec
  body := body ref
  start := start ref
  stoppable _ := false
  ext m s := some
    { s with manager := { m with heap := Function.update m.heap ref (s.manager.heap ref) } }

abbrev State := Config Kind Call (Option Err) Journal Call.Answer

def starting (m : Manager) : Journal := ⟨m, fun _ => none, [], []⟩

/-- `errServiceExited`. -/
def exited : Option Err := some (.sentinel .serviceExited)

structure Fair (s : Journal) (svc : Service) : Prop where
  taken : ∀ j cmd, svc.Takes j cmd → s.offered j = some (cmd, true)
  waiting : ∀ j cmd, svc.phase = .offered j cmd → j ∉ s.handled ∧ j ∉ s.panicked ∧
    svc.replies (j, cmd) = none
  replied : ∀ j cmd err, svc.replies (j, cmd) = some err →
    s.offered j = some (cmd, true) ∧ j ∉ s.panicked ∧ err ≠ exited
  settled : ∀ j cmd, s.offered j = some (cmd, true) →
    svc.Takes j cmd ∨ svc.replies (j, cmd) ≠ none ∨ j ∈ s.panicked
  handled : ∀ j ∈ s.handled, ∃ cmd, s.offered j = some (cmd, true)
  panicked : ∀ j ∈ s.panicked, ∃ cmd, s.offered j = some (cmd, true)
  once : s.handled.Nodup

structure Grows (ref : Ref) (s t : Journal) : Prop where
  offered : ∀ i x, s.offered i = some x → t.offered i = some x
  panicked : ∀ i ∈ s.panicked, i ∈ t.panicked
  heap : ∀ svc, s.manager.heap ref = some svc → ∃ svc', t.manager.heap ref = some svc' ∧
    (∀ x err, svc.replies x = some err → svc'.replies x = some err) ∧
    (svc.active = false → svc'.active = false) ∧ (svc.phase = .closed → svc'.phase = .closed)

structure Spares (ref : Ref) (i : Nat) (s t : Journal) : Prop where
  offered : t.offered i = s.offered i
  serving : ∀ svc wake, s.manager.Serving i ref svc wake →
    t.manager.heap ref = some svc ∧ t.panicked = s.panicked

def Over (s : Journal) (svc : Service) (wake : Wake) : Prop :=
  ∀ j cmd, wake = .command j cmd → svc.replies (j, cmd) ≠ none ∨ j ∈ s.panicked

def Open (s : Journal) (svc : Service) (wake : Wake) : Prop :=
  ∀ j cmd, wake = .command j cmd → svc.replies (j, cmd) = none ∧ j ∉ s.panicked

def may (ref : Ref) (i : Nat) (s : Journal) : Call → Prop
  | .offer k _ => k = ref ∧ s.offered i = none
  | .vm k _ | .queryVM k => k = ref ∧ ∃ svc wake, s.manager.Serving i ref svc wake ∧ Open s svc wake
  | .setField k _ | .watch k | .unwatch k => k = ref ∧ ∃ svc wake, s.manager.Serving i ref svc wake
  | .reply k j cmd err _ => k = ref ∧ err ≠ exited ∧
      ∃ svc, s.manager.Serving i ref svc (.command j cmd) ∧ Open s svc (.command j cmd)
  | .resume k => k = ref ∧ ∃ svc wake, s.manager.Serving i ref svc wake ∧ Over s svc wake
  | .close k => k = ref ∧ ∃ svc, s.manager.heap ref = some svc ∧
      (svc.active = false ∨ ∃ wake, svc.phase = .busy i wake ∧ Over s svc wake)
  | .await .. | .recheck .. | .fields _ | .report .. | .emit .. => True
  | _ => False

def replySpec (ref : Ref) : Spec Call Env Manager Journal where
  Inv s := ∃ svc, s.manager.heap ref = some svc ∧ Fair s svc
  Evolves := Grows ref
  Keeps := Spares ref
  Pre i c s := may ref i s c
  Cond _ _ _ _ := True
  Out _ _ := True

section Relations
variable {ref : Ref} {i : Nat} {s t u : Journal}

theorem Grows.refl (s : Journal) : Grows ref s s :=
  ⟨fun _ _ h => h, fun _ h => h, fun svc at_ref => ⟨svc, at_ref, fun _ _ h => h,
    fun h => h, fun h => h⟩⟩

theorem Grows.trans (h : Grows ref s t) (k : Grows ref t u) : Grows ref s u := by
  refine ⟨fun i x known => k.offered i x (h.offered i x known), fun i mem =>
    k.panicked i (h.panicked i mem), fun svc at_ref => ?_⟩
  obtain ⟨svc', at', replies', done', closed'⟩ := h.heap svc at_ref
  obtain ⟨svc'', at'', replies'', done'', closed''⟩ := k.heap svc' at'
  exact ⟨svc'', at'', fun x err known => replies'' x err (replies' x err known),
    fun x => done'' (done' x), fun x => closed'' (closed' x)⟩

theorem Spares.refl (i : Nat) (s : Journal) : Spares ref i s s :=
  ⟨rfl, fun _ _ serving => ⟨serving.1, rfl⟩⟩

theorem Spares.trans (h : Spares ref i s t) (k : Spares ref i t u) : Spares ref i s u := by
  refine ⟨k.offered.trans h.offered, fun svc wake serving => ?_⟩
  obtain ⟨at', same⟩ := h.serving svc wake serving
  obtain ⟨at'', same'⟩ := k.serving svc wake ⟨at', serving.2⟩
  exact ⟨at'', same'.trans same⟩

end Relations

structure Moves (ref : Ref) (i : Nat) (s t : Journal) : Prop where
  fair : ∃ svc, t.manager.heap ref = some svc ∧ Fair t svc
  grows : Grows ref s t
  spares : ∀ j, j ≠ i → Spares ref j s t

section Steps
variable {ref : Ref} {i : Nat} {s t : Journal} {m : Manager} {svc svc' : Service} {wake : Wake}

theorem touch_moves (at_ref : s.manager.heap ref = some svc)
    (at_ref' : t.manager.heap ref = some svc')
    (fair : Fair t svc') (mine : ∀ j wake, svc.phase = .busy j wake → j = i)
    (offered : ∀ j, j ≠ i → t.offered j = s.offered j)
    (own : ∀ x, s.offered i = some x → t.offered i = some x)
    (panicked : ∀ j ∈ s.panicked, j ∈ t.panicked)
    (replies : ∀ x err, svc.replies x = some err → svc'.replies x = some err)
    (done : svc.active = false → svc'.active = false)
    (closed : svc.phase = .closed → svc'.phase = .closed) : Moves ref i s t := by
  refine ⟨⟨svc', at_ref', fair⟩, ⟨fun j x known => ?_, panicked, fun old at_old => ?_⟩,
    fun j other => ?_⟩
  · by_cases same : j = i
    · subst same
      exact own x known
    · exact (offered j same).trans known
  · cases at_old.symm.trans at_ref
    exact ⟨svc', at_ref', replies, done, closed⟩
  · refine ⟨offered j other, fun old wake serving => ?_⟩
    cases serving.1.symm.trans at_ref
    exact absurd (mine j wake serving.2) other

theorem same_moves (at_ref : s.manager.heap ref = some svc) (heap : m.heap ref = s.manager.heap ref)
    (fair : Fair s svc) : Moves ref i s { s with manager := m } := by
  refine ⟨⟨svc, heap.trans at_ref, fair.taken, fair.waiting, fair.replied, fair.settled,
    fair.handled, fair.panicked, fair.once⟩, ⟨fun _ _ h => h, fun _ h => h, fun old at_old => ?_⟩,
    fun j _ => ⟨rfl, fun old _ serving => ?_⟩⟩
  · exact ⟨old, heap.trans at_old, fun _ _ h => h, fun h => h, fun h => h⟩
  · exact ⟨heap.trans serving.1, rfl⟩

theorem field_moves (serving : s.manager.Serving i ref svc wake) (at_ref' : m.heap ref = some svc')
    (fair : Fair s svc) (phase : svc'.phase = svc.phase) (replies : svc'.replies = svc.replies) :
    Moves ref i s { s with manager := m } := by
  have takes {j : Nat} {cmd : Command} : svc'.Takes j cmd ↔ svc.Takes j cmd := by
    simp only [Service.Takes, phase]
  refine touch_moves serving.1 at_ref' ⟨fun j cmd taken => fair.taken j cmd
    (takes.1 taken), ?_, ?_, ?_, fair.handled, fair.panicked, fair.once⟩
    (fun j w busy => (busy_unique serving.2 busy).1) (fun _ _ => rfl)
    (fun _ h => h) (fun _ h => h) (fun _ _ h => replies ▸ h) (fun h => ?_) fun h => phase.trans h
  · rw [phase, replies]
    exact fair.waiting
  · rw [replies]
    exact fair.replied
  · intro j cmd known
    rw [takes, replies]
    exact fair.settled j cmd known
  · simpa only [Service.active, phase] using h

theorem panic_moves (serving : s.manager.Serving i ref svc wake) (opened : Open s svc wake)
    (at_ref' : m.heap ref = some svc') (fair : Fair s svc) (phase : svc'.phase = svc.phase)
    (replies : svc'.replies = svc.replies) :
    Moves ref i s ⟨m, s.offered, s.handled, s.sender i ref ++ s.panicked⟩ := by
  have takes {j : Nat} {cmd : Command} : svc'.Takes j cmd ↔ svc.Takes j cmd := by
    simp only [Service.Takes, phase]
  cases wake with
  | command k d =>
    have sender : s.sender i ref = [k] := by simp [Journal.sender, serving.1, serving.2]
    have known : s.offered k = some (d, true) := fair.taken k d (.inr ⟨i, serving.2⟩)
    rw [sender]
    refine touch_moves serving.1 at_ref' ⟨fun j cmd taken => fair.taken j cmd (takes.1 taken),
      fun j cmd waits => ?_, fun j cmd err answered => ?_, fun j cmd came => ?_, fair.handled,
      fun j mem => ?_, fair.once⟩ (fun j w busy => (busy_unique serving.2 busy).1)
      (fun _ _ => rfl) (fun _ h => h) (fun _ h => List.mem_cons_of_mem k h)
      (fun _ _ h => replies ▸ h) (fun h => ?_) fun h => phase.trans h
    · cases (phase.symm.trans waits).symm.trans serving.2
    · rw [replies] at answered
      obtain ⟨came, calm, other⟩ := fair.replied j cmd err answered
      refine ⟨came, fun mem => ?_, other⟩
      obtain rfl | mem := List.mem_cons.1 mem
      · cases known.symm.trans came
        cases answered.symm.trans (opened j _ rfl).1
      · exact calm mem
    · rw [takes, replies]
      exact (fair.settled j cmd came).imp_right fun h => h.imp_right (List.mem_cons_of_mem k)
    · obtain rfl | mem := List.mem_cons.1 mem
      · exact ⟨d, known⟩
      · exact fair.panicked j mem
    · simpa only [Service.active, phase] using h
  | ctxDone | exited | tick =>
    have sender : s.sender i ref = [] := by simp [Journal.sender, serving.1, serving.2]
    rw [sender]
    exact field_moves serving at_ref' fair phase replies

theorem offer_moves {cmd : Command} (at_ref : s.manager.heap ref = some svc)
    (idle : svc.phase = .idle) (fresh : s.offered i = none) (fair : Fair s svc)
    (begun : Option Command) :
    Moves ref i s ⟨s.manager.setService ref { svc with phase := .offered i cmd, begun },
      Function.update s.offered i (some (cmd, true)), s.handled, s.panicked⟩ := by
  have known {j : Nat} {x : Command × Bool} (h : s.offered j = some x) : j ≠ i := by
    rintro rfl
    cases fresh.symm.trans h
  have still {j : Nat} {x : Command × Bool} (h : s.offered j = some x) :
      Function.update s.offered i (some (cmd, true)) j = some x :=
      (Function.update_of_ne (known h) _ _).trans h
  refine touch_moves at_ref (Function.update_self _ _ _) ⟨fun j d taken => ?_, fun j d waits => ?_,
    fun j d err answered => ?_, fun j d came => ?_, fun j mem => ?_, fun j mem => ?_, fair.once⟩
    (fun j w busy => nomatch idle.symm.trans busy) (fun j other => Function.update_of_ne other _ _)
    (fun x h => nomatch fresh.symm.trans h) (fun _ h => h) (fun _ _ h => h) (fun h => ?_)
    fun h => nomatch idle.symm.trans h
  · obtain taken | ⟨n, taken⟩ := taken
    · cases taken
      exact Function.update_self _ _ _
    · cases taken
  · cases waits
    refine ⟨fun mem => ?_, fun mem => ?_, ?_⟩
    · obtain ⟨d', came⟩ := fair.handled i mem
      exact known came rfl
    · obtain ⟨d', came⟩ := fair.panicked i mem
      exact known came rfl
    · cases answered : svc.replies (i, cmd) with
      | none => rfl
      | some err => exact absurd rfl (known (fair.replied i cmd err answered).1)
  · obtain ⟨came, rest⟩ := fair.replied j d err answered
    exact ⟨still came, rest⟩
  · by_cases same : j = i
    · subst same
      cases (Function.update_self j _ s.offered).symm.trans came
      exact .inl (.inl rfl)
    · have came := (Function.update_of_ne same _ _).symm.trans came
      obtain taken | rest := fair.settled j d came
      · obtain taken | ⟨n, taken⟩ := taken <;> cases idle.symm.trans taken
      · exact .inr rest
  · obtain ⟨d, came⟩ := fair.handled j mem
    exact ⟨d, still came⟩
  · obtain ⟨d, came⟩ := fair.panicked j mem
    exact ⟨d, still came⟩
  · simp [Service.active, idle] at h

theorem refused_moves {cmd : Command} (at_ref : s.manager.heap ref = some svc)
    (fresh : s.offered i = none) (fair : Fair s svc) :
    Moves ref i s ⟨s.manager, Function.update s.offered i (some (cmd, false)),
      s.handled, s.panicked⟩ := by
  have still {j : Nat} {x : Command × Bool} (h : s.offered j = some x) :
      Function.update s.offered i (some (cmd, false)) j = some x := by
    refine (Function.update_of_ne ?_ _ _).trans h
    rintro rfl
    cases fresh.symm.trans h
  refine ⟨⟨svc, at_ref, fun j d taken => still (fair.taken j d taken), fair.waiting,
    fun j d err answered => ?_, fun j d came => ?_, fun j mem => ?_, fun j mem => ?_, fair.once⟩,
    ⟨fun j x h => still h, fun _ h => h, fun old at_old => ⟨old, at_old, fun _ _ h => h,
      fun h => h, fun h => h⟩⟩,
    fun j other => ⟨Function.update_of_ne other _ _, fun _ _ serving => ⟨serving.1, rfl⟩⟩⟩
  · obtain ⟨came, rest⟩ := fair.replied j d err answered
    exact ⟨still came, rest⟩
  · by_cases same : j = i
    · subst same
      cases (Function.update_self j _ s.offered).symm.trans came
    · exact fair.settled j d ((Function.update_of_ne same _ _).symm.trans came)
  · obtain ⟨d, came⟩ := fair.handled j mem
    exact ⟨d, still came⟩
  · obtain ⟨d, came⟩ := fair.panicked j mem
    exact ⟨d, still came⟩

theorem reply_moves {j : Nat} {cmd : Command} {err : Option Err} {exit : Bool}
    (serving : s.manager.Serving i ref svc (.command j cmd)) (opened : Open s svc (.command j cmd))
    (other : err ≠ exited) (fair : Fair s svc) :
    Moves ref i s { s with manager := s.manager.setService ref { svc with
      replies := Function.update svc.replies (j, cmd) (some err)
      phase := if exit then .exiting else svc.phase } } := by
  obtain ⟨unanswered, calm⟩ := opened j cmd rfl
  have came : s.offered j = some (cmd, true) := fair.taken j cmd (.inr ⟨i, serving.2⟩)
  have still {x : Nat × Command} {err' : Option Err} (h : svc.replies x = some err') :
      Function.update svc.replies (j, cmd) (some err) x = some err' := by
    refine (Function.update_of_ne ?_ _ _).trans h
    rintro rfl
    cases unanswered.symm.trans h
  have within {k : Nat} {d : Command} (h : Service.Takes { svc with
      replies := Function.update svc.replies (j, cmd) (some err)
      phase := if exit then .exiting else svc.phase } k d) : svc.Takes k d := by
    cases exit with
    | false => exact h
    | true => obtain h | ⟨n, h⟩ := h <;> cases h
  refine touch_moves serving.1 (Function.update_self _ _ _)
    ⟨fun k d taken => fair.taken k d (within taken),
    fun k d waits => ?_, fun k d err' answered => ?_, fun k d known => ?_, fair.handled,
    fair.panicked, fair.once⟩ (fun k w busy => (busy_unique serving.2 busy).1) (fun _ _ => rfl)
    (fun _ h => h) (fun _ h => h) (fun _ _ h => still h) (fun h => ?_) fun h =>
    nomatch serving.2.symm.trans h
  · obtain taken | ⟨n, taken⟩ := within (.inl waits)
    · cases serving.2.symm.trans taken
    · cases exit with
      | false => cases waits.symm.trans serving.2
      | true => cases waits
  · by_cases same : (k, d) = (j, cmd)
    · cases same
      cases (Function.update_self (j, cmd) _ svc.replies).symm.trans answered
      exact ⟨came, calm, other⟩
    · exact fair.replied k d err' ((Function.update_of_ne same _ _).symm.trans answered)
  · by_cases same : (k, d) = (j, cmd)
    · cases same
      exact .inr (.inl (by simp))
    · obtain taken | answered | panicked := fair.settled k d known
      · obtain taken | ⟨n, taken⟩ := taken
        · cases serving.2.symm.trans taken
        · cases serving.2.symm.trans taken
          exact absurd rfl same
      · exact .inr (.inl (by simpa only [Function.update_of_ne same] using answered))
      · exact .inr (.inr panicked)
  · simp [Service.active, serving.2] at h

theorem leave_moves {phase : Phase} (at_ref : s.manager.heap ref = some svc)
    (how : svc.active = false ∨ ∃ wake, svc.phase = .busy i wake ∧ Over s svc wake)
    (fair : Fair s svc) (rests : phase = .idle ∨ phase = .closed)
    (done : svc.active = false → phase = .closed) :
    Moves ref i s { s with manager := s.manager.setService ref { svc with phase } } := by
  have free (j : Nat) (cmd : Command) : ¬ Service.Takes { svc with phase } j cmd := by
    rintro (h | ⟨n, h⟩) <;> obtain rfl | rfl := rests <;> cases h
  refine touch_moves at_ref (Function.update_self _ _ _) ⟨fun j d taken => absurd taken (free j d),
    fun j d waits => absurd (.inl waits) (free j d), fair.replied, fun j d came =>
    .inr ?_, fair.handled, fair.panicked, fair.once⟩ (fun j w busy => ?_) (fun _ _ => rfl)
    (fun _ h => h) (fun _ h => h) (fun _ _ h => h) (fun h => ?_) fun h => ?_
  · obtain taken | rest := fair.settled j d came
    · obtain ended | ⟨wake, busy, passed⟩ := how
      · obtain taken | ⟨n, taken⟩ := taken <;> simp [Service.active, taken] at ended
      · obtain taken | ⟨n, taken⟩ := taken
        · cases busy.symm.trans taken
        · cases busy.symm.trans taken
          exact passed j d rfl
    · exact rest
  · obtain ended | ⟨wake, busy', -⟩ := how
    · simp [Service.active, busy] at ended
    · exact (busy_unique busy' busy).1
  · rw [done h]
    rfl
  · exact done (by simp [Service.active, h])

theorem begin_moves (fair : Fair s svc) (at_ref : s.manager.heap ref = some svc)
    (started : start ref i (.pass wake) s = some t) :
    Moves ref i s t ∧ ∃ svc', t.manager.Serving i ref svc' wake ∧ Open t svc' wake := by
  obtain ⟨m, began, rfl⟩ := Option.map_eq_some_iff.1 started
  simp only [begin, Option.bind_eq_some_iff, Option.ite_none_right_eq_some] at began
  obtain ⟨_, at', ready, eq⟩ := began
  cases at'.symm.trans at_ref
  cases eq
  have closed (h : svc.phase = .closed) : False := by
    cases wake <;> simp [Service.ready, h] at ready
  have idle (h : svc.active = false) : False := by
    cases wake <;> simp_all [Service.ready, Service.active]
  have unserved (j : Nat) (w : Wake) (busy : svc.phase = .busy j w) : j = i := by
    cases wake <;> simp [Service.ready, busy] at ready
  have at_ref' : (Function.update s.manager.heap ref
    (some { svc with phase := .busy i wake })) ref =
      some { svc with phase := .busy i wake } := Function.update_self _ _ _
  cases wake with
  | command k d =>
    have offered : svc.phase = .offered k d := by simpa [Service.ready] using ready
    obtain ⟨unhandled, calm, unanswered⟩ := fair.waiting k d offered
    have came := fair.taken k d (.inl offered)
    refine ⟨touch_moves at_ref at_ref' ⟨fun j cmd taken => ?_, fun j cmd waits =>
      (by cases waits), fair.replied, fun j cmd known => ?_, fun j mem => ?_, fair.panicked,
      List.nodup_cons.2 ⟨unhandled, fair.once⟩⟩ unserved
      (fun _ _ => rfl) (fun _ h => h) (fun _ h => h) (fun _ _ h => h) (fun h => (idle h).elim)
      fun h => (closed h).elim, _, ⟨at_ref', rfl⟩, fun j cmd eq => ?_⟩
    · obtain taken | ⟨n, taken⟩ := taken <;> cases taken
      exact came
    · obtain taken | rest := fair.settled j cmd known
      · obtain taken | ⟨n, taken⟩ := taken <;> cases offered.symm.trans taken
        exact .inl (.inr ⟨i, rfl⟩)
      · exact .inr rest
    · obtain rfl | mem := List.mem_cons.1 mem
      · exact ⟨d, came⟩
      · exact fair.handled j mem
    · cases eq
      exact ⟨unanswered, calm⟩
  | ctxDone | exited | tick =>
    have rests : svc.phase = .idle := by
      simp only [Service.ready, Bool.and_eq_true, decide_eq_true_eq] at ready
      first | exact ready | exact ready.1 | exact ready.1.1
    refine ⟨touch_moves at_ref at_ref' ⟨fun j cmd taken => ?_, fun j cmd waits =>
      (by cases waits), fair.replied, fun j cmd known => .inr ?_, fair.handled, fair.panicked,
      fair.once⟩ unserved (fun _ _ => rfl) (fun _ h => h)
      (fun _ h => h) (fun _ _ h => h) (fun h => (idle h).elim) fun h =>
      (closed h).elim, _, ⟨at_ref', rfl⟩, fun j cmd eq => (by cases eq)⟩
    · obtain taken | ⟨n, taken⟩ := taken <;> cases taken
    · obtain taken | rest := fair.settled j cmd known
      · obtain taken | ⟨n, taken⟩ := taken <;> cases rests.symm.trans taken
      · exact rest

theorem perform_moves [Uuid] {c : Call} {e : Env} {a : c.Answer}
    (at_ref : s.manager.heap ref = some svc) (fair : Fair s svc)
    (ok : may ref i s c) (ran : perform i c e s.manager = some (a, m)) :
    Moves ref i s (s.after i c a m) := by
  have same : Moves ref i s ⟨s.manager, s.offered, s.handled, s.panicked⟩ :=
    same_moves at_ref rfl fair
  -- a write to a field of the Service the thread runs
  have field {f : Service → Service}
    (ran : onService s.manager ref (fun svc => some (f svc)) = some ((), m))
      (serves : ∃ svc wake, s.manager.Serving i ref svc wake)
      (kept : ∀ svc, (f svc).phase = svc.phase ∧ (f svc).replies = svc.replies) :
      Moves ref i s ⟨m, s.offered, s.handled, s.panicked⟩ := by
    obtain ⟨svc₀, wake, serving⟩ := serves
    cases serving.1.symm.trans at_ref
    obtain ⟨_, _, at', eq, rfl⟩ := onService_eq_some ran
    cases at'.symm.trans at_ref
    cases eq
    exact field_moves serving (Function.update_self _ _ _) fair (kept svc).1 (kept svc).2
  cases c with
  | offer k cmd =>
    obtain ⟨rfl, fresh⟩ := ok
    obtain ⟨_, at', ran⟩ := Option.bind_eq_some_iff.1 ran
    cases at'.symm.trans at_ref
    split at ran <;> cases ran
    · rename_i idle
      exact offer_moves at_ref idle fresh fair _
    · exact refused_moves at_ref fresh fair
  | await k cmd =>
    obtain ⟨_, -, ran⟩ := Option.bind_eq_some_iff.1 ran
    split at ran
    · split at ran <;> cases ran
      exact same
    · obtain ⟨_, -, eq⟩ := Option.map_eq_some_iff.1 ran
      cases eq
      exact same
  | recheck k cmd | fields k =>
    obtain ⟨_, -, eq⟩ := Option.map_eq_some_iff.1 ran
    cases eq
    exact same
  | report k state =>
    obtain ⟨_, -, eq⟩ := Option.map_eq_some_iff.1 ran
    obtain rfl := answered eq
    exact same_moves at_ref (congrFun report_heap ref) fair
  | emit id state =>
    cases ran
    exact same_moves at_ref (congrFun emit_heap ref) fair
  | setField k state | watch k | unwatch k =>
    obtain ⟨rfl, serves⟩ := ok
    exact field ran serves fun _ => ⟨rfl, rfl⟩
  | vm k op =>
    obtain ⟨rfl, svc₀, wake, serving, opened⟩ := ok
    cases serving.1.symm.trans at_ref
    obtain ⟨_, at', eq⟩ := Option.map_eq_some_iff.1 ran
    cases at'.symm.trans at_ref
    obtain ⟨rfl, left⟩ := Prod.mk.inj eq
    have at_left : m.heap k =
        some { svc with vm := (op.apply e svc.vm (s.manager.remnant svc.id)).1 } := by
      rw [← left]
      exact Function.update_self _ _ _
    simp only [Journal.after, Journal.offers, Journal.panics]
    split
    · exact panic_moves serving opened at_left fair rfl rfl
    · exact field_moves serving at_left fair rfl rfl
  | queryVM k =>
    obtain ⟨rfl, svc₀, wake, serving, opened⟩ := ok
    cases serving.1.symm.trans at_ref
    obtain ⟨_, -, eq⟩ := Option.map_eq_some_iff.1 ran
    obtain ⟨rfl, rfl⟩ := Prod.mk.inj eq
    simp only [Journal.after, Journal.offers, Journal.panics]
    split
    · exact panic_moves serving opened at_ref fair rfl rfl
    · exact same
  | reply k j cmd err exit =>
    obtain ⟨rfl, other, svc₀, serving, opened⟩ := ok
    cases serving.1.symm.trans at_ref
    obtain ⟨_, _, at', eq, rfl⟩ := onService_eq_some ran
    cases at'.symm.trans at_ref
    cases eq
    exact reply_moves serving opened other fair
  | resume k =>
    obtain ⟨rfl, svc₀, wake, serving, passed⟩ := ok
    cases serving.1.symm.trans at_ref
    obtain ⟨_, _, at', eq, rfl⟩ := onService_eq_some ran
    cases at'.symm.trans at_ref
    cases eq
    refine leave_moves at_ref (.inr ⟨wake, serving.2, passed⟩) fair (.inl rfl) fun h => ?_
    simp [Service.active, serving.2] at h
  | close k =>
    obtain ⟨rfl, svc₀, at₀, how⟩ := ok
    cases at₀.symm.trans at_ref
    obtain ⟨_, _, at', eq, rfl⟩ := onService_eq_some ran
    cases at'.symm.trans at_ref
    cases eq
    exact leave_moves at_ref how fair (.inr rfl) fun _ => rfl
  | _ => exact ok.elim

end Steps

theorem replySpec_sound [Uuid] (ref : Ref) : (replySpec ref).Sound exec where
  evolves_refl := .refl
  evolves_trans h k := h.trans k
  keeps_refl := .refl
  keeps_trans h k := h.trans k
  step {i c e s a t} inv ok _ ran := by
    obtain ⟨svc, at_ref, fair⟩ := inv
    obtain ⟨⟨b, m⟩, done, eq⟩ := Option.map_eq_some_iff.1 ran
    cases eq
    have moves := perform_moves at_ref fair ok done
    exact ⟨moves.fair, moves.grows, moves.spares⟩

/-- What thread `i` knows in a pass: it runs the Service, and its command, if it is
for one, is not answered; whether it has led to a panic. -/
def Acts (ref : Ref) (i : Nat) (wake : Wake) (panicked : Prop) (s : Journal) : Prop :=
  ∃ svc, s.manager.Serving i ref svc wake ∧
    ∀ j cmd, wake = .command j cmd → svc.replies (j, cmd) = none ∧ (j ∈ s.panicked ↔ panicked)

def Proper (ran : Ran) : Prop := ∀ err, ran = .err err → some err ≠ exited

section Passes
variable {ref : Ref} {i : Nat} {wake : Wake} {panicked : Prop} {s t : Journal} {m : Manager}
  {c : Call} {α : Type}

theorem Acts.between (h : Acts ref i wake panicked s) (rely : (replySpec ref).Rely i s t) :
    Acts ref i wake panicked t := by
  obtain ⟨svc, serving, known⟩ := h
  obtain ⟨at', same⟩ := rely.2.serving svc wake serving
  exact ⟨svc, ⟨at', serving.2⟩, same ▸ known⟩

theorem Acts.congr {q : Prop} (h : Acts ref i wake panicked s) (same : panicked ↔ q) :
    Acts ref i wake q s := by
  obtain ⟨svc, serving, known⟩ := h
  exact ⟨svc, serving, fun j cmd eq => ⟨(known j cmd eq).1, (known j cmd eq).2.trans same⟩⟩

theorem call_acts [Uuid] {f : c.Answer → M α} {Q : α → Journal → Prop}
    (h : Acts ref i wake panicked s) (ok : ∀ t, Acts ref i wake panicked t → may ref i t c)
    (next : ∀ t e a m, Acts ref i wake panicked t → perform i c e t.manager = some (a, m) →
      WP exec (replySpec ref) i Q (f a) (t.after i c a m)) : WP exec
      (replySpec ref) i Q (.call c f) s := by
  refine .call (fun t _ rely => ok t (h.between rely)) fun t e a u _ rely _ ran _ => ?_
  obtain ⟨⟨b, m⟩, done, eq⟩ := Option.map_eq_some_iff.1 ran
  cases eq
  exact next t e b m (h.between rely) done

def Plain (ref : Ref) : Call → Prop
  | .watch k | .unwatch k => k = ref
  | c => TellCall ref c

theorem Plain.may (plain : Plain ref c) (h : Acts ref i wake panicked t) : may ref i t c := by
  obtain ⟨svc, serving, -⟩ := h
  cases c with
  | setField | watch | unwatch => exact ⟨plain, svc, wake, serving⟩
  | fields | report | emit => trivial
  | _ => exact plain.elim

theorem Plain.acts [Uuid] {e : Env} {a : c.Answer} (plain : Plain ref c)
    (h : Acts ref i wake panicked t) (ran : perform i c e t.manager = some (a, m)) :
    Acts ref i wake panicked (t.after i c a m) := by
  obtain ⟨svc, ⟨at_ref, busy⟩, known⟩ := h
  have field {f : Service → Service}
    (ran : onService t.manager ref (fun svc => some (f svc)) = some ((), m))
      (kept : (f svc).phase = svc.phase ∧ (f svc).replies = svc.replies) :
      Acts ref i wake panicked ⟨m, t.offered, t.handled, t.panicked⟩ := by
    obtain ⟨_, _, at', eq, rfl⟩ := onService_eq_some ran
    cases at'.symm.trans at_ref
    cases eq
    exact ⟨f svc, ⟨Function.update_self _ _ _, kept.1.trans busy⟩, kept.2 ▸ known⟩
  cases c with
  | fields k =>
    obtain ⟨_, -, eq⟩ := Option.map_eq_some_iff.1 ran
    cases eq
    exact ⟨svc, ⟨at_ref, busy⟩, known⟩
  | report k state =>
    obtain ⟨_, -, eq⟩ := Option.map_eq_some_iff.1 ran
    obtain rfl := answered eq
    exact ⟨svc, ⟨(congrFun report_heap ref).trans at_ref, busy⟩, known⟩
  | emit id state =>
    cases ran
    exact ⟨svc, ⟨(congrFun emit_heap ref).trans at_ref, busy⟩, known⟩
  | setField k state | watch k | unwatch k =>
    obtain rfl : k = ref := plain
    exact field ran ⟨rfl, rfl⟩
  | _ => exact plain.elim

theorem plain_acts [Uuid] {p : M α} (calls : Calls p (Plain ref)) (h : Acts ref i wake panicked s) :
    WP exec (replySpec ref) i (fun _ t => Acts ref i wake panicked t) p s := by
  induction calls generalizing s with
  | ret a => exact .ret h
  | call plain _ ih =>
    exact call_acts h (fun _ known => plain.may known) fun t e a m known ran => ih a trivial
      (plain.acts known ran)

theorem TellCall.plain (h : TellCall ref c) : Plain ref c := by
  cases c with
  | watch | unwatch => exact h.elim
  | _ => exact h

theorem setState_acts [Uuid] {state : SandboxState} (h : Acts ref i wake panicked s) :
    WP exec (replySpec ref) i (fun _ t => Acts ref i wake panicked t)
    (Service.setState ref state) s :=
  plain_acts (setState_calls.mono fun _ => TellCall.plain) h

theorem fields_acts [Uuid] (h : Acts ref i wake panicked s) :
    WP exec (replySpec ref) i (fun _ t => Acts ref i wake panicked t) (ask (.fields ref)) s :=
  plain_acts (calls_last rfl) h

theorem Acts.opened (h : Acts ref i wake False s) :
    ∃ svc wake, s.manager.Serving i ref svc wake ∧ Open s svc wake := by
  obtain ⟨svc, serving, known⟩ := h
  exact ⟨svc, wake, serving, fun j cmd eq =>
    ⟨(known j cmd eq).1, fun mem => (known j cmd eq).2.1 mem⟩⟩

theorem Acts.panics {svc : Service} (h : Acts ref i wake False t) (at_ref : m.heap ref = some svc)
    (same : ∀ old, t.manager.heap ref = some old → svc.phase = old.phase ∧
      svc.replies = old.replies) :
    Acts ref i wake True ⟨m, t.offered, t.handled, t.sender i ref ++ t.panicked⟩ := by
  obtain ⟨old, ⟨at_old, busy⟩, known⟩ := h
  obtain ⟨phase, replies⟩ := same old at_old
  refine ⟨svc, ⟨at_ref, phase.trans busy⟩, fun j cmd eq => ?_⟩
  subst eq
  rw [replies]
  simp [(known j cmd rfl).1, Journal.sender, at_old, busy]

/-- What a pass knows once an operation, or several of them, have come to an end. -/
structure Ended (ref : Ref) (i : Nat) (wake : Wake) (a : Ran) (t : Journal) : Prop where
  acts : Acts ref i wake (a = .panicked) t
  proper : Proper a

theorem Ended.calm {a : Ran} (h : Ended ref i wake a t) (ran : a ≠ .panicked) :
    Acts ref i wake False t :=
  h.acts.congr (by simp [ran])

theorem Acts.ended {a : Ran} (h : Acts ref i wake False t) (ran : a ≠ .panicked)
    (proper : Proper a) : Ended ref i wake a t :=
  ⟨h.congr (by simp [ran]), proper⟩

theorem proper_ok : Proper .ok := fun _ eq => nomatch eq

theorem proper_wrap (text : String) (err : Err) : Proper (.err (.wrap text err)) := by
  rintro _ ⟨⟩
  exact nofun

theorem vm_acts [Uuid] (op : VMOp) (h : Acts ref i wake False s) :
    WP exec (replySpec ref) i (Ended ref i wake) (ask (.vm ref op)) s := by
  refine call_acts h (fun t known => ⟨rfl, known.opened⟩) fun t e a m known ran => .ret ?_
  obtain ⟨svc, ⟨at_ref, busy⟩, unanswered⟩ := known
  obtain ⟨_, at', eq⟩ := Option.map_eq_some_iff.1 ran
  cases at'.symm.trans at_ref
  obtain ⟨rfl, left⟩ := Prod.mk.inj eq
  have at_left : m.heap ref =
      some { svc with vm := (op.apply e svc.vm (t.manager.remnant svc.id)).1 } := by
    rw [← left]
    exact Function.update_self _ _ _
  have proper : Proper (op.ran e svc.vm) := by
    intro err eq
    unfold VMOp.ran at eq
    split at eq
    · cases eq
    · unfold Env.ran at eq
      split at eq <;> cases eq
      exact nofun
  refine ⟨?_, proper⟩
  by_cases panicked : op.ran e svc.vm = .panicked
  · simp only [Journal.after, Journal.offers, Journal.panics, panicked, if_true]
    refine Acts.panics ⟨svc, ⟨at_ref, busy⟩, unanswered⟩ at_left fun old at_old => ?_
    cases at_old.symm.trans at_ref
    exact ⟨rfl, rfl⟩
  · simp only [Journal.after, Journal.offers, Journal.panics, panicked, if_false]
    exact ⟨_, ⟨at_left, busy⟩, unanswered⟩

theorem poll_acts [Uuid] (h : Acts ref i wake False s) :
    WP exec (replySpec ref) i (fun a t => Acts ref i wake (a = false) t) (Service.poll ref) s := by
  have calm {t : Journal} (h : Acts ref i wake False t) : Acts ref i wake
    (true = false) t := h.congr (by simp)
  refine (fields_acts h).bind fun fields t known => ?_
  split
  · exact .ret (calm known)
  refine call_acts known (fun t known => ⟨rfl, known.opened⟩) fun t e a m known ran => ?_
  obtain ⟨svc, at_ref, eq⟩ := Option.map_eq_some_iff.1 ran
  obtain ⟨-, rfl⟩ := Prod.mk.inj eq
  match a with
  | none =>
    have noted := known.panics at_ref fun old at_old => by
      cases at_old.symm.trans at_ref
      exact ⟨rfl, rfl⟩
    exact .ret (noted.congr (by simp))
  | some (.ok state) => exact (setState_acts known).bind fun _ t known => .ret (calm known)
  | some (.error _) => exact (setState_acts known).bind fun _ t known => .ret (calm known)

theorem vmCreate_acts [Uuid] (h : Acts ref i wake False s) :
    WP exec (replySpec ref) i (Ended ref i wake) (Service.vmCreate ref) s := by
  refine (vm_acts .createVolume h).bind fun a t known => ?_
  cases a with
  | err | panicked => exact .ret known
  | ok =>
    refine (vm_acts .spawn (known.calm nofun)).bind fun a t known => ?_
    cases a with
    | err | panicked => exact .ret known
    | ok => exact vm_acts .waitRunning (known.calm nofun)

theorem vmCleanup_acts [Uuid] (h : Acts ref i wake False s) :
    WP exec (replySpec ref) i (Ended ref i wake) (Service.vmCleanup ref) s := by
  refine (vm_acts .removeVolume h).bind fun a t known => ?_
  cases a with
  | err | panicked => exact .ret known
  | ok =>
    refine (vm_acts .removeDir (known.calm nofun)).bind fun a t known => ?_
    cases a with
    | err e => exact .ret ((known.calm nofun).ended nofun (proper_wrap _ e))
    | ok | panicked => exact .ret known

theorem remove_acts [Uuid] (h : Acts ref i wake False s) :
    WP exec (replySpec ref) i (Ended ref i wake) (Service.remove ref) s := by
  refine (fields_acts h).bind fun fields t known => ?_
  split
  · exact .ret (known.ended nofun proper_ok)
  refine (vm_acts .stop known).bind fun stopped t known => ?_
  cases stopped with
  | panicked => exact .ret known
  | ok =>
    refine (vmCleanup_acts (known.calm nofun)).bind fun a t known => ?_
    cases a with
    | err e => exact .ret ((known.calm nofun).ended nofun (proper_wrap _ e))
    | ok | panicked => exact .ret known
  | err =>
    refine (vmCleanup_acts (known.calm nofun)).bind fun a t known => ?_
    cases a with
    | ok | err => exact .ret ((known.calm nofun).ended nofun (proper_wrap _ _))
    | panicked => exact .ret known

theorem create_acts [Uuid] (h : Acts ref i wake False s) :
    WP exec (replySpec ref) i (Ended ref i wake) (Service.create ref) s := by
  refine (fields_acts h).bind fun fields t known => ?_
  split
  · refine .ret (known.ended nofun ?_)
    rintro _ ⟨⟩
    exact nofun
  refine (vm_acts .newVM known).bind fun made t known => ?_
  cases made with
  | err | panicked => exact .ret known
  | ok =>
    refine (vmCreate_acts (known.calm nofun)).bind fun built t known => ?_
    cases built with
    | panicked => exact .ret known
    | ok =>
      refine (plain_acts (calls_last (c := .watch ref) rfl)
        (known.calm nofun)).bind fun _ t known => ?_
      refine (poll_acts known).bind fun polled t known => ?_
      cases polled with
      | true => exact .ret ⟨known.congr (by simp), proper_ok⟩
      | false => exact .ret ⟨known.congr (by simp), nofun⟩
    | err e =>
      have proper := known.proper
      refine (remove_acts (known.calm nofun)).bind fun removed t known => ?_
      cases removed with
      | panicked => exact .ret known
      | ok | err => exact .ret ((known.calm nofun).ended nofun proper)

theorem stop_acts [Uuid] (h : Acts ref i wake False s) :
    WP exec (replySpec ref) i (Ended ref i wake) (Service.stop ref) s := by
  refine (fields_acts h).bind fun fields t known => ?_
  split
  · exact .ret (known.ended nofun proper_ok)
  refine (vm_acts .stop known).bind fun a t known => ?_
  cases a with
  | err e => exact .ret ((known.calm nofun).ended nofun (proper_wrap _ e))
  | ok | panicked => exact .ret known

theorem handle_acts [Uuid] {cmd : Command} (h : Acts ref i wake False s) :
    WP exec (replySpec ref) i (Ended ref i wake) (Service.handle ref cmd) s := by
  cases cmd with
  | create => exact create_acts h
  | stop => exact stop_acts h
  | remove => exact remove_acts h

def Done (ref : Ref) (i : Nat) (s : Journal) : Prop :=
  ∃ svc wake, s.manager.Serving i ref svc wake ∧ Over s svc wake

theorem Done.between (h : Done ref i s) (rely : (replySpec ref).Rely i s t) : Done ref i t := by
  obtain ⟨svc, wake, serving, passed⟩ := h
  obtain ⟨at', same⟩ := rely.2.serving svc wake serving
  exact ⟨svc, wake, ⟨at', serving.2⟩, fun j cmd eq => same ▸ passed j cmd eq⟩

theorem Acts.done (h : Acts ref i wake panicked s)
    (passed : ∀ j cmd, wake = .command j cmd → panicked) : Done ref i s := by
  obtain ⟨svc, serving, known⟩ := h
  exact ⟨svc, wake, serving, fun j cmd eq => .inr ((known j cmd eq).2.2 (passed j cmd eq))⟩

theorem resume_done [Uuid] (h : Done ref i s) : WP exec (replySpec ref) i (fun _ _ => True)
    (ask (.resume ref)) s :=
  .call (fun _ _ rely => ⟨rfl, h.between rely⟩) fun _ _ _ _ _ _ _ _ _ => .ret trivial

theorem close_done [Uuid] (h : Done ref i s) : WP exec (replySpec ref) i (fun _ _ => True)
    (ask (.close ref)) s := by
  refine .call (fun t _ rely => ⟨rfl, ?_⟩) fun _ _ _ _ _ _ _ _ _ => .ret trivial
  obtain ⟨svc, wake, serving, passed⟩ := h.between rely
  exact ⟨svc, serving.1, .inr ⟨wake, serving.2, passed⟩⟩

theorem close_exiting [Uuid] {svc : Service} (at_ref : s.manager.heap ref = some svc)
    (left : svc.active = false) : WP exec (replySpec ref) i (fun _ _ => True)
    (ask (.close ref)) s := by
  refine .call (fun t _ rely => ⟨rfl, ?_⟩) fun _ _ _ _ _ _ _ _ _ => .ret trivial
  obtain ⟨svc', at', -, left', -⟩ := rely.1.heap svc at_ref
  exact ⟨svc', at', .inl (left' left)⟩

theorem die_acts [Uuid] (h : Acts ref i wake panicked s)
    (passed : ∀ j cmd, wake = .command j cmd → panicked) :
    WP exec (replySpec ref) i (fun _ _ => True) (Service.die ref) s :=
  (setState_acts h).bind fun _ _ known => close_done (known.done passed)

theorem answer_acts [Uuid] {j : Nat} {cmd : Command} {err : Option Err}
    (h : Acts ref i (.command j cmd) False s)
    (proper : err ≠ exited) : WP exec (replySpec ref) i (fun _ _ => True)
    (Service.answer ref j cmd err) s := by
  refine call_acts h (fun t known => ?_) fun t e _ m known ran => ?_
  · obtain ⟨svc, serving, unanswered⟩ := known
    refine ⟨rfl, proper, svc, serving, fun k d eq => ?_⟩
    exact ⟨(unanswered k d eq).1, fun mem => (unanswered k d eq).2.1 mem⟩
  obtain ⟨svc, ⟨at_ref, busy⟩, -⟩ := known
  obtain ⟨_, _, at', eq, rfl⟩ := onService_eq_some ran
  cases at'.symm.trans at_ref
  cases eq
  split
  · refine close_exiting (Function.update_self _ _ _) ?_
    simp [Service.active]
  · rename_i stays
    refine resume_done ⟨_, .command j cmd, ⟨Function.update_self _ _ _, ?_⟩, fun k d eq => .inl ?_⟩
    · simpa [stays] using busy
    · cases eq
      simp

theorem pass_acts [Uuid] (h : Acts ref i wake False s) :
    WP exec (replySpec ref) i (fun _ _ => True) (Service.pass ref wake) s := by
  cases wake with
  | ctxDone => exact close_done (h.done fun _ _ eq => nomatch eq)
  | command j cmd =>
    refine (handle_acts h).bind fun a t known => ?_
    cases a with
    | ok => exact answer_acts (known.calm nofun) nofun
    | err e => exact answer_acts (known.calm nofun) (known.proper e rfl)
    | panicked => exact die_acts known.acts fun _ _ _ => rfl
  | exited =>
    refine (plain_acts (calls_last (c := .unwatch ref) rfl) h).bind fun _ t known => ?_
    exact (setState_acts known).bind fun _ t known => resume_done
      (known.done fun _ _ eq => nomatch eq)
  | tick =>
    refine (poll_acts h).bind fun polled t known => ?_
    have passed : Done ref i t := known.done fun _ _ eq => nomatch eq
    split
    · exact resume_done passed
    · exact die_acts known fun _ _ eq => nomatch eq

end Passes

def awaiting (ref : Ref) (cmd : Command) : M (Option Err) := do
  -- what is left of do once its command was received
  match ← ask (.await ref cmd) with
  | some err => return err
  | none =>
    match ← ask (.recheck ref cmd) with
    | some err => return err
    | none => return exited

def rechecking (ref : Ref) (cmd : Command) : M (Option Err) := do
  -- and once it has found done closed
  match ← ask (.recheck ref cmd) with
  | some err => return err
  | none => return exited

def HasReply (ref : Ref) (i : Nat) (cmd : Command) (err : Option Err) (s : Journal) : Prop :=
  ∃ svc, s.manager.heap ref = some svc ∧ svc.replies (i, cmd) = some err

/-- What a call of do returns: it was refused, it has the reply, or the goroutine
has panicked over its command. -/
def Returns (ref : Ref) (i : Nat) (k : Kind) (a : Option Err) (t : Journal) : Prop :=
  match k with
  | .do_ cmd => t.offered i = some (cmd, false) ∧ a = exited ∨ t.offered i = some (cmd, true) ∧
      (HasReply ref i cmd a t ∨ a = exited ∧ i ∈ t.panicked)
  | .pass _ => True

section Calls
variable {ref : Ref} {i : Nat} {cmd : Command} {s t : Journal} {svc : Service} {err : Option Err}

theorem HasReply.later (h : HasReply ref i cmd err s) (grows : Grows ref s t) :
    HasReply ref i cmd err t := by
  obtain ⟨svc, at_ref, answered⟩ := h
  obtain ⟨svc', at', replies, -⟩ := grows.heap svc at_ref
  exact ⟨svc', at', replies _ _ answered⟩

theorem HasReply.unique {err' : Option Err} (h : HasReply ref i cmd err s)
    (h' : HasReply ref i cmd err' s) : err' = err := by
  obtain ⟨svc, at_ref, answered⟩ := h
  obtain ⟨svc', at', answered'⟩ := h'
  cases at_ref.symm.trans at'
  exact Option.some.inj (answered'.symm.trans answered)

theorem do_eq : Service.do_ ref cmd =
    .call (.offer ref cmd) fun taken => if taken then awaiting ref cmd else .ret exited := by
  unfold Service.do_ awaiting exited
  rfl

theorem rechecking_wp [Uuid] (at_ref : s.manager.heap ref = some svc) (closed : svc.phase = .closed)
    (received : s.offered i = some (cmd, true)) :
    WP exec (replySpec ref) i (Returns ref i (.do_ cmd)) (rechecking ref cmd) s := by
  refine .call (fun _ _ _ => trivial) fun t e a u inv rely _ ran _ => ?_
  obtain ⟨svc', at', -, -, closed'⟩ := rely.1.heap svc at_ref
  have received := rely.1.offered i _ received
  obtain ⟨⟨b, m⟩, done, eq⟩ := Option.map_eq_some_iff.1 ran
  cases eq
  obtain ⟨_, at_ref', eq⟩ := Option.map_eq_some_iff.1 done
  cases at_ref'.symm.trans at'
  obtain ⟨rfl, rfl⟩ := Prod.mk.inj eq
  cases answered : svc'.replies (i, cmd) with
  | some err => exact .ret (.inr ⟨received, .inl ⟨svc', at', answered⟩⟩)
  | none =>
    refine .ret (.inr ⟨received, .inr ⟨rfl, ?_⟩⟩)
    obtain ⟨_, at_ref'', fair⟩ := inv
    cases at_ref''.symm.trans at'
    obtain taken | replied | panicked := fair.settled i cmd received
    · obtain taken | ⟨n, taken⟩ := taken <;> cases (closed' closed).symm.trans taken
    · exact absurd answered replied
    · exact panicked

theorem awaiting_wp [Uuid] (received : s.offered i = some (cmd, true)) :
    WP exec (replySpec ref) i (Returns ref i (.do_ cmd)) (awaiting ref cmd) s := by
  refine .call (fun _ _ _ => trivial) fun t e a u _ rely _ ran _ => ?_
  have received := rely.1.offered i _ received
  obtain ⟨⟨b, m⟩, done, eq⟩ := Option.map_eq_some_iff.1 ran
  cases eq
  obtain ⟨svc, at_ref, done⟩ := Option.bind_eq_some_iff.1 done
  split at done
  · obtain ⟨closed, eq⟩ := Option.ite_none_right_eq_some.1 done
    cases eq
    exact rechecking_wp at_ref closed received
  · obtain ⟨err, answered, eq⟩ := Option.map_eq_some_iff.1 done
    cases eq
    exact .ret (.inr ⟨received, .inl ⟨svc, at_ref, answered⟩⟩)

theorem do_wp [Uuid] (fresh : s.offered i = none) :
    WP exec (replySpec ref) i (Returns ref i (.do_ cmd)) (Service.do_ ref cmd) s := by
  rw [do_eq]
  refine .call (fun t _ rely => ⟨rfl, rely.2.offered.trans fresh⟩)
    fun t e received u _ rely _ ran _ => ?_
  obtain ⟨⟨b, m⟩, -, eq⟩ := Option.map_eq_some_iff.1 ran
  cases eq
  have noted : (t.after i (.offer ref cmd) b m).offered i = some (cmd, b) :=
    Function.update_self _ _ _
  cases b with
  | true => exact awaiting_wp noted
  | false => exact .ret (.inl ⟨noted, rfl⟩)

end Calls

section Runs
variable {ref : Ref} {s t : State} {m : Manager} {svc : Service}

theorem disciplined [Uuid] (ref : Ref) :
    ((system ref).guarded fun i s => s.offered i = none).Disciplined
    (replySpec ref) (Returns ref) where
  sound := replySpec_sound ref
  start i k s t inv started := by
    obtain ⟨svc, at_ref, fair⟩ := inv
    simp only [System.guarded, Option.ite_none_right_eq_some] at started
    obtain ⟨fresh, started⟩ := started
    cases k with
    | do_ cmd =>
      cases started
      exact ⟨⟨svc, at_ref, fair⟩, .refl s, fun j _ => .refl j s, do_wp fresh⟩
    | pass wake =>
      obtain ⟨moves, svc', serving, opened⟩ := begin_moves fair at_ref started
      refine ⟨moves.fair, moves.grows, moves.spares,
        (pass_acts ⟨svc', serving, fun j cmd eq => ?_⟩).bind fun _ _ _ => .ret trivial⟩
      obtain ⟨unanswered, calm⟩ := opened j cmd eq
      exact ⟨unanswered, fun mem => calm mem, False.elim⟩
  ext m s t inv _ happened := by
    cases happened
    obtain ⟨svc, at_ref, fair⟩ := inv
    have moves (i : Nat) := same_moves
      (m := { m with heap := Function.update m.heap ref (s.manager.heap ref) })
      (i := i) at_ref (Function.update_self _ _ _) fair
    exact ⟨(moves 0).fair, (moves 0).grows,
      fun j => (moves (j + 1)).spares j (Nat.ne_of_lt (Nat.lt_succ_self j))⟩

/-- Where a call of do is, by what became of its command. -/
inductive Placed (ref : Ref) (cmd : Command) (p : M (Option Err)) : Option (Command × Bool) → Prop
  | coming (eq : p = Service.do_ ref cmd) : Placed ref cmd p none
  | waiting (eq : p = awaiting ref cmd) : Placed ref cmd p (some (cmd, true))
  | looking (eq : p = rechecking ref cmd) : Placed ref cmd p (some (cmd, true))
  | returned (b : Bool) (a : Option Err) (eq : p = .ret a) : Placed ref cmd p (some (cmd, b))

/-- Only calls of do offer commands, each its own. -/
structure Sends (ref : Ref) (s : State) : Prop where
  thread : ∀ i cmd p, s.threads i = some ⟨.do_ cmd, p⟩ → Placed ref cmd p (s.shared.offered i)
  sender : ∀ i cmd b, s.shared.offered i = some (cmd, b) → ∃ p, s.threads i = some ⟨.do_ cmd, p⟩

theorem Placed.step {j : Journal} {i : Nat} {cmd : Command} {c : Call}
    {f : c.Answer → M (Option Err)} (h : Placed ref cmd (.call c f) (j.offered i)) (a : c.Answer) :
    Placed ref cmd (f a) (j.offers i c a i) := by
  generalize now : j.offered i = offered at h
  cases h with
  | coming eq =>
    rw [do_eq] at eq
    cases eq
    simp only [Journal.offers, Function.update_self]
    cases a with
    | true => exact .waiting rfl
    | false => exact .returned false exited rfl
  | waiting eq =>
    cases eq
    rw [show j.offers i (.await ref cmd) a i = _ from now]
    cases a with
    | some err => exact .returned true err rfl
    | none => exact .looking rfl
  | looking eq =>
    cases eq
    rw [show j.offers i (.recheck ref cmd) a i = _ from now]
    cases a with
    | some err => exact .returned true err rfl
    | none => exact .returned true exited rfl
  | returned b a eq => cases eq

theorem offers_of_ne {j : Journal} {i k : Nat} (ne : k ≠ i) (c : Call) (a : c.Answer) :
    j.offers i c a k = j.offered k := by
  cases c with
  | offer => exact Function.update_of_ne ne _ _
  | _ => rfl

theorem pass_offers [Uuid] (reached : (system ref).Reaches (System.init (starting m)) s) {n : Nat}
    {wake : Wake} {c : Call} {f : c.Answer → M (Option Err)}
    (thread : s.threads n = some ⟨.pass wake, .call c f⟩) (i : Nat) (a : c.Answer) :
    s.shared.offers i c a = s.shared.offered := by
  have asks (k : Kind) : (body ref k).Asks (fun _ _ => True) fun c => ∀ wake, k = .pass wake →
      ServeCall ref wake c := by
    cases k with
    | do_ cmd => exact .all (fun _ _ eq => nomatch eq) _
    | pass wake =>
      refine (pass_calls.mono fun c made w eq => ?_).bind fun _ => .ret _
      cases eq
      exact made
  have made :=
    (System.asking_reaches (fun _ _ _ _ _ _ _ => trivial) asks reached).call thread wake rfl
  cases c with
  | offer => cases wake <;> exact made.elim
  | _ => rfl

theorem sends_step [Uuid] (reached : (system ref).Reaches (System.init (starting m)) s)
    (h : Sends ref s) {a : Action Kind Env Manager} (step : (system ref).step s a = some t) :
    Sends ref t := by
  obtain ⟨k, v, rfl, started, rfl⟩ | ⟨i, e, k, c, f, r, v, rfl, hi, ran, rfl⟩ | ⟨i, th,
    rfl, hi, stopped, rfl⟩ | ⟨x, v, rfl, happened, rfl⟩ := System.step_cases step
  · have same : v.offered = s.shared.offered := by
      cases k with
      | do_ => cases started; rfl
      | pass =>
        obtain ⟨_, -, rfl⟩ := Option.map_eq_some_iff.1 started
        rfl
    have fresh : s.threads s.next = none := Option.eq_none_iff_forall_ne_some.2 fun th hth =>
      Nat.lt_irrefl _ (System.started_of_thread reached hth)
    refine ⟨fun j cmd p thread => ?_, fun j cmd b offered => ?_⟩
    · rw [same]
      refine System.threads_update (Q := fun j th => ∀ cmd p, th = ⟨.do_ cmd, p⟩ → Placed ref cmd p
        (s.shared.offered j))
        (fun j th _ hj cmd p eq => h.thread j cmd p (hj.trans (congrArg some eq)))
        (fun th new cmd p eq => ?_) j _ thread cmd p rfl
      cases eq
      cases new
      have unused : s.shared.offered s.next = none :=
          Option.eq_none_iff_forall_ne_some.2 fun x offered => by
        obtain ⟨q, hq⟩ := h.sender _ _ _ offered
        cases fresh.symm.trans hq
      exact unused ▸ .coming rfl
    · rw [same] at offered
      obtain ⟨p, hp⟩ := h.sender j cmd b offered
      refine ⟨p, (Function.update_of_ne (fun eq => ?_) _ _).trans hp⟩
      cases fresh.symm.trans (eq ▸ hp)
  · obtain ⟨⟨r, w⟩, -, eq⟩ := Option.map_eq_some_iff.1 ran
    cases eq
    refine ⟨fun j cmd p thread => ?_, fun j cmd b offered => ?_⟩
    · refine System.threads_update
        (Q := fun j th => ∀ cmd p, th = ⟨.do_ cmd, p⟩ → Placed ref cmd p (s.shared.offers i c r j))
        (fun j th ne hj cmd p eq => ?_) (fun th new cmd p eq => ?_) j _ thread cmd p rfl
      · rw [offers_of_ne ne]
        exact h.thread j cmd p (hj.trans (congrArg some eq))
      · cases eq
        cases new
        exact (h.thread i cmd _ hi).step r
    · by_cases same : j = i
      · subst same
        refine ⟨f r, ?_⟩
        cases k with
        | do_ d =>
          have placed := (h.thread j d _ hi).step r
          rw [show s.shared.offers j c r j = _ from offered] at placed
          cases placed <;> exact Function.update_self _ _ _
        | pass wake =>
          rw [show (s.shared.after j c r w).offered = s.shared.offered from pass_offers
            reached hi j r] at offered
          obtain ⟨p, hp⟩ := h.sender j cmd b offered
          cases hi.symm.trans hp
      · rw [show (s.shared.after i c r w).offered j = _ from offers_of_ne same c r] at offered
        obtain ⟨p, hp⟩ := h.sender j cmd b offered
        exact ⟨p, (Function.update_of_ne same _ _).trans hp⟩
  · cases stopped
  · cases happened
    exact ⟨h.thread, h.sender⟩

theorem sends_reaches [Uuid] (reached : (system ref).Reaches (System.init (starting m)) s) :
    Sends ref s := by
  induction reached with
  | refl => exact ⟨fun _ _ _ thread => (nomatch thread), fun _ _ _ offered => (nomatch offered)⟩
  | tail before last ih =>
    obtain ⟨a, -, step⟩ := last
    exact sends_step before ih step

theorem fresh_reaches [Uuid] (reached : (system ref).Reaches (System.init (starting m)) s) :
    s.shared.offered s.next = none := by
  refine Option.eq_none_iff_forall_ne_some.2 fun x offered => ?_
  obtain ⟨p, thread⟩ := (sends_reaches reached).sender _ _ _ offered
  exact Nat.lt_irrefl _ (System.started_of_thread reached thread)

theorem guarded_reaches [Uuid] (reached : (system ref).Reaches (System.init (starting m)) s)
    (later : (system ref).Reaches s t) :
    ((system ref).guarded fun i s => s.offered i = none).Reaches s t :=
  System.reaches_guarded (fun _ h => fresh_reaches (reached.trans h)) later

theorem reply_answers [Uuid] {n i : Nat} {cmd : Command} {err : Option Err} {exit : Bool} {e : Env}
    {a : Unit} {j v : Journal} (ran : exec n (.reply ref i cmd err exit) e j = some (a, v)) :
    HasReply ref i cmd err v := by
  obtain ⟨⟨_, w⟩, done, eq⟩ := Option.map_eq_some_iff.1 ran
  obtain ⟨svc, -, done⟩ := Option.bind_eq_some_iff.1 done
  cases done
  cases eq
  exact ⟨_, Function.update_self _ _ _, Function.update_self _ _ _⟩

variable (ref) in
theorem run_call [Uuid] {i : Nat} {e : Env} {k : Kind} {c : Call} {f : c.Answer → M (Option Err)}
    {a : c.Answer} {v : Journal} (thread : s.threads i = some ⟨k, .call c f⟩)
    (ran : exec i c e s.shared = some (a, v)) :
    ∃ u, (system ref).run s [.call i e] = some u ∧ u.shared = v ∧ u.threads i = some ⟨k, f a⟩ := by
  have step := System.step_call (S := system ref) thread ran
  exact ⟨_, congrArg (Option.bind · _) step, rfl, Function.update_self _ _ _⟩

section Fresh
variable [Uuid] (inv : (replySpec ref).Inv (starting m))
  (reached : (system ref).Reaches (System.init (starting m)) s) {i n : Nat} {cmd : Command}
    {k : Kind} {err : Option Err} {exit : Bool} {f : Unit → M (Option Err)}
include inv reached

theorem safe_reached :
    ((system ref).guarded fun i s => s.offered i = none).Safe (replySpec ref) (Returns ref) s :=
  (System.safe_reaches (disciplined ref) (fun _ _ _ _ => trivial) (fun _ _ => trivial)
    (System.safe_init inv) (guarded_reaches .refl reached)).1

theorem grows_reaches (later : (system ref).Reaches s t) : Grows ref s.shared t.shared :=
  (System.safe_reaches (disciplined ref) (fun _ _ _ _ => trivial) (fun _ _ => trivial)
    (safe_reached inv reached) (guarded_reaches reached later)).2

theorem returned_reply {a : Option Err} (thread : s.threads i = some ⟨.do_ cmd, .ret a⟩)
    (received : s.shared.offered i = some (cmd, true)) (calm : i ∉ s.shared.panicked) :
    HasReply ref i cmd a s.shared := by
  obtain ⟨w, grows, was⟩ := System.safe_results (disciplined ref) inv
    (guarded_reaches .refl reached) thread
  obtain ⟨refused, -⟩ | ⟨-, answered | ⟨-, panicked⟩⟩ := was
  · cases received.symm.trans (grows.offered i _ refused)
  · exact answered.later grows
  · exact absurd (grows.panicked i panicked) calm

theorem reply_pending
    (thread : s.threads n = some ⟨k, .call (.reply ref i cmd err exit) f⟩) :
    err ≠ exited ∧ ∃ svc, s.shared.manager.heap ref = some svc ∧ svc.replies (i, cmd) = none ∧
      s.shared.offered i = some (cmd, true) ∧ i ∉ s.shared.panicked := by
  have safe := safe_reached inv reached
  obtain ⟨-, proper, svc, serving, opened⟩ := System.safe_pre (disciplined ref) safe thread
  obtain ⟨svc', at', fair⟩ := safe.inv
  cases serving.1.symm.trans at'
  obtain ⟨unanswered, calm⟩ := opened i cmd rfl
  exact ⟨proper, svc, serving.1, unanswered, fair.taken i cmd (.inr ⟨n, serving.2⟩), calm⟩

theorem reply_reaches
    (thread : s.threads n = some ⟨k, .call (.reply ref i cmd err exit) f⟩)
    (later : (system ref).Reaches s t) :
    t.threads n = some ⟨k, .call (.reply ref i cmd err exit) f⟩ ∨
    HasReply ref i cmd err t.shared := by
  induction later with
  | refl => exact .inl thread
  | @tail u v before last ih =>
    have reached := reached.trans before
    obtain pending | answered := ih
    · obtain ⟨a, -, step⟩ := last
      have started := System.started_of_thread reached pending
      obtain same | gone | ⟨e, _, _, _, r, rfl, was, ran, -⟩ := System.thread_step started step
      · exact .inl (same.trans pending)
      · obtain ⟨q, still⟩ := System.thread_kept (fun _ => rfl) started step pending
        cases gone.symm.trans still
      · cases was.symm.trans pending
        exact .inr (reply_answers ran)
    · exact .inr (answered.later (grows_reaches inv reached (Relation.ReflTransGen.single last)))

theorem reply_returns (answered : HasReply ref i cmd err s.shared) :
    (∀ k a, s.threads i = some ⟨k, .ret a⟩ → a = err) ∧
    ∃ as u, as.length ≤ 1 ∧ (system ref).run s as = some u ∧
    u.threads i = some ⟨.do_ cmd, .ret err⟩ := by
  obtain ⟨svc, at_ref, fair⟩ := (safe_reached inv reached).inv
  obtain ⟨svc', at', reply⟩ := id answered
  cases at_ref.symm.trans at'
  obtain ⟨received, calm, -⟩ := fair.replied i cmd err reply
  obtain ⟨p, thread⟩ := (sends_reaches reached).sender i cmd true received
  have agrees (a : Option Err) (eq : p = .ret a) : a = err :=
    answered.unique (returned_reply inv reached (eq ▸ thread) received calm)
  have placed := (sends_reaches reached).thread i cmd p thread
  rw [received] at placed
  refine ⟨fun k a done => ?_, ?_⟩
  · cases thread.symm.trans done
    exact agrees a rfl
  · cases placed with
    | waiting eq =>
      subst eq
      have ran : exec i (.await ref cmd) {} s.shared = some (some err, s.shared) := by
        simp [exec, perform, at_ref, reply, Journal.after, Journal.offers, Journal.panics]
      obtain ⟨u, run, -, done⟩ := run_call ref thread ran
      exact ⟨[.call i {}], u, Nat.le_refl 1, run, done⟩
    | looking eq =>
      subst eq
      have ran : exec i (.recheck ref cmd) {} s.shared = some (some err, s.shared) := by
        simp [exec, perform, at_ref, reply, Journal.after, Journal.offers, Journal.panics]
      obtain ⟨u, run, -, done⟩ := run_call ref thread ran
      exact ⟨[.call i {}], u, Nat.le_refl 1, run, done⟩
    | returned _ a eq =>
      subst eq
      exact ⟨[], s, Nat.zero_le _, rfl, agrees a rfl ▸ thread⟩

theorem reply_arrives
    (thread : s.threads n = some ⟨k, .call (.reply ref i cmd err exit) f⟩)
    (later : (system ref).Reaches s t) :
    (∀ k a, t.threads i = some ⟨k, .ret a⟩ → a = err) ∧
    ∃ as u, as.length ≤ 2 ∧ (system ref).run t as = some u ∧
    u.threads i = some ⟨.do_ cmd, .ret err⟩ := by
  have now := reached.trans later
  obtain pending | answered := reply_reaches inv reached thread later
  · obtain ⟨-, svc, at_ref, unanswered, received, calm⟩ := reply_pending inv now pending
    obtain ⟨p, sender⟩ := (sends_reaches now).sender i cmd true received
    refine ⟨fun k a done => ?_, ?_⟩
    · cases sender.symm.trans done
      obtain ⟨svc', at', reply⟩ := returned_reply inv now sender received calm
      cases at_ref.symm.trans at'
      cases unanswered.symm.trans reply
    · -- the reply is sent, and is there for the call to take
      have ready : ∃ v, exec n (.reply ref i cmd err exit) {} t.shared = some ((), v) := by
        simp only [exec, perform, onService, at_ref, Option.bind_some, Option.map_some]
        exact ⟨_, rfl⟩
      obtain ⟨v, ran⟩ := ready
      obtain ⟨u, sent, rfl, -⟩ := run_call ref pending ran
      obtain ⟨-, as, w, short, run, done⟩ :=
        reply_returns inv (now.trans (System.reaches_of_run sent)) (reply_answers ran)
      exact ⟨.call n {} :: as, w, Nat.succ_le_succ short, System.run_append sent run, done⟩
  · obtain ⟨agrees, as, u, short, run, done⟩ := reply_returns inv now answered
    exact ⟨agrees, as, u, Nat.le_succ_of_le short, run, done⟩

theorem exited_refused (thread : s.threads i = some ⟨.do_ cmd, .ret exited⟩) :
    (∀ d, s.shared.offered i ≠ some (d, true)) ∨ i ∈ s.shared.panicked := by
  by_cases calm : i ∈ s.shared.panicked
  · exact .inr calm
  refine .inl fun d received => ?_
  obtain ⟨p, sender⟩ := (sends_reaches reached).sender i d true received
  cases thread.symm.trans sender
  obtain ⟨svc, at_ref, answered⟩ := returned_reply inv reached thread received calm
  obtain ⟨svc', at', fair⟩ := (safe_reached inv reached).inv
  cases at_ref.symm.trans at'
  exact (fair.replied i cmd _ answered).2.2 rfl

end Fresh

theorem starting_fair (at_ref : m.heap ref = some svc) (idle : svc.phase = .idle)
    (unused : svc.replies = fun _ => none) : (replySpec ref).Inv (starting m) := by
  refine ⟨svc, at_ref, fun j cmd taken => ?_, fun j cmd offered => ?_, fun j cmd err replied => ?_,
    fun _ _ offered => (nomatch offered), fun _ mem => (nomatch mem), fun _ mem =>
    (nomatch mem), List.nodup_nil⟩
  · obtain taken | ⟨n, taken⟩ := taken <;> cases idle.symm.trans taken
  · cases idle.symm.trans offered
  · rw [unused] at replied
    cases replied

end Runs

/-- Calls of do against the loop of a Service that has just been made. Once handle has
returned `err` for a command, the reply is `err`, and not errServiceExited; the call
of do that sent the command never comes back with anything else, whatever happens
meanwhile, and from wherever the run has got to two steps bring it back. A call comes
back with errServiceExited only if its command was never received or the goroutine
has panicked over it. No command is handled twice. -/
theorem no_reply_lost [Uuid] {ref : Ref} {m : Manager} {svc : Service}
    (at_ref : m.heap ref = some svc) (idle : svc.phase = .idle)
    (unused : svc.replies = fun _ => none) {s : State}
    (reached : (system ref).Reaches (System.init (starting m)) s) :
    (∀ n k i cmd err exit f, s.threads n = some ⟨k, .call (.reply ref i cmd err exit) f⟩ →
      err ≠ exited ∧ ∀ t, (system ref).Reaches s t →
        (∀ k a, t.threads i = some ⟨k, .ret a⟩ → a = err) ∧
        ∃ as u, as.length ≤ 2 ∧ (system ref).run t as = some u ∧
        u.threads i = some ⟨.do_ cmd, .ret err⟩) ∧
    (∀ i cmd, s.threads i = some ⟨.do_ cmd, .ret exited⟩ →
      (∀ d, s.shared.offered i ≠ some (d, true)) ∨ i ∈ s.shared.panicked) ∧
    s.shared.handled.Nodup := by
  have inv := starting_fair at_ref idle unused
  refine ⟨fun n k i cmd err exit f thread => ?_, fun i cmd thread =>
    exited_refused inv reached thread, ?_⟩
  · exact ⟨(reply_pending inv reached thread).1, fun t later =>
      reply_arrives inv reached thread later⟩
  · obtain ⟨_, -, fair⟩ := (safe_reached inv reached).inv
    exact fair.once

def removal : List (Action Kind Env Manager) :=
  -- a Service has just been made, and a remove of it comes in
  [.spawn (.do_ .remove), .call 0 {}, .spawn (.pass (.command 0 .remove)), .call 1 {}]

def lone : Manager :=
  { booting .empty with
    heap := Function.update (fun _ => none) 0 (some (newService Host.someID none)) }

def asking (s : State) (i : Nat) : Option (Kind × Call) :=
  match s.threads i with
  | some ⟨k, .call c _⟩ => some (k, c)
  | _ => none

theorem asking_eq_some {s : State} {i : Nat} {k : Kind} {c : Call} (h : asking s i = some (k, c)) :
    ∃ f, s.threads i = some ⟨k, .call c f⟩ := by
  unfold asking at h
  split at h
  · rename_i k' c' f found
    cases h
    exact ⟨f, found⟩
  · cases h

open Uuid.Standard in
theorem no_reply_lost_removed : ∃ s f, (system 0).Reaches (System.init (starting lone)) s ∧
    s.threads 1 = some ⟨.pass (.command 0 .remove), .call (.reply 0 0 .remove none true) f⟩ ∧
    ∃ as u, (system 0).run s as = some u ∧ u.threads 0 = some ⟨.do_ .remove, .ret none⟩ := by
  -- the remove of a sandbox without a VM ends the goroutine, and comes back with nil
  have run : ((system 0).run (System.init (starting lone)) removal).bind (asking · 1) =
      some (.pass (.command 0 .remove), .reply 0 0 .remove none true) := by
    decide +kernel
  obtain ⟨s, reached, run⟩ := Option.bind_eq_some_iff.1 run
  obtain ⟨f, thread⟩ := asking_eq_some run
  have run := System.reaches_of_run reached
  have at_ref : lone.heap 0 = some (newService Host.someID none) := rfl
  obtain ⟨replies, -, -⟩ := no_reply_lost at_ref rfl rfl run
  obtain ⟨-, arrives⟩ := replies 1 _ _ _ _ _ _ thread
  obtain ⟨-, as, u, -, done, returned⟩ := arrives s .refl
  exact ⟨s, f, run, thread, as, u, done, returned⟩

end Fire2.Replies
