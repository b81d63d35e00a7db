import Fire2.Orchestrator

/-! What an attempt of the create job knows at each of its calls: it sends
CreateSandbox to the worker its sandbox was assigned to, and moves the sandbox
to starting only once that worker has answered OK. `Flow` is what a
specification has to say about these calls, `Flow.work_wp` the whole attempt. -/

namespace Fire2.Orchestrator
open Interleaving CreateSandboxWorker

variable {E X σ : Type}

/-- The facts an attempt gathers and how it comes by them: the sandbox exists, it
is bound to a worker, a request was sent to that worker, and was answered OK. -/
structure Flow (exec : Exec Call E σ Call.Answer) (D : Spec Call E X σ) (i : Nat)
    (id : SandboxID) where
  There : σ → Prop
  Bound : WorkerID → σ → Prop
  Sent : WorkerID → Nat → σ → Prop
  Up : WorkerID → σ → Prop
  sound : D.Sound exec
  answered : ∀ c e s r t, exec i c e s = some (r, t) → Answered c r
  there_kept : ∀ s t, There s → D.Evolves s t → There t
  bound_kept : ∀ w s t, Bound w s → D.Evolves s t → Bound w t
  up_kept : ∀ w s t, Up w s → D.Evolves s t → Up w t
  sent_kept : ∀ w ref s t, Sent w ref s → D.Rely i s t → Sent w ref t
  plain : ∀ c s, PlainCall id c → D.Inv s → There s → D.Pre i c s
  send : ∀ w addr req s, req.id = id → D.Inv s → There s → Bound w s →
    D.Pre i (.sendCreate w addr req) s
  start : ∀ w s, D.Inv s → There s → Bound w s → Up w s →
    D.Pre i (.updateStatus id .starting [.assigned]) s
  read : ∀ e s sbx t w, exec i (.getSandbox id) e s = some (.ok sbx, t) → D.Inv t →
    sbx.workerID = some w → Bound w t
  assigned : ∀ k e s sbx t w, exec i (.assignWorker id k) e s = some (.ok (some sbx), t) → D.Inv t →
    sbx.workerID = some w → Bound w t
  sent : ∀ w addr req e s ref t, req.id = id → D.Inv s → Bound w s →
    D.Cond i (.sendCreate w addr req) e s →
    exec i (.sendCreate w addr req) e s = some (ref, t) → Sent w ref t
  up : ∀ w ref e s t, D.Inv s → Sent w ref s → D.Cond i (.await ref) e s →
    exec i (.await ref) e s = some (.ok (), t) → Up w t

namespace Flow
variable {exec : Exec Call E σ Call.Answer} {D : Spec Call E X σ} {i : Nat} {id : SandboxID}
  {isFinal : Bool} {s : σ}

abbrev Runs (F : Flow exec D i id) (p : Work) (s : σ) : Prop :=
  WP exec D i (fun _ t => F.There t) p s

theorem plain_wp (F : Flow exec D i id) {α : Type} {p : Job α} (h : Calls p (PlainCall id))
    (there : F.There s) : WP exec D i (fun _ t => F.There t) p s :=
  WP.of_asks F.sound F.there_kept F.plain F.answered h there

theorem ask_wp (F : Flow exec D i id) {c : Call} {f : c.Answer → Work} (there : F.There s)
    (pre : ∀ t, D.Inv t → F.There t → D.Rely i s t → D.Pre i c t)
    (next : ∀ t e a u, D.Inv t → D.Rely i s t → D.Cond i c e t →
      exec i c e t = some (a, u) → D.Inv u →
      D.Evolves s u → F.There u → F.Runs (f a) u) : F.Runs (ask c >>= f) s := by
  refine WP.step F.sound fun t inv rely => ⟨pre t inv (F.there_kept s t there rely.1) rely, ?_⟩
  exact fun e a u cond ran inv' evolved =>
    next t e a u inv rely cond ran inv' evolved (F.there_kept s u there evolved)

theorem ask_plain (F : Flow exec D i id) {c : Call} {f : c.Answer → Work} (plain : PlainCall id c)
    (there : F.There s) (next : ∀ t e a u, exec i c e t = some (a, u) → D.Inv u → D.Evolves s u →
      F.There u → F.Runs (f a) u) : F.Runs (ask c >>= f) s :=
  F.ask_wp there (fun t inv there _ => F.plain c t plain inv there)
    fun t e a u _ _ _ ran inv evolved there => next t e a u ran inv evolved there

theorem stepStartSandbox_wp (F : Flow exec D i id) {sbx : Sandbox} (same : sbx.id = id)
    (there : F.There s) (bound : ∀ w, sbx.workerID = some w → F.Bound w s) :
    F.Runs (stepStartSandbox sbx isFinal) s := by
  subst same
  unfold stepStartSandbox
  split
  · exact F.plain_wp maybeCleanup_calls there
  rename_i w held
  have bound := bound w held
  refine F.ask_plain trivial there fun t e a u _ _ evolved there => ?_
  obtain err | worker := a
  · exact F.plain_wp maybeCleanup_calls there
  replace bound := F.bound_kept w _ _ bound evolved
  refine F.ask_plain trivial there fun t e a u _ _ evolved there => ?_
  obtain err | _ := a
  · exact F.plain_wp maybeCleanup_calls there
  replace bound := F.bound_kept w _ _ bound evolved
  refine F.ask_wp there (fun t inv there rely => ?_)
    fun t e ref u inv rely cond ran inv' evolved there => ?_
  · exact F.send w _ _ t rfl inv there (F.bound_kept w _ t bound rely.1)
  have sent := F.sent w _ _ e t ref u rfl inv (F.bound_kept w _ t bound rely.1) cond ran
  replace bound := F.bound_kept w _ u bound evolved
  refine F.ask_wp there (fun t inv there _ => F.plain _ t trivial inv there)
    fun t e a v inv rely cond ran inv' evolved there => ?_
  obtain err | _ := a
  · exact F.plain_wp maybeCleanup_calls there
  have up := F.up w ref e t v inv (F.sent_kept w ref u t sent rely) cond ran
  replace bound := F.bound_kept w _ v bound evolved
  refine F.ask_wp there (fun t inv there rely => ?_) fun t e a u _ _ _ _ _ _ there => ?_
  · exact F.start w t inv there (F.bound_kept w _ t bound rely.1) (F.up_kept w _ t up rely.1)
  obtain err | _ := a
  · exact F.plain_wp maybeCleanup_calls there
  · exact F.plain_wp stepAcknowledge_calls there

theorem assignLoop_wp (F : Flow exec D i id) {next : Option Sandbox → Work}
    (h : ∀ a t, F.There t → (∀ sbx, a = some sbx → sbx.id = id ∧
      ∀ w, sbx.workerID = some w → F.Bound w t) → F.Runs (next a) t) (n : Nat)
    (candidates : List WorkerCandidate) (droppedFull : Bool) (there : F.There s) :
    F.Runs (assignLoop id isFinal next n candidates droppedFull) s := by
  induction n generalizing candidates droppedFull s with
  | zero => exact F.plain_wp noChoice_calls there
  | succ n ih =>
    refine F.ask_plain trivial there fun t e draw u _ _ _ there => ?_
    split
    · exact F.plain_wp noChoice_calls there
    refine F.ask_plain rfl there fun t e a u ran inv _ there => ?_
    obtain err | assigned := a
    · dsimp only
      split
      · exact ih _ _ there
      · exact F.plain_wp maybeCleanup_calls there
    · refine h assigned u there fun sbx eq => ?_
      subst eq
      exact ⟨(F.answered _ e t _ u ran).1 sbx rfl, fun w => F.assigned _ e t sbx u w ran inv⟩

theorem stepAssign_wp (F : Flow exec D i id) {sbx : Sandbox} (same : sbx.id = id)
    (there : F.There s) (bound : ∀ w, sbx.workerID = some w → F.Bound w s) :
    F.Runs (stepAssign sbx isFinal) s := by
  unfold stepAssign
  split
  · exact F.stepStartSandbox_wp same there bound
  subst same
  refine F.ask_plain trivial there fun t e a u _ _ _ there => ?_
  obtain err | workers := a
  · exact F.plain_wp maybeCleanup_calls there
  refine (F.plain_wp (buildCandidates_calls workers) there).bind fun candidates t there =>
    F.assignLoop_wp (fun a t there given => ?_) _ _ _ there
  split
  · exact F.plain_wp movedUnder_calls there
  · rename_i assigned found
    obtain ⟨same, bound⟩ := given assigned (Option.filter_eq_some_iff.1 found).1
    exact F.stepStartSandbox_wp same there bound

theorem ask_sandbox (F : Flow exec D i id) {f : Except Err Sandbox → Work} (there : F.There s)
    (failed : ∀ err t, F.There t → F.Runs (f (.error err)) t)
    (found : ∀ sbx t, sbx.id = id → F.There t → (∀ w, sbx.workerID = some w → F.Bound w t) →
      F.Runs (f (.ok sbx)) t) : F.Runs (ask (.getSandbox id) >>= f) s := by
  refine F.ask_plain rfl there fun t e a u ran inv _ there => ?_
  obtain err | sbx := a
  · exact failed err u there
  · exact found sbx u ((F.answered _ e t _ u ran).1 sbx rfl) there
      fun w => F.read e t sbx u w ran inv

theorem stepScheduling_wp (F : Flow exec D i id) (there : F.There s) :
    F.Runs (stepScheduling id isFinal) s := by
  refine F.ask_plain ⟨rfl, by decide⟩ there fun t e a u _ _ _ there => ?_
  obtain err | _ | _ := a
  · exact F.plain_wp maybeCleanup_calls there
  · exact F.plain_wp movedUnder_calls there
  exact F.ask_sandbox there (fun err t there => F.plain_wp maybeCleanup_calls there)
    fun sbx t same there bound => F.stepAssign_wp same there bound

theorem work_wp (F : Flow exec D i id) (there : F.There s) : F.Runs (work id isFinal) s := by
  refine F.ask_sandbox there (fun err t there => .ret there) fun sbx t same there bound => ?_
  dsimp only
  split
  · exact F.stepScheduling_wp there
  · exact F.stepAssign_wp same there bound
  · exact F.stepStartSandbox_wp same there bound
  · exact F.plain_wp stepAcknowledge_calls there
  all_goals exact .ret there

end Flow
end Fire2.Orchestrator
