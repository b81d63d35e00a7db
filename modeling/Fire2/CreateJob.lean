import Fire2.Statuses

/-! What an attempt of the create job says about its sandbox: nil only if it was
running during the attempt, a cancellation only if it has ended for good. The
database the run starts from is arbitrary. -/

namespace Fire2.Orchestrator
open Interleaving Lifecycle SandboxRepository CreateSandboxWorker

section Cancellation
variable {id : SandboxID} {isFinal : Bool} {i : Nat} {s : World}

def There (s : World) (id : SandboxID) : Prop := ∃ r, s.db.sandbox? id = some r

theorem There.grows {may : Permit} {t : World} (h : There s id)
    (g : Grows may s.db t.db) : There t id := by
  obtain ⟨r, row⟩ := h
  obtain ⟨r', row', -⟩ := g.kept id r row
  exact ⟨r', row'⟩

theorem wp_there {α : Type} {Q : α → World → Prop} {c : Call} {f : c.Answer → Job α}
    (lawful : Lawful c) (there : There s id) (next : ∀ t e a u, answer c e t = (a, u) →
      Answered c a → There t id → There u id → WP exec lawfulSpec i Q (f a) u) :
    WP exec lawfulSpec i Q (ask c >>= f) s := by
  refine wp_ask fun t _ rely => ⟨lawful, fun e a u ran answered _ => ?_⟩
  have here := there.grows rely.1
  have grows : Grows .any t.db (answer c e t).2.db :=
    (answer_grows lawful e).mono fun _ _ _ _ => trivial
  rw [ran] at grows
  exact next t e a u ran answered here (here.grows grows)

def Honest (id : SandboxID) (result : Option Err) (s : World) : Prop :=
  ∀ err, result = some err → err.isCancel = true → Claimed s.db id

theorem honest_plain {err : Err} (plain : err.isCancel = false) : Honest id (some err) s := by
  rintro _ ⟨⟩ cancel
  cases plain.symm.trans cancel

theorem honest_settled {r : SandboxRow} {result : Option Err} (row : s.db.sandbox? id = some r)
    (h : settled (scanSandbox id r) = some result) : Honest id result s := by
  rintro err rfl -
  refine ⟨r, row, ?_⟩
  unfold settled at h
  split at h
  · cases h
  · rename_i e
    exact (e : r.status = .stopped) ▸ (by decide)
  · rename_i e
    exact (e : r.status = .failed) ▸ (by decide)
  · rename_i e
    exact (e : r.status = .cleanupPending) ▸ (by decide)
  · rename_i e
    exact (e : r.status = .cleanedUp) ▸ (by decide)
  · cases h

theorem maybeCleanup_honest {err : Err} (plain : err.isCancel = false) (there : There s id) :
    WP exec lawfulSpec i (Honest id) (maybeCleanup id isFinal err) s := by
  unfold maybeCleanup
  split
  · refine wp_there trivial there fun t e a u ran _ here _ => ?_
    cases a with
    | error _ => exact .ret (honest_plain plain)
    | ok _ =>
      refine .ret ?_
      rintro _ ⟨⟩ -
      obtain ⟨r, row⟩ := here
      have claimed := updateStatus_claimed row
      simp only [answer, statement] at ran
      have done := faulty_ok ran
      simp only [onDatabase, Transactions.cleanup] at done
      split at done
      · rename_i marked
        rw [marked] at claimed
        cases done
        exact claimed
      · cases done
  · exact .ret (honest_plain plain)

theorem movedUnder_honest {step : String} (there : There s id) :
    WP exec lawfulSpec i (Honest id) (movedUnder id step isFinal) s := by
  refine wp_there trivial there fun t e a u ran answered _ still => ?_
  cases a with
  | error err => exact maybeCleanup_honest (answered.2 err rfl) still
  | ok sbx =>
    obtain ⟨rfl, r, row, rfl⟩ := getSandbox_ok ran
    dsimp only
    split
    · rename_i done
      exact .ret (honest_settled row done)
    · exact maybeCleanup_honest rfl still

theorem stepAcknowledge_honest (there : There s id) :
    WP exec lawfulSpec i (Honest id) (stepAcknowledge id isFinal) s := by
  refine wp_there trivial there fun t e a u ran answered _ still => ?_
  cases a with
  | error err => exact maybeCleanup_honest (answered.2 err rfl) still
  | ok sbx =>
    obtain ⟨rfl, r, row, rfl⟩ := getSandbox_ok ran
    dsimp only
    split
    · rename_i done
      exact .ret (honest_settled row done)
    refine wp_there ⟨_, .running⟩ still fun t e a u ran answered _ still => ?_
    obtain err | _ | _ := a
    · exact maybeCleanup_honest (answered err rfl) still
    · exact movedUnder_honest still
    · exact .ret nofun

theorem stepStartSandbox_honest {sbx : Sandbox} (same : sbx.id = id) (there : There s id) :
    WP exec lawfulSpec i (Honest id) (stepStartSandbox sbx isFinal) s := by
  subst same
  unfold stepStartSandbox
  split
  · exact maybeCleanup_honest rfl there
  refine wp_there trivial there fun t e a u _ answered _ still => ?_
  obtain err | worker := a
  · exact maybeCleanup_honest (answered err rfl) still
  refine wp_there trivial still fun t e a u _ answered _ still => ?_
  obtain err | _ := a
  · exact maybeCleanup_honest (answered err rfl) still
  refine wp_there trivial still fun t e ref u _ _ _ still => ?_
  refine wp_there trivial still fun t e a u _ answered _ still => ?_
  obtain err | _ := a
  · exact maybeCleanup_honest (answered err rfl) still
  refine wp_there ⟨_, .starting⟩ still fun t e a u _ answered _ still => ?_
  obtain err | _ := a
  · exact maybeCleanup_honest (answered err rfl) still
  · exact stepAcknowledge_honest still

theorem noChoice_honest {droppedFull : Bool} {err : Err} (plain : err.isCancel = false)
    (there : There s id) :
    WP exec lawfulSpec i (Honest id) (noChoice id isFinal droppedFull err) s := by
  unfold noChoice
  split
  · exact maybeCleanup_honest plain there
  split
  · exact maybeCleanup_honest rfl there
  · exact maybeCleanup_honest plain there

theorem choose_plain {draw : ℚ} {candidates : List WorkerCandidate} :
    Plain (Scheduler.chooseLeastUsedWorker draw candidates) := by
  intro err h
  unfold Scheduler.chooseLeastUsedWorker at h
  dsimp only at h
  split_ifs at h
  · cases h
    rfl
  · cases h
    rfl
  · split at h
    · cases h
    · split at h <;> cases h
      rfl

theorem assignLoop_honest {next : Option Sandbox → Work}
    (h : ∀ a t, (∀ sbx, a = some sbx → sbx.id = id) → There t id →
      WP exec lawfulSpec i (Honest id) (next a) t) (n : Nat) (candidates : List WorkerCandidate)
    (droppedFull : Bool) (there : There s id) :
    WP exec lawfulSpec i (Honest id) (assignLoop id isFinal next n candidates droppedFull) s := by
  induction n generalizing candidates droppedFull s with
  | zero => exact noChoice_honest rfl there
  | succ n ih =>
    refine wp_there trivial there fun t e draw u _ _ _ still => ?_
    split
    · rename_i err failed
      exact noChoice_honest (choose_plain err failed) still
    · refine wp_there trivial still fun t e a u _ answered _ still => ?_
      obtain err | assigned := a
      · dsimp only
        split
        · exact ih _ _ still
        · exact maybeCleanup_honest (answered.2 err rfl) still
      · exact h assigned u (fun sbx eq => answered.1 sbx (congrArg Except.ok eq)) still

theorem stepAssign_honest {sbx : Sandbox} (same : sbx.id = id) (there : There s id) :
    WP exec lawfulSpec i (Honest id) (stepAssign sbx isFinal) s := by
  unfold stepAssign
  split
  · exact stepStartSandbox_honest same there
  subst same
  refine wp_there trivial there fun t e a u _ answered _ still => ?_
  obtain err | workers := a
  · exact maybeCleanup_honest (answered err rfl) still
  have calls : Calls (buildCandidates workers) (CreateCall sbx.id) :=
    (buildCandidates_calls workers).create
  refine (WP.of_asks lawfulSpec_sound (φ := fun s => There s sbx.id) (fun _ _ h g => h.grows g)
    (fun _ _ call _ _ => CreateCall.lawful call) (fun _ _ _ _ _ => exec_answered) calls still).bind
    fun candidates v still => ?_
  refine assignLoop_honest (fun a t same there => ?_) _ _ _ still
  split
  · exact movedUnder_honest there
  · rename_i assigned found
    exact stepStartSandbox_honest (same assigned (Option.filter_eq_some_iff.1 found).1) there

theorem stepScheduling_honest (there : There s id) :
    WP exec lawfulSpec i (Honest id) (stepScheduling id isFinal) s := by
  refine wp_there ⟨_, .scheduling⟩ there fun t e a u _ answered _ still => ?_
  obtain err | _ | _ := a
  · exact maybeCleanup_honest (answered err rfl) still
  · exact movedUnder_honest still
  refine wp_there trivial still fun t e a u _ answered _ still => ?_
  obtain err | sbx := a
  · exact maybeCleanup_honest (answered.2 err rfl) still
  · exact stepAssign_honest (answered.1 sbx rfl) still

theorem createJob_honest : WP exec lawfulSpec i (Honest id) (work id isFinal) s := by
  refine wp_ask fun t _ rely => ⟨trivial, fun e a u ran answered _ => ?_⟩
  obtain err | sbx := a
  · exact .ret (honest_plain (answered.2 err rfl))
  obtain ⟨rfl, r, row, rfl⟩ := getSandbox_ok ran
  have there : There u id := ⟨r, row⟩
  have ended (result : Option Err) (done : settled (scanSandbox id r) = some result) :
      Honest id result u := honest_settled row done
  dsimp only
  split
  · exact stepScheduling_honest there
  · exact stepAssign_honest rfl there
  · exact stepStartSandbox_honest rfl there
  · exact stepAcknowledge_honest there
  all_goals
    rename_i status
    refine .ret (ended _ ?_)
    simp only [settled, status]
    rfl

end Cancellation
section Completion
variable {id : SandboxID} {isFinal : Bool}

def SeenRunning (id : SandboxID) : (c : Call) → c.Answer → Prop
  -- the answer shows the sandbox running, before the call or after it
  | .getSandbox k => fun r => k = id ∧ ∃ sbx, r = .ok sbx ∧ sbx.status = .running
  | .updateStatus k status _ => fun r => k = id ∧ status = .running ∧ ∃ sbx, r = .ok (some sbx)
  | _ => fun _ => False

abbrev NotNil (id : SandboxID) (p : Work) : Prop :=
  p.Until Answered (SeenRunning id) fun r => r ≠ none

theorem notNil_ask {c : Call} {f : c.Answer → Work}
    (h : ∀ r, Answered c r → ¬ SeenRunning id c r → NotNil id (f r)) :
    NotNil id (ask c >>= f) := .call h

theorem settled_notNil {sbx : Sandbox} {result : Option Err}
    (unseen : ¬ SeenRunning id (.getSandbox id) (.ok sbx)) (h : settled sbx = some result) :
    result ≠ none := by
  rintro rfl
  refine unseen ⟨rfl, sbx, rfl, ?_⟩
  unfold settled at h
  split at h
  · assumption
  all_goals cases h

theorem maybeCleanup_notNil {k : SandboxID} {err : Err} :
    NotNil id (maybeCleanup k isFinal err) := by
  unfold maybeCleanup
  split
  · refine notNil_ask fun r _ _ => ?_
    cases r <;> exact .ret nofun
  · exact .ret nofun

theorem movedUnder_notNil {step : String} : NotNil id (movedUnder id step isFinal) := by
  refine notNil_ask fun r _ unseen => ?_
  cases r with
  | error err => exact maybeCleanup_notNil
  | ok sbx =>
    dsimp only
    split
    · rename_i done
      exact .ret (settled_notNil unseen done)
    · exact maybeCleanup_notNil

theorem stepAcknowledge_notNil : NotNil id (stepAcknowledge id isFinal) := by
  refine notNil_ask fun r _ unseen => ?_
  cases r with
  | error err => exact maybeCleanup_notNil
  | ok sbx =>
    dsimp only
    split
    · rename_i done
      exact .ret (settled_notNil unseen done)
    refine notNil_ask fun r _ unseen => ?_
    obtain err | _ | sbx := r
    · exact maybeCleanup_notNil
    · exact movedUnder_notNil
    · exact absurd ⟨rfl, rfl, sbx, rfl⟩ unseen

theorem stepStartSandbox_notNil {sbx : Sandbox} (same : sbx.id = id) :
    NotNil id (stepStartSandbox sbx isFinal) := by
  subst same
  unfold stepStartSandbox
  split
  · exact maybeCleanup_notNil
  refine notNil_ask fun r _ _ => ?_
  obtain err | worker := r
  · exact maybeCleanup_notNil
  refine notNil_ask fun r _ _ => ?_
  obtain err | _ := r
  · exact maybeCleanup_notNil
  refine notNil_ask fun ref _ _ => notNil_ask fun r _ _ => ?_
  obtain err | _ := r
  · exact maybeCleanup_notNil
  refine notNil_ask fun r _ _ => ?_
  obtain err | _ := r
  · exact maybeCleanup_notNil
  · exact stepAcknowledge_notNil

theorem buildCandidates_until (workers : List Worker) :
    (buildCandidates workers).Until Answered (SeenRunning id) fun _ => True := by
  induction workers with
  | nil => exact .ret trivial
  | cons w rest ih =>
    refine .call fun clock _ _ => ?_
    change Prog.Until _ _ _ (if heartbeatExpired clock w.lastHeartbeat then _ else _)
    split
    · exact ih
    refine .call fun r _ _ => ?_
    obtain err | _ := r
    · exact ih
    refine .call fun r _ _ => ?_
    obtain err | info := r
    · exact ih
    · exact ih.bind fun _ _ => .ret trivial

theorem noChoice_notNil {droppedFull : Bool} {err : Err} :
    NotNil id (noChoice id isFinal droppedFull err) := by
  unfold noChoice
  split
  · exact maybeCleanup_notNil
  split <;> exact maybeCleanup_notNil

theorem assignLoop_notNil {next : Option Sandbox → Work}
    (h : ∀ a, (∀ sbx, a = some sbx → sbx.id = id) → NotNil id (next a)) (n : Nat)
    (candidates : List WorkerCandidate) (droppedFull : Bool) :
    NotNil id (assignLoop id isFinal next n candidates droppedFull) := by
  induction n generalizing candidates droppedFull with
  | zero => exact noChoice_notNil
  | succ n ih =>
    refine notNil_ask fun draw _ _ => ?_
    split
    · exact noChoice_notNil
    · refine notNil_ask fun r answered _ => ?_
      obtain err | assigned := r
      · dsimp only
        split
        · exact ih _ _
        · exact maybeCleanup_notNil
      · exact h assigned fun sbx eq => answered.1 sbx (congrArg Except.ok eq)

theorem stepAssign_notNil {sbx : Sandbox} (same : sbx.id = id) :
    NotNil id (stepAssign sbx isFinal) := by
  unfold stepAssign
  split
  · exact stepStartSandbox_notNil same
  subst same
  refine notNil_ask fun r _ _ => ?_
  obtain err | workers := r
  · exact maybeCleanup_notNil
  refine (buildCandidates_until workers).bind fun candidates _ =>
    assignLoop_notNil (fun a same => ?_) _ _ _
  split
  · exact movedUnder_notNil
  · rename_i assigned found
    exact stepStartSandbox_notNil (same assigned (Option.filter_eq_some_iff.1 found).1)

theorem stepScheduling_notNil : NotNil id (stepScheduling id isFinal) := by
  refine notNil_ask fun r _ _ => ?_
  obtain err | _ | _ := r
  · exact maybeCleanup_notNil
  · exact movedUnder_notNil
  refine notNil_ask fun r answered _ => ?_
  obtain err | sbx := r
  · exact maybeCleanup_notNil
  · exact stepAssign_notNil (answered.1 sbx rfl)

theorem createJob_notNil : NotNil id (work id isFinal) := by
  refine notNil_ask fun r answered unseen => ?_
  obtain err | sbx := r
  · exact .ret nofun
  dsimp only
  split
  · exact stepScheduling_notNil
  · exact stepAssign_notNil (answered.1 sbx rfl)
  · exact stepStartSandbox_notNil (answered.1 sbx rfl)
  · exact stepAcknowledge_notNil
  · exact absurd ⟨rfl, sbx, rfl, by assumption⟩ unseen
  all_goals
    rename_i status
    refine .ret ?_
    simp [settled, status]

def Running (s : World) (id : SandboxID) : Prop :=
  ∃ r, s.db.sandbox? id = some r ∧ r.status = .running

theorem updateStatus_written {status : Status} {allowedFrom : List Status} {db db' : Database}
    {sbx : Sandbox} (h : updateStatus id status allowedFrom db = (.ok (some sbx), db')) :
    ∃ r, db'.sandbox? id = some r ∧ r.status = status := by
  obtain ⟨r, row, allowed⟩ := updateStatus_some h
  have nonempty : allowedFrom ≠ [] := List.ne_nil_of_mem allowed
  simp only [updateStatus, nonempty, if_false, row, Prod.mk.injEq] at h
  refine ⟨{ r with status }, ?_, rfl⟩
  rw [← h.2, Database.sandbox?_rewrite, row, Option.map_some, if_pos ⟨rfl, allowed⟩]

theorem seenRunning_shown {i : Nat} {c : Call} {e : Env} {s t : World} {r : c.Answer}
    (ran : exec i c e s = some (r, t)) (seen : SeenRunning id c r) :
    Running s id ∨ Running t id := by
  have eq := (exec_eq_some ran).symm
  cases c with
  | getSandbox k =>
    obtain ⟨rfl, sbx, rfl, running⟩ := seen
    obtain ⟨-, row, found, rfl⟩ := getSandbox_ok eq
    exact .inl ⟨row, found, running⟩
  | updateStatus k status allowedFrom =>
    obtain ⟨rfl, rfl, sbx, rfl⟩ := seen
    simp only [answer, statement] at eq
    have done := faulty_ok eq
    have written : updateStatus k .running allowedFrom s.db = (.ok (some sbx), t.db) :=
      Prod.ext (congrArg Prod.fst done :) (congrArg (fun p => p.2.db) done :)
    exact .inr (updateStatus_written written)
  | _ => exact seen.elim

end Completion

def Truthful : Kind → Outcome → World → Prop
  | .createJob id _, .job r, s => Honest id r s
  | _, _, _ => True

theorem truthful_disciplined : system.Disciplined lawfulSpec fun _ => Truthful where
  sound := lawfulSpec_sound
  start i k s t inv started := by
    have lawful := lawful_disciplined.start i k s t inv started
    refine ⟨lawful.1, lawful.2.1, lawful.2.2.1, ?_⟩
    cases k with
    | createJob id isFinal =>
      exact WP.bind createJob_honest fun r t honest => .ret honest
    | _ => exact lawful.2.2.2
  ext x := nomatch x

def Status.over : List Status := [.cleanupPending, .failed, .stopped, .cleanedUp]

theorem over_of_rank {a : Status} (h : 5 ≤ rank a) : a ∈ Status.over := by
  cases a <;> first | decide | exact absurd h (by decide)

theorem Claimed.never_running {may : Permit} {id : SandboxID} {s t : World}
    (h : Claimed s.db id) (g : Grows may s.db t.db) : ¬ Running t id := by
  rintro ⟨r, row, running⟩
  obtain ⟨r', row', high⟩ := h.grows g
  cases row'.symm.trans row
  exact absurd high (by rw [running]; decide)

theorem createJob_until {id : SandboxID} {isFinal : Bool} {s s₁ t : State}
    {as : List (Action Kind Env Empty)}
    (spawned : system.step s (.spawn (.createJob id isFinal)) = some s₁)
    (ran : system.run s₁ as = some t)
    (returned : t.threads s.next = some ⟨.createJob id isFinal, .ret (.job none)⟩) :
    ∃ before after v, as = before ++ after ∧ system.run s₁ before = some v ∧
    Running v.shared id := by
  obtain ⟨started, running⟩ := System.spawned spawned
  have sees : (body (.createJob id isFinal)).Until Answered (SeenRunning id)
      fun o => o ≠ .job none :=
    createJob_notNil.bind fun r some => .ret fun eq => some (Outcome.job.inj eq)
  have found := System.until_run (S := system) (fun _ _ _ _ _ => exec_answered (i := s.next))
    (fun _ _ _ _ _ => seenRunning_shown (i := s.next)) started running sees ran returned
  exact found.resolve_left fun some => some rfl

/-- An attempt of the create job that returns nil ran while the sandbox was
running at some instant; one that returns a cancellation leaves a sandbox that
is over and is never running again. -/
theorem create_attempt_truthful {w : World} (targets : Targets w.db) {id : SandboxID}
    {isFinal : Bool} {s s₁ u t : State} {as : List (Action Kind Env Empty)} {e : Env} {c : Call}
    {f : c.Answer → Job Outcome} {r : Option Err} (reached : system.Reaches (System.init w) s)
    (spawned : system.step s (.spawn (.createJob id isFinal)) = some s₁)
    (ran : system.run s₁ as = some u)
    (working : u.threads s.next = some ⟨.createJob id isFinal, .call c f⟩)
    (last : system.step u (.call s.next e) = some t)
    (returned : t.threads s.next = some ⟨.createJob id isFinal, .ret (.job r)⟩) :
    (r = none → ∃ before after v, as ++ [.call s.next e] = before ++ after ∧
      system.run s₁ before = some v ∧ Running v.shared id) ∧
    ∀ err, r = some err → err.isCancel = true →
      (∃ row, t.shared.db.sandbox? id = some row ∧ row.status ∈ Status.over) ∧
      ∀ v, system.Reaches t v → ¬ Running v.shared id := by
  refine ⟨?_, ?_⟩
  · rintro rfl
    exact createJob_until spawned (System.run_append ran (by simp [System.run, last])) returned
  rintro err rfl cancelled
  have H := truthful_disciplined
  have start : system.Safe lawfulSpec (fun _ => Truthful)
    (System.init w) := System.safe_init targets
  have before := (System.safe_reaches H (fun _ _ _ _ => trivial) (fun _ _ => trivial) start
    (reached.trans ((System.Reaches.single spawned).trans (System.reaches_of_run ran)))).1
  have free : System.Meets lawfulSpec.Cond lawfulSpec.Out u
      (.call s.next e : Action Kind Env Empty) :=
    System.meets_of_forall (fun _ _ _ _ => trivial) (fun _ _ => trivial) _
  have claimed : Claimed t.shared.db id :=
    System.safe_return H before free working last returned err rfl cancelled
  refine ⟨?_, fun v later => ?_⟩
  · obtain ⟨row, found, high⟩ := claimed
    exact ⟨row, found, over_of_rank high⟩
  have safe := (System.safe_step H before free last).1
  exact claimed.never_running (System.safe_reaches H (fun _ _ _ _ => trivial)
    (fun _ _ => trivial) safe later).2

def startingRow : SandboxRow where
  runtime := "node"
  status := .starting
  ttl := 0
  createdAt := 0
  port := 3000
  previewURL := ""
  image := ""
  workerID := some "worker-1"
  vcpuCount := 1
  memSizeMib := 512
  userID := none
  lastSeenAt := some 0

def startingWorld : World where
  db := { Database.empty with
    sandboxes := ⟨[(firstID, startingRow)], List.nodup_singleton _⟩,
    jobs := [.createSandbox firstID] }
  log := []

theorem create_attempt_truthful_starting : ∃ s₁ before after v,
    system.step (System.init startingWorld) (.spawn (.createJob firstID false)) = some s₁ ∧
    [.call 0 {}, .call 0 {}] ++ [.call 0 {}] = before ++ after ∧
    system.run s₁ before = some v ∧ Running v.shared firstID := by
  have targets : Targets startingWorld.db := by simp [Targets, startingWorld]
  have attempt : ∃ s₁ u t c f,
      system.step (System.init startingWorld) (.spawn (.createJob firstID false)) = some s₁ ∧
      system.run s₁ [.call 0 {}, .call 0 {}] = some u ∧
      u.threads 0 = some ⟨.createJob firstID false, .call c f⟩ ∧
      system.step u (.call 0 {}) = some t ∧
      t.threads 0 = some ⟨.createJob firstID false, .ret (.job none)⟩ :=
    ⟨_, _, _, _, _, rfl, rfl, rfl, rfl, rfl⟩
  obtain ⟨s₁, u, t, c, f, spawned, ran, working, last, returned⟩ := attempt
  obtain ⟨before, after, v, split, reached, running⟩ :=
    (create_attempt_truthful targets .refl spawned ran working last returned).1 rfl
  exact ⟨s₁, before, after, v, spawned, split, reached, running⟩

end Fire2.Orchestrator
