import Fire2.Growth

/-! Statuses and worker links over whole runs of the orchestrator. -/

namespace Fire2.Orchestrator
open Interleaving Lifecycle SandboxRepository

theorem Newborn.unassigned {r : SandboxRow} (h : Newborn r) : Unassigned r := fun _ => h.2.1

theorem reaches_unassigned {s : State} (hs : system.Reaches initial s) {id : SandboxID}
    {r : SandboxRow} (row : s.shared.db.sandbox? id = some r) : Unassigned r := by
  obtain ⟨r₀, born, steps⟩ := reaches_born hs row
  exact (steps.evolved born.unassigned).1

theorem reaches_evolved {s t : State} (hs : system.Reaches initial s) (h : system.Reaches s t)
    {id : SandboxID} {r : SandboxRow} (row : s.shared.db.sandbox? id = some r) :
    ∃ r', t.shared.db.sandbox? id = some r' ∧ Evolved r r' := by
  obtain ⟨r', row', steps⟩ := (reaches_grows hs h).kept id r row
  exact ⟨r', row', (steps.evolved (reaches_unassigned hs row)).2⟩

theorem step_newborn {s t : State} {a : Action Kind Env Empty} (hs : system.Reaches initial s)
    (h : system.step s a = some t) {id : SandboxID} {r : SandboxRow}
    (absent : s.shared.db.sandbox? id = none) (row : t.shared.db.sandbox? id = some r) :
    Newborn r := by
  obtain same | ⟨c, e, lawful, done⟩ := step_lawful (reached_lawful hs) h
  · rw [same, absent] at row
    cases row
  · rw [done] at row
    exact answer_fresh lawful absent row

/-- In every run a sandbox starts pending without a worker, its status only
moves forward, failed and stopped are final, it is given at most one worker,
and a worker that was cleared is never replaced. -/
theorem status_forward_single_worker {s t u : State} (hs : system.Reaches initial s)
    (hst : system.Reaches s t) (htu : system.Reaches t u) (id : SandboxID) :
    (∀ a s' r, system.step s a = some s' → s.shared.db.sandbox? id = none →
      s'.shared.db.sandbox? id = some r → r.status = .pending ∧ r.workerID = none) ∧
    ∀ a, s.shared.db.sandbox? id = some a →
      ∃ b c, t.shared.db.sandbox? id = some b ∧ u.shared.db.sandbox? id = some c ∧
        Forward a.status b.status ∧
        (a.status = .failed ∨ a.status = .stopped → b.status = a.status) ∧
        (∀ v w, a.workerID = some v → b.workerID = some w → w = v) ∧
        (a.workerID ≠ none → b.workerID = none → c.workerID = none) := by
  refine ⟨fun x s' r step absent row => ?_, fun a ha => ?_⟩
  · have born := step_newborn hs step absent row
    exact ⟨born.1, born.2.1⟩
  · obtain ⟨b, hb, ab⟩ := reaches_evolved hs hst ha
    obtain ⟨c, hc, bc⟩ := reaches_evolved (hs.trans hst) htu hb
    refine ⟨b, c, hb, hc, ab.status, fun final => ab.status.terminal ?_,
      fun v w hv hw => ab.same_worker hv hw, ab.stays_cleared bc⟩
    rcases final with e | e <;> rw [e] <;> decide

theorem status_forward_single_worker_first : ∃ s t u a c,
    system.Reaches initial s ∧ system.Reaches s t ∧ system.Reaches t u ∧
    s.shared.db.sandbox? firstID = some a ∧ a.workerID = some "worker-1" ∧
    u.shared.db.sandbox? firstID = some c ∧ Forward a.status c.status ∧ c.workerID = none := by
  have run : ((system.run initial (firstCreated ++ firstStarted)).bind fun s =>
      (system.run s firstCleared).bind fun t => (system.run t firstStopped).map fun u =>
        (firstLink s, firstLink t, firstLink u)) =
      some (some (.running, some "worker-1"), some (.cleanupPending, none),
          some (.stopped, none)) := by
    decide +kernel
  simp only [Option.bind_eq_some_iff, Option.map_eq_some_iff, Prod.mk.injEq, firstLink] at run
  obtain ⟨s, hs, t, ht, u, hu, ⟨a, ha, ra, wa⟩, ⟨b, hb, rb, wb⟩, -⟩ := run
  have hs := System.reaches_of_run hs
  have ht := System.reaches_of_run ht
  have hu := System.reaches_of_run hu
  obtain ⟨b', c, hb', hc, -, -, -, cleared⟩ :=
    (status_forward_single_worker hs ht hu firstID).2 a ha
  obtain ⟨c', -, hc', -, forward, -⟩ :=
    (status_forward_single_worker hs (ht.trans hu) .refl firstID).2 a ha
  cases hb.symm.trans hb'
  cases hc.symm.trans hc'
  exact ⟨s, t, u, a, c, hs, ht, hu, ha, wa, hc, forward, cleared (by rw [wa]; nofun) wb⟩

/-- What the status of a row says of its other columns. -/
structure Shape (r : SandboxRow) : Prop where
  unassigned : rank r.status < 2 → r.workerID = none
  active : r.status ∈ Status.active → r.workerID ≠ none ∧ r.lastSeenAt ≠ none
  ended : r.status ∈ Status.terminal → r.workerID = none

def released : Permit := fun _ r l => ∀ target, l = .finish target → r.workerID = none

theorem Newborn.shape {r : SandboxRow} (h : Newborn r) : Shape r where
  unassigned _ := h.2.1
  active active := by rw [h.1] at active; exact absurd active (by decide)
  ended _ := h.2.1

theorem Move.shape {id : SandboxID} {r r' : SandboxRow} {l : Label} (shape : Shape r)
    (may : released id r l) (h : Move l r r') : Shape r' := by
  cases h with
  | schedule h =>
    have free : r.workerID = none := shape.unassigned (h ▸ Nat.zero_lt_two)
    exact ⟨fun _ => free, by simp [Status.active], by simp [Status.terminal]⟩
  | assign w now h => exact ⟨by simp [rank], by simp, by simp [Status.terminal]⟩
  | start h | confirm h =>
    have held := shape.active (by rw [h]; decide)
    exact ⟨by simp [rank], fun _ => held, by simp [Status.terminal]⟩
  | seen now h => exact ⟨shape.unassigned, fun a => ⟨(shape.active a).1, by simp⟩, shape.ended⟩
  | claim h => exact ⟨by simp [rank], by simp [Status.active], by simp [Status.terminal]⟩
  | clear h => exact ⟨fun _ => rfl, by simp [h, Status.active], fun _ => rfl⟩
  | finish target h ht =>
    have free : r.workerID = none := may target rfl
    refine ⟨fun _ => free, fun a => ?_, fun _ => free⟩
    have low := (rank_active a).2
    have top := rank_terminal.1 ht
    dsimp only at low
    omega

theorem Steps.shape {id : SandboxID} {r r' : SandboxRow} (shape : Shape r)
    (h : Steps (released id) r r') : Shape r' := by
  induction h with
  | refl => exact shape
  | tail _ last ih =>
    obtain ⟨l, may, step⟩ := last
    exact Move.shape ih may step

def Justified (db : Database) : JobArgs → Prop
  -- what is known of an inserted job from then on
  | .createSandbox id => ∃ r, db.sandbox? id = some r
  | .cleanupSandbox id target => Target target ∧ Claimed db id
  | .removeOrphan _ _ => True

theorem Justified.grows {may : Permit} {db db' : Database} {j : JobArgs}
    (h : Justified db j) (g : Grows may db db') : Justified db' j := by
  cases j with
  | createSandbox id =>
    obtain ⟨r, row⟩ := h
    obtain ⟨r', row', -⟩ := g.kept id r row
    exact ⟨r', row'⟩
  | cleanupSandbox id target => exact ⟨h.1, h.2.grows g⟩
  | removeOrphan w id => trivial

/-- Rows have their shape, and a cleanup job is only there for a sandbox that
was claimed. -/
structure Consistent (db : Database) : Prop where
  shape : ∀ id r, db.sandbox? id = some r → Shape r
  jobs : ∀ j ∈ db.jobs, Justified db j

/-- A cleanup job ends its sandbox only once it is claimed and its worker link
is gone; a create job gives up only a sandbox that exists. -/
def Careful (c : Call) (db : Database) : Prop :=
  Lawful c ∧
  (∀ id status allowedFrom, c = .updateStatus id status allowedFrom → status ∈ Status.terminal →
    ∀ r, db.sandbox? id = some r → r.workerID = none) ∧
  ∀ id, c = .cleanupTx id → ∃ r, db.sandbox? id = some r

theorem Careful.grows {c : Call} {s : World} (h : Careful c s.db) (e : Env) :
    Grows released s.db (answer c e s).2.db := by
  refine (answer_grows h.1 e).mono fun id r l granted target eq => ?_
  subst eq
  cases granted with
  | updateStatus allowed row =>
    cases allowed with
    | ended _ ht => exact h.2.1 id target _ rfl ht r row

def consistentSpec : Spec Call Env Empty World where
  Inv s := Consistent s.db
  Evolves s t := Grows released s.db t.db
  Keeps _ _ _ := True
  Pre _ c s := Careful c s.db
  Cond _ _ _ _ := True
  Out _ _ := True

theorem consistent_grows {db db' : Database} (h : Consistent db) (g : Grows released db db') :
    ∀ id r, db'.sandbox? id = some r → Shape r := by
  intro id r' row'
  cases row : db.sandbox? id with
  | none =>
    obtain ⟨r, born, steps⟩ := g.fresh id r' row row'
    exact Steps.shape born.shape steps
  | some r =>
    obtain ⟨s, found, steps⟩ := g.kept id r row
    rw [found] at row'
    cases row'
    exact Steps.shape (h.shape id r row) steps

theorem consistent_answer {c : Call} {e : Env} {s : World} (h : Consistent s.db)
    (careful : Careful c s.db) : Consistent (answer c e s).2.db := by
  have grows := careful.grows e
  obtain ⟨lawful, -, there⟩ := careful
  refine ⟨consistent_grows h grows, fun j mem => ?_⟩
  obtain old | new := answer_jobs lawful mem
  · exact (h.jobs j old).grows grows
  cases j with
  | createSandbox id => exact new
  | cleanupSandbox id target =>
    refine ⟨new.1, new.2.resolve_right fun absent => ?_⟩
    obtain ⟨r, row⟩ := there id absent.1
    obtain ⟨r', row', -⟩ := grows.kept id r row
    cases row'.symm.trans absent.2
  | removeOrphan w id => trivial

theorem consistentSpec_sound : consistentSpec.Sound exec where
  evolves_refl s := .refl s.db
  evolves_trans := Grows.trans
  keeps_refl _ _ := trivial
  keeps_trans _ _ := trivial
  step {i c e s a t} inv pre _ ran := by
    obtain rfl : t = (answer c e s).2 := congrArg Prod.snd (exec_eq_some (i := i) ran)
    exact ⟨consistent_answer inv pre, pre.grows e, fun _ _ => trivial⟩

def Freed (db : Database) (id : SandboxID) : Prop :=
  ∃ r, db.sandbox? id = some r ∧ 5 ≤ rank r.status ∧ r.workerID = none

theorem Freed.grows {may : Permit} {db db' : Database} {id : SandboxID}
    (h : Freed db id) (g : Grows may db db') : Freed db' id := by
  obtain ⟨r, row, high, free⟩ := h
  obtain ⟨r', row', steps⟩ := g.kept id r row
  have later := (steps.evolved fun _ => free).2
  refine ⟨r', row', Nat.le_trans high later.status.le, ?_⟩
  rcases later.worker with same | ⟨-, low, -⟩ | ⟨none, -⟩
  · exact same.trans free
  · omega
  · exact none

theorem Claimed.freed {db : Database} (h : Consistent db) {id : SandboxID}
    (claimed : Claimed db id) : Freed (clearWorker id db) id := by
  obtain ⟨r, row, high⟩ := claimed
  by_cases pending : r.status = .cleanupPending
  · refine ⟨{ r with workerID := none }, ?_, high, rfl⟩
    simp [clearWorker, row, pending]
  · refine ⟨r, by simp [clearWorker, row, pending], high, (h.shape id r row).ended ?_⟩
    cases e : r.status <;> simp_all [rank, Status.terminal]

theorem careful_of_request {c : Call} (h : RequestCall c) (db : Database) : Careful c db := by
  refine ⟨h.lawful, fun id status allowedFrom eq => ?_, fun id eq => ?_⟩
    <;> subst eq <;> exact h.elim

theorem careful_of_remove {workerID : WorkerID} {id : SandboxID} {c : Call}
    (h : RemoveCall workerID id c) (db : Database) : Careful c db := by
  refine ⟨h.lawful, fun id status allowedFrom eq => ?_, fun id eq => ?_⟩
    <;> subst eq <;> exact h.elim

theorem careful_of_create {id : SandboxID} {c : Call} (h : CreateCall id c) {db : Database}
    (there : ∃ r, db.sandbox? id = some r) : Careful c db := by
  refine ⟨h.lawful, fun k status allowedFrom eq ends => ?_, fun k eq => ?_⟩
  · subst eq
    have mem := h.2
    simp only [List.mem_cons, Prod.mk.injEq, List.not_mem_nil, or_false] at mem
    rcases mem with ⟨rfl, -⟩ | ⟨rfl, -⟩ | ⟨rfl, -⟩ <;> exact absurd ends (by decide)
  · subst eq
    exact h ▸ there

section CleanupJob
variable {id : SandboxID} {target : Status} {i : Nat} {s : World}

theorem finish_wp (ht : target ∈ Status.terminal) (freed : Freed s.db id) :
    WP exec consistentSpec i (fun _ _ => True) (CleanupSandboxWorker.finish id target) s := by
  refine wp_ask fun t _ rely => ⟨⟨⟨_, .ended target ht⟩, ?_, nofun⟩, fun e a u _ _ _ => ?_⟩
  · rintro k status allowedFrom ⟨⟩ - r row
    obtain ⟨r', row', -, free⟩ := freed.grows rely.1
    cases row'.symm.trans row
    exact free
  · cases a <;> exact .ret trivial

theorem clear_wp (ht : target ∈ Status.terminal) (claimed : Claimed s.db id) :
    WP exec consistentSpec i (fun _ _ => True) (CleanupSandboxWorker.clear id target) s := by
  refine wp_ask fun t inv rely => ⟨⟨trivial, nofun, nofun⟩, fun e a u ran _ _ => ?_⟩
  cases a with
  | error err => exact .ret trivial
  | ok _ =>
    refine finish_wp ht ?_
    simp only [answer, statement] at ran
    cases faulty_ok ran
    exact (claimed.grows rely.1).freed inv

theorem cleanupJob_wp {target : Option Status} {isFinal : Bool} (ht : Target target)
    (claimed : Claimed s.db id) :
    WP exec consistentSpec i (fun _ _ => True) (CleanupSandboxWorker.work id target isFinal) s := by
  refine wp_ask fun t inv rely => ⟨⟨trivial, nofun, nofun⟩, fun e a u ran _ _ => ?_⟩
  have still := claimed.grows rely.1
  cases a with
  | error err => exact .ret trivial
  | ok sbx =>
    obtain ⟨rfl, r, row, rfl⟩ := getSandbox_ok ran
    dsimp only
    split
    · exact .ret trivial
    split
    · rename_i none
      obtain ⟨r', row', high⟩ := still
      cases row.symm.trans row'
      exact finish_wp ht.terminal ⟨r, row, high, none⟩
    · refine (WP.of_asks consistentSpec_sound (fun _ _ c g => Claimed.grows c g)
        (fun _ _ h _ _ => careful_of_remove h _) (fun _ _ _ _ _ => exec_answered)
        removeSandboxOnWorker_calls still).bind fun r u kept => ?_
      split
      · exact clear_wp ht.terminal kept
      split
      · exact clear_wp (by decide) kept
      · exact .ret trivial

end CleanupJob

theorem consistent_disciplined : system.Disciplined consistentSpec fun _ _ _ _ => True where
  sound := consistentSpec_sound
  start i k s t inv started := by
    obtain ⟨on, rfl⟩ := start_eq started
    refine ⟨inv, .refl t.db, fun _ _ => trivial, ?_⟩
    by_cases request : k.isRequest = true
    · exact WP.of_asks consistentSpec_sound (fun _ _ _ _ => trivial)
        (fun _ s h _ _ => careful_of_request h s.db) (fun _ _ _ _ _ => exec_answered)
        (request_calls request) trivial
    cases k with
    | createJob id isFinal =>
      change WP exec _ i _ (CreateSandboxWorker.work id isFinal >>= fun r => .ret (Outcome.job r)) t
      have there : ∃ r, t.db.sandbox? id = some r := inv.jobs _ (of_decide_eq_true on)
      refine wp_job (WP.mono (fun _ _ _ => trivial) (WP.of_asks consistentSpec_sound
        (φ := fun s => ∃ r, s.db.sandbox? id = some r) (fun s t there grows => ?_)
        (fun _ _ h _ => careful_of_create h)
        (fun _ _ _ _ _ => exec_answered) createJob_calls there))
      obtain ⟨r, row⟩ := there
      obtain ⟨r', row', -⟩ := grows.kept id r row
      exact ⟨r', row'⟩
    | cleanupJob id target isFinal =>
      change WP exec _ i _ (CleanupSandboxWorker.work id target isFinal >>= fun r =>
        .ret (Outcome.job r)) t
      obtain ⟨known, claimed⟩ := inv.jobs _ (of_decide_eq_true on)
      exact wp_job (cleanupJob_wp known claimed)
    | removeOrphanJob workerID id =>
      change WP exec _ i _ (removeSandboxOnWorker workerID id >>= fun r => .ret (Outcome.job r)) t
      exact wp_job (WP.of_asks consistentSpec_sound (fun _ _ _ _ => trivial)
        (fun _ s h _ _ => careful_of_remove h s.db) (fun _ _ _ _ _ => exec_answered)
        removeSandboxOnWorker_calls trivial)
    | _ => cases request rfl
  ext x := nomatch x

theorem consistent_initial : Consistent initial.shared.db :=
  ⟨fun _ _ row => (nomatch row), fun _ mem => nomatch mem⟩

theorem reaches_consistent {s : State} (hs : system.Reaches initial s) : Consistent s.shared.db :=
  (System.safe_reaches consistent_disciplined (fun _ _ _ _ => trivial) (fun _ _ => trivial)
    (System.safe_init consistent_initial) hs).1.inv

/-- In every state of a run, a pending or scheduling sandbox has no worker, an
assigned, starting or running one has a worker and was seen, and a failed or
stopped one has no worker. -/
theorem worker_link_matches_status {s : State} (hs : system.Reaches initial s) (id : SandboxID)
    (r : SandboxRow) (row : s.shared.db.sandbox? id = some r) :
    (r.status = .pending ∨ r.status = .scheduling → r.workerID = none) ∧
    (r.status = .assigned ∨ r.status = .starting ∨ r.status = .running →
      r.workerID ≠ none ∧ r.lastSeenAt ≠ none) ∧
    (r.status = .failed ∨ r.status = .stopped → r.workerID = none) := by
  have shape := (reaches_consistent hs).shape id r row
  refine ⟨fun h => shape.unassigned ?_, fun h => shape.active ?_, fun h => shape.ended ?_⟩
  · rcases h with e | e <;> rw [e] <;> decide
  · rcases h with e | e | e <;> rw [e] <;> decide
  · rcases h with e | e <;> rw [e] <;> decide

theorem worker_link_matches_status_first : ∃ s r, system.Reaches initial s ∧
    s.shared.db.sandbox? firstID = some r ∧ r.status = .running ∧
    r.workerID ≠ none ∧ r.lastSeenAt ≠ none := by
  have run : (system.run initial (firstCreated ++ firstStarted)).map firstLink =
      some (some (.running, some "worker-1")) := by
    decide +kernel
  simp only [Option.map_eq_some_iff, Prod.mk.injEq, firstLink] at run
  obtain ⟨s, hs, r, hr, running, -⟩ := run
  have hs := System.reaches_of_run hs
  exact ⟨s, r, hs, hr, running,
    (worker_link_matches_status hs firstID r hr).2.1 (.inr (.inr running))⟩

end Fire2.Orchestrator
