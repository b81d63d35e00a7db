import Fire2.Statuses
import Fire2.Workers

/-! The cleanup jobs of a sandbox. Deletes, reaper passes and inventories insert
one only together with the claim of its sandbox. The last attempt of a create
job inserts one whatever its own claim did, so two jobs with two targets can be
there for one sandbox; that is the only way to a second one. -/

namespace Fire2.Orchestrator
open Interleaving Lifecycle SandboxRepository

def cleanupOf (id : SandboxID) : JobArgs → Option (Option Status)
  | .cleanupSandbox k target => if k = id then some target else none
  | _ => none

def cleanups (id : SandboxID) (db : Database) : List (Option Status) :=
  db.jobs.filterMap (cleanupOf id)

def decided (now : Int) (r : SandboxRow) : Call → Option (Option Status)
  | .deleteTx _ => some (some .stopped)
  | .cleanupTx _ => some none
  | .reapTx .. => some (some (if ttlExpired now r then .stopped else .failed))
  | .reconcileTx .. => some (some .failed)
  | _ => none

def unclaimed : Nat → Call → Env → World → Bool
  | _, .cleanupTx id, _, s => (s.db.sandbox? id).any fun r => r.status ∈ Status.claimable
  | _, _, _, _ => true

section Jobs
variable {id : SandboxID} {db db' : Database} {js : List JobArgs} {target : Option Status}

theorem cleanups_insertJobs :
    cleanups id (db.insertJobs js) = cleanups id db ++ js.filterMap (cleanupOf id) :=
  List.filterMap_append ..

theorem cleanups_of_jobs (h : db'.jobs = db.jobs) : cleanups id db' = cleanups id db := by
  rw [cleanups, h, cleanups]

theorem filterMap_cleanup {ids : List SandboxID} (nodup : ids.Nodup) :
    (ids.map (.cleanupSandbox · target)).filterMap (cleanupOf id) =
      if id ∈ ids then [target] else [] := by
  induction ids with
  | nil => rfl
  | cons k rest ih =>
    obtain ⟨new, nodup⟩ := List.nodup_cons.1 nodup
    simp only [List.map_cons, List.filterMap_cons, cleanupOf, ih nodup, List.mem_cons]
    by_cases same : k = id
    · subst same
      simp [new]
    · simp [same, Ne.symm same]

theorem filterMap_orphans {workerID : WorkerID} {ids : List SandboxID} :
    (ids.map (.removeOrphan workerID)).filterMap (cleanupOf id) = [] := by
  simp [List.filterMap_eq_nil_iff, cleanupOf]

theorem mem_cleanups (h : cleanups id db ≠ []) : ∃ target, .cleanupSandbox id target ∈ db.jobs := by
  obtain ⟨target, mem⟩ := List.exists_mem_of_ne_nil _ h
  obtain ⟨j, mem, found⟩ := List.mem_filterMap.1 mem
  cases j with
  | cleanupSandbox k target =>
    simp only [cleanupOf] at found
    split at found
    · rename_i same
      exact ⟨target, same ▸ mem⟩
    · cases found
  | createSandbox k => cases found
  | removeOrphan w k => cases found

end Jobs

def Open (db : Database) (id : SandboxID) : Prop :=
  ∃ r, db.sandbox? id = some r ∧ r.status ∈ Status.claimable

def Pending (db : Database) (id : SandboxID) : Prop :=
  ∃ r, db.sandbox? id = some r ∧ r.status = .cleanupPending

/-- The sandboxes `ids` are claimed, each once, and nothing else happens to
claims. -/
structure Claims (ids : List SandboxID) (db db' : Database) : Prop where
  nodup : ids.Nodup
  taken : ∀ id ∈ ids, Open db id ∧ Pending db' id
  pending : ∀ id, Pending db id → Pending db' id
  only : ∀ id, Pending db' id → Pending db id ∨ id ∈ ids
  opened : ∀ id, Open db' id → Open db id
  jobs : db'.jobs = db.jobs

section Claims
variable {ids ids' : List SandboxID} {id : SandboxID} {db db' db'' : Database}

theorem Pending.not_open (h : Pending db id) : ¬ Open db id := by
  obtain ⟨r, row, pending⟩ := h
  rintro ⟨r', row', claimable⟩
  cases row.symm.trans row'
  rw [pending] at claimable
  exact absurd claimable (by decide)

theorem Claimed.not_open (h : Claimed db id) : ¬ Open db id := by
  obtain ⟨r, row, high⟩ := h
  rintro ⟨r', row', claimable⟩
  cases row.symm.trans row'
  have low := rank_claimable claimable
  omega

theorem Claims.trans (h : Claims ids db db') (k : Claims ids' db' db'') :
    Claims (ids ++ ids') db db'' where
  nodup := h.nodup.append k.nodup fun id first second =>
    (h.taken id first).2.not_open (k.taken id second).1
  taken id mem := by
    rcases List.mem_append.1 mem with first | second
    · exact ⟨(h.taken id first).1, k.pending id (h.taken id first).2⟩
    · exact ⟨h.opened id (k.taken id second).1, (k.taken id second).2⟩
  pending id waiting := k.pending id (h.pending id waiting)
  only id waiting := by
    obtain before | second := k.only id waiting
    · obtain before | first := h.only id before
      · exact .inl before
      · exact .inr (List.mem_append_left _ first)
    · exact .inr (List.mem_append_right _ second)
  opened id still := h.opened id (k.opened id still)
  jobs := k.jobs.trans h.jobs

theorem Claims.refl (db : Database) : Claims [] db db :=
  ⟨List.nodup_nil, fun _ mem => (nomatch mem), fun _ h => h, fun _ => .inl, fun _ h => h, rfl⟩

theorem Claims.of_eq (h : Claims ids db' db'') (rows : db'.sandboxes = db.sandboxes)
    (jobs : db'.jobs = db.jobs) : Claims ids db db'' := by
  have same (id : SandboxID) : db'.sandbox? id = db.sandbox? id := by
    rw [Database.sandbox?, rows, Database.sandbox?]
  obtain ⟨nodup, taken, pending, only, opened, jobs'⟩ := h
  simp only [Open, Pending, same] at taken pending only opened
  exact ⟨nodup, taken, pending, only, opened, jobs'.trans jobs⟩

theorem claims_rewrite {f : SandboxID → SandboxRow → SandboxRow}
    (h : ∀ id r, (f id r).status = r.status ∨ r.status ∈ Status.active ∧
      (f id r).status ∈ Status.active) :
    Claims [] db (db.rewrite f) where
  nodup := List.nodup_nil
  taken _ mem := nomatch mem
  pending id waiting := by
    obtain ⟨r, row, pending⟩ := waiting
    refine ⟨f id r, by rw [Database.sandbox?_rewrite, row, Option.map_some], ?_⟩
    obtain same | ⟨active, -⟩ := h id r
    · exact same.trans pending
    · rw [pending] at active
      exact absurd active (by decide)
  only id waiting := by
    obtain ⟨r', row', pending⟩ := waiting
    rw [Database.sandbox?_rewrite, Option.map_eq_some_iff] at row'
    obtain ⟨r, row, rfl⟩ := row'
    obtain same | ⟨-, active⟩ := h id r
    · exact .inl ⟨r, row, same ▸ pending⟩
    · rw [pending] at active
      exact absurd active (by decide)
  opened id still := by
    obtain ⟨r', row', claimable⟩ := still
    rw [Database.sandbox?_rewrite, Option.map_eq_some_iff] at row'
    obtain ⟨r, row, rfl⟩ := row'
    obtain same | ⟨active, -⟩ := h id r
    · exact ⟨r, row, same ▸ claimable⟩
    · exact ⟨r, row, claimable_of_active active⟩
  jobs := rfl

theorem refreshSeen_claims {now : Int} {workerID : WorkerID} :
    Claims [] db (refreshSeen now workerID ids db) := by
  refine claims_rewrite fun id r => .inl ?_
  split <;> rfl

theorem confirmRunning_claims {workerID : WorkerID} :
    Claims [] db (confirmRunning workerID ids db) := by
  refine claims_rewrite fun id r => ?_
  split
  · rename_i due
    exact .inr ⟨due.2.2 ▸ (by decide : Status.starting ∈ Status.active),
      (by decide : Status.running ∈ Status.active)⟩
  · exact .inl rfl

theorem claimToCleanup_claims (due : SandboxID → SandboxRow → Bool)
    (h : ∀ id r, due id r = true → r.status ∈ Status.claimable) :
    Claims (claimToCleanup due db).1 db (claimToCleanup due db).2 where
  nodup := Table.nodup_select ..
  taken id mem := by
    obtain ⟨r, row, claimed⟩ := mem_claimToCleanup.1 mem
    refine ⟨⟨r, row, h id r claimed⟩, { r with status := .cleanupPending }, ?_, rfl⟩
    rw [claimToCleanup, Database.sandbox?_rewrite, row, Option.map_some, if_pos claimed]
  pending id waiting := by
    obtain ⟨r, row, pending⟩ := waiting
    refine ⟨_, by rw [claimToCleanup, Database.sandbox?_rewrite, row, Option.map_some], ?_⟩
    split
    · rfl
    · exact pending
  only id waiting := by
    obtain ⟨r', row', pending⟩ := waiting
    rw [claimToCleanup, Database.sandbox?_rewrite, Option.map_eq_some_iff] at row'
    obtain ⟨r, row, rfl⟩ := row'
    split at pending
    · rename_i claimed
      exact .inr (mem_claimToCleanup.2 ⟨r, row, claimed⟩)
    · exact .inl ⟨r, row, pending⟩
  opened id still := by
    obtain ⟨r', row', claimable⟩ := still
    rw [claimToCleanup, Database.sandbox?_rewrite, Option.map_eq_some_iff] at row'
    obtain ⟨r, row, rfl⟩ := row'
    split at claimable
    · exact absurd claimable (by decide : Status.cleanupPending ∉ Status.claimable)
    · exact ⟨r, row, claimable⟩
  jobs := rfl

theorem claimUnlocked_claims {locked : SandboxID → Bool} (due : SandboxRow → Bool)
    (h : ∀ r, due r = true → r.status ∈ Status.claimable) :
    Claims (claimToCleanup (fun id r => due r && !locked id) db).1 db
      (claimToCleanup (fun id r => due r && !locked id) db).2 ∧
    ∀ id ∈ (claimToCleanup (fun id r => due r && !locked id) db).1, locked id = false := by
  refine ⟨claimToCleanup_claims _ fun id r both =>
    h r (Bool.and_eq_true_iff.1 both).1, fun id mem => ?_⟩
  obtain ⟨r, -, both⟩ := mem_claimToCleanup.1 mem
  simpa using (Bool.and_eq_true_iff.1 both).2

theorem claimLivenessExpired_claims {now livenessTimeout workerLostTimeout : Int}
    {locked : SandboxID → Bool}
    (h : claimLivenessExpired now locked livenessTimeout workerLostTimeout db = (.ok ids, db')) :
    Claims ids db db' ∧ ∀ id ∈ ids, locked id = false := by
  unfold claimLivenessExpired at h
  split at h
  · cases h
  · cases h
    exact claimUnlocked_claims (livenessExpired now livenessTimeout workerLostTimeout db)
      fun r late => claimable_of_active (livenessExpired_active late)

theorem claimStalledCreation_claims {now timeout : Int} {locked : SandboxID → Bool}
    (h : claimStalledCreation now locked timeout db = (.ok ids, db')) :
    Claims ids db db' ∧ ∀ id ∈ ids, locked id = false := by
  unfold claimStalledCreation at h
  split at h
  · cases h
  · cases h
    exact claimUnlocked_claims (stalledCreation now timeout) fun r => stalledCreation_claimable

end Claims

/-- A call adds no cleanup of the sandbox, or one together with its claim. -/
inductive Enqueues (now : Int) (c : Call) (db db' : Database) (id : SandboxID) : Prop
  | nothing (h : cleanups id db' = cleanups id db)
  | claimed {r : SandboxRow} {target : Option Status} (row : db.sandbox? id = some r)
      (claimable : r.status ∈ Status.claimable) (pending : Pending db' id)
      (decides : decided now r c = some target)
      (added : cleanups id db' = cleanups id db ++ [target])

section Transactions
variable {now : Int} {id : SandboxID} {db db' : Database}

theorem updateStatus_row {k : SandboxID} {r : SandboxRow} (row : db.sandbox? k = some r)
    (claimable : r.status ∈ Status.claimable) :
    Pending (updateStatus k .cleanupPending Status.claimable db).2 k := by
  refine ⟨{ r with status := .cleanupPending }, ?_, rfl⟩
  have some_from : Status.claimable ≠ [] := by decide
  simp [updateStatus, row, claimable, some_from]

theorem enqueues_one {k : SandboxID} {target : Option Status} {c : Call} {r : SandboxRow}
    (jobs : db'.jobs = db.jobs) (row : db.sandbox? k = some r)
    (claimable : r.status ∈ Status.claimable) (pending : Pending db' k)
    (decides : decided now r c = some target) :
    Enqueues now c db (db'.insertJobs [.cleanupSandbox k target]) id := by
  have added : cleanups id (db'.insertJobs [.cleanupSandbox k target]) =
      cleanups id db ++ if k = id then [target] else [] := by
    rw [cleanups_insertJobs, cleanups_of_jobs jobs]
    by_cases same : k = id <;> simp [cleanupOf, same]
  by_cases same : k = id
  · subst same
    exact .claimed row claimable pending decides (by rw [added, if_pos rfl])
  · exact .nothing (by rw [added, if_neg same, List.append_nil])

theorem delete_enqueues {k : SandboxID} :
    Enqueues now (.deleteTx k) db (Transactions.delete k db).2 id := by
  have jobs : (updateStatus k .cleanupPending Status.claimable db).2.jobs = db.jobs :=
    updateStatus_jobs
  unfold Transactions.delete
  split
  · rename_i sbx db' won
    obtain ⟨r, row, claimable⟩ := updateStatus_some won
    have pending := updateStatus_row row claimable
    rw [won] at jobs pending
    exact enqueues_one jobs row claimable pending rfl
  · exact .nothing rfl
  · exact .nothing rfl

theorem cleanup_enqueues {k : SandboxID} (still : Open db k) :
    Enqueues now (.cleanupTx k) db (Transactions.cleanup k db).2 id := by
  obtain ⟨r, row, claimable⟩ := still
  have jobs : (updateStatus k .cleanupPending Status.claimable db).2.jobs = db.jobs :=
    updateStatus_jobs
  have pending := updateStatus_row row claimable
  unfold Transactions.cleanup
  split
  · rename_i won
    rw [won] at jobs pending
    exact enqueues_one jobs row claimable pending rfl
  · exact .nothing rfl

theorem reap_claims (now : Int) (locked : SandboxID → Bool)
    (livenessTimeout workerLostTimeout createTimeout : Int) (db : Database) :
    (Transactions.reap now locked livenessTimeout workerLostTimeout createTimeout db).2 = db ∨
    ∃ expired other db', Claims (expired ++ other) db db' ∧
      (Transactions.reap now locked livenessTimeout workerLostTimeout createTimeout db).2 =
        db'.insertJobs (expired.map (.cleanupSandbox · (some .stopped)) ++
          other.map (.cleanupSandbox · (some .failed))) ∧
      (∀ id ∈ expired, ∀ r, db.sandbox? id = some r → ttlExpired now r = true) ∧
      ∀ id ∈ other, ∀ r, db.sandbox? id = some r → ttlExpired now r = false := by
  have first : Claims (claimTTLExpired now locked db).1 db (claimTTLExpired now locked db).2 :=
    (claimUnlocked_claims (ttlExpired now) fun r => ttlExpired_claimable).1
  have expired {id : SandboxID} : id ∈ (claimTTLExpired now locked db).1 ↔
      ∃ r, db.sandbox? id = some r ∧ (ttlExpired now r && !locked id) = true := mem_claimToCleanup
  -- what a later statement claims was not locked, so it had not expired
  have young {id : SandboxID} (free : locked id = false)
      (still : Open (claimTTLExpired now locked db).2 id) {r : SandboxRow}
      (row : db.sandbox? id = some r) : ttlExpired now r = false := by
    by_contra late
    have mem := expired.2 ⟨r, row, by simpa [free] using late⟩
    exact (first.taken id mem).2.not_open still
  unfold Transactions.reap
  dsimp only
  split
  · exact .inl rfl
  rename_i dead db₂ claimed
  obtain ⟨second, free⟩ := claimLivenessExpired_claims claimed
  split
  · exact .inl rfl
  rename_i stalled db₃ claimed'
  have third : Claims stalled db₂ db₃ ∧ ∀ id ∈ stalled, locked id = false := by
    split at claimed'
    · exact claimStalledCreation_claims claimed'
    · cases claimed'
      exact ⟨.refl db₂, fun _ mem => nomatch mem⟩
  refine .inr ⟨_, dead ++ stalled, db₃, first.trans (second.trans third.1), ?_, ?_, ?_⟩
  · rw [List.map_append, List.append_assoc]
  · intro id mem r row
    obtain ⟨r', row', due⟩ := expired.1 mem
    cases row'.symm.trans row
    exact (Bool.and_eq_true_iff.1 due).1
  · intro id mem r row
    rcases List.mem_append.1 mem with gone | late
    · exact young (free id gone) (second.taken id gone).1 row
    · exact young (third.2 id late) (second.opened id (third.1.taken id late).1) row

theorem reap_enqueues {locked : SandboxID → Bool}
    {livenessTimeout workerLostTimeout createTimeout : Int} :
    Enqueues now (.reapTx livenessTimeout workerLostTimeout createTimeout) db
      (Transactions.reap now locked livenessTimeout workerLostTimeout createTimeout db).2 id := by
  obtain same | ⟨expired, other, db', claims, done, old, young⟩ :=
    reap_claims now locked livenessTimeout workerLostTimeout createTimeout db
  · exact .nothing (by rw [same])
  obtain ⟨nodup, nodup', apart⟩ := List.nodup_append.1 claims.nodup
  have added : cleanups id (Transactions.reap now locked livenessTimeout workerLostTimeout
      createTimeout db).2 = cleanups id db ++ ((if id ∈ expired then [some .stopped] else []) ++
        if id ∈ other then [some .failed] else []) := by
    rw [done, cleanups_insertJobs, cleanups_of_jobs claims.jobs, List.filterMap_append,
      filterMap_cleanup nodup, filterMap_cleanup nodup']
  have taken (mem : id ∈ expired ++ other) := claims.taken id mem
  by_cases ttl : id ∈ expired
  · obtain ⟨⟨r, row, claimable⟩, pending⟩ := taken (List.mem_append_left _ ttl)
    rw [if_pos ttl, if_neg fun mem => apart id ttl id mem rfl, List.append_nil] at added
    exact .claimed row claimable (done ▸ pending)
      (by rw [decided, old id ttl r row, if_pos rfl]) added
  by_cases lost : id ∈ other
  · obtain ⟨⟨r, row, claimable⟩, pending⟩ := taken (List.mem_append_right _ lost)
    rw [if_neg ttl, if_pos lost, List.nil_append] at added
    exact .claimed row claimable (done ▸ pending)
      (by rw [decided, young id lost r row, if_neg Bool.false_ne_true]) added
  · exact .nothing (by rw [added, if_neg ttl, if_neg lost, List.append_nil, List.append_nil])

theorem reconcileInventory_claims (now : Int) (workerID : WorkerID) (first : Bool) (inv : Inventory)
    (db : Database) :
    Claims ((reconcileInventory now workerID first inv db).1.lost ++
      (reconcileInventory now workerID first inv db).1.dead) db
      (reconcileInventory now workerID first inv db).2 := by
  have lost : Claims (if first then claimLost workerID inv.ids db else ([], db)).1 db
      (if first then claimLost workerID inv.ids db else ([], db)).2 := by
    split
    · refine claimToCleanup_claims _ fun id r h => ?_
      simp only [Bool.and_eq_true] at h
      exact claimable_of_active (activeOn_active h.1.1).2
    · exact .refl db
  have dead (db : Database) : Claims (claimDead workerID inv.dead db).1 db
      (claimDead workerID inv.dead db).2 :=
    claimToCleanup_claims _ fun id r h =>
      claimable_of_active (activeOn_active (Bool.and_eq_true_iff.1 h).1).2
  unfold reconcileInventory
  dsimp only
  split
  · rw [List.append_nil]
    exact lost
  · exact lost.trans ((refreshSeen_claims.trans confirmRunning_claims).trans (dead _))

theorem reconcile_claims {w : Worker} {inv : Inventory}
    (h : Transactions.reconcileHeartbeat now w inv db = some db') :
    ∃ (ids orphans : List SandboxID) (db₃ : Database), Claims ids db db₃ ∧ db' = db₃.insertJobs
      (ids.map (.cleanupSandbox · (some .failed)) ++ orphans.map (.removeOrphan w.id)) := by
  unfold Transactions.reconcileHeartbeat Transactions.reconciled at h
  split at h
  · cases h
  rename_i db₁ updated
  obtain ⟨r, -, -, rows⟩ := update_beats updated
  generalize claim : WorkerRepository.claimInventory w.id w.fencingToken db₁ = marked at h
  obtain ⟨first, db₂⟩ := marked
  have rows₂ : db₂.sandboxes = db.sandboxes ∧ db₂.jobs = db.jobs := by
    cases claim
    rw [rows]
    exact ⟨rfl, rfl⟩
  cases h
  exact ⟨_, _, _, (reconcileInventory_claims now w.id first inv db₂).of_eq rows₂.1 rows₂.2, rfl⟩

theorem reconcile_enqueues {w : Worker} {inv : Inventory}
    (h : Transactions.reconcileHeartbeat now w inv db = some db') :
    Enqueues now (.reconcileTx w inv) db db' id := by
  obtain ⟨ids, orphans, db₃, claims, rfl⟩ := reconcile_claims h
  have added : cleanups id (db₃.insertJobs (ids.map (.cleanupSandbox · (some .failed)) ++
      orphans.map (.removeOrphan w.id))) = cleanups id db ++ if id ∈ ids then
      [some .failed] else [] := by
    rw [cleanups_insertJobs, cleanups_of_jobs claims.jobs, List.filterMap_append,
      filterMap_cleanup claims.nodup, filterMap_orphans, List.append_nil]
  by_cases taken : id ∈ ids
  · obtain ⟨⟨r, row, claimable⟩, pending⟩ := claims.taken id taken
    exact .claimed row claimable pending rfl (by rw [added, if_pos taken])
  · exact .nothing (by rw [added, if_neg taken, List.append_nil])

end Transactions

theorem effect_enqueues {c : Call} (lawful : Lawful c) {i : Nat} {e : Env} {s : World}
    (may : unclaimed i c e s = true) (id : SandboxID) :
    Enqueues e.now c s.db (effect c e s).db id := by
  cases c with
  | createTx sbx =>
    refine .nothing ?_
    obtain same | ⟨-, jobs, -⟩ := create_rows sbx s.db
    · exact congrArg (cleanups id) same
    · change cleanups id (Transactions.create sbx s.db).2 = _
      rw [cleanups, jobs, List.filterMap_append]
      exact List.append_nil _
  | deleteTx k => exact delete_enqueues
  | cleanupTx k =>
    obtain ⟨r, row, claimable⟩ := (Option.any_eq_true _ _).1 may
    exact cleanup_enqueues ⟨r, row, of_decide_eq_true claimable⟩
  | reapTx livenessTimeout workerLostTimeout createTimeout => exact reap_enqueues
  | reconcileTx w inv =>
    simp only [effect, answer, statement, faulty, reconcileStep]
    split
    · rename_i found
      exact reconcile_enqueues found
    · exact .nothing rfl
  | _ => exact .nothing (cleanups_of_jobs (effect_same_jobs lawful rfl))

theorem answer_enqueues {c : Call} (lawful : Lawful c) {i : Nat} {e : Env} {s : World}
    (may : unclaimed i c e s = true) (id : SandboxID) :
    Enqueues e.now c s.db (answer c e s).2.db id := by
  obtain same | done := answer_effect c e s
  · rw [same]
    exact .nothing rfl
  · rw [done]
    exact effect_enqueues lawful may id

theorem Consistent.no_cleanups {db : Database} (h : Consistent db) {id : SandboxID}
    (still : Open db id) : cleanups id db = [] := by
  by_contra some_job
  obtain ⟨target, mem⟩ := mem_cleanups some_job
  exact Claimed.not_open (h.jobs _ mem).2 still

abbrev Uncontested : State → State → Prop := system.ReachesWhen unclaimed fun _ _ => true

/-- The call of thread `i` claims the sandbox and enqueues its first cleanup,
with the target the claimant decides on. -/
structure ClaimedBy (i : Nat) (e : Env) (s t : State) (id : SandboxID) (target : Option Status) :
    Prop where
  before : ∃ k c f r, s.threads i = some ⟨k, .call c f⟩ ∧ s.shared.db.sandbox? id = some r ∧
    r.status ∈ Status.claimable ∧ decided e.now r c = some target
  after : ∃ r, t.shared.db.sandbox? id = some r ∧ r.status = .cleanupPending
  first : cleanups id s.shared.db = []
  only : cleanups id t.shared.db = [target]

theorem step_enqueues {s t : State} {a : Action Kind Env Empty} (hs : Uncontested initial s)
    (may : System.meets unclaimed (fun _ _ => true) s a = true) (h : system.step s a = some t)
    (id : SandboxID) : cleanups id t.shared.db = cleanups id s.shared.db ∨
      ∃ i e target, a = .call i e ∧ ClaimedBy i e s t id target := by
  have reached := System.ReachesIf.reaches hs
  obtain ⟨k, v, -, started, rfl⟩ | ⟨i, e, k, c, f, a, v, rfl, hi, ran,
    rfl⟩ | ⟨i, th, -, -, -, rfl⟩ | ⟨x, -⟩ := System.step_cases h
  · exact .inl (by rw [(start_eq started).2])
  · have lawful := System.safe_pre lawful_disciplined (reached_lawful reached) hi
    obtain rfl : v = (answer c e s.shared).2 := congrArg Prod.snd (exec_eq_some (i := i) ran)
    cases answer_enqueues lawful (System.meets_iff.1 may k c f hi) id with
    | nothing same => exact .inl same
    | claimed row claimable pending decides added =>
      have first := (reaches_consistent reached).no_cleanups ⟨_, row, claimable⟩
      rw [first] at added
      exact .inr ⟨i, e, _, rfl, ⟨k, c, f, _, hi, row, claimable, decides⟩, pending, first, added⟩
  · exact .inl rfl
  · exact nomatch x

/-- Along a run in which a create job only gives up a sandbox nobody has claimed,
a sandbox has at most one cleanup job, and a step that inserts it is the claim
of the sandbox by whoever decided its target. -/
theorem one_cleanup_per_claim {s : State} (hs : Uncontested initial s) (id : SandboxID) :
    (cleanups id s.shared.db).length ≤ 1 ∧
    ∀ a t, System.meets unclaimed (fun _ _ => true) s a = true → system.step s a = some t →
      cleanups id t.shared.db = cleanups id s.shared.db ∨
      ∃ i e target, a = .call i e ∧ ClaimedBy i e s t id target := by
  refine ⟨?_, fun a t may step => step_enqueues hs may step id⟩
  induction hs with
  | refl => exact Nat.zero_le 1
  | tail before last ih =>
    obtain ⟨a, may, step⟩ := last
    obtain same | ⟨i, e, target, -, claim⟩ :=
      step_enqueues before (System.meets_iff.2 may) step id
    · rw [same]
      exact ih
    · rw [claim.only]
      exact Nat.le_refl 1

def deletedMeanwhile : List (Action Kind Env Empty) :=
  -- a user deletes a sandbox while the last attempt of its create job waits for the worker;
  -- thread 3 is the delete
  firstCreated ++ .spawn (.createJob firstID true) :: List.replicate 12 (.call 2 {}) ++
    [.spawn (.deleteSandbox (some "user-1") firstID), .call 3 {}]

theorem one_cleanup_per_claim_delete : ∃ s t, Uncontested initial s ∧
    system.step s (.call 3 {}) = some t ∧
    ∃ target, ClaimedBy 3 {} s t firstID target ∧ cleanups firstID t.shared.db = [target] := by
  have run : ((system.runIf unclaimed (fun _ _ => true) initial deletedMeanwhile).bind fun s =>
      (system.step s (.call 3 {})).map fun t =>
        (System.meets unclaimed (fun _ _ => true) s (.call 3 {} : Action Kind Env Empty),
          cleanups firstID s.shared.db, cleanups firstID t.shared.db)) =
      some (true, [], [some .stopped]) := by
    decide +kernel
  simp only [Option.bind_eq_some_iff, Option.map_eq_some_iff, Prod.mk.injEq] at run
  obtain ⟨s, hs, t, step, may, before, after⟩ := run
  have reached := System.reachesWhen_of_runIf hs
  obtain same | ⟨i, e, target, eq, claim⟩ :=
    (one_cleanup_per_claim reached firstID).2 _ t may step
  · rw [before, after] at same
    cases same
  · cases eq
    exact ⟨s, t, reached, step, target, claim, claim.only⟩

theorem cleanup_enqueued_twice : ∃ s, system.Reaches initial s ∧
    cleanups firstID s.shared.db = [some .stopped, none] := by
  -- the attempt then times out and gives the sandbox up a second time
  have run : (system.run initial (deletedMeanwhile ++ [.call 3 {},
      .call 2 { rpc := some (.deadlineExceeded, "context deadline exceeded") }, .call 2 {}])).map
      (fun s => cleanups firstID s.shared.db) = some [some .stopped, none] := by
    decide +kernel
  obtain ⟨s, hs, two⟩ := Option.map_eq_some_iff.1 run
  exact ⟨s, System.reaches_of_run hs, two⟩

end Fire2.Orchestrator
