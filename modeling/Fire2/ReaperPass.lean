import Fire2.Growth

/-! One pass of the reaper, statement by statement. Its three claims run on the
transaction's own copy of the database, each over what the one before it left,
and the copy only takes the database's place when everything went through. -/

namespace Fire2.ReapSandboxWorker
open SandboxRepository

def failure (stage : ReapStage) (err : Err) : Err := .wrap ("reap sandbox: " ++ stage.text) err

def statement {α : Type} (fails : ReapStage → Option Err) (stage : ReapStage)
    (ran : Except Err α × Database) : Except Err (α × Database) :=
  match fails stage, ran with
  | some err, _ => .error (failure stage err)
  | none, (.error err, _) => .error (failure stage err)
  | none, (.ok a, tx) => .ok (a, tx)

def cleanupParams (target : Status) (ids : List SandboxID) : List JobArgs :=
  ids.map (.cleanupSandbox · (some target))

section Pass
variable (fails : ReapStage → Option Err) (now : Int) (locked : SandboxID → Bool)
  (livenessTimeout workerLostTimeout createTimeout : Int)

def claimStalled (tx : Database) : Except Err (List SandboxID × Database) :=
  if 0 < createTimeout then statement fails .stalled
    (claimStalledCreation now locked createTimeout tx)
  else .ok ([], tx)

/-- The cleanup jobs and the commit. Without a claim Work returns before them, and
the rollback drops the copy. -/
def enqueue (db tx : Database) (res : ReapResult) : Except Err Database :=
  if res.expired.length + res.dead.length + res.stalled.length = 0 then .ok db
  else do
    let (_, tx) ← statement fails .enqueue
      (.ok (), tx.insertJobs (cleanupParams .stopped res.expired ++
      cleanupParams .failed res.dead ++ cleanupParams .failed res.stalled))
    let (_, tx) ← statement fails .commit (.ok (), tx)
    return tx

def transaction (db : Database) : Except Err Database := do
  -- the transaction up to its end: the database it leaves, if it gets there
  let (_, tx) ← statement fails .begin (.ok (), db)
  let claimed := claimTTLExpired now locked tx
  let (expired, tx) ← statement fails .ttl (.ok claimed.1, claimed.2)
  let (dead, tx) ← statement fails .liveness
    (claimLivenessExpired now locked livenessTimeout workerLostTimeout tx)
  let (stalled, tx) ← claimStalled fails now locked createTimeout tx
  enqueue fails db tx ⟨expired, dead, stalled⟩

/-- `Work`: what it returns, and the database after its deferred rollback. -/
def work (db : Database) : Option Err × Database :=
  match transaction fails now locked livenessTimeout workerLostTimeout createTimeout db with
  | .ok db' => (none, db')
  | .error err => (some err, db)

end Pass

section Exactness
variable {fails : ReapStage → Option Err}
  {now livenessTimeout workerLostTimeout createTimeout : Int}
  {locked : SandboxID → Bool} {db db' : Database} {id : SandboxID} {r : SandboxRow}

theorem bind_eq_ok {ε α β : Type} {x : Except ε α} {f : α → Except ε β} {b : β}
    (h : (x >>= f) = .ok b) : ∃ a, x = .ok a ∧ f a = .ok b := by
  cases x with
  | error err => cases h
  | ok a => exact ⟨a, rfl, h⟩

theorem statement_ok {α : Type} {stage : ReapStage} {ran : Except Err α × Database}
    {a : α} {tx : Database} (h : statement fails stage ran = .ok (a, tx)) : ran = (.ok a, tx) := by
  unfold statement at h
  split at h <;> cases h
  rfl

theorem transaction_ok (h : transaction fails now locked livenessTimeout workerLostTimeout
    createTimeout db = .ok db') : ∃ tx₂ tx₃ res, res.expired = (claimTTLExpired now locked db).1 ∧
      claimLivenessExpired now locked livenessTimeout workerLostTimeout
      (claimTTLExpired now locked db).2 =
        (.ok res.dead, tx₂) ∧
      claimStalled fails now locked createTimeout tx₂ = .ok (res.stalled, tx₃) ∧
      enqueue fails db tx₃ res = .ok db' := by
  obtain ⟨⟨_, tx⟩, begun, h⟩ := bind_eq_ok h
  cases statement_ok begun
  obtain ⟨⟨expired, tx₁⟩, ttl, h⟩ := bind_eq_ok h
  cases statement_ok ttl
  obtain ⟨⟨dead, tx₂⟩, liveness, h⟩ := bind_eq_ok h
  obtain ⟨⟨stalled, tx₃⟩, stall, h⟩ := bind_eq_ok h
  exact ⟨tx₂, tx₃, ⟨_, dead, stalled⟩, rfl, statement_ok liveness, stall, h⟩

def stalledRow (now createTimeout : Int) (r : SandboxRow) : Bool :=
  0 < createTimeout && stalledCreation now createTimeout r

def due (now livenessTimeout workerLostTimeout createTimeout : Int) (db : Database)
    (r : SandboxRow) : Bool :=
  ttlExpired now r || livenessExpired now livenessTimeout workerLostTimeout db r ||
    stalledRow now createTimeout r

def claimedRow (r : SandboxRow) : SandboxRow := { r with status := .cleanupPending }

theorem livenessExpired_claimed :
    livenessExpired now livenessTimeout workerLostTimeout db (claimedRow r) = false := by
  unfold livenessExpired claimedRow
  dsimp only
  split <;> simp [Status.active]

theorem stalledRow_claimed : stalledRow now createTimeout (claimedRow r) = false := by
  simp [stalledRow, stalledCreation, claimedRow]

theorem not_stalled_of_live
    (h : livenessExpired now livenessTimeout workerLostTimeout db r = true) :
    stalledRow now createTimeout r = false := by
  unfold livenessExpired at h
  split at h
  · simp only [Bool.and_eq_true, decide_eq_true_eq, Status.active, List.mem_cons,
      List.not_mem_nil, or_false] at h
    obtain ⟨assigned | starting | running, -⟩ := h <;> simp [stalledRow, stalledCreation, *]
  · cases h

structure Reaped (now livenessTimeout workerLostTimeout createTimeout : Int)
    (db db' : Database) : Prop where
  rows : ∀ id, db'.sandbox? id = (db.sandbox? id).map fun r =>
    if due now livenessTimeout workerLostTimeout createTimeout db r then claimedRow r else r
  jobs : ∃ new, db'.jobs = db.jobs ++ new ∧ new.Nodup ∧ ∀ job, job ∈ new ↔ ∃ id r,
    db.sandbox? id = some r ∧
    due now livenessTimeout workerLostTimeout createTimeout db r = true ∧
    job = .cleanupSandbox id (some (if ttlExpired now r then .stopped else .failed))
  workers : db'.workers = db.workers
  events : db'.events = db.events

structure Claimed (now livenessTimeout workerLostTimeout createTimeout : Int) (db tx : Database)
    (res : ReapResult) : Prop where
  tables : tx = db.rewrite fun _ r =>
    if due now livenessTimeout workerLostTimeout createTimeout db r then claimedRow r else r
  expired : res.expired = db.sandboxes.select fun _ r => ttlExpired now r
  dead : res.dead = db.sandboxes.select fun _ r =>
    livenessExpired now livenessTimeout workerLostTimeout db r && !ttlExpired now r
  stalled : res.stalled = db.sandboxes.select fun _ r =>
    stalledRow now createTimeout r && !ttlExpired now r

theorem rewrite_rewrite (f g : SandboxID → SandboxRow → SandboxRow) :
    (db.rewrite f).rewrite g = db.rewrite fun id r => g id (f id r) := by
  simp [Database.rewrite, Table.update]

theorem claimed_after (db : Database) {p q : SandboxRow → Bool}
    (claimed : ∀ r, q (claimedRow r) = false) :
    (db.rewrite fun _ r => if p r then claimedRow r else r).sandboxes.select (fun _ r => q r) =
      db.sandboxes.select (fun _ r => q r && !p r) ∧
    ((db.rewrite fun _ r => if p r then claimedRow r else r).rewrite fun _ r =>
      if q r then claimedRow r else r) = db.rewrite fun _ r => if p r ||
      q r then claimedRow r else r := by
  constructor
  · rw [Database.rewrite, Table.select_update]
    refine Table.select_congr fun id r _ => ?_
    by_cases earlier : p r = true <;> simp [earlier, claimed]
  · rw [rewrite_rewrite]
    congr 1
    funext id r
    by_cases earlier : p r = true <;> simp [earlier, claimed]

theorem claimed_of_ok {tx₂ tx₃ : Database} {res : ReapResult}
    (ttl : res.expired = (claimTTLExpired now (fun _ => false) db).1)
    (liveness : claimLivenessExpired now (fun _ => false) livenessTimeout workerLostTimeout
      (claimTTLExpired now (fun _ => false) db).2 = (.ok res.dead, tx₂))
    (stalled : claimStalled fails now (fun _ => false) createTimeout tx₂ = .ok (res.stalled, tx₃)) :
    Claimed now livenessTimeout workerLostTimeout createTimeout db tx₃ res := by
  have first : claimTTLExpired now (fun _ => false) db =
    (db.sandboxes.select fun _ r => ttlExpired now r,
      db.rewrite fun _ r => if ttlExpired now r then claimedRow r else r) := by
    simp [claimTTLExpired, claimToCleanup, claimedRow]
  rw [first] at ttl liveness
  obtain ⟨deadIDs, deadRows⟩ := claimed_after db (p := ttlExpired now)
    (q := livenessExpired now livenessTimeout workerLostTimeout db) fun _ => livenessExpired_claimed
  have second : res.dead = db.sandboxes.select (fun _ r =>
      livenessExpired now livenessTimeout workerLostTimeout db r && !ttlExpired now r) ∧
      tx₂ = db.rewrite fun _ r => if ttlExpired now r ||
        livenessExpired now livenessTimeout workerLostTimeout db r then claimedRow r else r := by
    rw [← deadIDs, ← deadRows]
    unfold claimLivenessExpired at liveness
    split at liveness
    · cases liveness
    · simp only [claimToCleanup, Bool.not_false, Bool.and_true, Prod.mk.injEq,
        Except.ok.injEq] at liveness
      exact ⟨liveness.1.symm, liveness.2.symm⟩
  obtain ⟨stalledIDs, stalledRows⟩ := claimed_after db
    (p := fun r => ttlExpired now r || livenessExpired now livenessTimeout workerLostTimeout db r)
    (q := stalledRow now createTimeout) fun _ => stalledRow_claimed
  have third : res.stalled = tx₂.sandboxes.select (fun _ r => stalledRow now createTimeout r) ∧
      tx₃ = tx₂.rewrite fun _ r => if stalledRow now createTimeout r then claimedRow r else r := by
    unfold claimStalled at stalled
    split at stalled
    · rename_i on
      have ran := statement_ok stalled
      simp only [claimStalledCreation, not_le.2 on, if_false, claimToCleanup,
        Bool.not_false, Bool.and_true, Prod.mk.injEq, Except.ok.injEq] at ran
      simp only [stalledRow, on, decide_true, Bool.true_and]
      exact ⟨ran.1.symm, ran.2.symm⟩
    · rename_i off
      simp only [Except.ok.injEq, Prod.mk.injEq] at stalled
      obtain ⟨none, rfl⟩ := stalled
      have never (r : SandboxRow) : stalledRow now createTimeout r = false := by
        simp [stalledRow, off]
      simp only [never, Bool.false_eq_true, if_false]
      refine ⟨none.symm.trans (by simp [Table.select]), ?_⟩
      rw [Database.rewrite, Table.update_eq_self _ _ fun _ _ _ => rfl]
  rw [second.2] at third
  refine ⟨third.2.trans stalledRows, ttl, second.1, third.1.trans (stalledIDs.trans ?_)⟩
  refine Table.select_congr fun id r _ => ?_
  by_cases live : livenessExpired now livenessTimeout workerLostTimeout db r = true
  · simp [not_stalled_of_live live]
  · simp [live]

def jobsOf (res : ReapResult) : List JobArgs :=
  cleanupParams .stopped res.expired ++ cleanupParams .failed res.dead ++
    cleanupParams .failed res.stalled

theorem mem_cleanupParams {target : Status} {ids : List SandboxID} {job : JobArgs} :
    job ∈ cleanupParams target ids ↔ ∃ id ∈ ids, job = .cleanupSandbox id (some target) := by
  simp [cleanupParams, eq_comm]

section Results
variable {tx : Database} {res : ReapResult}
  (claimed : Claimed now livenessTimeout workerLostTimeout createTimeout db tx res)
include claimed

theorem mem_jobsOf {job : JobArgs} : job ∈ jobsOf res ↔ ∃ id r, db.sandbox? id = some r ∧
    due now livenessTimeout workerLostTimeout createTimeout db r = true ∧
    job = .cleanupSandbox id (some (if ttlExpired now r then .stopped else .failed)) := by
  simp only [jobsOf, List.mem_append, mem_cleanupParams, claimed.expired,
    claimed.dead, claimed.stalled, Table.mem_select, Bool.and_eq_true, Bool.not_eq_true',
    due, Bool.or_eq_true]
  constructor
  · rintro ((⟨id, ⟨r, found, ttl⟩, rfl⟩ | ⟨id, ⟨r, found, live, ttl⟩, rfl⟩) | ⟨id,
      ⟨r, found, stalled, ttl⟩, rfl⟩)
    · exact ⟨id, r, found, .inl (.inl ttl), by simp [ttl]⟩
    · exact ⟨id, r, found, .inl (.inr live), by simp [ttl]⟩
    · exact ⟨id, r, found, .inr stalled, by simp [ttl]⟩
  · rintro ⟨id, r, found, cause, rfl⟩
    by_cases ttl : ttlExpired now r = true
    · exact .inl (.inl ⟨id, ⟨r, found, ttl⟩, by simp [ttl]⟩)
    · have ttl : ttlExpired now r = false := by simpa using ttl
      rcases cause with (expired | live) | stalled
      · cases expired.symm.trans ttl
      · exact .inl (.inr ⟨id, ⟨r, found, live, ttl⟩, by simp [ttl]⟩)
      · exact .inr ⟨id, ⟨r, found, stalled, ttl⟩, by simp [ttl]⟩

theorem nodup_jobsOf : (jobsOf res).Nodup := by
  have params (target : Status) {ids : List SandboxID}
      (nodup : ids.Nodup) : (cleanupParams target ids).Nodup :=
    nodup.map fun a b eq => by simpa using eq
  refine List.nodup_append'.2 ⟨List.nodup_append'.2 ⟨params _ ?_, params _ ?_, ?_⟩, params _ ?_, ?_⟩
  · exact claimed.expired ▸ Table.nodup_select _ _
  · exact claimed.dead ▸ Table.nodup_select _ _
  · intro job stopped failed
    obtain ⟨id, -, rfl⟩ := mem_cleanupParams.1 stopped
    obtain ⟨_, -, eq⟩ := mem_cleanupParams.1 failed
    simp at eq
  · exact claimed.stalled ▸ Table.nodup_select _ _
  · intro job earlier failed
    obtain ⟨id, mem, rfl⟩ := mem_cleanupParams.1 failed
    rcases List.mem_append.1 earlier with stopped | dead
    · obtain ⟨_, -, eq⟩ := mem_cleanupParams.1 stopped
      simp at eq
    · obtain ⟨id', mem', eq⟩ := mem_cleanupParams.1 dead
      cases eq
      rw [claimed.stalled, Table.mem_select] at mem
      rw [claimed.dead, Table.mem_select] at mem'
      obtain ⟨r, found, stalled⟩ := mem
      obtain ⟨r', found', live⟩ := mem'
      cases found.symm.trans found'
      simp only [Bool.and_eq_true] at stalled live
      cases (not_stalled_of_live live.1).symm.trans stalled.1

theorem idle_of_empty (empty : jobsOf res = []) {r : SandboxRow} (found : db.sandbox? id = some r) :
    due now livenessTimeout workerLostTimeout createTimeout db r = false := by
  by_contra cause
  have job := (mem_jobsOf claimed).2 ⟨id, r, found, by simpa using cause, rfl⟩
  rw [empty] at job
  cases job

theorem enqueue_eq (h : enqueue fails db tx res = .ok db') : db' = tx.insertJobs (jobsOf res) := by
  unfold enqueue at h
  split at h
  · rename_i none
    cases h
    have empty : jobsOf res = [] := by
      simp only [Nat.add_eq_zero_iff, List.length_eq_zero_iff] at none
      simp [jobsOf, cleanupParams, none]
    have same : tx = db := by
      rw [claimed.tables, Database.rewrite, Table.update_eq_self]
      intro id r found
      simp [idle_of_empty claimed empty found]
    rw [same, empty, Database.insertJobs, List.append_nil]
  · obtain ⟨⟨_, tx'⟩, enqueued, h⟩ := bind_eq_ok h
    cases statement_ok enqueued
    obtain ⟨⟨_, tx'⟩, committed, h⟩ := bind_eq_ok h
    cases statement_ok committed
    cases h
    rfl

theorem enqueue_reaped (h : enqueue fails db tx res = .ok db') :
    Reaped now livenessTimeout workerLostTimeout createTimeout db db' := by
  rw [enqueue_eq claimed h, claimed.tables]
  exact ⟨fun id => Database.sandbox?_rewrite .., ⟨jobsOf res, rfl, nodup_jobsOf claimed,
    fun job => mem_jobsOf claimed⟩, rfl, rfl⟩

end Results
end Exactness

theorem ok_bind {ε α β : Type} {x : Except ε α} {f : α → Except ε β} {a : α} {b : β} (h : x = .ok a)
    (h' : f a = .ok b) : (x >>= f) = .ok b := by
  rw [h]
  exact h'

theorem transaction_isOk {fails : ReapStage → Option Err}
    (reliable : ∀ stage, fails stage = none) (now : Int)
    (locked : SandboxID → Bool) (livenessTimeout : Int) {workerLostTimeout : Int}
    (createTimeout : Int) (positive : 0 < workerLostTimeout) (db : Database) :
    ∃ db', transaction fails now locked livenessTimeout workerLostTimeout
    createTimeout db = .ok db' := by
  have ran {α : Type} (stage : ReapStage) (a : α) (tx : Database) :
      statement fails stage (.ok a, tx) = .ok (a, tx) := by
    simp [statement, reliable]
  have live (tx : Database) : ∃ ids tx',
      claimLivenessExpired now locked livenessTimeout workerLostTimeout tx = (.ok ids, tx') := by
    unfold claimLivenessExpired
    rw [if_neg (not_le.2 positive)]
    exact ⟨_, _, rfl⟩
  have stalled (tx : Database) : ∃ ids tx', claimStalled fails now locked createTimeout tx =
      .ok (ids, tx') := by
    unfold claimStalled claimStalledCreation
    split
    · rename_i on
      rw [if_neg (not_le.2 on)]
      exact ⟨_, _, ran _ _ _⟩
    · exact ⟨[], tx, rfl⟩
  have enqueued (tx : Database) (res : ReapResult) : ∃ db', enqueue fails db tx res = .ok db' := by
    unfold enqueue
    split
    · exact ⟨db, rfl⟩
    · exact ⟨_, ok_bind (ran _ _ _) (ok_bind (ran _ _ _) rfl)⟩
  obtain ⟨dead, tx₂, claimed⟩ := live (claimTTLExpired now locked db).2
  obtain ⟨ids, tx₃, claimed'⟩ := stalled tx₂
  obtain ⟨db', done⟩ := enqueued tx₃ ⟨(claimTTLExpired now locked db).1, dead, ids⟩
  refine ⟨db', ok_bind (ran .begin () db) (ok_bind (ran .ttl _ _) ?_)⟩
  refine ok_bind (a := (dead, tx₂)) ?_ (ok_bind (a := (ids, tx₃)) claimed' done)
  rw [claimed]
  exact ran .liveness dead tx₂

theorem work_eq_reap {fails : ReapStage → Option Err}
    {now livenessTimeout workerLostTimeout createTimeout : Int}
    {db : Database}
    (h : (work fails now (fun _ => false) livenessTimeout workerLostTimeout
      createTimeout db).1 = none) :
    ∃ res, Transactions.reap now (fun _ => false) livenessTimeout
    workerLostTimeout createTimeout db =
      (.ok res, (work fails now (fun _ => false) livenessTimeout workerLostTimeout
        createTimeout db).2) := by
  unfold work at h ⊢
  split at h
  · rename_i db' ran
    obtain ⟨tx₂, tx₃, res, ttl, liveness, stalled, done⟩ := transaction_ok ran
    have third : (if 0 < createTimeout then claimStalledCreation now
      (fun _ => false) createTimeout tx₂
        else (.ok [], tx₂)) = (.ok res.stalled, tx₃) := by
      unfold claimStalled at stalled
      split at stalled
      · rename_i on
        rw [if_pos on]
        exact statement_ok stalled
      · rename_i off
        simp only [Except.ok.injEq, Prod.mk.injEq] at stalled
        rw [if_neg off, ← stalled.1, ← stalled.2]
    refine ⟨res, ?_⟩
    simp only [Transactions.reap, liveness, third, ← ttl]
    rw [enqueue_eq (claimed_of_ok ttl liveness stalled) done]
    rfl
  · cases h

theorem stalledRow_iff {now n : Int} {r : SandboxRow} (positive : 0 < n)
    (small : n * 1000 ≤ 2 ^ 32 * second) : stalledRow now (n * 1000) r = true ↔
      r.status ∈ [Status.pending, .scheduling] ∧ n * 1000 < (now - r.createdAt) * 1000 := by
  have on : 0 < n * 1000 := by omega
  simp only [stalledRow, stalledCreation, makeInterval_whole positive.le small, on, decide_true,
    Bool.true_and, decide_eq_true_eq, and_congr_right_iff]
  omega

/-- A pass over rows that nobody has locked is exact, and all or nothing: if it
returns no error, it has claimed the sandboxes that were due and enqueued one
cleanup for each; if it fails, wherever it does, it has left everything as it
was. It fails only where the database does. What is due by its age is so after
the conversion of createTimeout, which keeps whole microseconds. -/
theorem pass_exact (fails : ReapStage → Option Err)
    (now livenessTimeout workerLostTimeout createTimeout : Int) (db : Database) :
    let done := work fails now (fun _ => false) livenessTimeout workerLostTimeout createTimeout db
    (done.1 = none → Reaped now livenessTimeout workerLostTimeout createTimeout db done.2) ∧
    (∀ err, done.1 = some err → done.2 = db) ∧
    (0 < workerLostTimeout → (∀ stage, fails stage = none) → done.1 = none) ∧
    ∀ n r, 0 < n → createTimeout = n * 1000 → createTimeout ≤ 2 ^ 32 * second →
      (stalledRow now createTimeout r = true ↔
        r.status ∈ [Status.pending, .scheduling] ∧ createTimeout < (now - r.createdAt) * 1000) := by
  have whole : ∀ n r, 0 < n → createTimeout = n * 1000 → createTimeout ≤ 2 ^ 32 * second →
      (stalledRow now createTimeout r = true ↔
        r.status ∈ [Status.pending, .scheduling] ∧ createTimeout < (now - r.createdAt) * 1000) := by
    rintro n r positive rfl small
    exact stalledRow_iff positive small
  cases ran : transaction fails now (fun _ => false) livenessTimeout workerLostTimeout
      createTimeout db with
  | ok db' =>
    obtain ⟨tx₂, tx₃, res, ttl, liveness, stalled, done⟩ := transaction_ok ran
    simp only [work, ran]
    exact ⟨fun _ => enqueue_reaped (claimed_of_ok ttl liveness stalled) done, nofun,
      fun _ _ => trivial, whole⟩
  | error err =>
    simp only [work, ran]
    refine ⟨nofun, fun _ _ => trivial, fun positive reliable => ?_, whole⟩
    obtain ⟨db', done⟩ :=
      transaction_isOk reliable now (fun _ => false) livenessTimeout createTimeout positive db
    cases done.symm.trans ran

section Example

def pendingRow : SandboxRow where
  runtime := "node"
  status := .pending
  ttl := 3600
  createdAt := 0
  port := 10000
  previewURL := ""
  image := "node:20-alpine"
  workerID := none
  vcpuCount := 1
  memSizeMib := 128
  userID := some "user-1"
  lastSeenAt := none

def onePending : Database := ⟨⟨[("sandbox-1", pendingRow)], by decide⟩, .empty, .empty, []⟩

theorem young_row_kept :
    let done := work (fun _ => none) 1 (fun _ => false) 0 (60 * second) 501 onePending
    done.1 = none ∧ done.2.sandbox? "sandbox-1" = some pendingRow ∧
      pendingRow.status ∈ [Status.pending, .scheduling] ∧
      501 < (1 - pendingRow.createdAt) * 1000 := by
  decide +kernel

end Example

end Fire2.ReapSandboxWorker
