import Fire2.History
import Fire2.Growth

/-! What a call of the orchestrator does to the worker table and to the
history: a registration, an accepted heartbeat, a sweep, or nothing. -/

namespace Fire2.Orchestrator
open Interleaving Lifecycle SandboxRepository WorkerRepository

/-- A registration writes the next token into the worker's row. -/
structure Registers (now : Int) (w : Worker) (s t : World) : Prop where
  row : ∃ n, t.db.worker? w.id = some (registeredRow now (nextToken w s.db) n w)
  others : ∀ id, id ≠ w.id → t.db.worker? id = s.db.worker? id
  log : t.log = .registered w.id (nextToken w s.db) now :: s.log

/-- A heartbeat is only accepted with the token of the row it rewrites, and
marks that token's inventory as taken if it carries one. -/
structure Beats (now : Int) (w : Worker) (inv : Option Inventory) (s t : World) : Prop where
  row : ∃ r n, s.db.worker? w.id = some r ∧ r.fencingToken = w.fencingToken ∧
    t.db.worker? w.id = some { heartbeatRow now w r with inventoryToken := n }
  taken : ∀ r r', s.db.worker? w.id = some r → t.db.worker? w.id = some r' →
    r'.inventoryToken = if inv.isSome then w.fencingToken else r.inventoryToken
  others : ∀ id, id ≠ w.id → t.db.worker? id = s.db.worker? id
  log : t.log = heartbeatEntry now w inv s.db :: s.log

structure Sweeps (now timeout : Int) (s t : World) : Prop where
  rows : ∀ id, t.db.worker? id = (s.db.worker? id).map fun r =>
    if stale now timeout r then { r with status := .inactive, inactiveSince := some now } else r
  log : t.log = .swept now (s.db.workers.select fun _ r => stale now timeout r) :: s.log

def inventoryOf : Call → Option WorkerID
  | .reconcileTx w _ => some w.id
  | _ => none

/-- Everything a call can do to the worker table. A refused inventory changes
nothing at all. -/
inductive WorkerStep (now : Int) (s t : World) : Call → Prop
  | silent {c : Call} (workers : t.db.workers = s.db.workers) (log : t.log = s.log)
      (kept : t = s ∨ inventoryOf c = none) : WorkerStep now s t c
  | registered {w : Worker} (h : Registers now w s t) : WorkerStep now s t (.register w)
  | heartbeat {w : Worker} (h : Beats now w none s t) : WorkerStep now s t (.updateWorker w)
  | inventory {w : Worker} {inv : Inventory} (h : Beats now w (some inv) s t)
      (done : Transactions.reconcileHeartbeat now w inv s.db = some t.db) :
      WorkerStep now s t (.reconcileTx w inv)
  | swept {timeout : Int} (h : Sweeps now timeout s t) :
      WorkerStep now s t (.markStaleInactive timeout)

theorem WorkerStep.none (now : Int) (s : World) (c : Call) : WorkerStep now s s c :=
  .silent rfl rfl (.inl rfl)

theorem WorkerStep.token_stays {now : Int} {s t : World} {c : Call} {id : WorkerID} {r : WorkerRow}
    (step : WorkerStep now s t c) (row : s.db.worker? id = some r) :
    ∃ r', t.db.worker? id = some r' ∧ r.fencingToken ≤ r'.fencingToken := by
  cases step with
  | silent workers =>
    refine ⟨r, ?_, Int.le_refl _⟩
    rw [Database.worker?, workers]
    exact row
  | @registered w done =>
    by_cases own : id = w.id
    · obtain ⟨n, written⟩ := done.row
      refine ⟨_, own ▸ written, ?_⟩
      subst own
      simp only [registeredRow, nextToken, row]
      omega
    · exact ⟨r, (done.others id own).trans row, Int.le_refl _⟩
  | @heartbeat w done | @inventory w _ done =>
    by_cases own : id = w.id
    · obtain ⟨r₀, n, found, -, written⟩ := done.row
      subst own
      cases found.symm.trans row
      exact ⟨_, written, Int.le_refl _⟩
    · exact ⟨r, (done.others id own).trans row, Int.le_refl _⟩
  | swept done =>
    refine ⟨_, (done.rows id).trans (congrArg _ row), ?_⟩
    dsimp only
    split <;> exact Int.le_refl _

theorem register_step (now : Int) (w : Worker) (s : World) :
    WorkerStep now s (registerStep now w s).2 (.register w) := by
  unfold registerStep
  split
  · rename_i registered db done
    simp only [register] at done
    split at done
    · cases done
    refine .registered ?_
    split at done
    · rename_i table new
      cases done
      have rows := (Table.insert?_eq_some new).2
      exact ⟨⟨0, (rows w.id).trans (if_pos rfl)⟩, fun id other => (rows id).trans
        (if_neg other), rfl⟩
    · rename_i taken
      cases done
      obtain ⟨r, row⟩ : ∃ r, s.db.worker? w.id = some r := by
        cases row : s.db.worker? w.id with
        | none => exact absurd taken (Option.isSome_iff_ne_none.1 (Table.insert?_isSome row))
        | some r => exact ⟨r, rfl⟩
      refine ⟨⟨r.inventoryToken, ?_⟩, fun id other => ?_, rfl⟩
      · simp [row]
      · simp [other]
  · exact .none now s _

theorem update_beats {now : Int} {w w' : Worker} {db db' : Database}
    (h : update now w db = (some w', db')) :
    ∃ r, db.worker? w.id = some r ∧ r.fencingToken = w.fencingToken ∧
      db' = db.rewriteWorkers fun k r => if k = w.id then heartbeatRow now w r else r := by
  unfold update at h
  split at h
  · rename_i r row
    split at h
    · rename_i current
      cases h
      exact ⟨r, row, current, rfl⟩
    · cases h
  · cases h

theorem updateWorker_step (now : Int) (w : Worker) (s : World) :
    WorkerStep now s (updateWorkerStep now w s).2 (.updateWorker w) := by
  unfold updateWorkerStep
  split
  · rename_i done
    obtain ⟨r, row, current, rfl⟩ := update_beats done
    refine .heartbeat ⟨⟨r, r.inventoryToken, row, current, ?_⟩, fun r₀ r' row₀ row' => ?_,
      fun id other => ?_, rfl⟩
    · simp [row, heartbeatRow]
    · cases row.symm.trans row₀
      simp only [Database.worker?_rewriteWorkers, row, Option.map_some, if_true] at row'
      cases row'
      rfl
    · simp [other]
  · exact .none now s _

theorem reconcileInventory_workers {now : Int} {workerID : WorkerID} {first : Bool}
    {inv : Inventory} {db : Database} :
    (reconcileInventory now workerID first inv db).2.workers = db.workers :=
  (reconcileInventory_lives reconciles_any).workers

theorem reconcileHeartbeat_workers {now : Int} {w : Worker} {inv : Inventory} {db db' : Database}
    (h : Transactions.reconcileHeartbeat now w inv db = some db') :
    ∃ w' db₁, update now w db = (some w', db₁) ∧
      db'.workers = (claimInventory w.id w.fencingToken db₁).2.workers := by
  unfold Transactions.reconcileHeartbeat Transactions.reconciled at h
  split at h
  · cases h
  · rename_i w' db₁ updated
    cases h
    exact ⟨w', db₁, updated, reconcileInventory_workers⟩

theorem reconcile_step (now : Int) (w : Worker) (inv : Inventory) (s : World) :
    WorkerStep now s (reconcileStep now w inv s).2 (.reconcileTx w inv) := by
  unfold reconcileStep
  split
  · rename_i db done
    obtain ⟨w', db₁, updated, workers⟩ := reconcileHeartbeat_workers done
    obtain ⟨r, row, current, rfl⟩ := update_beats updated
    have rows (id : WorkerID) := congrArg (fun t => Table.get? t id) workers
    have written : db.worker? w.id =
        some { heartbeatRow now w r with inventoryToken := w.fencingToken } := by
      refine (rows w.id).trans ?_
      change (Database.rewriteWorkers _ _).worker? w.id = _
      by_cases claimed : r.inventoryToken = w.fencingToken
      · simp [row, heartbeatRow, current, claimed]
      · simp [row, heartbeatRow, current, claimed]
    refine .inventory ⟨⟨r, w.fencingToken, row, current, written⟩, fun r₀ r' row₀ row' => ?_,
      fun id other => (rows id).trans ?_, rfl⟩ done
    · cases written.symm.trans row'
      rfl
    · change (Database.rewriteWorkers _ _).worker? id = s.db.worker? id
      simp [other]
  · exact .none now s _

theorem claim_workers {id : SandboxID} {db : Database} :
    (updateStatus id .cleanupPending Status.claimable db).2.workers = db.workers :=
  have lives : Lives .any db (updateStatus id .cleanupPending Status.claimable db).2 :=
    updateStatus_lives .claimed fun _ _ => trivial
  lives.workers

theorem create_workers {sbx : Sandbox} {db : Database} :
    (Transactions.create sbx db).2.workers = db.workers := by
  unfold Transactions.create SandboxRepository.create
  cases db.sandboxes.insert? sbx.id { sbx.toSandboxColumns with lastSeenAt := none } <;> rfl

theorem delete_workers {id : SandboxID} {db : Database} :
    (Transactions.delete id db).2.workers = db.workers := by
  have same : (updateStatus id .cleanupPending Status.claimable db).2.workers = db.workers :=
    claim_workers
  unfold Transactions.delete
  split
  · rename_i done
    rw [done] at same
    exact same
  · rfl
  · rfl

theorem cleanup_workers {id : SandboxID} {db : Database} :
    (Transactions.cleanup id db).2.workers = db.workers := by
  have same : (updateStatus id .cleanupPending Status.claimable db).2.workers = db.workers :=
    claim_workers
  unfold Transactions.cleanup
  split
  · rename_i done
    rw [done] at same
    exact same
  · rfl

theorem reap_workers {now livenessTimeout workerLostTimeout createTimeout : Int}
    {locked : SandboxID → Bool} {db : Database} :
    (Transactions.reap now locked livenessTimeout workerLostTimeout createTimeout db).2.workers =
      db.workers := by
  have permitted (k : SandboxID) (r : SandboxRow) : Permit.any k r .claim := trivial
  obtain ⟨err, failed⟩ | ⟨_, _, _, db', done, lives, -⟩ :=
    reap_cases permitted now locked livenessTimeout workerLostTimeout createTimeout db
  · rw [failed]
  · rw [done]
    exact lives.workers

theorem createSandboxEvent_workers {ev : SandboxEvent} {db : Database} :
    (EventRepository.createSandboxEvent ev db).2.workers = db.workers := by
  unfold EventRepository.createSandboxEvent
  split
  · split <;> rfl
  · rfl

theorem effect_workers {c : Call} (lawful : Lawful c) (e : Env) (s : World) :
    WorkerStep e.now s (effect c e s) c := by
  cases c with
  | updateStatus id status allowedFrom =>
    obtain ⟨l, allowed⟩ := lawful
    have lives : Lives .any s.db (updateStatus id status allowedFrom s.db).2 :=
      updateStatus_lives allowed fun _ _ => trivial
    exact .silent lives.workers rfl (.inr rfl)
  | updateStatusFenced id workerID token status allowedFrom =>
    obtain ⟨rfl, rfl⟩ := lawful
    exact .silent rfl rfl (.inr rfl)
  | assignWorker id workerID =>
    have lives : Lives .any s.db (assignWorker e.now id workerID s.db).2 :=
      assignWorker_lives fun _ _ => trivial
    exact .silent lives.workers rfl (.inr rfl)
  | clearWorker id => exact .silent rfl rfl (.inr rfl)
  | createTx sbx => exact .silent create_workers rfl (.inr rfl)
  | deleteTx id => exact .silent delete_workers rfl (.inr rfl)
  | cleanupTx id => exact .silent cleanup_workers rfl (.inr rfl)
  | reapTx livenessTimeout workerLostTimeout createTimeout =>
    exact .silent reap_workers rfl (.inr rfl)
  | register w => exact register_step e.now w s
  | updateWorker w => exact updateWorker_step e.now w s
  | reconcileTx w inv => exact reconcile_step e.now w inv s
  | markStaleInactive timeout => exact .swept ⟨fun id => Table.get?_update .., rfl⟩
  | createSandboxEvent ev => exact .silent createSandboxEvent_workers rfl (.inr rfl)
  | getSandbox | listWorkers | getWorker | whyRefused | timeNow | newUUID | draw | newClient
  | getWorkerInfo | sendCreate | sendRemove | await | awaitJob => exact .none e.now s _

theorem answer_workers {c : Call} (lawful : Lawful c) (e : Env) (s : World) :
    WorkerStep e.now s (answer c e s).2 c := by
  obtain same | done := answer_effect c e s
  · rw [same]
    exact .none e.now s c
  · rw [done]
    exact effect_workers lawful e s

end Fire2.Orchestrator
