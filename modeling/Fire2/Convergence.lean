import Fire2.Growth
import Fire2.Reconciliation

/-! Sandbox events and a worker's inventory, in any order. An event moves a row
of its worker from starting to running and nothing else, which is what an
inventory makes of the rows it lists as running; one it lists as dead is claimed
from either status. -/

namespace Fire2.SandboxRepository
open Interleaving EventGRPCServer

def Confirmed (workerID : WorkerID) (r r' : SandboxRow) : Prop :=
  r' = r ∨ r.workerID = some workerID ∧ r.status = .starting ∧ r' = { r with status := .running }

def Confirms (workerID : WorkerID) (rows rows' : Table SandboxID SandboxRow) : Prop :=
  ∃ f, rows' = rows.update f ∧ ∀ id r, Confirmed workerID r (f id r)

/-- What the events of a worker leave of a database. -/
structure Advances (workerID : WorkerID) (db db' : Database) : Prop where
  rows : Confirms workerID db.sandboxes db'.sandboxes
  workers : db'.workers = db.workers

section Rows
variable {workerID : WorkerID} {r r' r'' : SandboxRow} {db db' db'' : Database} {id : SandboxID}

theorem Confirmed.trans (h : Confirmed workerID r r') (h' : Confirmed workerID r' r'') :
    Confirmed workerID r r'' := by
  obtain rfl | ⟨here, starting, rfl⟩ := h
  · exact h'
  · obtain rfl | ⟨-, running, -⟩ := h'
    · exact .inr ⟨here, starting, rfl⟩
    · cases running

theorem Confirmed.active (h : Confirmed workerID r r') :
    activeOn workerID r' = activeOn workerID r := by
  obtain rfl | ⟨here, starting, rfl⟩ := h
  · rfl
  · simp [activeOn, here, starting, Status.active]

theorem Confirmed.settled (h : Confirmed workerID r r')
    (h' : activeOn workerID r = true → r.status ≠ .starting) : r' = r := by
  obtain rfl | ⟨here, starting, rfl⟩ := h
  · rfl
  · exact absurd starting (h' (by simp [activeOn, here, starting, Status.active]))

theorem Confirms.sandbox? (h : Confirms workerID db.sandboxes db'.sandboxes) :
    ∃ f : SandboxID → SandboxRow → SandboxRow, (∀ id r, Confirmed workerID r (f id r)) ∧
      ∀ id, db'.sandbox? id = (db.sandbox? id).map (f id) := by
  obtain ⟨f, rows, confirmed⟩ := h
  refine ⟨f, confirmed, fun id => ?_⟩
  rw [Database.sandbox?, rows, Table.get?_update]
  rfl

theorem Advances.of_rows (rows : db'.sandboxes = db.sandboxes)
    (workers : db'.workers = db.workers) : Advances workerID db db' :=
  ⟨⟨fun _ r => r, rows.trans (Table.update_eq_self _ _ fun _ _ _ => rfl).symm, fun _ _ => .inl rfl⟩,
    workers⟩

theorem Advances.trans (h : Advances workerID db db') (h' : Advances workerID db' db'') :
    Advances workerID db db'' := by
  obtain ⟨⟨f, rows, confirmed⟩, workers⟩ := h
  obtain ⟨⟨g, rows', confirmed'⟩, workers'⟩ := h'
  refine ⟨⟨fun id r => g id (f id r), ?_, fun id r => (confirmed id r).trans (confirmed' id _)⟩,
    workers'.trans workers⟩
  rw [rows', rows]
  simp [Table.update]

theorem Advances.of_rewrite {f : SandboxID → SandboxRow → SandboxRow}
    (h : ∀ id r, Confirmed workerID r (f id r)) : Advances workerID db (db.rewrite f) :=
  ⟨⟨f, rfl, h⟩, rfl⟩

theorem updateStatusFenced_advances {token : Int} :
    Advances workerID db (updateStatusFenced id workerID token .running
      [.starting, .running] db).2 := by
  refine Advances.of_rewrite fun k r => ?_
  dsimp only
  split
  · rename_i due
    simp only [Bool.and_eq_true, decide_eq_true_eq, List.mem_cons,
      List.not_mem_nil, or_false] at due
    obtain ⟨⟨-, here, starting | running⟩, -⟩ := due
    · exact .inr ⟨here, starting, rfl⟩
    · refine .inl ?_
      cases r with
      | mk columns seen =>
        cases columns
        cases running
        rfl
  · exact .inl rfl

end Rows

section Inventories
variable {workerID : WorkerID} {now : Int} {first : Bool} {inv : Inventory} {db db' : Database}
  {id : SandboxID} {r r' : SandboxRow}

def listedStatus (workerID : WorkerID) (inv : Inventory) (id : SandboxID)
    (r : SandboxRow) : Status :=
  if activeOn workerID r then
    if id ∈ inv.dead then .cleanupPending
    else if id ∈ inv.running ∧ r.status = .starting then .running
    else r.status
  else r.status

theorem reconciled_status (nodup : inv.ids.Nodup) (listed : id ∈ inv.ids) :
    (reconciled now workerID first inv db id r).status = listedStatus workerID inv id r := by
  have kept : lostRow workerID inv.ids db id r = false := by simp [lostRow, listed]
  have running : id ∈ inv.running → id ∉ inv.live := (Inventory.apart nodup).2
  unfold reconciled listedStatus
  simp only [kept, Bool.and_false, Bool.false_eq_true, if_false]
  split
  · split
    · rfl
    split
    · rename_i live
      have other : id ∉ inv.running := fun mem => running mem live
      simp [other]
    split
    · rename_i mem
      simp [mem]
    · rename_i other
      simp [other]
  · rfl

theorem Confirmed.listedStatus (h : Confirmed workerID r r')
    (listed : id ∈ inv.running ∨ id ∈ inv.dead) :
    listedStatus workerID inv id r' = listedStatus workerID inv id r := by
  obtain rfl | ⟨here, starting, rfl⟩ := h
  · rfl
  · by_cases dead : id ∈ inv.dead
    · simp [SandboxRepository.listedStatus, activeOn, here, starting, Status.active, dead]
    · simp [SandboxRepository.listedStatus, activeOn, here, starting, Status.active, dead,
        listed.resolve_right dead]

theorem reconciled_workerID :
    (reconciled now workerID first inv db id r).workerID = r.workerID := by
  by_cases claimed : claims workerID first inv db id r = true
  · rw [reconciled_of_claims claimed]
  · exact (reconciled_of_not_claims now (by simpa using claimed)).1

theorem Confirmed.ended (h : Confirmed workerID r r') :
    SandboxRepository.listedStatus workerID inv id r' ∈ Status.terminal ↔
      SandboxRepository.listedStatus workerID inv id r ∈ Status.terminal := by
  obtain rfl | ⟨here, starting, rfl⟩ := h
  · rfl
  · by_cases dead : id ∈ inv.dead <;> by_cases running : id ∈ inv.running <;>
      simp [SandboxRepository.listedStatus, activeOn, here, starting, Status.active, dead, running,
        Status.terminal]

theorem listedStatus_ne_starting (on : activeOn workerID r = true)
    (listed : id ∈ inv.running ∨ id ∈ inv.dead) :
    SandboxRepository.listedStatus workerID inv id r ≠ .starting := by
  unfold SandboxRepository.listedStatus
  simp only [on, if_true]
  split
  · nofun
  · rename_i alive
    split
    · nofun
    · rename_i settled
      exact fun starting => settled ⟨listed.resolve_right alive, starting⟩

variable (nodup : inv.ids.Nodup) (confirms : Confirms workerID db.sandboxes db'.sandboxes)
include nodup confirms

theorem dead_confirmed (now' : Int) (first' : Bool) :
    (reconcileInventory now workerID first inv db').1.dead =
    (reconcileInventory now' workerID first' inv db).1.dead := by
  obtain ⟨f, rows, confirmed⟩ := confirms
  rw [reconcileInventory_dead nodup, reconcileInventory_dead nodup, rows, Table.select_update]
  exact Table.select_congr fun id r _ => by rw [(confirmed id r).active]

theorem attributed_confirmed (now' : Int) (first' : Bool) (listed : id ∈ inv.ids) :
    attributed workerID (reconcileInventory now workerID first inv db').2 id =
      attributed workerID (reconcileInventory now' workerID first' inv db).2 id := by
  obtain ⟨f, confirmed, row⟩ := confirms.sandbox?
  rw [attributed, attributed, reconcileInventory_sandbox? nodup,
    reconcileInventory_sandbox? nodup, row]
  cases db.sandbox? id with
  | none => rfl
  | some r =>
    have ended : listedStatus workerID inv id (f id r) ∈ Status.terminal ↔
        listedStatus workerID inv id r ∈ Status.terminal := (confirmed id r).ended
    have here : (f id r).workerID = r.workerID := by
      obtain same | ⟨-, -, same⟩ := confirmed id r <;> rw [same]
    simp only [Option.map_some, Option.any_some, reconciled_workerID,
      reconciled_status nodup listed, ended, here]

theorem orphans_confirmed (now' : Int) (first' : Bool) :
    (reconcileInventory now workerID first inv db').1.orphans =
    (reconcileInventory now' workerID first' inv db).1.orphans := by
  rw [reconcileInventory_orphans, reconcileInventory_orphans]
  exact List.filter_congr fun id listed => congrArg (!·)
    (attributed_confirmed nodup confirms now' first' listed)

theorem status_confirmed (now' : Int) (first' : Bool) {db'' : Database}
    (after : Confirms workerID
      (reconcileInventory now workerID first inv db').2.sandboxes db''.sandboxes)
    (listed : id ∈ inv.running ∨ id ∈ inv.dead) :
    (db''.sandbox? id).map (fun r => r.status) =
      ((reconcileInventory now' workerID first' inv db).2.sandbox? id).map fun r => r.status := by
  have mem : id ∈ inv.ids := Inventory.mem_ids.2 (by tauto)
  obtain ⟨f, confirmed, row⟩ := confirms.sandbox?
  obtain ⟨g, confirmed', row'⟩ := after.sandbox?
  rw [row', reconcileInventory_sandbox? nodup, reconcileInventory_sandbox? nodup, row]
  cases db.sandbox? id with
  | none => rfl
  | some r =>
    have settled : g id (reconciled now workerID first inv db' id (f id r)) =
        reconciled now workerID first inv db' id (f id r) := by
      refine (confirmed' id _).settled fun on => ?_
      rw [reconciled_status nodup mem]
      refine listedStatus_ne_starting (by_contra fun idle => ?_) listed
      rw [reconciled_of_idle (by simpa using idle)] at on
      exact idle on
    simp only [Option.map_some, settled, reconciled_status nodup mem,
      (confirmed id r).listedStatus listed]

end Inventories
end Fire2.SandboxRepository

namespace Fire2.Orchestrator
open Interleaving EventGRPCServer SandboxRepository

/-- Events are taken in one after the other, each to its end; what comes of any
of them is the environment's. -/
inductive Ingested : List SandboxEventRequest → World → World → Prop
  | nil (s : World) : Ingested [] s s
  | cons {req : SandboxEventRequest} {reqs : List SandboxEventRequest} {es : List Env}
    {a : Except Err Unit}
      {s t u : World} (taken : (ingestSandboxEvent req).alone exec 0 es s = some (a, t))
      (rest : Ingested reqs t u) : Ingested (req :: reqs) s u

/-- What ReconcileInventory returns inside the transaction of a heartbeat that is
accepted. -/
def inventoryResult (now : Int) (w : Worker) (inv : Inventory) (db : Database) :
    Option ReconcileResult :=
  (Transactions.reconciled now w inv db).map Prod.fst

section Handlers
variable {workerID : WorkerID} {token : Int} {i : Nat} {e : Env} {s t : World} {now : Int}
  {w : Worker} {db : Database}

theorem eventCall_advances {c : Call} {r : c.Answer} (event : EventCall workerID token c)
    (ran : exec i c e s = some (r, t)) : Answered c r ∧ Advances workerID s.db t.db := by
  refine ⟨exec_answered ran, ?_⟩
  have eq : t = (answer c e s).2 := congrArg Prod.snd (exec_eq_some ran)
  have none : Advances workerID s.db s.db := .of_rows rfl rfl
  obtain same | done := answer_effect c e s
  · rw [eq, same]
    exact none
  rw [eq, done]
  cases c with
  | updateStatusFenced id w tok status allowedFrom =>
    obtain ⟨rfl, -, rfl, rfl⟩ := event
    exact updateStatusFenced_advances
  | createSandboxEvent ev =>
    refine .of_rows ?_ ?_ <;>
      simp only [effect, answer, statement, faulty, onDatabase, EventRepository.createSandboxEvent]
      <;> split <;> try split
    all_goals rfl
  | timeNow | newUUID => exact none
  | _ => exact event.elim

theorem Ingested.advances {reqs : List SandboxEventRequest} (h : Ingested reqs s t)
    (sender : ∀ req ∈ reqs, trimSpace req.workerID = workerID) : Advances workerID s.db t.db := by
  induction h with
  | nil s => exact .of_rows rfl rfl
  | @cons req reqs es a s t u taken rest ih =>
    have calls : Calls (ingestSandboxEvent req)
        (EventCall (trimSpace req.workerID) req.fencingToken) :=
      ingestSandboxEvent_calls
    rw [sender req (by simp)] at calls
    have first : Advances workerID s.db t.db :=
      calls.alone (R := fun s t => Advances workerID s.db t.db) (fun _ => .of_rows rfl rfl)
        (fun _ _ _ => .trans) (fun c e s r t => eventCall_advances) taken
    exact first.trans (ih fun req mem => sender req (List.mem_cons_of_mem _ mem))

theorem ask_alone {α : Type} {c : Call} {f : c.Answer → Job α} {es : List Env} {a : α}
    (h : (ask c >>= f).alone exec i es s = some (a, t)) : ∃ e rest r u,
      answer c e s = (r, u) ∧ (f r).alone exec i rest u = some (a, t) := by
  obtain ⟨e, rest, r, u, -, ran, after⟩ := Prog.alone_call h
  exact ⟨e, rest, r, u, (exec_eq_some ran).symm, after⟩

theorem update_sandboxes :
    (WorkerRepository.update now w db).2.sandboxes = db.sandboxes := by
  unfold WorkerRepository.update
  split
  · split <;> rfl
  · rfl

theorem reconcileHeartbeat_sandboxes {inv : Inventory} {db db' : Database}
    (h : Transactions.reconcileHeartbeat now w inv db = some db') : ∃ first db₂,
      db₂.sandboxes = db.sandboxes ∧
      db'.sandboxes = (reconcileInventory now w.id first inv db₂).2.sandboxes := by
  have rows : (WorkerRepository.update now w db).2.sandboxes = db.sandboxes := update_sandboxes
  unfold Transactions.reconcileHeartbeat Transactions.reconciled at h
  split at h
  · cases h
  · rename_i w' db₁ updated
    rw [updated] at rows
    obtain rfl := Option.some.inj h
    exact ⟨(WorkerRepository.claimInventory w.id w.fencingToken db₁).1,
      (WorkerRepository.claimInventory w.id w.fencingToken db₁).2, rows, rfl⟩

theorem accepted_inventory {req : WorkerHeartbeat} {es : List Env}
    (complete : req.inventoryComplete = true)
    (h : (reportWorkerHeartbeat req).alone exec i es s = some (.ok (), t)) :
    ∃ now first db, db.sandboxes = s.db.sandboxes ∧ t.db.sandboxes =
      (reconcileInventory now (trimSpace req.workerID) first (inventoryFromEntries req.sandboxes)
        db).2.sandboxes := by
  unfold reportWorkerHeartbeat at h
  split at h
  · cases h
  split at h
  · cases h
  obtain ⟨e, rest, clock, s₁, ran, h⟩ := ask_alone h
  obtain rfl : s = s₁ := congrArg Prod.snd ran
  dsimp only at h
  obtain ⟨e, rest, a, s₂, ran, h⟩ := ask_alone h
  match a with
  | .error err => cases h
  | .ok false =>
    obtain ⟨_, _, _, _, -, h⟩ := ask_alone h
    cases h
  | .ok true =>
    cases h
    simp only [answer, statement] at ran
    have committed := faulty_ok ran
    unfold reconcileStep at committed
    split at committed
    · rename_i db done
      cases committed
      obtain ⟨first, db₂, same, rows⟩ := reconcileHeartbeat_sandboxes done
      exact ⟨e.now, first, db₂, same, rows⟩
    · cases committed

theorem update_isSome (now : Int) : (WorkerRepository.update now w db).1.isSome =
    (db.worker? w.id).any fun r => r.fencingToken = w.fencingToken := by
  unfold WorkerRepository.update
  split
  · rename_i r row
    by_cases current : r.fencingToken = w.fencingToken <;> simp [row, current]
  · rename_i row
    simp [row]

theorem inventoryResult_eq (now : Int) (w : Worker) (inv : Inventory) (db : Database) : ∃ first db₂,
    db₂.sandboxes = db.sandboxes ∧ inventoryResult now w inv db =
      if (db.worker? w.id).any fun r => r.fencingToken = w.fencingToken then
        some (reconcileInventory now w.id first inv db₂).1 else none := by
  have rows : (WorkerRepository.update now w db).2.sandboxes = db.sandboxes := update_sandboxes
  rw [← update_isSome now]
  unfold inventoryResult Transactions.reconciled
  split
  · rename_i refused
    exact ⟨false, db, rfl, by rw [refused]; rfl⟩
  · rename_i w' db₁ updated
    rw [updated] at rows ⊢
    exact ⟨(WorkerRepository.claimInventory w.id w.fencingToken db₁).1,
      (WorkerRepository.claimInventory w.id w.fencingToken db₁).2, rows, rfl⟩

theorem inventoryResult_advances {now now' : Int} {w w' : Worker}
    {inv : Inventory} {db db' : Database} (nodup : inv.ids.Nodup)
    (same : w'.id = w.id ∧ w'.fencingToken = w.fencingToken) (advances : Advances w.id db db') :
    (inventoryResult now' w' inv db').map (fun res => (res.dead, res.orphans)) =
      (inventoryResult now w inv db).map fun res => (res.dead, res.orphans) := by
  have current : db'.worker? w.id = db.worker? w.id := by
    simp only [Database.worker?, advances.workers]
  obtain ⟨first₁, db₁, same₁, eq₁⟩ := inventoryResult_eq now' w' inv db'
  obtain ⟨first₂, db₂, same₂, eq₂⟩ := inventoryResult_eq now w inv db
  have confirms : Confirms w.id db₂.sandboxes db₁.sandboxes := by
    rw [same₁, same₂]
    exact advances.rows
  rw [eq₁, eq₂, same.1, same.2, current]
  split
  · simp only [Option.map_some, dead_confirmed nodup confirms now first₂,
      orphans_confirmed nodup confirms now first₂]
  · rfl

end Handlers

/-- Events make no difference to what an inventory makes of the sandboxes that it
lists as running or dead, wherever it is placed among them. -/
theorem events_converge {workerID : WorkerID} {before after : List SandboxEventRequest}
    {req : WorkerHeartbeat} {es es' : List Env} {s s₁ s₂ s₃ t : World}
    (complete : req.inventoryComplete = true) (sender : trimSpace req.workerID = workerID)
    (senders : ∀ ev ∈ before ++ after, trimSpace ev.workerID = workerID)
    (first : Ingested before s s₁)
    (accepted : (reportWorkerHeartbeat req).alone exec 0 es s₁ = some (.ok (), s₂))
    (last : Ingested after s₂ s₃)
    (only : (reportWorkerHeartbeat req).alone exec 0 es' s = some (.ok (), t)) :
    (∀ id, id ∈ (inventoryFromEntries req.sandboxes).running ∨
      id ∈ (inventoryFromEntries req.sandboxes).dead →
      (s₃.db.sandbox? id).map (fun r => r.status) = (t.db.sandbox? id).map fun r => r.status) ∧
    ∀ now now' clock clock',
      (inventoryResult now' (workerFromHeartbeat clock' req)
        (inventoryFromEntries req.sandboxes) s₁.db).map
          (fun res => (res.dead, res.orphans)) =
        (inventoryResult now (workerFromHeartbeat clock req)
          (inventoryFromEntries req.sandboxes) s.db).map fun res => (res.dead, res.orphans) := by
  have nodup := (inventoryFromEntries_classified req.sandboxes).nodup
  have advanced := first.advances fun ev mem => senders ev (List.mem_append_left _ mem)
  have followed := last.advances fun ev mem => senders ev (List.mem_append_right _ mem)
  refine ⟨fun id listed => ?_, fun now now' clock clock' => ?_⟩
  · obtain ⟨now₁, first₁, db₁, same₁, rows₁⟩ := accepted_inventory complete accepted
    obtain ⟨now₂, first₂, db₂, same₂, rows₂⟩ := accepted_inventory complete only
    rw [sender] at rows₁ rows₂
    have confirms : Confirms workerID db₂.sandboxes db₁.sandboxes := by
      rw [same₁, same₂]
      exact advanced.rows
    have after := followed.rows
    rw [rows₁] at after
    rw [status_confirmed nodup confirms now₂ first₂ after listed]
    simp only [Database.sandbox?, rows₂]
  · refine inventoryResult_advances nodup ⟨rfl, rfl⟩ ?_
    change Advances (trimSpace req.workerID) s.db s₁.db
    rw [sender]
    exact advanced

section Example

def unconfirmedRow : SandboxRow where
  runtime := "node"
  status := .starting
  ttl := 3600
  createdAt := 0
  port := 10000
  previewURL := ""
  image := "node:20-alpine"
  workerID := some "worker-1"
  vcpuCount := 1
  memSizeMib := 256
  userID := some "user-1"
  lastSeenAt := none

def unconfirmedWorker : WorkerRow :=
  WorkerRepository.registeredRow 0 1 0 (workerFromHeartbeat 0 firstHello)

def starting : World where
  db := ⟨⟨[(firstID, unconfirmedRow)], by simp⟩,
    ⟨[("worker-1", unconfirmedWorker)], by simp⟩, .empty, []⟩
  log := []

def runningEvent : SandboxEventRequest := ⟨"event-1", firstID, "worker-1", none, 1, .running⟩

def runningInventory : WorkerHeartbeat :=
  { firstHello with
    fencingToken := 1, inventoryComplete := true, sandboxes := [⟨firstID, .running⟩] }

theorem events_converge_running : ∃ s₁ s₂ s₃ t, Ingested [runningEvent] starting s₁ ∧
    (reportWorkerHeartbeat runningInventory).alone exec 0 [{}, {}] s₁ = some (.ok (), s₂) ∧
    Ingested [runningEvent] s₂ s₃ ∧
    (reportWorkerHeartbeat runningInventory).alone exec 0 [{}, {}] starting = some (.ok (), t) ∧
    (s₃.db.sandbox? firstID).map (fun r => r.status) = (t.db.sandbox? firstID).map
    fun r => r.status := by
  -- the worker reports the VM up before the inventory lists it, and again after
  have run : (((ingestSandboxEvent runningEvent).alone exec 0 [{}, {}, {}] starting).bind fun r₁ =>
      ((reportWorkerHeartbeat runningInventory).alone exec 0 [{}, {}] r₁.2).bind fun r₂ =>
      ((ingestSandboxEvent runningEvent).alone exec 0 [{}, {}, {}] r₂.2).bind fun _ =>
      ((reportWorkerHeartbeat runningInventory).alone exec 0 [{}, {}] starting).map fun r₄ =>
        (r₂.1.toOption, r₄.1.toOption)) = some (some (), some ()) := by
    decide +kernel
  simp only [Option.bind_eq_some_iff, Option.map_eq_some_iff, Prod.mk.injEq] at run
  obtain ⟨⟨a, s₁⟩, first, ⟨answer₂, s₂⟩, accepted, ⟨b, s₃⟩, last, ⟨answer₄, t⟩,
    only, ok₂, ok₄⟩ := run
  cases answer₂ with
  | error => cases ok₂
  | ok =>
  cases answer₄ with
  | error => cases ok₄
  | ok =>
  have before : Ingested [runningEvent] starting s₁ := .cons first (.nil s₁)
  have after : Ingested [runningEvent] s₂ s₃ := .cons last (.nil s₃)
  have sender : trimSpace runningInventory.workerID = "worker-1" := by decide
  refine ⟨s₁, s₂, s₃, t, before, accepted, after, only, ?_⟩
  exact (events_converge rfl sender (by decide) before accepted after only).1 firstID (by decide)

end Example
end Fire2.Orchestrator
