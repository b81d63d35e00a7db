import Fire2.Model

/-! `sandbox.PostgresRepository`. Each definition is one SQL statement on the
whole database; `assignWorker` is the transaction AssignWorker opens, and
`reconcileInventory` runs inside the heartbeat's. `now` is the transaction's
`now()`, `locked` tells the rows another transaction holds and SKIP LOCKED
passes over. Errors of the driver are added by the caller of a statement. -/

namespace Fire2

def Database.rewrite (db : Database) (f : SandboxID → SandboxRow → SandboxRow) : Database :=
  { db with sandboxes := db.sandboxes.update f }

@[simp] theorem Database.sandbox?_rewrite (db : Database) (f) (id : SandboxID) :
    (db.rewrite f).sandbox? id = (db.sandbox? id).map (f id) :=
  Table.get?_update ..

/-- `db'` differs from `db` only in sandbox rows, each related by `R` to the
row it replaces. -/
structure Moves (R : SandboxID → SandboxRow → SandboxRow → Prop) (db db' : Database) : Prop where
  kept : ∀ id r, db.sandbox? id = some r → ∃ r', db'.sandbox? id = some r' ∧ R id r r'
  absent : ∀ id, db.sandbox? id = none → db'.sandbox? id = none
  workers : db'.workers = db.workers
  events : db'.events = db.events
  jobs : db'.jobs = db.jobs

namespace Moves
variable {R S : SandboxID → SandboxRow → SandboxRow → Prop} {db db' db'' : Database}

theorem of_rewrite {f} (h : ∀ id r, db.sandbox? id = some r → R id r (f id r)) :
    Moves R db (db.rewrite f) where
  kept id r row := ⟨f id r, by rw [Database.sandbox?_rewrite, row]; rfl, h id r row⟩
  absent id row := by rw [Database.sandbox?_rewrite, row]; rfl
  workers := rfl
  events := rfl
  jobs := rfl

theorem refl (h : ∀ id r, R id r r) (db : Database) : Moves R db db :=
  ⟨fun id r row => ⟨r, row, h id r⟩, fun _ row => row, rfl, rfl, rfl⟩

theorem trans (h : ∀ id a b c, R id a b → R id b c → R id a c) (f : Moves R db db')
    (g : Moves R db' db'') : Moves R db db'' where
  kept id r row := by
    obtain ⟨r', row', first⟩ := f.kept id r row
    obtain ⟨r'', row'', second⟩ := g.kept id r' row'
    exact ⟨r'', row'', h id r r' r'' first second⟩
  absent id row := g.absent id (f.absent id row)
  workers := g.workers.trans f.workers
  events := g.events.trans f.events
  jobs := g.jobs.trans f.jobs

theorem mono (h : ∀ id r r', db.sandbox? id = some r → R id r r' → S id r r')
    (f : Moves R db db') : Moves S db db' where
  kept id r row := by
    obtain ⟨r', row', moved⟩ := f.kept id r row
    exact ⟨r', row', h id r r' row moved⟩
  absent := f.absent
  workers := f.workers
  events := f.events
  jobs := f.jobs

theorem before (f : Moves R db db') {id r'} (row' : db'.sandbox? id = some r') :
    ∃ r, db.sandbox? id = some r ∧ R id r r' := by
  cases row : db.sandbox? id with
  | none => rw [f.absent id row] at row'; cases row'
  | some r =>
    obtain ⟨s, found, moved⟩ := f.kept id r row
    rw [found] at row'
    cases row'
    exact ⟨r, rfl, moved⟩

end Moves

namespace SandboxRepository

def create (s : Sandbox) (db : Database) : Except Err Sandbox × Database :=
  match db.sandboxes.insert? s.id { s.toSandboxColumns with lastSeenAt := none } with
  | some t => (.ok s, { db with sandboxes := t })
  | none =>
    (.error (.database "duplicate key value violates unique constraint \"sandboxes_pkey\""), db)

def getByID (id : SandboxID) (db : Database) : Except Err Sandbox :=
  match db.sandbox? id with
  | some r => .ok (scanSandbox id r)
  | none => .error (.sentinel .sandboxNotFound)

def updateStatus (id : SandboxID) (status : Status) (allowedFrom : List Status) (db : Database) :
    Except Err (Option Sandbox) × Database :=
  -- an absent sandbox in the answer is `rowsAffected = 0`
  if allowedFrom = [] then
    (.error (.new "UpdateStatus: at least one allowedFrom status required"), db)
  else
    let db' := db.rewrite fun k r =>
      if k = id ∧ r.status ∈ allowedFrom then { r with status } else r
    match db.sandbox? id with
    | some r =>
      (.ok (if r.status ∈ allowedFrom then some (scanSandbox id { r with status }) else none), db')
    | none => (.ok none, db')

def updateStatusFenced (id : SandboxID) (workerID : WorkerID) (token : Int) (status : Status)
    (allowedFrom : List Status) (db : Database) : Except Err Nat × Database :=
  -- the answer is the number of rows the statement changed
  if allowedFrom = [] then
    (.error (.new "UpdateStatusFenced: at least one allowedFrom status required"), db)
  else
    let current := (db.worker? workerID).any fun w => w.fencingToken = token
    let due := fun k (r : SandboxRow) =>
      decide (k = id ∧ r.workerID = some workerID ∧ r.status ∈ allowedFrom) && current
    (.ok (db.sandboxes.count due), db.rewrite fun k r => if due k r then { r with status } else r)

def claimToCleanup (due : SandboxID → SandboxRow → Bool) (db : Database) :
    List SandboxID × Database :=
  -- move the rows a condition holds of to cleanup_pending and return their IDs
  (db.sandboxes.select due,
    db.rewrite fun id r => if due id r then { r with status := .cleanupPending } else r)

def ttlExpired (now : Int) (r : SandboxRow) : Bool :=
  r.status ∈ Status.claimable ∧
    r.createdAt + min (max r.ttl 0) 3153600000 * microsecondsPerSecond ≤ now

def claimTTLExpired (now : Int) (locked : SandboxID → Bool) (db : Database) :
    List SandboxID × Database :=
  claimToCleanup (fun id r => ttlExpired now r && !locked id) db

def lastSeen (r : SandboxRow) : Int := r.lastSeenAt.getD r.createdAt

def unlisted (livenessTimeout : Int) (r : SandboxRow) (w : WorkerRow) : Bool :=
  max (lastSeen r) w.registeredAt + makeInterval livenessTimeout < w.lastHeartbeat

def workerLost (now workerLostTimeout : Int) (w : WorkerRow) : Bool :=
  w.status = .inactive && w.inactiveSince.any fun t => t < now - makeInterval workerLostTimeout

def livenessExpired (now livenessTimeout workerLostTimeout : Int) (db : Database)
    (r : SandboxRow) : Bool :=
  match r.workerID.bind db.worker? with
  | some w => r.status ∈ Status.active &&
      (unlisted livenessTimeout r w || workerLost now workerLostTimeout w)
  | none => false

def claimLivenessExpired (now : Int) (locked : SandboxID → Bool)
    (livenessTimeout workerLostTimeout : Int) (db : Database) :
    Except Err (List SandboxID) × Database :=
  if workerLostTimeout ≤ 0 then
    (.error (.new "ClaimLivenessExpired: workerLostTimeout must be positive"), db)
  else
    let (ids, db) := claimToCleanup (fun id r =>
      livenessExpired now livenessTimeout workerLostTimeout db r && !locked id) db
    (.ok ids, db)

def stalledCreation (now timeout : Int) (r : SandboxRow) : Bool :=
  r.status ∈ [Status.pending, .scheduling] ∧ r.createdAt < now - makeInterval timeout

def claimStalledCreation (now : Int) (locked : SandboxID → Bool) (timeout : Int)
    (db : Database) : Except Err (List SandboxID) × Database :=
  if timeout ≤ 0 then
    (.error (.new "ClaimStalledCreation: timeout must be positive"), db)
  else
    let (ids, db) := claimToCleanup (fun id r => stalledCreation now timeout r && !locked id) db
    (.ok ids, db)

/-- A worker's complete heartbeat inventory, split by what each state asks of
the database. -/
structure Inventory where
  live : List SandboxID
  running : List SandboxID
  unknown : List SandboxID
  dead : List SandboxID
  deriving DecidableEq, Repr

def Inventory.ids (inv : Inventory) : List SandboxID :=
  inv.live ++ inv.running ++ inv.unknown ++ inv.dead

structure ReconcileResult where
  orphans : List SandboxID
  lost : List SandboxID
  dead : List SandboxID
  deriving DecidableEq, Repr

def activeOn (workerID : WorkerID) (r : SandboxRow) : Bool :=
  r.workerID = some workerID ∧ r.status ∈ Status.active

def claimLost (workerID : WorkerID) (ids : List SandboxID) (db : Database) :
    List SandboxID × Database :=
  -- active rows of the previous incarnation that its successor does not list
  claimToCleanup (fun id r => activeOn workerID r && id ∉ ids &&
    (db.worker? workerID).any fun w => lastSeen r < w.registeredAt) db

def refreshSeen (now : Int) (workerID : WorkerID) (ids : List SandboxID) (db : Database) :
    Database :=
  db.rewrite fun id r =>
    if activeOn workerID r ∧ id ∈ ids then { r with lastSeenAt := some now } else r

def confirmRunning (workerID : WorkerID) (ids : List SandboxID) (db : Database) : Database :=
  db.rewrite fun id r =>
    if r.workerID = some workerID ∧ id ∈ ids ∧ r.status = .starting then
      { r with status := .running }
    else r

def claimDead (workerID : WorkerID) (ids : List SandboxID) (db : Database) :
    List SandboxID × Database :=
  claimToCleanup (fun id r => activeOn workerID r && id ∈ ids) db

def orphans (workerID : WorkerID) (ids : List SandboxID) (db : Database) : List SandboxID :=
  ids.filter fun id => !(db.sandbox? id).any fun r =>
    r.workerID = some workerID ∧ r.status ∉ Status.terminal

def reconcileInventory (now : Int) (workerID : WorkerID) (firstInventory : Bool)
    (inv : Inventory) (db : Database) : ReconcileResult × Database :=
  let (lost, db) := if firstInventory then claimLost workerID inv.ids db else ([], db)
  if inv.ids = [] then (⟨[], lost, []⟩, db)
  else
    -- the source skips a statement whose list is empty; it would change no row
    let db := refreshSeen now workerID (inv.live ++ inv.running) db
    let db := confirmRunning workerID inv.running db
    let (dead, db) := claimDead workerID inv.dead db
    (⟨orphans workerID inv.ids db, lost, dead⟩, db)

def hostedOn (workerID : WorkerID) (r : SandboxRow) : Bool :=
  r.workerID = some workerID ∧ r.status ∈ Status.hosted

def hostedCount (workerID : WorkerID) (db : Database) : Nat :=
  db.sandboxes.count fun _ r => hostedOn workerID r

def assignWorker (now : Int) (id : SandboxID) (workerID : WorkerID) (db : Database) :
    Except Err (Option Sandbox) × Database :=
  -- the answer is absent when the status guard rejected the update
  match db.worker? workerID with
  | none => (.error (.new ("assign worker: worker " ++ workerID ++ " not found")), db)
  | some w =>
    match db.sandbox? id with
    | none => (.error (.sentinel .sandboxNotFound), db)
    | some r =>
      if r.status = .scheduling then
        if hostedCount workerID db < w.capacity then
          let r' := { r with
            workerID := some workerID, status := .assigned, lastSeenAt := some now }
          (.ok (some (scanSandbox id r')), db.rewrite fun k old => if k = id then r' else old)
        else (.error (.sentinel .workerFull), db)
      else (.ok none, db)

def clearWorker (id : SandboxID) (db : Database) : Database :=
  db.rewrite fun k r =>
    if k = id ∧ r.status = .cleanupPending then { r with workerID := none } else r

end SandboxRepository
end Fire2
