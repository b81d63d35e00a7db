import Mathlib.Algebra.Group.Int.Defs
import Mathlib.Data.List.Sort
import Fire2.SandboxRepository

/-! `worker.PostgresRepository` and the event repository: registration, the
fenced heartbeat update, the claim of a first inventory, the staleness sweep
and the fenced event insert. -/

namespace Fire2

def Database.rewriteWorkers (db : Database) (f : WorkerID → WorkerRow → WorkerRow) : Database :=
  { db with workers := db.workers.update f }

@[simp] theorem Database.worker?_rewriteWorkers (db : Database) (f) (id : WorkerID) :
    (db.rewriteWorkers f).worker? id = (db.worker? id).map (f id) :=
  Table.get?_update ..

@[simp] theorem Database.sandbox?_rewriteWorkers (db : Database) (f) (id : SandboxID) :
    (db.rewriteWorkers f).sandbox? id = db.sandbox? id := rfl

@[simp] theorem Database.worker?_rewrite (db : Database) (f) (id : WorkerID) :
    (db.rewrite f).worker? id = db.worker? id := rfl

namespace WorkerRepository

def defaultHeartbeatTimeout : Int := 15 * second

def nullablePort (port : Int) : Int := if port ≤ 0 then 0 else port

def maxBigint : Int := 2 ^ 63 - 1

def nextToken (w : Worker) (db : Database) : Int :=
  -- token the next registration of the worker is given
  match db.worker? w.id with
  | some r => max r.fencingToken w.fencingToken + 1
  | none => max w.fencingToken 0 + 1

def registeredRow (now token inventoryToken : Int) (w : Worker) : WorkerRow :=
  { w.toWorkerColumns with
    port := nullablePort w.port
    lastHeartbeat := now
    fencingToken := token
    inventoryToken
    registeredAt := now
    inactiveSince := none }

def register (now : Int) (w : Worker) (db : Database) : Except Err Worker × Database :=
  let token := nextToken w db
  let row := registeredRow now token 0 w
  if maxBigint < token then (.error (.database "bigint out of range"), db)
  else
    match db.workers.insert? w.id row with
    | some t => (.ok (scanWorker w.id row), { db with workers := t })
    | none =>
      (.ok (scanWorker w.id row), db.rewriteWorkers fun k r =>
        if k = w.id then registeredRow now token r.inventoryToken w else r)

def claimInventory (id : WorkerID) (token : Int) (db : Database) : Bool × Database :=
  -- the answer tells whether this was the first inventory of the token
  let due := fun k (r : WorkerRow) =>
    decide (k = id ∧ r.fencingToken = token ∧ r.inventoryToken ≠ token)
  (decide (0 < db.workers.count due),
    db.rewriteWorkers fun k r => if due k r then { r with inventoryToken := token } else r)

def get (id : WorkerID) (db : Database) : Except Err Worker :=
  match db.worker? id with
  | some r => .ok (scanWorker id r)
  | none => .error (.sentinel .workerNotFound)

def heartbeatRow (now : Int) (w : Worker) (r : WorkerRow) : WorkerRow :=
  { w.toWorkerColumns with
    port := nullablePort w.port
    lastHeartbeat := now
    fencingToken := r.fencingToken
    inventoryToken := r.inventoryToken
    registeredAt := r.registeredAt
    inactiveSince := none }

/-- The guarded statement of Update. An absent answer is a row it did not
match, which `whyRefused` explains with a second read. -/
def update (now : Int) (w : Worker) (db : Database) : Option Worker × Database :=
  match db.worker? w.id with
  | some r =>
    if r.fencingToken = w.fencingToken then
      (some (scanWorker w.id (heartbeatRow now w r)),
        db.rewriteWorkers fun k r => if k = w.id then heartbeatRow now w r else r)
    else (none, db)
  | none => (none, db)

def whyRefused (id : WorkerID) (presented : Int) (db : Database) : Err :=
  match db.worker? id with
  | none => .sentinel .workerUnknown
  | some r => if r.fencingToken < presented then .sentinel .workerUnknown else .sentinel .fenced

def sweepTimeout (timeout : Int) : Int := if timeout ≤ 0 then defaultHeartbeatTimeout else timeout

def stale (now timeout : Int) (r : WorkerRow) : Bool :=
  r.status = .active ∧ r.lastHeartbeat < now - makeInterval (sweepTimeout timeout)

def markStaleInactive (now timeout : Int) (db : Database) : List WorkerID × Database :=
  -- the workers the sweep marks; their number is what the statement returns
  (db.workers.select fun _ r => stale now timeout r,
    db.rewriteWorkers fun _ r =>
      if stale now timeout r then { r with status := .inactive, inactiveSince := some now } else r)

def list (db : Database) : List Worker :=
  (db.workers.rows.map fun p => scanWorker p.1 p.2).insertionSort fun v w => v.id ≤ w.id

end WorkerRepository

structure SandboxEvent where
  id : String
  sandboxID : SandboxID
  workerID : WorkerID
  state : String
  occurredAt : Int
  fencingToken : Int
  deriving DecidableEq, Repr

namespace EventRepository

def createSandboxEvent (e : SandboxEvent) (db : Database) : Except Err SandboxEvent × Database :=
  if (db.worker? e.workerID).any fun w => w.fencingToken = e.fencingToken then
    match db.events.insert? e.id ⟨e.sandboxID, e.workerID, e.state, e.occurredAt⟩ with
    | some t => (.ok { e with fencingToken := 0 }, { db with events := t })
    | none =>
      (.error (.database "duplicate key value violates unique constraint \"sandbox_events_pkey\""),
        db)
  else (.error (.sentinel .eventFenced), db)

end EventRepository
end Fire2
