import Fire2.Interleaving
import Fire2.Scheduler

/-! What the orchestrator's programs ask of the outside: SQL statements and the
transactions the code opens, the clock, random draws, and the workers' gRPC
API. One call is one atomic step. The database may fail before a call takes
effect, or after it did without the caller learning it; a row that another
transaction holds may be passed over by a SKIP LOCKED claim. -/

namespace Fire2

/-- What a commit did, kept as history for statements about whole runs. A
heartbeat records the sandboxes that were active on its worker before it. -/
inductive Committed where
  | registered (worker : WorkerID) (token time : Int)
  | heartbeat (worker : WorkerID) (token time : Int)
      (inventory : Option SandboxRepository.Inventory) (active : List SandboxID)
  | swept (time : Int) (marked : List WorkerID)
  deriving DecidableEq, Repr

/-- The database and its history, latest commit first. -/
structure World where
  db : Database
  log : List Committed

inductive Fault where
  | none
  | fail (text : String)
  | lost (text : String)
  deriving DecidableEq, Repr

/-- The statement of a reaper pass an error comes from. -/
inductive ReapStage where
  | begin | ttl | liveness | stalled | enqueue | commit
  deriving DecidableEq, Repr

/-- Events of the create job that end the wait of the HTTP handler. -/
inductive JobEvent where
  | requestDone | closed | completed | cancelled (errors : List String) | discarded
  deriving DecidableEq, Repr

/-- Everything an execution may choose at one call. `now` is the transaction's
`now()`, `clock` the orchestrator's in nanoseconds. -/
structure Env where
  now : Int := 0
  clock : Int := 0
  fault : Fault := .none
  stage : ReapStage := .begin
  locked : SandboxID → Bool := fun _ => false
  rpc : Option (Code × String) := none
  ref : Nat := 0
  info : WorkerInfo := ⟨"active", 0, 0, 0⟩
  draw : ℚ := 0
  uuid : String := ""
  event : JobEvent := .requestDone

structure CreateSandboxRequest where
  id : SandboxID
  runtime : String
  image : String
  port : Int
  ttl : Int
  previewURL : String
  vcpuCount : Int
  memSizeMib : Int
  deriving DecidableEq, Repr

inductive Call where
  | getSandbox (id : SandboxID)
  | updateStatus (id : SandboxID) (status : Status) (allowedFrom : List Status)
  | updateStatusFenced (id : SandboxID) (workerID : WorkerID) (token : Int) (status : Status)
      (allowedFrom : List Status)
  | assignWorker (id : SandboxID) (workerID : WorkerID)
  | clearWorker (id : SandboxID)
  | createTx (s : Sandbox)
  | deleteTx (id : SandboxID)
  | cleanupTx (id : SandboxID)
  | reapTx (livenessTimeout workerLostTimeout createTimeout : Int)
  | listWorkers
  | getWorker (id : WorkerID)
  | register (w : Worker)
  | updateWorker (w : Worker)
  | whyRefused (id : WorkerID) (presented : Int)
  | reconcileTx (w : Worker) (inv : SandboxRepository.Inventory)
  | markStaleInactive (timeout : Int)
  | createSandboxEvent (e : SandboxEvent)
  | timeNow
  | newUUID
  | draw
  | newClient (address : String)
  | getWorkerInfo (workerID : WorkerID) (address : String)
  | sendCreate (workerID : WorkerID) (address : String) (req : CreateSandboxRequest)
  | sendRemove (workerID : WorkerID) (address : String) (id : SandboxID)
  | await (ref : Nat)
  | awaitJob

structure ReapResult where
  expired : List SandboxID
  dead : List SandboxID
  stalled : List SandboxID
  deriving DecidableEq, Repr

abbrev Call.Answer : Call → Type
  | getSandbox _ => Except Err Sandbox
  | updateStatus .. => Except Err (Option Sandbox)
  | updateStatusFenced .. => Except Err Nat
  | assignWorker .. => Except Err (Option Sandbox)
  | clearWorker _ => Except Err Unit
  | createTx _ => Except Err Unit
  | deleteTx _ => Except Err Bool
  | cleanupTx _ => Except Err Unit
  | reapTx .. => Except (ReapStage × Err) ReapResult
  | listWorkers => Except Err (List Worker)
  | getWorker _ => Except Err Worker
  | register _ => Except Err Worker
  | updateWorker _ => Except Err Bool
  | whyRefused .. => Err
  | reconcileTx .. => Except Err Bool
  | markStaleInactive _ => Except Err Nat
  | createSandboxEvent _ => Except Err SandboxEvent
  | timeNow => Int
  | newUUID => String
  | draw => ℚ
  | newClient _ => Except Err Unit
  | getWorkerInfo .. => Except Err WorkerInfo
  | sendCreate .. => Nat
  | sendRemove .. => Nat
  | await _ => Except Err Unit
  | awaitJob => JobEvent

namespace Transactions
open SandboxRepository

def create (s : Sandbox) (db : Database) : Except Err Unit × Database :=
  match SandboxRepository.create s db with
  | (.ok _, db') => (.ok (), db'.insertJobs [.createSandbox s.id])
  | (.error err, _) => (.error err, db)

def delete (id : SandboxID) (db : Database) : Except Err Bool × Database :=
  -- deleteSandbox's transaction; it is rolled back when no row was claimed
  match updateStatus id .cleanupPending Status.claimable db with
  | (.ok (some _), db') => (.ok true, db'.insertJobs [.cleanupSandbox id (some .stopped)])
  | (.ok none, _) => (.ok false, db)
  | (.error err, _) => (.error err, db)

def cleanup (id : SandboxID) (db : Database) : Except Err Unit × Database :=
  -- maybeCleanup's transaction; the job is inserted whatever the update changed
  match updateStatus id .cleanupPending Status.claimable db with
  | (.ok _, db') => (.ok (), db'.insertJobs [.cleanupSandbox id none])
  | (.error err, _) => (.error err, db)

def reap (now : Int) (locked : SandboxID → Bool)
    (livenessTimeout workerLostTimeout createTimeout : Int) (db : Database) :
    Except (ReapStage × Err) ReapResult × Database :=
  let (expired, db₁) := claimTTLExpired now locked db
  match claimLivenessExpired now locked livenessTimeout workerLostTimeout db₁ with
  | (.error err, _) => (.error (.liveness, err), db)
  | (.ok dead, db₂) =>
    match if 0 < createTimeout then claimStalledCreation now locked createTimeout db₂
        else (.ok [], db₂) with
    | (.error err, _) => (.error (.stalled, err), db)
    | (.ok stalled, db₃) =>
      (.ok ⟨expired, dead, stalled⟩, db₃.insertJobs
        (expired.map (.cleanupSandbox · (some .stopped)) ++
          dead.map (.cleanupSandbox · (some .failed)) ++
          stalled.map (.cleanupSandbox · (some .failed))))

/-- reconcileHeartbeat's transaction up to its jobs; `none` when the worker update
matched no row. -/
def reconciled (now : Int) (w : Worker) (inv : Inventory) (db : Database) :
    Option (ReconcileResult × Database) :=
  match WorkerRepository.update now w db with
  | (none, _) => none
  | (some _, db₁) =>
    let (first, db₂) := WorkerRepository.claimInventory w.id w.fencingToken db₁
    some (reconcileInventory now w.id first inv db₂)

def reconcileHeartbeat (now : Int) (w : Worker) (inv : Inventory) (db : Database) :
    Option Database :=
  (reconciled now w inv db).map fun (res, db₃) => db₃.insertJobs
    ((res.lost ++ res.dead).map (.cleanupSandbox · (some .failed)) ++
      res.orphans.map (.removeOrphan w.id))

end Transactions

def faulty {α ε : Type} (e : Env) (wrap : Err → ε) (run : World → Except ε α × World)
    (s : World) : Except ε α × World :=
  -- run a transaction that the database may let down
  match e.fault with
  | .none => run s
  | .fail text => (.error (wrap (.database text)), s)
  | .lost text => (.error (wrap (.database text)), (run s).2)

def statement {α : Type} (e : Env) (run : World → Except Err α × World) (s : World) :
    Except Err α × World :=
  faulty e (fun err => err) run s

def onDatabase {α : Type} (run : Database → α × Database) (s : World) : α × World :=
  ((run s.db).1, { s with db := (run s.db).2 })

def reading {α : Type} (read : Database → α) (s : World) : α × World := (read s.db, s)

def rpcAnswer {α : Type} (e : Env) (a : α) : Except Err α :=
  match e.rpc with
  | none => .ok a
  | some (code, text) => .error (.rpc code text)

def heartbeatEntry (now : Int) (w : Worker) (inv : Option SandboxRepository.Inventory)
    (db : Database) : Committed :=
  .heartbeat w.id w.fencingToken now inv
    (db.sandboxes.select fun _ r => SandboxRepository.activeOn w.id r)

def registerStep (now : Int) (w : Worker) (s : World) : Except Err Worker × World :=
  match WorkerRepository.register now w s.db with
  | (.ok registered, db) =>
    (.ok registered, ⟨db, .registered w.id registered.fencingToken now :: s.log⟩)
  | (.error err, _) => (.error err, s)

def updateWorkerStep (now : Int) (w : Worker) (s : World) : Except Err Bool × World :=
  match WorkerRepository.update now w s.db with
  | (some _, db) => (.ok true, ⟨db, heartbeatEntry now w none s.db :: s.log⟩)
  | (none, _) => (.ok false, s)

def reconcileStep (now : Int) (w : Worker) (inv : SandboxRepository.Inventory) (s : World) :
    Except Err Bool × World :=
  match Transactions.reconcileHeartbeat now w inv s.db with
  | some db => (.ok true, ⟨db, heartbeatEntry now w (some inv) s.db :: s.log⟩)
  | none => (.ok false, s)

def sweepStep (now timeout : Int) (s : World) : Except Err Nat × World :=
  let (marked, db) := WorkerRepository.markStaleInactive now timeout s.db
  (.ok marked.length, ⟨db, .swept now marked :: s.log⟩)

/-- The effect and the answer of a call. The workers' API is outside the
database: its answers are the environment's. -/
def answer (c : Call) (e : Env) (s : World) : c.Answer × World :=
  match c with
  | .getSandbox id => statement e (reading (SandboxRepository.getByID id)) s
  | .updateStatus id status allowedFrom =>
    statement e (onDatabase (SandboxRepository.updateStatus id status allowedFrom)) s
  | .updateStatusFenced id workerID token status allowedFrom =>
    statement e
      (onDatabase (SandboxRepository.updateStatusFenced id workerID token status allowedFrom)) s
  | .assignWorker id workerID =>
    statement e (onDatabase (SandboxRepository.assignWorker e.now id workerID)) s
  | .clearWorker id =>
    statement e (onDatabase fun db => (.ok (), SandboxRepository.clearWorker id db)) s
  | .createTx sbx => statement e (onDatabase (Transactions.create sbx)) s
  | .deleteTx id => statement e (onDatabase (Transactions.delete id)) s
  | .cleanupTx id => statement e (onDatabase (Transactions.cleanup id)) s
  | .reapTx livenessTimeout workerLostTimeout createTimeout =>
    faulty e (fun err => (e.stage, err)) (onDatabase
      (Transactions.reap e.now e.locked livenessTimeout workerLostTimeout createTimeout)) s
  | .listWorkers => statement e (reading fun db => .ok (WorkerRepository.list db)) s
  | .getWorker id => statement e (reading (WorkerRepository.get id)) s
  | .register w => statement e (registerStep e.now w) s
  | .updateWorker w => statement e (updateWorkerStep e.now w) s
  | .whyRefused id presented =>
    match e.fault with
    | .none => (WorkerRepository.whyRefused id presented s.db, s)
    | .fail text | .lost text => (.database text, s)
  | .reconcileTx w inv => statement e (reconcileStep e.now w inv) s
  | .markStaleInactive timeout => statement e (sweepStep e.now timeout) s
  | .createSandboxEvent ev => statement e (onDatabase (EventRepository.createSandboxEvent ev)) s
  | .timeNow => (e.clock, s)
  | .newUUID => (e.uuid, s)
  | .draw => (e.draw, s)
  | .newClient _ => (rpcAnswer e (), s)
  | .getWorkerInfo .. => (rpcAnswer e e.info, s)
  | .sendCreate .. => (e.ref, s)
  | .sendRemove .. => (e.ref, s)
  | .await _ => (rpcAnswer e (), s)
  | .awaitJob => (e.event, s)

def Env.possible (e : Env) : Call → Bool
  -- what the generators can produce
  | .newUUID => uuidShaped e.uuid
  | .draw => 0 ≤ e.draw ∧ e.draw < 1
  | _ => true

def exec : Interleaving.Exec Call Env World Call.Answer := fun _ c e s =>
  if e.possible c then some (answer c e s) else none

theorem exec_eq_some {i c e s r} (h : exec i c e s = some r) : r = answer c e s := by
  unfold exec at h
  split at h
  · exact (Option.some.inj h).symm
  · cases h

def Plain {α : Type} (r : Except Err α) : Prop := ∀ err, r = .error err → err.isCancel = false

/-- What holds of every answer: one about a sandbox is about the one that was
asked for, and errors are not cancellations. -/
def Answered : (c : Call) → c.Answer → Prop
  | .getSandbox id => fun r => (∀ sbx, r = .ok sbx → sbx.id = id) ∧ Plain r
  | .assignWorker id _ => fun r => (∀ sbx, r = .ok (some sbx) → sbx.id = id) ∧ Plain r
  | .updateStatus .. | .listWorkers | .getWorker _ | .newClient _ | .getWorkerInfo .. | .await _ =>
    fun r => Plain r
  | _ => fun _ => True

theorem faulty_ok {α ε : Type} {e : Env} {wrap : Err → ε} {run : World → Except ε α × World}
    {s t : World} {a : α} (h : faulty e wrap run s = (.ok a, t)) : run s = (.ok a, t) := by
  unfold faulty at h
  split at h
  · exact h
  · cases h
  · cases h

theorem statement_plain {α : Type} {e : Env} {run : World → Except Err α × World} {s : World}
    (h : Plain (run s).1) : Plain (statement e run s).1 := by
  unfold statement faulty
  split
  · exact h
  · rintro _ ⟨⟩
    rfl
  · rintro _ ⟨⟩
    rfl

theorem rpcAnswer_plain {α : Type} {e : Env} {a : α} : Plain (rpcAnswer e a) := by
  unfold rpcAnswer
  split
  · nofun
  · rintro _ ⟨⟩
    rfl

theorem getByID_plain {id : SandboxID} {db : Database} :
    Plain (SandboxRepository.getByID id db) := by
  unfold SandboxRepository.getByID
  split
  · nofun
  · rintro _ ⟨⟩
    rfl

theorem updateStatus_plain {id : SandboxID} {status : Status} {allowedFrom : List Status}
    {db : Database} : Plain (SandboxRepository.updateStatus id status allowedFrom db).1 := by
  unfold SandboxRepository.updateStatus
  split
  · rintro _ ⟨⟩
    rfl
  · dsimp only
    split <;> nofun

theorem assignWorker_plain {now : Int} {id : SandboxID} {workerID : WorkerID} {db : Database} :
    Plain (SandboxRepository.assignWorker now id workerID db).1 := by
  unfold SandboxRepository.assignWorker
  split
  · rintro _ ⟨⟩
    rfl
  split
  · rintro _ ⟨⟩
    rfl
  split
  · split
    · nofun
    · rintro _ ⟨⟩
      rfl
  · nofun

theorem assignWorker_ok {now : Int} {id : SandboxID} {workerID : WorkerID} {db db' : Database}
    {sbx : Sandbox} (h : SandboxRepository.assignWorker now id workerID db =
      (.ok (some sbx), db')) :
    ∃ r, db'.sandbox? id = some r ∧ sbx = scanSandbox id r := by
  unfold SandboxRepository.assignWorker at h
  split at h
  · cases h
  split at h
  · cases h
  rename_i r row
  split at h
  · split at h <;> cases h
    exact ⟨_, by simp [row], rfl⟩
  · cases h

theorem workerGet_plain {id : WorkerID} {db : Database} : Plain (WorkerRepository.get id db) := by
  unfold WorkerRepository.get
  split
  · nofun
  · rintro _ ⟨⟩
    rfl

theorem getByID_ok {db : Database} {id : SandboxID} {sbx : Sandbox}
    (h : SandboxRepository.getByID id db = .ok sbx) :
    ∃ r, db.sandbox? id = some r ∧ sbx = scanSandbox id r := by
  unfold SandboxRepository.getByID at h
  split at h
  · rename_i r row
    exact ⟨r, row, (Except.ok.inj h).symm⟩
  · cases h

theorem getSandbox_ok {e : Env} {s t : World} {id : SandboxID} {sbx : Sandbox}
    (h : answer (.getSandbox id) e s = (.ok sbx, t)) :
    t = s ∧ ∃ r, s.db.sandbox? id = some r ∧ sbx = scanSandbox id r := by
  simp only [answer, statement] at h
  have read := faulty_ok h
  simp only [reading, Prod.mk.injEq] at read
  exact ⟨read.2.symm, getByID_ok read.1⟩

theorem assignWorker_row {e : Env} {s t : World} {id : SandboxID}
    {workerID : WorkerID} {sbx : Sandbox}
    (h : answer (.assignWorker id workerID) e s = (.ok (some sbx), t)) :
    ∃ r, t.db.sandbox? id = some r ∧ sbx = scanSandbox id r := by
  simp only [answer, statement] at h
  have ran := faulty_ok h
  simp only [onDatabase, Prod.mk.injEq] at ran
  obtain ⟨done, rfl⟩ := ran
  exact assignWorker_ok (Prod.ext done rfl)

theorem answer_answered (c : Call) (e : Env) (s : World) : Answered c (answer c e s).1 := by
  cases c with
  | getSandbox id =>
    refine ⟨fun sbx found => ?_, statement_plain getByID_plain⟩
    obtain ⟨-, r, -, rfl⟩ := getSandbox_ok (Prod.ext found rfl)
    rfl
  | assignWorker id w =>
    refine ⟨fun sbx found => ?_, statement_plain assignWorker_plain⟩
    obtain ⟨r, -, rfl⟩ := assignWorker_row (Prod.ext found rfl)
    rfl
  | updateStatus id status allowedFrom => exact statement_plain updateStatus_plain
  | listWorkers => exact statement_plain nofun
  | getWorker id => exact statement_plain workerGet_plain
  | newClient address => exact rpcAnswer_plain
  | getWorkerInfo w address => exact rpcAnswer_plain
  | await ref => exact rpcAnswer_plain
  | _ => trivial

theorem exec_answered {i c e s r t} (h : exec i c e s = some (r, t)) : Answered c r := by
  have eq := exec_eq_some h
  rw [show r = (answer c e s).1 from congrArg Prod.fst eq]
  exact answer_answered c e s

abbrev Job := Interleaving.Prog Call Call.Answer

end Fire2
