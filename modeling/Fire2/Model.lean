import Fire2.Binary64
import Fire2.Table

/-! The orchestrator's data: the sandboxes and worker tables, the recorded
events, the River jobs inserted so far, and the Go errors its functions return.

Times are microseconds (`timestamptz`), durations nanoseconds (`time.Duration`).
A job stays in `jobs` for ever: River may run an inserted job again after a
failure, a crash or a rescue, so attempts are never tied to a job being
removed. -/

namespace Fire2
open Binary64

abbrev SandboxID := String
abbrev WorkerID := String

def microsecondsPerSecond : Int := 1000000
def second : Int := 1000000000

/-- `time.Duration.Seconds`: the whole seconds and the rest, each a float64. -/
def seconds (d : Int) : ℚ :=
  nearest (nearest (d.tdiv second) + nearest (nearest (d.tmod second) / 1000000000))

/-- `make_interval(secs => d.Seconds())` in microseconds. -/
def makeInterval (d : Int) : Int := roundEven (nearest (seconds d * 1000000))

theorem makeInterval_nonneg {d : Int} (h : 0 ≤ d) : 0 ≤ makeInterval d := by
  have whole : (0 : ℚ) ≤ (d.tdiv second : Int) := by
    exact_mod_cast Int.tdiv_nonneg h (by decide)
  have rest : (0 : ℚ) ≤ (d.tmod second : Int) := by
    exact_mod_cast Int.tmod_nonneg _ h
  have parts : (0 : ℚ) ≤ nearest (nearest (d.tmod second) / 1000000000) :=
    nearest_nonneg (div_nonneg (nearest_nonneg rest) (by norm_num))
  have total : 0 ≤ seconds d := nearest_nonneg (add_nonneg (nearest_nonneg whole) parts)
  exact roundEven_nonneg (nearest_nonneg (mul_nonneg total (by norm_num)))

section Rounding
variable {d n : Int}

theorem seconds_error (nonneg : 0 ≤ d) (small : d ≤ 2 ^ 32 * second) :
    |seconds d * 1000000 - d / 1000| < 239 / 1000 := by
  have parts : second * (d / second) + d % second = d := Int.mul_ediv_add_emod d second
  unfold seconds
  rw [Int.tdiv_eq_ediv_of_nonneg nonneg, Int.tmod_eq_emod_of_nonneg nonneg]
  have restNonneg : 0 ≤ d % second := Int.emod_nonneg d (by decide)
  have restLess : d % second < second := Int.emod_lt_of_pos d (by decide)
  simp only [second] at parts small restNonneg restLess ⊢
  generalize d / 1000000000 = whole, d % 1000000000 = rest at parts restNonneg restLess ⊢
  rw [nearest_intCast (n := whole) (abs_lt.2 ⟨by omega, by omega⟩),
    nearest_intCast (n := rest) (abs_lt.2 ⟨by omega, by omega⟩)]
  have wholeNonneg : (0 : ℚ) ≤ whole := by exact_mod_cast (show 0 ≤ whole by omega)
  have sum : 1000000000 * (whole : ℚ) + rest = d := by exact_mod_cast parts
  have bound : (d : ℚ) ≤ 2 ^ 32 * 1000000000 := by exact_mod_cast small
  have low : (0 : ℚ) ≤ rest := by exact_mod_cast restNonneg
  have high : (rest : ℚ) ≤ 999999999 := by exact_mod_cast Int.le_of_lt_add_one restLess
  -- the fraction of a second, then the sum
  have fraction := abs_le.1 (nearest_error_le (q := rest / 1000000000) (k := 0) (by norm_num)
    (abs_le.2 ⟨by linarith, by linarith⟩))
  norm_num at fraction
  have top : whole + nearest (rest / 1000000000) ≤ 2 ^ 32 := by
    obtain ⟨rfl, rfl⟩ | less : whole = 2 ^ 32 ∧ rest = 0 ∨ whole ≤ 2 ^ 32 - 1 := by omega
    · norm_num [nearest, roundEven]
    · have less : (whole : ℚ) ≤ 2 ^ 32 - 1 := by exact_mod_cast less
      linarith
  generalize nearest (rest / 1000000000) = part at fraction top ⊢
  have total := abs_le.1 (nearest_error_le (q := whole + part) (k := 32) (by norm_num)
    (abs_le.2 ⟨by linarith, top⟩))
  norm_num at total
  rw [abs_lt]
  constructor <;> linarith

theorem interval_error (nonneg : 0 ≤ d) (small : d ≤ 2 ^ 32 * second) :
    |nearest (seconds d * 1000000) - d / 1000| < 1 / 2 := by
  have below : (0 : ℚ) ≤ d := by exact_mod_cast nonneg
  have above : (d : ℚ) ≤ 2 ^ 32 * 1000000000 := by exact_mod_cast small
  have near := abs_lt.1 (seconds_error nonneg small)
  have range : |seconds d * 1000000| ≤ 2 ^ 52 := by
    rw [abs_le]
    constructor <;> linarith
  have error := abs_le.1 (nearest_error_le (by norm_num) range)
  norm_num at error
  rw [abs_lt]
  constructor <;> linarith

theorem lt_of_makeInterval_lt (nonneg : 0 ≤ d) (small : d ≤ 2 ^ 32 * second)
    (h : makeInterval d < n) : d < n * 1000 := by
  have near := abs_lt.1 (interval_error nonneg small)
  have error := abs_le.1 (roundEven_error (nearest (seconds d * 1000000)))
  have next : (makeInterval d : ℚ) + 1 ≤ n := by exact_mod_cast h
  have less : (d : ℚ) < n * 1000 := by
    unfold makeInterval at next
    linarith
  exact_mod_cast less

theorem makeInterval_whole (nonneg : 0 ≤ n) (small : n * 1000 ≤ 2 ^ 32 * second) :
    makeInterval (n * 1000) = n := by
  have near := interval_error (by omega) small
  push_cast at near
  rw [mul_div_cancel_right₀ _ (by norm_num)] at near
  exact roundEven_eq near

end Rounding

/-- `unicode.IsSpace`. -/
def isSpace (c : Char) : Bool :=
  c.toNat ∈ [0x09, 0x0a, 0x0b, 0x0c, 0x0d, 0x20, 0x85, 0xa0, 0x1680, 0x2028, 0x2029, 0x202f,
    0x205f, 0x3000] || (0x2000 ≤ c.toNat && c.toNat ≤ 0x200a)

/-- `strings.TrimSpace`. -/
def trimSpace (s : String) : String :=
  String.ofList (((s.toList.dropWhile isSpace).reverse.dropWhile isSpace).reverse)

/-- The shape of `uuid.NewString`: 36 characters, hexadecimal digits and dashes. -/
def uuidShaped (s : String) : Bool :=
  s.toList.length = 36 && s.toList.all fun c => c ∈ "0123456789abcdef-".toList

theorem dropWhile_isSpace {l : List Char} (h : ∀ c ∈ l, isSpace c = false) :
    l.dropWhile isSpace = l := by
  cases l with
  | nil => rfl
  | cons c rest => simp [List.dropWhile, h c (by simp)]

theorem trimSpace_plain {s : String} (plain : ∀ c ∈ s.toList, isSpace c = false) :
    trimSpace s = s := by
  have back : ∀ c ∈ s.toList.reverse, isSpace c = false := by simpa using plain
  rw [trimSpace, dropWhile_isSpace plain, dropWhile_isSpace back, List.reverse_reverse,
    String.ofList_toList]

inductive Status where
  | pending | scheduling | assigned | starting | running
  | stopped | failed | cleanupPending | cleanedUp
  deriving DecidableEq, Repr

namespace Status

def text : Status → String
  | pending => "pending"
  | scheduling => "scheduling"
  | assigned => "assigned"
  | starting => "starting"
  | running => "running"
  | stopped => "stopped"
  | failed => "failed"
  | cleanupPending => "cleanup_pending"
  | cleanedUp => "cleaned_up"

/-- `status IN ('assigned', 'starting', 'running')`. -/
def active : List Status := [assigned, starting, running]

def claimable : List Status := [pending, scheduling, assigned, starting, running]

def hosted : List Status := [assigned, starting, running, cleanupPending]

/-- `status NOT IN ('failed', 'stopped', 'cleaned_up')`. -/
def terminal : List Status := [failed, stopped, cleanedUp]

end Status

/-- A text; the orchestrator only ever writes the two below. -/
structure WorkerStatus where
  text : String
  deriving DecidableEq, Repr

namespace WorkerStatus

def active : WorkerStatus := ⟨"active"⟩

def inactive : WorkerStatus := ⟨"inactive"⟩

@[simp] theorem active_ne_inactive : active ≠ inactive := by decide

@[simp] theorem inactive_ne_active : inactive ≠ active := by decide

end WorkerStatus

/-- The closed state vocabulary a worker reports. -/
inductive SandboxState where
  | unspecified | starting | running | paused | unknown | dead
  deriving DecidableEq, Repr

/-- Sentinel errors that callers test with `errors.Is`. -/
inductive Sentinel where
  | sandboxNotFound | workerFull | workerNotFound | fenced | workerUnknown | eventFenced
  | noWorkerCandidates | clusterFull
  | sandboxNotOnWorker | busy | atCapacity | serviceExited | invalidSandboxID | sandboxTooLarge
  deriving DecidableEq, Repr

def Sentinel.text : Sentinel → String
  | sandboxNotFound => "sandbox not found"
  | workerFull => "worker has no capacity left"
  | workerNotFound => "worker not found"
  | fenced => "worker fencing token is no longer current"
  | workerUnknown => "worker is unknown to the database"
  | eventFenced => "sandbox event rejected: worker unknown or fencing token stale"
  | noWorkerCandidates => "no worker candidates available"
  | clusterFull => "no worker capacity available"
  | sandboxNotOnWorker => "sandbox not found on worker"
  | busy => "sandbox is being removed"
  | atCapacity => "worker at full capacity"
  | serviceExited => "sandbox service exited"
  | invalidSandboxID => "invalid sandbox id"
  | sandboxTooLarge => "sandbox is larger than a worker slot"

inductive Code where
  | invalidArgument | notFound | failedPrecondition | resourceExhausted | unavailable
  | deadlineExceeded | internal | unknown
  deriving DecidableEq, Repr

/-- A Go error. `wrap` is `fmt.Errorf` with the wrapped error last, `tag` the
same with the wrapped error first, `database` and `rpc` are errors the driver
and gRPC return. -/
inductive Err where
  | new (text : String)
  | sentinel (s : Sentinel)
  | wrap (before : String) (e : Err)
  | tag (e : Err) (after : String)
  | jobCancel (e : Err)
  | database (text : String)
  | rpc (code : Code) (text : String)
  deriving DecidableEq, Repr

namespace Err

def text : Err → String
  | new t => t
  | sentinel s => s.text
  | wrap b e => b ++ ": " ++ e.text
  | tag e a => e.text ++ ": " ++ a
  | jobCancel e => "JobCancelError: " ++ e.text
  | database t => t
  | rpc _ t => t

/-- `errors.Is`. -/
def is (e : Err) (s : Sentinel) : Bool :=
  match e with
  | sentinel t => t = s
  | wrap _ e => e.is s
  | tag e _ => e.is s
  | jobCancel e => e.is s
  | _ => false

/-- The error is, or wraps, a `river.JobCancelError`. -/
def isCancel : Err → Bool
  | wrap _ e => e.isCancel
  | tag e _ => e.isCancel
  | jobCancel _ => true
  | _ => false

/-- `status.Code`: an error that is not a gRPC status has code Unknown. -/
def code : Err → Code
  | rpc c _ => c
  | _ => .unknown

end Err

structure SandboxColumns where
  runtime : String
  status : Status
  ttl : Int
  createdAt : Int
  port : Int
  previewURL : String
  image : String
  workerID : Option WorkerID
  vcpuCount : Int
  memSizeMib : Int
  userID : Option String
  deriving DecidableEq, Repr

/-- The Go struct, as `scanSandbox` fills it. -/
structure Sandbox extends SandboxColumns where
  id : SandboxID
  deriving DecidableEq, Repr

/-- A row of the sandboxes table; its id is the table's key. -/
structure SandboxRow extends SandboxColumns where
  lastSeenAt : Option Int
  deriving DecidableEq, Repr

def scanSandbox (id : SandboxID) (r : SandboxRow) : Sandbox :=
  { r.toSandboxColumns with id }

structure WorkerColumns where
  status : WorkerStatus
  address : String
  capacity : Int
  port : Int
  cpuBudget : Int
  memBudget : Int
  cpuUsage : Int
  memUsage : Int
  lastHeartbeat : Int
  fencingToken : Int
  deriving DecidableEq, Repr

/-- The Go struct; a port of 0 is one not reported yet. -/
structure Worker extends WorkerColumns where
  id : WorkerID
  deriving DecidableEq, Repr

structure WorkerRow extends WorkerColumns where
  inventoryToken : Int
  registeredAt : Int
  inactiveSince : Option Int
  deriving DecidableEq, Repr

def scanWorker (id : WorkerID) (r : WorkerRow) : Worker :=
  { r.toWorkerColumns with id }

/-- A row of sandbox_events; its id is the table's key. -/
structure EventRow where
  sandboxID : SandboxID
  workerID : WorkerID
  state : String
  occurredAt : Int
  deriving DecidableEq, Repr

/-- Arguments of an inserted River job. An absent target is the empty string
of `CleanupSandboxArgs`. -/
inductive JobArgs where
  | createSandbox (sandboxID : SandboxID)
  | cleanupSandbox (sandboxID : SandboxID) (targetStatus : Option Status)
  | removeOrphan (workerID : WorkerID) (sandboxID : SandboxID)
  deriving DecidableEq, Repr

structure Database where
  sandboxes : Table SandboxID SandboxRow
  workers : Table WorkerID WorkerRow
  events : Table String EventRow
  jobs : List JobArgs

namespace Database

def empty : Database := ⟨.empty, .empty, .empty, []⟩

def sandbox? (db : Database) (id : SandboxID) : Option SandboxRow := db.sandboxes.get? id
def worker? (db : Database) (id : WorkerID) : Option WorkerRow := db.workers.get? id

def insertJobs (db : Database) (js : List JobArgs) : Database :=
  { db with jobs := db.jobs ++ js }

end Database
end Fire2
