import Mathlib.Data.List.DropRight
import Mathlib.Data.Int.Order.Basic
import Mathlib.Tactic.Linarith

/-! The heartbeat loop of a worker and its streak of refusals.

Times are nanoseconds, durations too (`time.Duration`); a duration and a counter are
an `int` of 64 bits. What a heartbeat came to and what the clock said after it are
the environment's. -/

namespace Fire2.Heartbeat

def wrap (n : Int) : Int := n.bmod (2 ^ 64)

def maxDuration : Int := 2 ^ 63 - 1
def minDuration : Int := -2 ^ 63

def second : Int := 1000000000
def minute : Int := 60 * second

def defaultHeartbeatInterval : Int := 5 * second
def heartbeatRefusedBackoffMax : Int := minute
def heartbeatRefusedLogEvery : Int := 5 * minute
def heartbeatRefusedGiveUp : Int := 10 * minute

/-- `Time.Sub`, which stops at the longest duration. -/
def sub (t u : Int) : Int := max minDuration (min maxDuration (t - u))

/-- `Duration.Round(time.Second)` -/
def roundSecond (d : Int) : Int :=
  let r := d.tmod second
  if d < 0 then
    if 2 * -r < second then wrap (d + -r)
    else
      let d' := wrap (d - second + -r)
      if d' < d then d' else minDuration
  else if 2 * r < second then wrap (d - r)
  else
    let d' := wrap (d + second - r)
    if d < d' then d' else maxDuration

inductive Code where
  | ok | canceled | unknown | invalidArgument | deadlineExceeded | notFound
    | alreadyExists | permissionDenied
  | resourceExhausted | failedPrecondition | aborted | outOfRange | unimplemented
    | internal | unavailable
  | dataLoss | unauthenticated
  deriving DecidableEq, Repr

def Code.text : Code → String
  | ok => "OK"
  | canceled => "Canceled"
  | unknown => "Unknown"
  | invalidArgument => "InvalidArgument"
  | deadlineExceeded => "DeadlineExceeded"
  | notFound => "NotFound"
  | alreadyExists => "AlreadyExists"
  | permissionDenied => "PermissionDenied"
  | resourceExhausted => "ResourceExhausted"
  | failedPrecondition => "FailedPrecondition"
  | aborted => "Aborted"
  | outOfRange => "OutOfRange"
  | unimplemented => "Unimplemented"
  | internal => "Internal"
  | unavailable => "Unavailable"
  | dataLoss => "DataLoss"
  | unauthenticated => "Unauthenticated"

/-- The errors of heartbeats, and `status.FromError` of package grpc: the code and
the message of the status an error is or wraps. -/
class Failures (ε : Type) where
  fromError : ε → Option (Code × String)

section Source
variable {ε : Type} [Failures ε]

def refusedForGood : Option ε → Option (Code × String)
  -- of no error the status is OK
  | none => none
  | some err =>
    match Failures.fromError err with
    | none => none
    | some st =>
      if st.1 ∈ [Code.invalidArgument, .unimplemented, .permissionDenied,
        .unauthenticated] then some st
      else none

structure Refusals where
  count : Int := 0
  since : Int := 0
  lastLog : Int := 0
  deriving DecidableEq, Repr

def Refusals.record (r : Refusals) (now : Int) : Refusals × Bool × Bool :=
  -- what is left of the streak, whether to log it, and whether to give up
  let since := if r.count = 0 then now else r.since
  let count := wrap (r.count + 1)
  let logIt : Bool := count = 1 || heartbeatRefusedLogEvery ≤ sub now r.lastLog
  (⟨count, since, if logIt then now else r.lastLog⟩, logIt, heartbeatRefusedGiveUp ≤ sub now since)

def doubled : Nat → Int → Int
  | 0, d => d
  | n + 1, d => if d < heartbeatRefusedBackoffMax then doubled n (wrap (d * 2)) else d

def Refusals.wait (r : Refusals) (interval : Int) : Int :=
  max (min (doubled r.count.toNat interval) heartbeatRefusedBackoffMax) interval

inductive Log (ε : Type) where
  | refused (code : Code) (reason : String) (refusedFor nextAttemptIn : Int)
  | failed (err : ε)
  | acceptedAgain (refusedFor : Int)
  deriving DecidableEq, Repr

structure Outcome (ε : Type) where
  err : Option ε
  now : Int
  deriving DecidableEq, Repr

/-- ErrHeartbeatRefused, for how long and with what message. -/
structure Refused where
  refusedFor : Int
  message : String
  deriving DecidableEq, Repr

/-- One round of the loop: it returns, or it waits for the next one. -/
inductive Turn (ε : Type) where
  | giveUp (err : Refused)
  | again (streak : Refusals) (logs : List (Log ε)) (wait : Int)
  deriving DecidableEq, Repr

def beat (interval : Int) (streak : Refusals) (x : Outcome ε) : Turn ε :=
  match refusedForGood x.err with
  | some st =>
    let (streak, logIt, giveUp) := streak.record x.now
    let refusedFor := roundSecond (sub x.now streak.since)
    if giveUp then .giveUp ⟨refusedFor, st.2⟩
    else .again streak (if logIt then [.refused st.1 st.2 refusedFor (streak.wait interval)]
      else []) (streak.wait interval)
  | none =>
    match x.err with
    | some err => .again streak [.failed err] (streak.wait interval)
    | none =>
      .again {} (if 0 < streak.count then [.acceptedAgain (roundSecond (sub x.now streak.since))]
        else []) (Refusals.wait {} interval)

/-- The waits between the heartbeats, and what was returned: none if the context
ended first. -/
structure Ran where
  waits : List Int
  refused : Option Refused
  deriving DecidableEq, Repr

def beats (interval : Int) : Refusals → List (Outcome ε) → Ran
  | _, [] => ⟨[], none⟩
  | streak, x :: xs =>
    match beat interval streak x with
    | .giveUp err => ⟨[], some err⟩
    | .again streak _ wait =>
      let rest := beats interval streak xs
      ⟨wait :: rest.waits, rest.refused⟩

def runHeartbeat (interval : Int) (xs : List (Outcome ε)) : Ran :=
  beats (if interval ≤ 0 then defaultHeartbeatInterval else interval) {} xs

/-! What the loop is for. -/

def Outcome.accepted (x : Outcome ε) : Bool := x.err.isNone

def Outcome.refused (x : Outcome ε) : Bool := (refusedForGood x.err).isSome

def streakOf (xs : List (Outcome ε)) : List (Outcome ε) :=
  (xs.rtakeWhile fun x => !x.accepted).filter Outcome.refused

/-- After these outcomes, this one is a refusal, long enough after the first of its
streak. -/
def Due (before : List (Outcome ε)) (x : Outcome ε) : Prop :=
  x.refused = true ∧ ∃ first, (streakOf (before ++ [x])).head? = some first ∧
    heartbeatRefusedGiveUp ≤ x.now - first.now

def backoff (interval : Int) (k : Nat) : Int :=
  max interval (min (interval * 2 ^ k) heartbeatRefusedBackoffMax)

section Streaks
variable {before : List (Outcome ε)} {x : Outcome ε}

theorem not_accepted_of_refused (h : x.refused = true) : x.accepted = false := by
  obtain ⟨err, now⟩ := x
  cases err with
  | none => cases h
  | some err => rfl

theorem streakOf_accepted (h : x.accepted = true) : streakOf (before ++ [x]) = [] := by
  rw [streakOf, List.rtakeWhile_concat_neg _ _ _ (by simp [h])]
  rfl

theorem streakOf_refused (h : x.refused = true) :
    streakOf (before ++ [x]) = streakOf before ++ [x] := by
  rw [streakOf, List.rtakeWhile_concat_pos _ _ _ (by simp [not_accepted_of_refused h]),
    List.filter_append, List.filter_singleton, h, cond_true, streakOf]

theorem streakOf_other (failed : x.accepted = false) (h : x.refused = false) :
    streakOf (before ++ [x]) = streakOf before := by
  rw [streakOf, List.rtakeWhile_concat_pos _ _ _ (by simp [failed]), List.filter_append,
    List.filter_singleton, h, cond_false, List.append_nil, streakOf]

theorem length_streakOf_le (xs : List (Outcome ε)) : (streakOf xs).length ≤ xs.length :=
  (List.filter_sublist.trans (List.rtakeWhile_suffix _ _).sublist).length_le

end Streaks
section Loop
variable {interval d now : Int} {r : Refusals} {before xs : List (Outcome ε)} {x : Outcome ε}
  {n k : Nat}

theorem wrap_eq_self (low : -2 ^ 63 ≤ d) (high : d < 2 ^ 63) : wrap d = d := by
  rw [wrap, Int.bmod_def]
  omega

theorem giveUp_le_sub {t u : Int} :
    heartbeatRefusedGiveUp ≤ sub t u ↔ heartbeatRefusedGiveUp ≤ t - u := by
  simp only [heartbeatRefusedGiveUp, sub, minDuration, maxDuration, minute, second]
  omega

theorem min_doubled (pos : 0 < d) :
    min (doubled n d) heartbeatRefusedBackoffMax = min (d * 2 ^ n) heartbeatRefusedBackoffMax := by
  induction n generalizing d with
  | zero => rw [doubled, pow_zero, mul_one]
  | succ n ih =>
    rw [doubled]
    split
    · rename_i small
      have exact_ : wrap (d * 2) = d * 2 := by
        simp only [heartbeatRefusedBackoffMax, minute, second] at small
        exact wrap_eq_self (by omega) (by omega)
      rw [exact_, ih (by omega), pow_succ', mul_assoc]
    · rename_i large
      have more : d * 1 ≤ d * 2 ^ (n + 1) := Int.mul_le_mul_of_nonneg_left
        (one_le_pow₀ (by decide)) pos.le
      omega

theorem wait_eq (pos : 0 < interval) (count : r.count = k) :
    r.wait interval = backoff interval k := by
  rw [Refusals.wait, count, Int.toNat_natCast, min_doubled pos, backoff, max_comm]

/-- The streak is what the outcomes so far make it. -/
structure Follows (before : List (Outcome ε)) (r : Refusals) : Prop where
  count : r.count = (streakOf before).length
  since : ∀ first, (streakOf before).head? = some first → r.since = first.now

theorem Follows.recorded (h : Follows before r) (refused : x.refused = true)
    (few : (streakOf (before ++ [x])).length < 2 ^ 63) :
    Follows (before ++ [x]) (r.record x.now).1 ∧ ((r.record x.now).2.2 = true ↔ Due before x) := by
  have streak : streakOf (before ++ [x]) = streakOf before ++ [x] := streakOf_refused refused
  have since : ∀ first, (streakOf (before ++ [x])).head? = some first →
      (if r.count = 0 then x.now else r.since) = first.now := by
    intro first found
    rw [streak] at found
    rw [h.count]
    cases old : streakOf before with
    | nil =>
      rw [old] at found
      cases found
      rfl
    | cons y ys =>
      rw [old] at found
      rw [if_neg (by rw [List.length_cons]; omega), h.since first (by rw [old]; exact found)]
  refine ⟨⟨?_, since⟩, ?_⟩
  · rw [streak, List.length_append, List.length_singleton] at few ⊢
    have next : (r.record x.now).1.count = wrap (r.count + 1) := rfl
    rw [next, h.count, wrap_eq_self (by omega) (by omega), Nat.cast_add, Nat.cast_one]
  · obtain ⟨first, found⟩ : ∃ first, (streakOf (before ++ [x])).head? = some first := by
      rw [streak]
      cases streakOf before with
      | nil => exact ⟨_, rfl⟩
      | cons y ys => exact ⟨_, rfl⟩
    have due : (r.record x.now).2.2 = decide (heartbeatRefusedGiveUp ≤ sub x.now first.now) := by
      rw [← since first found]
      rfl
    rw [due, decide_eq_true_iff, giveUp_le_sub, Due]
    constructor
    · exact fun long => ⟨refused, first, found, long⟩
    · rintro ⟨-, first', found', long⟩
      cases found.symm.trans found'
      exact long

theorem beat_cases (pos : 0 < interval) (h : Follows before r)
    (few : (streakOf (before ++ [x])).length < 2 ^ 63) :
    Due before x ∧ (∃ err, beat interval r x = .giveUp err) ∨ ¬ Due before x ∧ ∃ r' logs,
    Follows (before ++ [x]) r' ∧
      beat interval r x = .again r' logs (backoff interval (streakOf (before ++ [x])).length) := by
  unfold beat
  cases good : refusedForGood x.err with
  | some st =>
    have refused : x.refused = true := by rw [Outcome.refused, good, Option.isSome_some]
    obtain ⟨follows, due⟩ := h.recorded refused few
    dsimp only
    split
    · rename_i long
      exact .inl ⟨due.1 long, _, rfl⟩
    · rename_i short
      rw [wait_eq pos follows.count]
      exact .inr ⟨fun long => short (due.2 long), _, _, follows, rfl⟩
  | none =>
    have other : x.refused = false := by rw [Outcome.refused, good, Option.isSome_none]
    have early : ¬ Due before x := fun due => by
      rw [due.1] at other
      cases other
    refine .inr ⟨early, ?_⟩
    cases failed : x.err with
    | some err =>
      have same : streakOf (before ++ [x]) = streakOf before :=
        streakOf_other (by rw [Outcome.accepted, failed, Option.isNone_some]) other
      have follows : Follows (before ++ [x]) r :=
        ⟨by rw [same, h.count], by rw [same]; exact h.since⟩
      dsimp only
      rw [wait_eq pos follows.count]
      exact ⟨_, _, follows, rfl⟩
    | none =>
      have none_ : streakOf (before ++ [x]) = [] :=
        streakOf_accepted (by rw [Outcome.accepted, failed, Option.isNone_none])
      have follows : Follows (before ++ [x]) {} := ⟨by rw [none_]; rfl, by rw [none_]; exact nofun⟩
      dsimp only
      rw [wait_eq pos follows.count]
      exact ⟨_, _, follows, rfl⟩

theorem beats_follow (pos : 0 < interval) (h : Follows before r)
    (few : ∀ k, (streakOf (before ++ xs.take k)).length < 2 ^ 63) (found : xs[n]? = some x)
    (reached : n ≤ (beats interval r xs).waits.length) :
    ((beats interval r xs).refused.isSome = true ∧ (beats interval r xs).waits.length = n ↔
      Due (before ++ xs.take n) x) ∧
    (¬ Due (before ++ xs.take n) x → (beats interval r xs).waits[n]? =
      some (backoff interval (streakOf (before ++ xs.take (n + 1))).length)) := by
  induction xs generalizing before r n with
  | nil => cases found
  | cons y ys ih =>
    have next := few 1
    rw [List.take_succ_cons, List.take_zero] at next
    rw [beats] at reached ⊢
    obtain ⟨due, err, turn⟩ | ⟨early, r', logs, follows, turn⟩ := beat_cases pos h next
    · rw [turn] at reached ⊢
      cases Nat.le_zero.1 reached
      cases found
      simpa using due
    · rw [turn] at reached ⊢
      cases n with
      | zero =>
        cases found
        simpa using early
      | succ n =>
        have later := ih follows (fun k => by simpa using few (k + 1)) found
          (Nat.le_of_succ_le_succ reached)
        simpa using later

end Loop

/-- As long as fewer than 2^63 refusals come without an accepted heartbeat between
them: at each outcome that is reached, the loop returns ErrHeartbeatRefused exactly
if it is due, and if not it waits the interval, doubled for each refusal of the
streak up to the bound. -/
theorem gives_up_exactly {interval : Int} (pos : 0 < interval) (xs : List (Outcome ε))
    (few : ∀ k, (streakOf (xs.take k)).length < 2 ^ 63) (n : Nat) (x : Outcome ε)
    (found : xs[n]? = some x) (reached : n ≤ (runHeartbeat interval xs).waits.length) :
    ((runHeartbeat interval xs).refused.isSome = true ∧
      (runHeartbeat interval xs).waits.length = n ↔ Due (xs.take n) x) ∧
    (¬ Due (xs.take n) x → (runHeartbeat interval xs).waits[n]? =
      some (backoff interval (streakOf (xs.take (n + 1))).length)) := by
  rw [runHeartbeat, if_neg (Int.not_le.2 pos)] at reached ⊢
  have start : Follows ([] : List (Outcome ε)) {} := ⟨rfl, nofun⟩
  exact beats_follow pos start few found reached

end Source

inductive Failure where
  | status (code : Code) (message : String)
  | other (text : String)
  deriving DecidableEq, Repr

instance : Failures Failure where
  fromError
    | .status code message => some (code, message)
    | .other _ => none

def someOutcomes : List (Outcome Failure) :=
  [⟨some (.status .invalidArgument "capacity is required"), 0⟩,
    ⟨some (.other "connection reset"), 10 * second⟩,
    ⟨some (.status .invalidArgument "capacity is required"), 10 * minute⟩]

theorem gives_up_exactly_some :
    (runHeartbeat (5 * second) someOutcomes).waits = [10 * second, 10 * second] ∧
    (runHeartbeat (5 * second) someOutcomes).refused.isSome = true ∧
    Due (someOutcomes.take 2)
    ⟨some (.status .invalidArgument "capacity is required"), 10 * minute⟩ := by
  have waits : (runHeartbeat (5 * second) someOutcomes).waits = [10 * second, 10 * second] := by
    decide
  have refused : (runHeartbeat (5 * second) someOutcomes).refused.isSome = true := by decide
  have few (k : Nat) : (streakOf (someOutcomes.take k)).length < 2 ^ 63 := by
    have short := (length_streakOf_le (someOutcomes.take k)).trans
      (List.length_take_le' k someOutcomes)
    have three : someOutcomes.length = 3 := rfl
    omega
  refine ⟨waits, refused, ?_⟩
  exact ((gives_up_exactly (by decide) someOutcomes few 2 _ rfl (by rw [waits]; decide)).1).1
    ⟨refused, by rw [waits]; rfl⟩

def refusal : Outcome Failure := ⟨some (.status .invalidArgument "capacity is required"), 0⟩

section Overflow
variable {r : Refusals} {n : Nat}

theorem beat_refusal (interval : Int) (since : r.since = 0) :
    ∃ r' logs, beat interval r refusal = .again r' logs (r'.wait interval) ∧
    r'.count = wrap (r.count + 1) ∧ r'.since = 0 := by
  have start : (r.record 0).1.since = 0 := by
    simp [Refusals.record, since]
  have stays : (r.record 0).2.2 = false := by
    simp [Refusals.record, since, sub, heartbeatRefusedGiveUp, minDuration,
      maxDuration, minute, second]
  have good : refusedForGood refusal.err = some (.invalidArgument, "capacity is required") := rfl
  have turn : ∃ logs, beat interval r refusal = .again (r.record 0).1 logs
      ((r.record 0).1.wait interval) := by
    unfold beat
    rw [good]
    dsimp only
    rw [if_neg (by rw [refusal, stays]; exact Bool.false_ne_true)]
    exact ⟨_, rfl⟩
  obtain ⟨logs, turn⟩ := turn
  exact ⟨_, logs, turn, rfl, start⟩

theorem beats_refusals (interval : Int) (since : r.since = 0) :
    (beats interval r (List.replicate (n + 1) refusal)).refused = none ∧
    ∃ r' : Refusals, (beats interval r (List.replicate (n + 1) refusal)).waits.getLast? =
      some (r'.wait interval) ∧
      r'.count = wrap (r.count + (n + 1)) := by
  induction n generalizing r with
  | zero =>
    obtain ⟨r', logs, turn, count, -⟩ := beat_refusal interval since
    rw [List.replicate_one, beats, turn]
    exact ⟨rfl, r', rfl, by rw [count]; rfl⟩
  | succ n ih =>
    obtain ⟨r', logs, turn, count, since'⟩ := beat_refusal interval since
    obtain ⟨refused, last, waits, total⟩ := ih since'
    rw [List.replicate_succ, beats, turn]
    refine ⟨refused, last, ?_, ?_⟩
    · dsimp only
      rw [List.getLast?_cons, waits]
      rfl
    · rw [total, count, wrap, wrap, Int.bmod_add_bmod, wrap, Nat.cast_add, Nat.cast_one]
      congr 1
      omega

theorem streakOf_refusals (n : Nat) :
    streakOf (List.replicate n refusal) = List.replicate n refusal := by
  induction n with
  | zero => rfl
  | succ n ih => rw [List.replicate_succ', streakOf_refused rfl, ih]

theorem backoff_bound (h : 4 ≤ n) : backoff (5 * second) n = minute := by
  have large : (2 : Int) ^ 4 ≤ 2 ^ n := pow_le_pow_right₀ (by decide) h
  simp only [backoff, heartbeatRefusedBackoffMax, minute, second]
  omega

theorem wait_after_overflow :
    ∃ n, (runHeartbeat (5 * second) (List.replicate n refusal)).refused = none ∧
    (runHeartbeat (5 * second) (List.replicate n refusal)).waits.getLast? = some (5 * second) ∧
    backoff (5 * second) (streakOf (List.replicate n refusal)).length = minute := by
  -- the 2^63rd refusal makes the counter negative, and the wait is the interval again
  obtain ⟨n, large⟩ : ∃ n : Nat, (n : Int) + 1 = 2 ^ 63 := ⟨2 ^ 63 - 1, by decide⟩
  obtain ⟨refused, r, waits, count⟩ := beats_refusals (5 * second) (r := {}) (n := n) rfl
  have count : r.count = -2 ^ 63 := by
    rw [count, large]
    decide
  have wait : r.wait (5 * second) = 5 * second := by
    rw [Refusals.wait, count]
    decide
  refine ⟨n + 1, refused, waits.trans (congrArg some wait), ?_⟩
  rw [streakOf_refusals, List.length_replicate]
  exact backoff_bound (by omega)

end Overflow
end Fire2.Heartbeat
