import Fire2.Jobs

/-! The loop of stepAssign pass by pass, as the source has it: nothing but what
it does bounds its passes. The draws of the scheduler and the answers of
AssignWorker are sequences that are given. -/

namespace Fire2.CreateSandboxWorker
open Interleaving Scheduler

/-- What AssignWorker answers. Its errors are the repository's and the
database's, never the scheduler's. -/
structure Assignment where
  answer : Except Err (Option Sandbox)
  own : ∀ err, answer = .error err → err.is .clusterFull = false

def Assignment.full (a : Assignment) : Bool :=
  match a.answer with
  | .error err => err.is .workerFull
  | .ok _ => false

/-- How the loop ends: AssignWorker went through for the chosen worker, or the
attempt fails. -/
inductive Ending where
  | assigned (chosen : WorkerCandidate) (sandbox : Option Sandbox)
  | failed (isFinal : Bool) (err : Err)
  deriving DecidableEq

/-- The variables of the loop, the calls of AssignWorker so far, latest first,
and how it ended. -/
structure Loop where
  candidates : List WorkerCandidate
  droppedFull : Bool
  asked : List (WorkerCandidate × Assignment)
  ending : Option Ending

namespace Loop

def start (candidates : List WorkerCandidate) : Loop := ⟨candidates, false, [], none⟩

def noChoice (isFinal droppedFull : Bool) (err : Err) : Ending :=
  if err.is .clusterFull then .failed true (.wrap "choose worker" err)
  else if droppedFull && err.is .noWorkerCandidates then
    .failed true (.wrap "choose worker" (.sentinel .clusterFull))
  else .failed isFinal (.wrap "choose worker" err)

def pass (isFinal : Bool) (draw : ℚ) (a : Assignment) (l : Loop) : Loop :=
  match chooseLeastUsedWorker draw l.candidates with
  | .error err => { l with ending := some (noChoice isFinal l.droppedFull err) }
  | .ok chosen =>
    let asked := (chosen, a) :: l.asked
    match a.answer with
    | .ok sandbox => { l with asked, ending := some (.assigned chosen sandbox) }
    | .error err =>
      if err.is .workerFull then
        { l with
          candidates := l.candidates.filter fun c => c.worker.id ≠ chosen.worker.id
          droppedFull := true
          asked }
      else { l with asked, ending := some (.failed isFinal (.wrap "assign worker" err)) }

def passes (isFinal : Bool) (draws : Nat → ℚ) (answers : Nat → Assignment) (l : Loop) : Nat → Loop
  -- the first passes; a loop that has ended makes no more
  | 0 => l
  | n + 1 =>
    let before := l.passes isFinal draws answers n
    if before.ending.isSome then before else before.pass isFinal (draws n) (answers n)

theorem passes_succ {isFinal : Bool} {draws : Nat → ℚ} {answers : Nat → Assignment}
    {l : Loop} {n : Nat} (goes : (l.passes isFinal draws answers n).ending = none) :
    l.passes isFinal draws answers (n + 1) =
      (l.passes isFinal draws answers n).pass isFinal (draws n) (answers n) := by
  simp [passes, goes]

def askedIDs (l : Loop) : List WorkerID := l.asked.map fun p => p.1.worker.id

/-- A loop that goes on after `n` passes: every worker it asked was full and is
dropped, and the others are still there. -/
structure Going (candidates : List WorkerCandidate) (answers : Nat → Assignment)
    (n : Nat) (l : Loop) : Prop where
  goes : l.ending = none
  count : l.asked.length = n
  known : ∀ p ∈ l.asked, p.1 ∈ candidates
  full : ∀ p ∈ l.asked, p.2.full = true
  once : l.askedIDs.Nodup
  rest : ∀ c, c ∈ l.candidates ↔ c ∈ candidates ∧ c.worker.id ∉ l.askedIDs
  bound : l.candidates.length + n ≤ candidates.length
  answered : ∀ k < n, (answers k).full = true

section Steps
variable {candidates : List WorkerCandidate} {answers : Nat → Assignment} {n : Nat} {l : Loop}
  {isFinal : Bool} {draws : Nat → ℚ} {draw : ℚ} {a : Assignment}

theorem going_start : Going candidates answers 0 (start candidates) where
  goes := rfl
  count := rfl
  known _ mem := absurd mem List.not_mem_nil
  full _ mem := absurd mem List.not_mem_nil
  once := List.nodup_nil
  rest := by simp [start, askedIDs]
  bound := Nat.le_refl _
  answered k lt := absurd lt (Nat.not_lt_zero k)

theorem Going.drop (h : Going candidates answers n l) {chosen : WorkerCandidate}
    (mem : chosen ∈ l.candidates) (full : (answers n).full = true) :
    Going candidates answers (n + 1) { l with
      candidates := l.candidates.filter fun c => c.worker.id ≠ chosen.worker.id
      droppedFull := true
      asked := (chosen, answers n) :: l.asked } where
  goes := h.goes
  count := congrArg (· + 1) h.count
  known := List.forall_mem_cons.2 ⟨((h.rest chosen).1 mem).1, h.known⟩
  full := List.forall_mem_cons.2 ⟨full, h.full⟩
  once := List.nodup_cons.2 ⟨((h.rest chosen).1 mem).2, h.once⟩
  rest c := by
    simp only [askedIDs, List.map_cons, List.mem_cons, List.mem_filter, h.rest c, decide_eq_true_eq]
    grind
  bound := by
    have shorter : (l.candidates.filter fun c => c.worker.id ≠ chosen.worker.id).length <
        l.candidates.length :=
      List.length_filter_lt_length_iff_exists.2 ⟨chosen, mem, by simp⟩
    have := h.bound
    simp only
    omega
  answered k lt := by
    rcases Nat.lt_succ_iff_lt_or_eq.1 lt with before | rfl
    · exact h.answered k before
    · exact full

/-- What one pass can do: nobody is chosen, or the worker asked is the one it
ends with, or fails, or is full and dropped. -/
inductive Passed (isFinal : Bool) (a : Assignment) (l : Loop) : Loop → Prop
  | nobody {err : Err} (choice : Choice l.candidates (.error err)) :
      Passed isFinal a l { l with ending := some (noChoice isFinal l.droppedFull err) }
  | assigned {chosen : WorkerCandidate} {sandbox : Option Sandbox}
    (choice : Choice l.candidates (.ok chosen))
      (answer : a.answer = .ok sandbox) :
      Passed isFinal a l
      { l with asked := (chosen, a) :: l.asked, ending := some (.assigned chosen sandbox) }
  | failed {chosen : WorkerCandidate} {err : Err} (choice : Choice l.candidates (.ok chosen))
      (answer : a.answer = .error err) (other : a.full = false) :
      Passed isFinal a l { l with
        asked := (chosen, a) :: l.asked
        ending := some (.failed isFinal (.wrap "assign worker" err)) }
  | dropped {chosen : WorkerCandidate} (choice : Choice l.candidates (.ok chosen))
    (full : a.full = true) :
      Passed isFinal a l { l with
        candidates := l.candidates.filter fun c => c.worker.id ≠ chosen.worker.id
        droppedFull := true
        asked := (chosen, a) :: l.asked }

theorem passed (isFinal : Bool) (draw : ℚ) (a : Assignment) (l : Loop) :
    Passed isFinal a l (l.pass isFinal draw a) := by
  have picked := choice draw l.candidates
  unfold pass
  generalize chooseLeastUsedWorker draw l.candidates = result at picked
  cases result with
  | error err => exact .nobody picked
  | ok chosen =>
    dsimp only
    split
    · rename_i answer
      exact .assigned picked answer
    · rename_i err answer
      split
      · rename_i full
        exact .dropped picked (by simpa [Assignment.full, answer] using full)
      · rename_i other
        exact .failed picked answer (by simpa [Assignment.full, answer] using other)

theorem going_pass (h : Going candidates answers n l) :
    Going candidates answers (n + 1) (l.pass isFinal draw (answers n)) ∨
      (l.pass isFinal draw (answers n)).ending.isSome = true := by
  have moved := passed isFinal draw (answers n) l
  generalize l.pass isFinal draw (answers n) = next at moved
  cases moved with
  | nobody | assigned | failed => exact .inr rfl
  | dropped picked full => exact .inl (h.drop picked.mem full)

theorem going_passes (isFinal : Bool) (draws : Nat → ℚ) (answers : Nat → Assignment)
    (candidates : List WorkerCandidate) (n : Nat) :
    Going candidates answers n ((start candidates).passes isFinal draws answers n) ∨
    ∃ k < n, Going candidates answers k ((start candidates).passes isFinal draws answers k) ∧
      (start candidates).passes isFinal draws answers n =
        ((start candidates).passes isFinal draws answers k).pass isFinal (draws k) (answers k) ∧
      ((start candidates).passes isFinal draws answers n).ending.isSome = true := by
  induction n with
  | zero => exact .inl going_start
  | succ n ih =>
    rcases ih with going | ⟨k, lt, going, last, ended⟩
    · rw [passes_succ going.goes]
      exact (going_pass going).imp id fun ended => ⟨n, Nat.lt_succ_self n, going, rfl, ended⟩
    · have same : (start candidates).passes isFinal draws answers (n + 1) =
          (start candidates).passes isFinal draws answers n := by
        simp [passes, ended]
      exact .inr ⟨k, Nat.lt_succ_of_lt lt, going, same.trans last, same ▸ ended⟩

theorem last_pass (isFinal : Bool) (draws : Nat → ℚ) (answers : Nat → Assignment)
    (candidates : List WorkerCandidate) :
    ∃ k ≤ candidates.length, Going candidates answers k
    ((start candidates).passes isFinal draws answers k) ∧
      (start candidates).passes isFinal draws answers (candidates.length + 1) =
        ((start candidates).passes isFinal draws answers k).pass isFinal (draws k) (answers k) ∧
      ((start candidates).passes isFinal draws answers
        (candidates.length + 1)).ending.isSome = true := by
  rcases going_passes isFinal draws answers candidates (candidates.length + 1) with
    going | ⟨k, lt, ended⟩
  · have := going.bound
    omega
  · exact ⟨k, Nat.le_of_lt_succ lt, ended⟩

theorem pass_once (h : Going candidates answers n l) : (l.pass isFinal draw a).askedIDs.Nodup := by
  have moved := passed isFinal draw a l
  generalize l.pass isFinal draw a = next at moved
  cases moved with
  | nobody => exact h.once
  | assigned picked | failed picked | dropped picked =>
    exact List.nodup_cons.2 ⟨((h.rest _).1 picked.mem).2, h.once⟩

theorem nobody_left (h : Going candidates answers n l) (informed : ∀ c ∈ candidates, c.info ≠ none)
    {err : Err} (choice : Choice l.candidates (.error err)) {c : WorkerCandidate}
    (mem : c ∈ candidates) (active : isActiveWorker c = true) :
    (∃ info, c.info = some info ∧ hasCapacity info = false) ∨
      ∃ p ∈ l.asked, p.1.worker.id = c.worker.id ∧ p.2.full = true := by
  by_cases asked : c.worker.id ∈ l.askedIDs
  · obtain ⟨p, found, same⟩ := List.mem_map.1 asked
    exact .inr ⟨p, found, same, h.full p found⟩
  · have left := (h.rest c).2 ⟨mem, asked⟩
    obtain ⟨info, known⟩ := Option.ne_none_iff_exists'.1 (informed c mem)
    cases choice with
    | full _ _ _ saturated => exact .inl ⟨info, known, saturated c info left known active⟩
    | nobody silent => cases known.symm.trans (silent c left)

theorem pass_full (h : Going candidates answers n l) (informed : ∀ c ∈ candidates, c.info ≠ none)
    {final : Bool} {err : Err} (ending : (l.pass isFinal draw a).ending = some (.failed final err))
    (full : err.is .clusterFull = true) {c : WorkerCandidate} (mem : c ∈ candidates)
    (active : isActiveWorker c = true) : (∃ info, c.info = some info ∧ hasCapacity info = false) ∨
      ∃ p ∈ (l.pass isFinal draw a).asked, p.1.worker.id = c.worker.id ∧ p.2.full = true := by
  have moved := passed isFinal draw a l
  generalize l.pass isFinal draw a = next at moved ending
  cases moved with
  | nobody choice => exact nobody_left h informed choice mem active
  | assigned => cases ending
  | failed choice answer other =>
    cases ending
    cases (a.own _ answer).symm.trans full
  | dropped => cases h.goes.symm.trans ending

end Steps

/-- Whatever is drawn and answered, the loop ends with one more draw than there
are candidates at the latest, has asked no worker twice, and the cluster is only
said to be full if every active candidate had no budget left or was full. -/
theorem assign_loop_ends (isFinal : Bool) (draws : Nat → ℚ) (answers : Nat → Assignment)
    {candidates : List WorkerCandidate} (informed : ∀ c ∈ candidates, c.info ≠ none) :
    ∃ l ending, l = (start candidates).passes isFinal draws answers (candidates.length + 1) ∧
      l.ending = some ending ∧ l.askedIDs.Nodup ∧
      ∀ final err, ending = .failed final err → err.is .clusterFull = true →
        ∀ c ∈ candidates, isActiveWorker c = true →
        (∃ info, c.info = some info ∧ hasCapacity info = false) ∨
          ∃ p ∈ l.asked, p.1.worker.id = c.worker.id ∧ p.2.full = true := by
  obtain ⟨k, -, going, last, ended⟩ := last_pass isFinal draws answers candidates
  obtain ⟨ending, how⟩ := Option.isSome_iff_exists.1 ended
  refine ⟨_, ending, rfl, how, last ▸ pass_once going, ?_⟩
  rintro final err rfl full c mem active
  rw [last] at how ⊢
  exact pass_full going informed how full mem active

section Example

def someWorker (id : WorkerID) (status : WorkerStatus) : Worker where
  id := id
  status := status
  address := "10.0.0.2"
  capacity := 1
  port := 50051
  cpuBudget := 4
  memBudget := 8192
  cpuUsage := 0
  memUsage := 0
  lastHeartbeat := 0
  fencingToken := 1

def idle : WorkerCandidate := ⟨someWorker "worker-1" .active, some ⟨"active", 8192, 0, 0⟩⟩

def saturated : WorkerCandidate := ⟨someWorker "worker-2" .active, some ⟨"active", 8192, 100, 0⟩⟩

def demoted : WorkerCandidate := ⟨someWorker "worker-3" .inactive, some ⟨"active", 8192, 0, 0⟩⟩

def workerFull : Assignment := ⟨.error (.sentinel .workerFull), by rintro _ ⟨⟩; rfl⟩

def placed (workerID : WorkerID) : Sandbox where
  id := "sandbox-1"
  runtime := "node"
  status := .assigned
  ttl := 3600
  createdAt := 0
  port := 10000
  previewURL := ""
  image := "node:20-alpine"
  workerID := some workerID
  vcpuCount := 1
  memSizeMib := 256
  userID := some "user-1"

def accepted (workerID : WorkerID) : Assignment := ⟨.ok (some (placed workerID)), by rintro _ ⟨⟩⟩

theorem assign_loop_ends_full :
    ∃ l, l = (start [idle, saturated]).passes false (fun _ => 0) (fun _ => workerFull) 3 ∧
      l.ending = some (.failed true (.wrap "choose worker" (.sentinel .clusterFull))) ∧
      ∀ c ∈ [idle, saturated], isActiveWorker c = true →
        (∃ info, c.info = some info ∧ hasCapacity info = false) ∨
          ∃ p ∈ l.asked, p.1.worker.id = c.worker.id ∧ p.2.full = true := by
  have informed : ∀ c ∈ [idle, saturated], c.info ≠ none := by decide
  obtain ⟨l, ending, rfl, how, -, full⟩ := assign_loop_ends false (fun _ => 0)
    (fun _ => workerFull) informed
  have ended : ((start [idle, saturated]).passes false (fun _ => 0)
    (fun _ => workerFull) 3).ending =
      some (.failed true (.wrap "choose worker" (.sentinel .clusterFull))) := by
    decide +kernel
  cases how.symm.trans ended
  exact ⟨_, rfl, ended, full _ _ rfl rfl⟩

end Example

def fits (c : WorkerCandidate) : Bool := isActiveWorker c && c.info.any hasCapacity

/-- As long as the loop goes on, some active candidate is left: there is nobody
else, or one of them has no budget left and so is never asked and dropped, or
the answers do not say of all of them that they are full. -/
def ActiveRemains (candidates : List WorkerCandidate) (answers : Nat → Assignment) : Prop :=
  (∀ c ∈ candidates, c.info.isSome = true → isActiveWorker c = true) ∨
  (∃ c ∈ candidates, isActiveWorker c = true ∧ ∃ info, c.info = some info ∧
    hasCapacity info = false) ∨
  ∃ k < (candidates.filter fits).length, (answers k).full = false

section Active
variable {candidates : List WorkerCandidate} {answers : Nat → Assignment} {n : Nat} {l : Loop}
  {isFinal : Bool} {draw : ℚ} {a : Assignment}

theorem Going.asked_of_absent (h : Going candidates answers n l)
    (distinct : (candidates.map fun c => c.worker.id).Nodup) {c : WorkerCandidate}
    (mem : c ∈ candidates) (gone : c ∉ l.candidates) : ∃ a, (c, a) ∈ l.asked := by
  have asked : c.worker.id ∈ l.askedIDs := by
    by_contra unasked
    exact gone ((h.rest c).2 ⟨mem, unasked⟩)
  obtain ⟨⟨d, a⟩, found, same⟩ := List.mem_map.1 asked
  obtain rfl := List.inj_on_of_nodup_map distinct (h.known _ found) mem same
  exact ⟨a, found⟩

theorem Going.fit_left (h : Going candidates answers n l)
    (distinct : (candidates.map fun c => c.worker.id).Nodup)
    (lt : n < (candidates.filter fits).length) : ∃ c ∈ l.candidates, fits c = true := by
  by_contra none
  have asked : ∀ id ∈ (candidates.filter fits).map (fun c => c.worker.id), id ∈ l.askedIDs := by
    intro id mem
    obtain ⟨d, found, rfl⟩ := List.mem_map.1 mem
    obtain ⟨known, fit⟩ := List.mem_filter.1 found
    obtain ⟨a, asked⟩ := h.asked_of_absent distinct known fun left => none ⟨d, left, fit⟩
    exact List.mem_map.2 ⟨(d, a), asked, rfl⟩
  have distinct' : ((candidates.filter fits).map fun c => c.worker.id).Nodup :=
    distinct.sublist (List.filter_sublist.map _)
  have few := (distinct'.subperm asked).length_le
  simp only [List.length_map, askedIDs, h.count] at few
  omega

theorem Going.none_fit (h : Going candidates answers (candidates.filter fits).length l)
    (fit : ∀ p ∈ l.asked, fits p.1 = true) : ∀ c ∈ l.candidates, fits c = false := by
  intro c mem
  refine Bool.eq_false_iff.2 fun fits => ?_
  obtain ⟨known, unasked⟩ := (h.rest c).1 mem
  have among : ∀ id ∈ c.worker.id :: l.askedIDs, id ∈ (candidates.filter Loop.fits).map
      fun c => c.worker.id := by
    refine List.forall_mem_cons.2 ⟨List.mem_map.2 ⟨c, List.mem_filter.2 ⟨known, fits⟩, rfl⟩, ?_⟩
    intro id asked
    obtain ⟨p, found, rfl⟩ := List.mem_map.1 asked
    exact List.mem_map.2 ⟨p.1, List.mem_filter.2 ⟨h.known p found, fit p found⟩, rfl⟩
  have few := ((List.nodup_cons.2 ⟨unasked, h.once⟩).subperm among).length_le
  simp only [List.length_cons, List.length_map, askedIDs, h.count] at few
  omega

theorem choice_fits {candidates : List WorkerCandidate} {c : WorkerCandidate} (mem : c ∈ candidates)
    (fit : fits c = true) {r : Except Err WorkerCandidate} (h : Choice candidates r) :
    ∃ chosen, r = .ok chosen ∧ fits chosen = true := by
  obtain ⟨active, room⟩ := Bool.and_eq_true_iff.1 fit
  obtain ⟨info, informed, capacity⟩ := (Option.any_eq_true _ _).1 room
  cases h with
  | full _ _ _ saturated => cases capacity.symm.trans (saturated c info mem informed active)
  | nobody silent => cases informed.symm.trans (silent c mem)
  | @active d _ _ informed active capacity =>
    exact ⟨d, rfl, by simp [fits, active, informed, capacity]⟩
  | fallback _ _ inactive => cases active.symm.trans (inactive c info mem informed)

theorem Going.not_remains (h : Going candidates answers n l)
    (distinct : (candidates.map fun c => c.worker.id).Nodup) (fit : ∀ p ∈ l.asked, fits p.1 = true)
    {c : WorkerCandidate} {info : WorkerInfo} (mem : c ∈ l.candidates)
    (informed : c.info = some info) (inactive : ∀ d info, d ∈ l.candidates → d.info = some info →
      isActiveWorker d = false) :
    ¬ ActiveRemains candidates answers := by
  have gone {d : WorkerCandidate} (active : isActiveWorker d = true) {info : WorkerInfo}
      (informed : d.info = some info) : d ∉ l.candidates :=
    fun mem => absurd (active.symm.trans (inactive d info mem informed)) nofun
  rintro (all | ⟨d, known, active, info', informed', full⟩ | ⟨k, lt, other⟩)
  · exact gone (all c ((h.rest c).1 mem).1 (by simp [informed])) informed mem
  · obtain ⟨a, asked⟩ := h.asked_of_absent distinct known (gone active informed')
    simpa [fits, informed', full] using fit _ asked
  · by_cases later : k < n
    · cases other.symm.trans (h.answered k later)
    · obtain ⟨d, left, fit⟩ := h.fit_left distinct (by omega)
      obtain ⟨active, room⟩ := Bool.and_eq_true_iff.1 fit
      obtain ⟨info, informed, -⟩ := (Option.any_eq_true _ _).1 room
      exact gone active informed left

theorem Going.chosen_fits (h : Going candidates answers n l)
    (distinct : (candidates.map fun c => c.worker.id).Nodup)
    (remains : ActiveRemains candidates answers)
    (fit : ∀ p ∈ l.asked, fits p.1 = true) {chosen : WorkerCandidate}
    (choice : Choice l.candidates (.ok chosen)) : fits chosen = true := by
  cases choice with
  | active mem informed active capacity => simp [fits, active, informed, capacity]
  | fallback mem informed inactive =>
    exact absurd remains (h.not_remains distinct fit mem informed inactive)

theorem pass_fits (h : Going candidates answers n l)
    (distinct : (candidates.map fun c => c.worker.id).Nodup)
    (remains : ActiveRemains candidates answers)
    (fit : ∀ p ∈ l.asked, fits p.1 = true) :
    ∀ p ∈ (l.pass isFinal draw a).asked, fits p.1 = true := by
  have moved := passed isFinal draw a l
  generalize l.pass isFinal draw a = next at moved
  cases moved with
  | nobody => exact fit
  | assigned picked | failed picked | dropped picked =>
    exact List.forall_mem_cons.2 ⟨h.chosen_fits distinct remains fit picked, fit⟩

theorem pass_ending (h : Going candidates answers n l) :
    (∀ chosen sandbox, (l.pass isFinal draw a).ending = some (.assigned chosen sandbox) →
      ∃ p ∈ (l.pass isFinal draw a).asked, p.1 = chosen ∧ p.2.answer = .ok sandbox) ∧
    (∀ final err, (l.pass isFinal draw a).ending = some (.failed final err) →
      ∀ p ∈ (l.pass isFinal draw a).asked, ∀ sandbox, p.2.answer ≠ .ok sandbox) := by
  have none_ok : ∀ p ∈ l.asked, ∀ sandbox, p.2.answer ≠ .ok sandbox := by
    intro p asked sandbox ok
    have full := h.full p asked
    simp [Assignment.full, ok] at full
  have moved := passed isFinal draw a l
  generalize l.pass isFinal draw a = next at moved
  cases moved with
  | nobody =>
    refine ⟨fun chosen sandbox how => ?_, fun _ _ _ => none_ok⟩
    simp only [noChoice, Option.some.injEq] at how
    split at how
    · cases how
    · split at how <;> cases how
  | @assigned chosen sandbox picked answer =>
    constructor
    · rintro _ _ ⟨⟩
      exact ⟨_, List.mem_cons_self, rfl, answer⟩
    · rintro _ _ ⟨⟩
  | failed picked answer other =>
    constructor
    · rintro _ _ ⟨⟩
    · refine fun _ _ _ => List.forall_mem_cons.2 ⟨fun sandbox ok => ?_, none_ok⟩
      cases answer.symm.trans ok
  | dropped => simp [h.goes]

theorem pass_nobody (h : Going candidates answers n l)
    (distinct : (candidates.map fun c => c.worker.id).Nodup)
    (remains : ActiveRemains candidates answers)
    (fit : ∀ p ∈ l.asked, fits p.1 = true) (left : ∀ c ∈ l.candidates, fits c = false) :
    (∃ final err, (l.pass isFinal draw a).ending = some (.failed final err)) ∧
      (l.pass isFinal draw a).asked = l.asked := by
  have unfit {chosen : WorkerCandidate} (picked : Choice l.candidates (.ok chosen)) : False :=
    absurd ((h.chosen_fits distinct remains fit picked).symm.trans (left chosen picked.mem)) nofun
  have moved := passed isFinal draw a l
  generalize l.pass isFinal draw a = next at moved
  cases moved with
  | nobody =>
    refine ⟨?_, rfl⟩
    unfold noChoice
    split
    · exact ⟨_, _, rfl⟩
    · split <;> exact ⟨_, _, rfl⟩
  | assigned picked | failed picked | dropped picked => exact (unfit picked).elim

end Active

section Runs
variable {candidates : List WorkerCandidate} (isFinal : Bool) (draws : Nat → ℚ)
  (answers : Nat → Assignment)

theorem going_of_none {n : Nat}
    (goes : ((start candidates).passes isFinal draws answers n).ending = none) :
    Going candidates answers n ((start candidates).passes isFinal draws answers n) := by
  rcases going_passes isFinal draws answers candidates n with going | ⟨k, -, -, -, ended⟩
  · exact going
  · rw [goes] at ended
    cases ended

theorem passes_fit (distinct : (candidates.map fun c => c.worker.id).Nodup)
    (remains : ActiveRemains candidates answers) (n : Nat) :
    ∀ p ∈ ((start candidates).passes isFinal draws answers n).asked, fits p.1 = true := by
  induction n with
  | zero => exact fun _ mem => absurd mem List.not_mem_nil
  | succ n ih =>
    rw [passes]
    split
    · exact ih
    · rename_i goes
      exact pass_fits (going_of_none isFinal draws answers
        (by simpa using goes)) distinct remains ih

theorem passes_drop (distinct : (candidates.map fun c => c.worker.id).Nodup)
    (full : ∀ k < (candidates.filter fits).length, (answers k).full = true) {n : Nat}
    (le : n ≤ (candidates.filter fits).length) :
    Going candidates answers n ((start candidates).passes isFinal draws answers n) ∧
      ∀ p ∈ ((start candidates).passes isFinal draws answers n).asked, fits p.1 = true := by
  induction n with
  | zero => exact ⟨going_start, fun _ mem => absurd mem List.not_mem_nil⟩
  | succ n ih =>
    obtain ⟨going, fit⟩ := ih (Nat.le_of_succ_le le)
    obtain ⟨c, mem, fits⟩ := going.fit_left distinct le
    rw [passes_succ going.goes]
    generalize (start candidates).passes isFinal draws answers n = l at going fit mem
    have moved := passed isFinal (draws n) (answers n) l
    generalize l.pass isFinal (draws n) (answers n) = after at moved
    have answer := full n le
    cases moved with
    | nobody picked =>
      obtain ⟨_, eq, -⟩ := choice_fits mem fits picked
      cases eq
    | assigned picked ok => simp [Assignment.full, ok] at answer
    | failed picked _ other => cases answer.symm.trans other
    | dropped picked =>
      obtain ⟨_, eq, fits⟩ := choice_fits mem fits picked
      cases eq
      exact ⟨going.drop picked.mem answer, List.forall_mem_cons.2 ⟨fits, fit⟩⟩

/-- Outside the condition AssignWorker is called for a candidate that is not
active, once those that are have been dropped. -/
theorem asks_inactive (distinct : (candidates.map fun c => c.worker.id).Nodup)
    (gone : ¬ ActiveRemains candidates answers) :
    ∃ p ∈ ((start candidates).passes isFinal draws answers
      ((candidates.filter fits).length + 1)).asked, isActiveWorker p.1 = false := by
  simp only [ActiveRemains, not_or, not_forall, not_exists, not_and, Bool.not_eq_false] at gone
  obtain ⟨⟨c, mem, informed, inactive⟩, roomy, full⟩ := gone
  obtain ⟨going, fit⟩ := passes_drop isFinal draws answers distinct full (Nat.le_refl _)
  rw [passes_succ going.goes]
  generalize (start candidates).passes isFinal draws answers (candidates.filter fits).length = l
    at going fit
  have left : c ∈ l.candidates := by
    refine (going.rest c).2 ⟨mem, fun asked => ?_⟩
    obtain ⟨p, found, same⟩ := List.mem_map.1 asked
    obtain rfl := List.inj_on_of_nodup_map distinct (going.known p found) mem same
    exact inactive (Bool.and_eq_true_iff.1 (fit p found)).1
  have none_active (d : WorkerCandidate) (info : WorkerInfo) (mem : d ∈ l.candidates)
      (informed : d.info = some info) : isActiveWorker d = false := by
    refine Bool.eq_false_iff.2 fun active => ?_
    have capacity := roomy d ((going.rest d).1 mem).1 active info informed
    have unfit := going.none_fit fit d mem
    simp [fits, active, informed, capacity] at unfit
  have unasked {chosen : WorkerCandidate} (picked : Choice l.candidates (.ok chosen)) :
      isActiveWorker chosen = false := by
    cases picked with
    | active mem informed => exact none_active _ _ mem informed
    | fallback mem informed inactive => exact inactive _ _ mem informed
  have moved := passed isFinal (draws (candidates.filter fits).length)
    (answers (candidates.filter fits).length) l
  generalize l.pass isFinal _ _ = after at moved
  cases moved with
  | nobody picked =>
    cases picked with
    | full mem informed active => cases active.symm.trans (none_active _ _ mem informed)
    | nobody silent => simp [silent c left] at informed
  | assigned picked | failed picked | dropped picked =>
    exact ⟨_, List.mem_cons_self, unasked picked⟩

end Runs

/-- As long as some active candidate remains, the loop ends, and after any number
of passes: AssignWorker was only called for candidates that are active and have
capacity left; the worker it ends with is one of them; an attempt that fails has
assigned nothing; and when no such candidate is left it fails without a call. -/
theorem assigns_active_only (isFinal : Bool) (draws : Nat → ℚ) (answers : Nat → Assignment)
    {candidates : List WorkerCandidate} (distinct : (candidates.map fun c => c.worker.id).Nodup)
    (remains : ActiveRemains candidates answers) :
    (∃ ending, ((start candidates).passes isFinal draws answers
      (candidates.length + 1)).ending = some ending) ∧
    ∀ n l, l = (start candidates).passes isFinal draws answers n →
      (∀ p ∈ l.asked, isActiveWorker p.1 = true ∧ ∃ info, p.1.info = some info ∧
        hasCapacity info = true) ∧
      (∀ chosen sandbox, l.ending = some (.assigned chosen sandbox) →
        ∃ p ∈ l.asked, p.1 = chosen ∧ p.2.answer = .ok sandbox) ∧
      (∀ final err, l.ending = some (.failed final err) → ∀ p ∈ l.asked, ∀ sandbox,
        p.2.answer ≠ .ok sandbox) ∧
      (l.ending = none → (∀ c ∈ l.candidates, isActiveWorker c = true →
        c.info.any hasCapacity = false) →
        (∃ final err, (l.pass isFinal (draws n) (answers n)).ending = some (.failed final err)) ∧
          (l.pass isFinal (draws n) (answers n)).asked = l.asked) := by
  obtain ⟨_, -, -, -, ended⟩ := last_pass isFinal draws answers candidates
  refine ⟨Option.isSome_iff_exists.1 ended, ?_⟩
  rintro n _ rfl
  have fit := passes_fit isFinal draws answers distinct remains n
  refine ⟨fun p asked => ?_, ?_, ?_, fun goes left => ?_⟩
  · obtain ⟨active, room⟩ := Bool.and_eq_true_iff.1 (fit p asked)
    exact ⟨active, (Option.any_eq_true _ _).1 room⟩
  · rcases going_passes isFinal draws answers candidates n with going | ⟨k, -, going, last, -⟩
    · exact fun _ _ how => nomatch going.goes.symm.trans how
    · rw [last]
      exact (pass_ending going).1
  · rcases going_passes isFinal draws answers candidates n with going | ⟨k, -, going, last, -⟩
    · exact fun _ _ how => nomatch going.goes.symm.trans how
    · rw [last]
      exact (pass_ending going).2
  · exact pass_nobody (going_of_none isFinal draws answers goes) distinct remains fit
      fun c mem => by simpa [fits] using left c mem

theorem assigns_active_only_next :
    ∃ l, l = (start [idle, demoted, saturated]).passes false (fun _ => 0)
      (fun _ => workerFull) 4 ∧
    l.ending = some (.failed true (.wrap "choose worker" (.sentinel .clusterFull))) ∧
    ∀ p ∈ l.asked, isActiveWorker p.1 = true ∧ ∃ info, p.1.info = some info ∧
    hasCapacity info = true := by
  have remains : ActiveRemains [idle, demoted, saturated] fun _ => workerFull := by
    refine .inr (.inl ⟨saturated, by simp, by decide +kernel, _, rfl, by decide +kernel⟩)
  have ended : ((start [idle, demoted, saturated]).passes false (fun _ => 0)
    (fun _ => workerFull) 4).ending =
      some (.failed true (.wrap "choose worker" (.sentinel .clusterFull))) := by
    decide +kernel
  exact ⟨_, rfl, ended, ((assigns_active_only false (fun _ => 0) (fun _ => workerFull)
    (by decide) remains).2 4 _ rfl).1⟩

theorem assigned_inactive :
    ((start [idle, demoted]).passes false (fun _ => 0)
      (fun n => if n = 0 then workerFull else accepted "worker-3") 3).ending =
      some (.assigned demoted (some (placed "worker-3"))) ∧ isActiveWorker demoted = false := by
  -- the only active worker turns out to be full, and the sandbox goes to one that is not
  -- active
  decide +kernel

end Loop

section Program
variable {id : SandboxID} {isFinal : Bool} {next : Option Sandbox → Work}

def Ending.work (id : SandboxID) (next : Option Sandbox → Work) : Ending → Work
  | .assigned _ sandbox => next sandbox
  | .failed isFinal err => maybeCleanup id isFinal err

def assignments : List (Sigma Call.Answer) → List (WorkerID × Except Err (Option Sandbox))
  | [] => []
  | ⟨.assignWorker _ workerID, answer⟩ :: calls => (workerID, answer) :: assignments calls
  | _ :: calls => assignments calls

theorem assignments_append (calls calls' : List (Sigma Call.Answer)) :
    assignments (calls ++ calls') = assignments calls ++ assignments calls' := by
  induction calls using assignments.induct with
  | case1 => rfl
  | case2 => simp_all [assignments]
  | case3 => simp_all [assignments]

def Loop.log (l : Loop) : List (WorkerID × Except Err (Option Sandbox)) :=
  l.asked.reverse.map fun p => (p.1.worker.id, p.2.answer)

theorem noChoice_work (next : Option Sandbox → Work) {droppedFull : Bool} {err : Err} :
    noChoice id isFinal droppedFull err = (Loop.noChoice isFinal droppedFull err).work id next := by
  unfold noChoice Loop.noChoice
  split
  · rfl
  · split <;> rfl

def Loop.program (id : SandboxID) (isFinal : Bool) (next : Option Sandbox → Work) (m : Nat)
    (l : Loop) : Work :=
  -- what is left of the program when the loop stands at `l`
  match l.ending with
  | none => assignLoop id isFinal next m l.candidates l.droppedFull
  | some ending => ending.work id next

theorem ask_follows {α : Type} (c : Call) {f : c.Answer → Job α} (r : c.Answer)
    {calls : List (Sigma Call.Answer)} {q : Job α} (h : (f r).Follows calls q) :
    (ask c >>= f).Follows (⟨c, r⟩ :: calls) q :=
  .call h

variable (id isFinal next) in
theorem assignLoop_nobody {candidates : List WorkerCandidate} (m : Nat) (droppedFull : Bool)
    {draw : ℚ} {err : Err} (h : chooseLeastUsedWorker draw candidates = .error err) :
    (assignLoop id isFinal next (m + 1) candidates droppedFull).Follows [⟨.draw, draw⟩]
      (noChoice id isFinal droppedFull err) := by
  rw [assignLoop]
  refine ask_follows .draw draw ?_
  rw [h]
  exact .refl _

variable (id isFinal next) in
theorem assignLoop_asks {candidates : List WorkerCandidate} (m : Nat)
    (droppedFull : Bool) {draw : ℚ} {chosen : WorkerCandidate}
    (h : chooseLeastUsedWorker draw candidates = .ok chosen)
    (answer : Except Err (Option Sandbox)) :
    (assignLoop id isFinal next (m + 1) candidates droppedFull).Follows
      [⟨.draw, draw⟩, ⟨.assignWorker id chosen.worker.id, answer⟩]
      (match answer with
      | .ok assigned => next assigned
      | .error err =>
        if err.is .workerFull then
          assignLoop id isFinal next m (candidates.filter fun c => c.worker.id ≠
            chosen.worker.id) true
        else maybeCleanup id isFinal (.wrap "assign worker" err)) := by
  rw [assignLoop]
  refine ask_follows .draw draw ?_
  rw [h]
  refine ask_follows (.assignWorker id chosen.worker.id) answer ?_
  cases answer <;> exact .refl _

theorem pass_follows {l : Loop} (goes : l.ending = none) {m : Nat}
    (enough : l.candidates.length ≤ m) (draw : ℚ)
    (a : Assignment) : ∃ calls m', (l.program id isFinal next m).Follows calls
        ((l.pass isFinal draw a).program id isFinal next m') ∧
      (l.pass isFinal draw a).candidates.length ≤ m' ∧ (l.pass isFinal draw a).log = l.log ++
      assignments calls := by
  have at_l : l.program id isFinal next m = assignLoop id isFinal next m
      l.candidates l.droppedFull := by
    simp [Loop.program, goes]
  rw [at_l]
  cases m with
  | zero =>
    have none_left : l.candidates = [] := List.eq_nil_of_length_eq_zero (Nat.le_zero.1 enough)
    have ended : l.pass isFinal draw a = { l with
        ending := some (Loop.noChoice isFinal l.droppedFull (.sentinel .noWorkerCandidates)) } := by
      simp [Loop.pass, chooseLeastUsedWorker, none_left]
    rw [ended]
    refine ⟨[], 0, ?_, enough, by simp [Loop.log, assignments]⟩
    rw [assignLoop, noChoice_work next]
    exact .refl _
  | succ m =>
    cases picked : chooseLeastUsedWorker draw l.candidates with
    | error err =>
      have follows := assignLoop_nobody id isFinal next m l.droppedFull picked
      rw [noChoice_work next] at follows
      have ended : l.pass isFinal draw a =
          { l with ending := some (Loop.noChoice isFinal l.droppedFull err) } := by
        simp [Loop.pass, picked]
      rw [ended]
      exact ⟨_, m + 1, follows, enough, by simp [Loop.log, assignments]⟩
    | ok chosen =>
      have follows := assignLoop_asks id isFinal next m l.droppedFull picked a.answer
      have mem : chosen ∈ l.candidates := (picked ▸ choice draw l.candidates).mem
      have shorter : (l.candidates.filter fun c => c.worker.id ≠ chosen.worker.id).length <
          l.candidates.length :=
        List.length_filter_lt_length_iff_exists.2 ⟨chosen, mem, by simp⟩
      have log {l' : Loop} (asked : l'.asked = (chosen, a) :: l.asked) : l'.log =
          l.log ++ assignments [⟨.draw, draw⟩, ⟨.assignWorker id chosen.worker.id, a.answer⟩] := by
        simp [Loop.log, asked, assignments]
      cases answer : a.answer with
      | ok sandbox =>
        rw [answer] at follows log
        have ended : l.pass isFinal draw a = { l with
            asked := (chosen, a) :: l.asked
            ending := some (.assigned chosen sandbox) } := by
          simp [Loop.pass, picked, answer]
        rw [ended]
        exact ⟨_, m + 1, follows, enough, log rfl⟩
      | error err =>
        rw [answer] at follows log
        by_cases full : err.is .workerFull = true
        · have moved : l.pass isFinal draw a = { l with
              candidates := l.candidates.filter fun c => c.worker.id ≠ chosen.worker.id
              droppedFull := true
              asked := (chosen, a) :: l.asked } := by
            simp [Loop.pass, picked, answer, full]
          rw [moved]
          refine ⟨_, m, ?_, by simp only; omega, log rfl⟩
          simpa only [Loop.program, goes, full, if_true] using follows
        · have ended : l.pass isFinal draw a = { l with
              asked := (chosen, a) :: l.asked
              ending := some (.failed isFinal (.wrap "assign worker" err)) } := by
            simp [Loop.pass, picked, answer, full]
          rw [ended]
          refine ⟨_, m + 1, ?_, enough, log rfl⟩
          simpa only [Loop.program, Ending.work, full, Bool.false_eq_true, if_false] using follows

theorem assignLoop_follows (draws : Nat → ℚ) (answers : Nat → Assignment)
    (candidates : List WorkerCandidate) (n : Nat) :
    ∃ calls m, (assignLoop id isFinal next candidates.length candidates false).Follows calls
        (((Loop.start candidates).passes isFinal draws answers n).program id isFinal next m) ∧
      ((Loop.start candidates).passes isFinal draws answers n).candidates.length ≤ m ∧
      ((Loop.start candidates).passes isFinal draws answers n).log = assignments calls := by
  induction n with
  | zero => exact ⟨[], candidates.length, .refl _, Nat.le_refl _, rfl⟩
  | succ n ih =>
    obtain ⟨calls, m, follows, enough, log⟩ := ih
    rw [Loop.passes]
    split
    · exact ⟨calls, m, follows, enough, log⟩
    · rename_i goes
      obtain ⟨calls', m', follows', enough', log'⟩ :=
        pass_follows (by simpa using goes) enough (draws n) (answers n)
      refine ⟨calls ++ calls', m', follows.trans follows', enough', ?_⟩
      rw [log', log, assignments_append]

theorem assignWorker_own (id : SandboxID) (workerID : WorkerID) (e : Env) (s : World) (err : Err)
    (h : (answer (.assignWorker id workerID) e s).1 = .error err) :
    err.is .clusterFull = false := by
  simp only [answer, statement, faulty, onDatabase, SandboxRepository.assignWorker] at h
  split at h
  · split at h
    · cases h
      rfl
    · split at h
      · cases h
        rfl
      · split at h
        · split at h
          · cases h
          · cases h
            rfl
        · cases h
  · cases h
    rfl
  · cases h
    rfl

end Program
end Fire2.CreateSandboxWorker
