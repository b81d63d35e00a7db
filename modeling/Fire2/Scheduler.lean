import Mathlib.Data.Rat.Defs
import Mathlib.Algebra.Order.Ring.Rat
import Fire2.WorkerRepository

/-! `orchestrator.Scheduler`: the choice of a worker among candidates, given one
random draw in [0, 1). Weights and scores are exact rationals in place of
float64, so rounding is outside this model. -/

namespace Fire2

/-- `strings.ToLower`, on the letters whose lower case is an ASCII one. -/
def toLower (s : String) : String :=
  String.ofList (s.toList.map fun c => if c = '\u0130' then 'i'
    else if c = '\u212a' then 'k' else c.toLower)

structure WorkerInfo where
  status : String
  memBudget : Int
  cpuUsage : Int
  memUsage : Int
  deriving DecidableEq, Repr

structure WorkerCandidate where
  worker : Worker
  info : Option WorkerInfo
  deriving DecidableEq, Repr

namespace Scheduler

def cpuUsageScale : Int := 100

def usageRatio (usage budget : Int) : ℚ :=
  if usage ≤ 0 then 0
  else if budget ≤ 0 then (usage : ℚ) / 100
  else
    let ratio := (usage : ℚ) / budget
    if ratio < 0 then 0 else ratio

def leftRatio (usage budget : Int) : ℚ :=
  let left := 1 - usageRatio usage budget
  if left < 0 then 0 else if 1 < left then 1 else left

def workerLoadScore (info : WorkerInfo) : ℚ :=
  7 / 10 * usageRatio info.cpuUsage cpuUsageScale + 3 / 10 * usageRatio info.memUsage info.memBudget

def workerWeight (info : WorkerInfo) : ℚ :=
  7 / 10 * leftRatio info.cpuUsage cpuUsageScale + 3 / 10 * leftRatio info.memUsage info.memBudget

def hasCapacity (info : WorkerInfo) : Bool :=
  usageRatio info.cpuUsage cpuUsageScale < 1 ∧ usageRatio info.memUsage info.memBudget < 1

def isActiveWorker (c : WorkerCandidate) : Bool :=
  let workerStatus := toLower (trimSpace c.worker.status.text)
  let infoStatus := toLower (trimSpace ((c.info.map WorkerInfo.status).getD ""))
  if workerStatus = "" ∧ infoStatus = "" then true
  else if workerStatus ≠ "" ∧ workerStatus ≠ "active" then false
  else if infoStatus ≠ "" ∧ infoStatus ≠ "active" then false
  else true

def eligible (candidates : List WorkerCandidate) (activeOnly : Bool) :
    List (WorkerCandidate × WorkerInfo) :=
  candidates.filterMap fun c =>
    match c.info with
    | none => none
    | some info => if activeOnly && !isActiveWorker c then none else some (c, info)

def leastUsed : List (WorkerCandidate × WorkerInfo) → Option WorkerCandidate
  | [] => none
  | (c, info) :: rest =>
    (rest.foldl (fun best next =>
      if workerLoadScore next.2 < workerLoadScore best.2 then next else best) (c, info)).1

def pickLeastUsed (candidates : List WorkerCandidate) (activeOnly : Bool) :
    Option WorkerCandidate :=
  leastUsed (eligible candidates activeOnly)

def rollOver (roll : ℚ) : List (WorkerCandidate × ℚ) → Option WorkerCandidate
  -- the candidate the roll stops at, the last one if it passes them all
  | [] => none
  | [(c, _)] => some c
  | (c, weight) :: rest => if roll - weight ≤ 0 then some c else rollOver (roll - weight) rest

def pickWeightedRandom (draw : ℚ) (candidates : List WorkerCandidate) (activeOnly : Bool) :
    Option WorkerCandidate :=
  let weighted := (eligible candidates activeOnly).map fun c =>
    (c.1, if workerWeight c.2 < 0 then 0 else workerWeight c.2)
  let totalWeight := (weighted.map Prod.snd).sum
  if weighted = [] then none
  else if totalWeight ≤ 0 then pickLeastUsed candidates activeOnly
  else rollOver (draw * totalWeight) weighted

def chooseLeastUsedWorker (draw : ℚ) (candidates : List WorkerCandidate) :
    Except Err WorkerCandidate :=
  if candidates = [] then .error (.sentinel .noWorkerCandidates)
  else
    let active := eligible candidates true
    let withCapacity := (active.filter fun c => hasCapacity c.2).map Prod.fst
    if active ≠ [] ∧ withCapacity = [] then .error (.sentinel .clusterFull)
    else
      match pickWeightedRandom draw withCapacity true with
      | some best => .ok best
      | none =>
        match pickWeightedRandom draw candidates false with
        | some best => .ok best
        | none => .error (.sentinel .noWorkerCandidates)

theorem mem_eligible {candidates : List WorkerCandidate} {activeOnly : Bool} {c : WorkerCandidate}
    {info : WorkerInfo} : (c, info) ∈ eligible candidates activeOnly ↔
      c ∈ candidates ∧ c.info = some info ∧ (activeOnly = true → isActiveWorker c = true) := by
  simp only [eligible, List.mem_filterMap]
  constructor
  · rintro ⟨d, mem, found⟩
    split at found
    · cases found
    · rename_i informed
      split at found
      · cases found
      · cases found
        exact ⟨mem, informed, by simp_all⟩
  · rintro ⟨mem, informed, active⟩
    refine ⟨c, mem, ?_⟩
    cases activeOnly <;> simp_all

theorem eligible_eq_nil {candidates : List WorkerCandidate} {activeOnly : Bool} :
    eligible candidates activeOnly = [] ↔ ∀ c info, c ∈ candidates → c.info = some info →
      activeOnly = true ∧ isActiveWorker c = false := by
  rw [List.eq_nil_iff_forall_not_mem]
  constructor
  · intro nobody c info mem informed
    have left_out := fun active => nobody (c, info) (mem_eligible.2 ⟨mem, informed, active⟩)
    simpa using left_out
  · rintro inactive ⟨c, info⟩ found
    obtain ⟨mem, informed, active⟩ := mem_eligible.1 found
    obtain ⟨only, other⟩ := inactive c info mem informed
    exact absurd ((active only).symm.trans other) nofun

theorem mem_of_rollOver {roll : ℚ} {l : List (WorkerCandidate × ℚ)} {c : WorkerCandidate}
    (h : rollOver roll l = some c) : c ∈ l.map Prod.fst := by
  induction l generalizing roll with
  | nil => cases h
  | cons p rest ih =>
    obtain ⟨d, weight⟩ := p
    cases rest with
    | nil => simpa [rollOver, eq_comm] using h
    | cons q rest =>
      rw [rollOver] at h
      · split at h
        · simp_all
        · exact List.mem_cons_of_mem _ (ih h)
      · simp

theorem mem_foldl_least (l : List (WorkerCandidate × WorkerInfo)) (best) :
    l.foldl (fun best next =>
      if workerLoadScore next.2 < workerLoadScore best.2 then next else best) best ∈ best :: l := by
  induction l generalizing best with
  | nil => simp
  | cons next rest ih =>
    rw [List.foldl_cons]
    split
    · exact List.mem_cons_of_mem _ (ih next)
    · rcases List.mem_cons.1 (ih best) with same | later
      · rw [same]; exact List.mem_cons_self
      · exact List.mem_cons_of_mem _ (List.mem_cons_of_mem _ later)

theorem rollOver_isSome {roll : ℚ} {l : List (WorkerCandidate × ℚ)} (h : l ≠ []) :
    (rollOver roll l).isSome := by
  induction l generalizing roll with
  | nil => exact absurd rfl h
  | cons p rest ih =>
    cases rest with
    | nil => rfl
    | cons q rest =>
      rw [rollOver]
      · split
        · rfl
        · exact ih (List.cons_ne_nil q rest)
      · simp

theorem pickLeastUsed_eq_none {candidates : List WorkerCandidate} {activeOnly : Bool} :
    pickLeastUsed candidates activeOnly = none ↔ eligible candidates activeOnly = [] := by
  unfold pickLeastUsed leastUsed
  split <;> simp_all

theorem eligible_of_pickLeastUsed {candidates : List WorkerCandidate} {activeOnly : Bool}
    {c : WorkerCandidate} (h : pickLeastUsed candidates activeOnly = some c) :
    ∃ info, (c, info) ∈ eligible candidates activeOnly := by
  unfold pickLeastUsed leastUsed at h
  split at h
  · cases h
  · rename_i first info rest shape
    cases h
    rw [shape]
    exact ⟨_, mem_foldl_least rest (first, info)⟩

theorem pickWeightedRandom_eq_none {draw : ℚ} {candidates : List WorkerCandidate}
    {activeOnly : Bool} : pickWeightedRandom draw candidates activeOnly = none ↔
    eligible candidates activeOnly = [] := by
  unfold pickWeightedRandom
  dsimp only
  split
  · rename_i nobody
    simpa using nobody
  · rename_i somebody
    split
    · exact pickLeastUsed_eq_none
    · rw [← Option.not_isSome_iff_eq_none]
      simp only [rollOver_isSome somebody, not_true, false_iff]
      simpa using somebody

theorem eligible_of_pickWeightedRandom {draw : ℚ} {candidates : List WorkerCandidate}
    {activeOnly : Bool} {c : WorkerCandidate}
    (h : pickWeightedRandom draw candidates activeOnly = some c) :
    ∃ info, (c, info) ∈ eligible candidates activeOnly := by
  unfold pickWeightedRandom at h
  dsimp only at h
  split_ifs at h
  · exact eligible_of_pickLeastUsed h
  · have mem := mem_of_rollOver h
    rw [List.map_map] at mem
    obtain ⟨p, found, rfl⟩ := List.mem_map.1 mem
    exact ⟨p.2, found⟩

/-- Everything a choice can be. Nobody who is not active is chosen while some
candidate is. -/
inductive Choice (candidates : List WorkerCandidate) : Except Err WorkerCandidate → Prop
  | full {c : WorkerCandidate} {info : WorkerInfo} (mem : c ∈ candidates)
    (informed : c.info = some info)
      (active : isActiveWorker c = true)
      (saturated : ∀ d info, d ∈ candidates → d.info = some info → isActiveWorker d = true →
        hasCapacity info = false) : Choice candidates (.error (.sentinel .clusterFull))
  | nobody (silent : ∀ d ∈ candidates, d.info = none) :
      Choice candidates (.error (.sentinel .noWorkerCandidates))
  | active {c : WorkerCandidate} {info : WorkerInfo} (mem : c ∈ candidates)
    (informed : c.info = some info)
      (active : isActiveWorker c = true) (capacity : hasCapacity info = true) :
      Choice candidates (.ok c)
  | fallback {c : WorkerCandidate} {info : WorkerInfo} (mem : c ∈ candidates)
    (informed : c.info = some info)
      (inactive : ∀ d info, d ∈ candidates → d.info = some info → isActiveWorker d = false) :
      Choice candidates (.ok c)

theorem Choice.mem {candidates : List WorkerCandidate} {c : WorkerCandidate}
    (h : Choice candidates (.ok c)) : c ∈ candidates := by
  cases h with
  | active mem => exact mem
  | fallback mem => exact mem

theorem mem_withCapacity {candidates : List WorkerCandidate} {c : WorkerCandidate} :
    c ∈ ((eligible candidates true).filter fun c => hasCapacity c.2).map Prod.fst ↔
      ∃ info, c ∈ candidates ∧ c.info = some info ∧ isActiveWorker c = true ∧
      hasCapacity info = true := by
  simp [List.mem_filter, mem_eligible, and_assoc]

theorem choice (draw : ℚ) (candidates : List WorkerCandidate) :
    Choice candidates (chooseLeastUsedWorker draw candidates) := by
  unfold chooseLeastUsedWorker
  split
  · rename_i empty
    exact .nobody (by simp [empty])
  dsimp only
  split
  · rename_i saturated
    obtain ⟨⟨c, info⟩, some⟩ := List.exists_mem_of_ne_nil _ saturated.1
    obtain ⟨mem, informed, active⟩ := mem_eligible.1 some
    refine .full mem informed (active rfl) fun d info mem informed active => ?_
    by_contra capacity
    have found := mem_withCapacity.2 ⟨info, mem, informed, active, by simpa using capacity⟩
    rw [saturated.2] at found
    cases found
  · rename_i unsaturated
    split
    · rename_i best picked
      obtain ⟨_, found⟩ := eligible_of_pickWeightedRandom picked
      obtain ⟨info, mem, informed, active, capacity⟩ := mem_withCapacity.1 (mem_eligible.1 found).1
      exact .active mem informed active capacity
    · rename_i picked
      -- nobody with capacity is left, and so nobody active
      have empty : ((eligible candidates true).filter fun c =>
          hasCapacity c.2).map Prod.fst = [] := by
        rw [List.eq_nil_iff_forall_not_mem]
        intro c mem
        obtain ⟨info, -, informed, active, -⟩ := mem_withCapacity.1 mem
        have inactive := eligible_eq_nil.1 (pickWeightedRandom_eq_none.1 picked) c info mem informed
        exact absurd (active.symm.trans inactive.2) nofun
      have inactive : eligible candidates true = [] := by
        by_contra active
        exact unsaturated ⟨active, empty⟩
      split
      · rename_i best picked
        obtain ⟨info, found⟩ := eligible_of_pickWeightedRandom picked
        obtain ⟨mem, informed, -⟩ := mem_eligible.1 found
        exact .fallback mem informed fun d info mem informed =>
          (eligible_eq_nil.1 inactive d info mem informed).2
      · rename_i picked
        refine .nobody fun d mem => ?_
        cases informed : d.info with
        | none => rfl
        | some info =>
          cases (eligible_eq_nil.1 (pickWeightedRandom_eq_none.1 picked) d info mem informed).1

end Scheduler
end Fire2
