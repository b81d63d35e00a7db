import Fire2.Decimal

/-! The slots of a worker: the size of one, and how many its machine has room
for. -/

namespace Fire2

def sandboxVcpu : Int := 1
def sandboxMemMiB : Int := 256
def sandboxOverheadMiB : Int := 64
def memReserveMiB : Int := 384

/-- The scarcer of CPU and memory decides. `maxSandboxes` is the text of
WORKER_MAX_SANDBOXES, empty when it is not set. -/
def computeCapacity (maxSandboxes : String) (cpuBudget memBudgetMiB : Int64) : Int64 :=
  let byCPU := cpuBudget / .ofInt sandboxVcpu
  let byMem := (memBudgetMiB - .ofInt memReserveMiB) / .ofInt (sandboxMemMiB + sandboxOverheadMiB)
  let capacity := min byCPU byMem
  let capacity := if capacity < 0 then 0 else capacity
  match Decimal.atoi maxSandboxes with
  | some v => if 0 < v then min (Int64.ofInt v) capacity else capacity
  | none => capacity

def roomy (cpuBudget memBudgetMiB : Int64) : Bool :=
  sandboxVcpu ≤ cpuBudget.toInt &&
    memReserveMiB + (sandboxMemMiB + sandboxOverheadMiB) ≤ memBudgetMiB.toInt

variable {cpu mem : Int64}

theorem toInt_min (a b : Int64) : (min a b).toInt = min a.toInt b.toInt := by
  have unfolded : min a b = if a ≤ b then a else b := rfl
  rw [unfolded]
  split
  · rename_i le
    exact (min_eq_left (Int64.le_iff_toInt_le.1 le)).symm
  · rename_i gt
    have gt : ¬ a.toInt ≤ b.toInt := fun le => gt (Int64.le_iff_toInt_le.2 le)
    exact (min_eq_right (by omega)).symm

theorem roomy_iff : roomy cpu mem = true ↔ 1 ≤ cpu.toInt ∧ 704 ≤ mem.toInt := by
  simp only [roomy, Bool.and_eq_true, decide_eq_true_eq]
  rfl

theorem atoi_bounds {text : String} {v : Int} (h : Decimal.atoi text = some v) :
    Decimal.int64 v := by
  simp only [Decimal.atoi, Option.ite_none_left_eq_some, Option.ite_none_right_eq_some,
    Option.some.injEq] at h
  obtain ⟨-, bounds, rfl⟩ := h
  exact bounds

def affordable (cpu mem : Int64) : Int := max 0 (min cpu.toInt ((mem.toInt - 384).tdiv 320))

theorem computed_toInt (cpu : Int64) (unwrapped : -2 ^ 63 + 384 ≤ mem.toInt) :
    (let capacity := min (cpu / .ofInt sandboxVcpu)
        ((mem - .ofInt memReserveMiB) / .ofInt (sandboxMemMiB + sandboxOverheadMiB))
      if capacity < 0 then 0 else capacity).toInt = affordable cpu mem := by
  have below := mem.toInt_lt
  have reserve : (mem - .ofInt memReserveMiB).toInt = mem.toInt - 384 := by
    rw [Int64.toInt_sub]
    exact Int.bmod_eq_of_le (by change _ ≤ mem.toInt - 384; omega)
      (by change mem.toInt - 384 < _; omega)
  have scarcer : (min (cpu / .ofInt sandboxVcpu)
      ((mem - .ofInt memReserveMiB) / .ofInt (sandboxMemMiB + sandboxOverheadMiB))).toInt =
      min cpu.toInt ((mem.toInt - 384).tdiv 320) := by
    rw [toInt_min, Int64.toInt_div_of_ne_right _ _ (by decide),
      Int64.toInt_div_of_ne_right _ _ (by decide), reserve]
    exact congrArg (min · _) (Int.tdiv_one _)
  dsimp only
  unfold affordable
  split
  · rename_i negative
    have := Int64.lt_iff_toInt_lt.1 negative
    change _ < (0 : Int) at this
    rw [← scarcer]
    exact (max_eq_left (Int.le_of_lt this)).symm
  · rename_i positive
    have : ¬ _ < (0 : Int) := fun lt => positive (Int64.lt_iff_toInt_lt.2 lt)
    rw [scarcer] at this ⊢
    omega

/-- WORKER_MAX_SANDBOXES can only lower what the budgets allow, and not to zero. -/
theorem computeCapacity_bounds (maxSandboxes : String) (cpu : Int64)
    (unwrapped : -2 ^ 63 + 384 ≤ mem.toInt) :
    (computeCapacity maxSandboxes cpu mem).toInt ≤ affordable cpu mem ∧
      (0 < (computeCapacity maxSandboxes cpu mem).toInt ↔ 0 < affordable cpu mem) := by
  have computed := computed_toInt cpu unwrapped
  unfold computeCapacity
  dsimp only at computed ⊢
  split
  · rename_i v read
    split
    · rename_i given
      have value : (Int64.ofInt v).toInt = v :=
        Int64.toInt_ofInt_of_le (atoi_bounds read).1 (atoi_bounds read).2
      rw [toInt_min, value, computed]
      omega
    · rw [computed]
      omega
  · rw [computed]
    omega

theorem computeCapacity_within (maxSandboxes : String) (room : roomy cpu mem = true) :
    0 < (computeCapacity maxSandboxes cpu mem).toInt ∧
    (computeCapacity maxSandboxes cpu mem).toInt ≤ cpu.toInt ∧
    (computeCapacity maxSandboxes cpu mem).toInt * 320 + 384 ≤ mem.toInt := by
  obtain ⟨cpus, memory⟩ := roomy_iff.1 room
  obtain ⟨le, pos⟩ := computeCapacity_bounds maxSandboxes cpu
    (by omega : -2 ^ 63 + 384 ≤ mem.toInt)
  unfold affordable at le pos
  rw [Int.tdiv_eq_ediv_of_nonneg (by omega)] at le pos
  omega

theorem computeCapacity_none (maxSandboxes : String) (budget : 0 ≤ mem.toInt)
    (room : roomy cpu mem = false) : (computeCapacity maxSandboxes cpu mem).toInt ≤ 0 := by
  have le := (computeCapacity_bounds maxSandboxes cpu
    (by omega : -2 ^ 63 + 384 ≤ mem.toInt)).1
  have scarce : ¬ (1 ≤ cpu.toInt ∧ 704 ≤ mem.toInt) := fun h => by
    cases room.symm.trans (roomy_iff.2 h)
  have short (less : mem.toInt < 704) : (mem.toInt - 384).tdiv 320 ≤ 0 := by
    by_cases reserve : 384 ≤ mem.toInt
    · rw [Int.tdiv_eq_ediv_of_nonneg (by omega)]
      omega
    · rw [← Int.neg_neg (mem.toInt - 384), Int.neg_tdiv, Int.tdiv_eq_ediv_of_nonneg (by omega)]
      omega
  unfold affordable at le
  omega

end Fire2
