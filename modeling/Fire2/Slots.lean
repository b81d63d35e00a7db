import Fire2.Budgets
import Fire2.ManagerSafety

/-! How many sandboxes the Manager of a worker lets in, of those its machine has
room for. -/

namespace Fire2.SandboxMgr
open Interleaving

def hosting (host : Table SandboxID Remnant) (capacity : Int) : Manager :=
  { booting host with stage := .serving, capacity }

def sized (capacity : Int) (x : Event) (_ : Manager) : Bool :=
  -- the worker goes on in one process, and every heartbeat sets the same capacity
  match x with
  | .restart => false
  | .setCapacity c => c = capacity
  | _ => true

/-- The Manager serves, under its capacity. -/
structure Fitting (slots : Int) (s : Manager) : Prop where
  stage : s.stage = .serving
  capacity : s.capacity = slots
  tracked : s.services.rows.length ≤ slots

section Steps
variable {i : Nat} {c : Call} {e : Env} {s t : Manager} {slots : Int}

structure Lodges (s t : Manager) : Prop where
  stage : s.stage = .serving → t.stage = .serving
  capacity : t.capacity = s.capacity
  tracked : t.services.rows.length ≤ s.services.rows.length

theorem Lodges.refl (s : Manager) : Lodges s s := ⟨id, rfl, Nat.le_refl _⟩

theorem Lodges.fitting (h : Lodges s t) (fits : Fitting slots s) : Fitting slots t :=
  ⟨h.stage fits.stage, h.capacity.trans fits.capacity,
    (Int.ofNat_le.2 h.tracked).trans fits.tracked⟩

theorem length_erase_le (t : Table SandboxID Entry) (id : SandboxID) :
    (t.erase id).rows.length ≤ t.rows.length := List.length_filter_le _ _

theorem length_set_tracked {t : Table SandboxID Entry} {id : SandboxID} {old : Entry} (v : Entry)
    (found : t.get? id = some old) : (t.set id v).rows.length ≤ t.rows.length := by
  have mem := (Table.get?_eq_some_iff t id old).1 found
  have shorter : (t.erase id).rows.length < t.rows.length :=
    List.length_filter_lt_length_iff_exists.2 ⟨_, mem, by simp⟩
  exact shorter

theorem forget_lodges (id : SandboxID) (ref : Ref) : Lodges s (s.forget id ref) := by
  unfold Manager.forget
  split
  · split
    · exact ⟨fun h => h, rfl, length_erase_le _ _⟩
    · exact .refl s
  · exact .refl s

theorem claim_lodges (id : SandboxID) : Lodges s (s.claim i id).2 := by
  unfold Manager.claim
  split
  · exact .refl s
  split
  · exact ⟨fun h => h, rfl, Nat.le_refl _⟩
  · exact ⟨fun h => h, rfl, length_erase_le _ _⟩

theorem report_lodges (ref : Ref) (id : SandboxID) (state : SandboxState) :
    Lodges s (s.report ref id state).2 := by
  unfold Manager.report
  split
  · rename_i entry found
    split
    · exact ⟨fun h => h, rfl, length_set_tracked _ found⟩
    · exact .refl s
  · exact .refl s

theorem claimOrphans_lodges (ids : List SandboxID) (s : Manager) :
    Lodges s (s.claimOrphans i ids).2 := by
  rw [claimOrphans_frame]
  exact ⟨fun h => h, rfl, Nat.le_refl _⟩

theorem emit_lodges (id : SandboxID) (state : SandboxState) : Lodges s (s.emit id state) := by
  unfold Manager.emit
  split
  · exact ⟨fun h => h, rfl, Nat.le_refl _⟩
  · exact .refl s

theorem register_fitting (input : CreateInput) (positive : 0 < slots) (fits : Fitting slots s) :
    Fitting slots (s.register i input).2 := by
  unfold Manager.register
  split
  · exact fits
  split
  · exact fits
  split
  · exact fits
  rename_i room
  refine ⟨fits.stage, fits.capacity, ?_⟩
  rw [fits.capacity] at room
  have free : (s.services.rows.length : Int) < slots := by
    simp only [Manager.hosted] at room
    omega
  have added := length_erase_le s.services input.id
  change ((((s.services.erase input.id).rows.length + 1 : Nat)) : Int) ≤ slots
  omega

theorem perform_fitting [Uuid] {a : c.Answer} (positive : 0 < slots) (ok : may unassuming i s c)
    (h : perform i c e s = some (a, t)) (fits : Fitting slots s) : Fitting slots t := by
  cases perform_effect h with
  | register input => exact register_fitting input positive fits
  | forget id ref => exact (forget_lodges id ref).fitting fits
  | claim id => exact (claim_lodges id).fitting fits
  | claimOrphans ids => exact (claimOrphans_lodges ids s).fitting fits
  | adopt id state => cases fits.stage.symm.trans ok.1
  | report ref state id => exact (report_lodges ref id state).fitting fits
  | markDead =>
    exact ⟨fits.stage, fits.capacity, by simpa [Manager.markDead, Table.update] using fits.tracked⟩
  | emit id state => exact (emit_lodges id state).fitting fits
  | serveRequests => exact ⟨rfl, fits.capacity, fits.tracked⟩
  | release | service | vm | reap => exact ⟨fits.stage, fits.capacity, fits.tracked⟩
  | read => exact fits

theorem begin_lodges {k : Kind} (h : begin i k s = some t) (serving : s.stage = .serving) :
    Lodges s t := by
  cases k with
  | startup => simp [begin, serving] at h
  | serve ref wake =>
    simp only [begin, Option.bind_eq_some_iff, Option.ite_none_right_eq_some] at h
    obtain ⟨svc, -, -, eq⟩ := h
    cases eq
    exact ⟨fun h => h, rfl, Nat.le_refl _⟩
  | create _ | stop _ | remove _ | reconcileDisk | checkLiveness =>
    simp only [begin, Option.ite_none_right_eq_some] at h
    obtain ⟨-, eq⟩ := h
    cases eq
    exact ⟨fun h => h, rfl, Nat.le_refl _⟩

theorem happen_fitting {x : Event} (meant : sized slots x s = true) (fits : Fitting slots s) :
    Fitting slots (happen x s) := by
  cases x with
  | restart => cases meant
  | setCapacity c => exact ⟨fits.stage, of_decide_eq_true meant, fits.tracked⟩
  | vmExit _ | cancel | takeEvent => exact ⟨fits.stage, fits.capacity, fits.tracked⟩

end Steps

section Runs
variable [Uuid] {host : Table SandboxID Remnant} {slots : Int} {s t : State}

theorem hosting_sane : Sane unassuming (hosting host slots) := by
  have none {P : Prop} {ref : Ref} {svc : Service}
      (h : (hosting host slots).heap ref = some svc) : P :=
    nomatch h
  exact ⟨⟨nofun, fun _ _ h => none h, fun _ _ _ _ _ h => none h, fun _ _ _ _ h => none h,
    fun _ _ h => none h, fun _ _ _ _ h => none h, fun _ _ h => none h, fun _ _ => rfl,
    nofun, fun _ => Nat.le_refl 0⟩, False.elim, False.elim⟩

theorem fitting_step {a : Action Kind Env Event} (positive : 0 < slots)
    (safe : system.Safe (spec unassuming) (Answers unassuming) s)
    (met : System.Meets (fun _ _ _ _ => true = true) (fun x v => sized slots x v = true) s a)
    (h : system.step s a = some t) (fits : Fitting slots s.shared) : Fitting slots t.shared := by
  obtain ⟨k, v, rfl, started, rfl⟩ | ⟨i, e, k, c, f, r, v, rfl, thread, ran, rfl⟩ |
    ⟨i, th, -, -, stopped, -⟩ | ⟨x, v, rfl, happened, rfl⟩ := System.step_cases h
  · exact (begin_lodges started fits.stage).fitting fits
  · obtain ⟨current, ran⟩ := exec_eq_some ran
    exact perform_fitting positive
      (System.safe_pre (disciplined unassuming) safe thread current) ran fits
  · cases stopped
  · cases happened
    exact happen_fitting met fits

theorem fitting_run (positive : 0 < slots)
    (run : system.ReachesWhen (fun _ _ _ _ => true) (sized slots)
      (System.init (hosting host slots)) s) :
    Fitting slots s.shared := by
  have both : system.Safe (spec unassuming) (Answers unassuming) s ∧ Fitting slots s.shared := by
    induction run with
    | refl =>
      exact ⟨System.safe_init hosting_sane, rfl, rfl, by simpa [hosting, booting, Table.empty,
        System.init] using positive.le⟩
    | tail _ last ih =>
      obtain ⟨a, met, step⟩ := last
      exact ⟨(System.safe_step (disciplined unassuming) ih.1
          (System.meets_of_forall unassuming_meets (fun _ _ => trivial) a) step).1,
        fitting_step positive ih.1 met step ih.2⟩
  exact both.2

end Runs

/-- A worker whose machine has room for one sandbox at all never tracks more than
the capacity it was told, nor than its machine has room for. -/
theorem hosts_within_capacity [Uuid] (maxSandboxes : String) {cpu mem : Int64}
    (room : roomy cpu mem = true) {host : Table SandboxID Remnant} {s : State}
    (run : system.ReachesWhen (fun _ _ _ _ => true)
      (sized (computeCapacity maxSandboxes cpu mem).toInt)
      (System.init (hosting host (computeCapacity maxSandboxes cpu mem).toInt)) s) :
    s.shared.services.rows.length ≤ (computeCapacity maxSandboxes cpu mem).toInt ∧
    (0 < s.shared.services.rows.length →
      s.shared.services.rows.length * (sandboxMemMiB + sandboxOverheadMiB) + memReserveMiB
        ≤ mem.toInt ∧
      s.shared.services.rows.length * sandboxVcpu ≤ cpu.toInt) := by
  obtain ⟨positive, cpus, memory⟩ := computeCapacity_within maxSandboxes room
  have tracked := (fitting_run positive run).tracked
  refine ⟨tracked, fun _ => ⟨?_, ?_⟩⟩
  · change (s.shared.services.rows.length : Int) * 320 + 384 ≤ mem.toInt
    omega
  · change (s.shared.services.rows.length : Int) * 1 ≤ cpu.toInt
    omega

open Uuid.Standard in
theorem hosts_within_capacity_one : ∃ s,
    system.ReachesWhen (fun _ _ _ _ => true) (sized (computeCapacity "" 2 4096).toInt)
      (System.init (hosting .empty (computeCapacity "" 2 4096).toInt)) s ∧
    s.shared.services.rows.length = 1 ∧
    s.shared.services.rows.length * (sandboxMemMiB + sandboxOverheadMiB) + memReserveMiB
      ≤ (4096 : Int64).toInt := by
  -- a machine of 4 GiB and two cores is given two slots, and one Create was let in
  have run : (system.runIf (fun _ _ _ _ => true) (sized (computeCapacity "" 2 4096).toInt)
      (System.init (hosting .empty (computeCapacity "" 2 4096).toInt))
      [.spawn (.create someInput), .call 0 {}]).map
      (fun s => s.shared.services.rows.length) = some 1 := by
    decide +kernel
  obtain ⟨s, hs, one⟩ := Option.map_eq_some_iff.1 run
  have reached := System.reachesWhen_of_runIf hs
  exact ⟨s, reached, one, ((hosts_within_capacity "" (by decide) reached).2 (by omega)).1⟩

open Uuid.Standard in
theorem unlimited_without_slots : computeCapacity "" 1 300 = 0 ∧ ∃ s,
    system.ReachesWhen (fun _ _ _ _ => true) (sized (computeCapacity "" 1 300).toInt)
      (System.init (hosting .empty (computeCapacity "" 1 300).toInt)) s ∧
    s.shared.services.rows.length = 1 := by
  -- a machine of 300 MiB is given no slot, which Create reads as no limit
  refine ⟨by decide, ?_⟩
  have run : (system.runIf (fun _ _ _ _ => true) (sized (computeCapacity "" 1 300).toInt)
      (System.init (hosting .empty (computeCapacity "" 1 300).toInt))
      [.spawn (.create someInput), .call 0 {}]).map
      (fun s => s.shared.services.rows.length) = some 1 := by
    decide +kernel
  obtain ⟨s, hs, one⟩ := Option.map_eq_some_iff.1 run
  exact ⟨s, System.reachesWhen_of_runIf hs, one⟩

/-- The Manager serves without a limit, and removes nothing. -/
structure Boundless (s : Manager) : Prop where
  stage : s.stage = .serving
  capacity : s.capacity ≤ 0
  deleting : s.deleting = .empty

section Unlimited
variable {s t : State} {id : SandboxID} {slots : Int}

theorem register_boundless {s : Manager} (h : Boundless s) (i : Nat) (input : CreateInput) :
    Boundless (s.register i input).2 ∧ (s.register i input).2.tracks input.id = true ∧
      ∀ k, s.tracks k = true → (s.register i input).2.tracks k = true := by
  have free : s.deletes input.id = false := by simp [Manager.deletes, h.deleting]
  have unlimited : ¬ (0 < s.capacity ∧ s.capacity ≤ s.hosted) := fun full => by
    have := h.capacity
    omega
  unfold Manager.register
  by_cases tracked : s.tracks input.id = true
  · simpa [tracked] using h
  · simp only [tracked, free, unlimited, if_false, Bool.false_eq_true]
    refine ⟨⟨h.stage, h.capacity, h.deleting⟩, by simp [Manager.tracks], fun k there => ?_⟩
    simp only [Manager.tracks, Table.get?_set] at there ⊢
    split
    · rfl
    · exact there

theorem create_enters [Uuid] (h : Boundless s.shared) (valid : Host.isSandboxID id = true) :
    ∃ t, system.ReachesWhen (fun _ _ _ _ => true) (sized slots) s t ∧ Boundless t.shared ∧
      t.shared.tracks id = true ∧ ∀ k, s.shared.tracks k = true → t.shared.tracks k = true := by
  let input : CreateInput := ⟨id, 1, 256⟩
  let v : Manager := { s.shared with born := Function.update s.shared.born s.next s.shared.process }
  have asks : ∃ f, body (.create input) = .call (.register input) f := by
    have checked : checkSandboxID input.id = none := by simp [checkSandboxID, input, valid]
    change ∃ f, Manager.create input = _
    unfold Manager.create
    rw [checked]
    exact ⟨_, rfl⟩
  obtain ⟨f, asks⟩ := asks
  let begun : State :=
    ⟨v, s.next + 1, Function.update s.threads s.next
      (some ⟨.create input, .call (.register input) f⟩)⟩
  have spawned : system.step s (.spawn (.create input)) = some begun := by
    simp [System.step, system, begin, h.stage, v, begun, asks]
  have called : system.step begun (.call s.next {}) = some ⟨(v.register s.next input).2, s.next + 1,
      Function.update begun.threads s.next
      (some ⟨.create input, f (v.register s.next input).1⟩)⟩ := by
    simp [System.step, system, exec, perform, begun, v]
  obtain ⟨boundless, entered, kept⟩ := register_boundless (s := v) ⟨h.stage, h.capacity, h.deleting⟩
    s.next input
  have first : system.ReachesWhen (fun _ _ _ _ => true) (sized slots) s begun :=
    .single ⟨.spawn (.create input), trivial, spawned⟩
  exact ⟨_, first.tail ⟨.call s.next {}, fun _ _ _ _ => rfl, called⟩, boundless, entered, kept⟩

theorem creates_enter [Uuid] (ids : List SandboxID) (h : Boundless s.shared)
    (valid : ∀ id ∈ ids, Host.isSandboxID id = true) :
    ∃ t, system.ReachesWhen (fun _ _ _ _ => true) (sized slots) s t ∧
      (∀ id ∈ ids, t.shared.tracks id = true) ∧
      ∀ k, s.shared.tracks k = true → t.shared.tracks k = true := by
  induction ids generalizing s with
  | nil => exact ⟨s, .refl, by simp, fun _ there => there⟩
  | cons id ids ih =>
    obtain ⟨v, first, boundless, entered, kept⟩ := create_enters h (valid id (by simp))
    obtain ⟨t, rest, all, kept'⟩ := ih boundless fun k mem => valid k (by simp [mem])
    refine ⟨t, first.trans rest, List.forall_mem_cons.2 ⟨kept' id entered, all⟩, fun k there => ?_⟩
    exact kept' k (kept k there)

end Unlimited

/-- A worker whose machine has no room for one sandbox lets in any of them. -/
theorem no_room_no_limit [Uuid] (maxSandboxes : String) {cpu mem : Int64} (budget : 0 ≤ mem.toInt)
    (room : roomy cpu mem = false) (host : Table SandboxID Remnant) (ids : List SandboxID)
    (valid : ∀ id ∈ ids, Host.isSandboxID id = true) :
    ∃ s, system.ReachesWhen (fun _ _ _ _ => true)
        (sized (computeCapacity maxSandboxes cpu mem).toInt)
      (System.init (hosting host (computeCapacity maxSandboxes cpu mem).toInt)) s ∧
      ∀ id ∈ ids, s.shared.tracks id = true := by
  have boundless : Boundless (hosting host (computeCapacity maxSandboxes cpu mem).toInt) :=
    ⟨rfl, computeCapacity_none maxSandboxes budget room, rfl⟩
  obtain ⟨s, reached, all, -⟩ := creates_enter
    (s := System.init (hosting host _)) ids boundless valid
  exact ⟨s, reached, all⟩

end Fire2.SandboxMgr
