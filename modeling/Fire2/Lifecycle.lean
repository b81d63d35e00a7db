import Mathlib.Logic.Relation
import Fire2.Calls

/-! The life of a sandbox row as a transition system of its own, and the proof
that every statement of the repository moves each row along it. -/

namespace Fire2.Lifecycle
open SandboxRepository

def rank : Status → Nat
  | .pending => 0
  | .scheduling => 1
  | .assigned => 2
  | .starting => 3
  | .running => 4
  | .cleanupPending => 5
  | .failed | .stopped | .cleanedUp => 6

def Forward (a b : Status) : Prop := a = b ∨ rank a < rank b

theorem Forward.refl (a : Status) : Forward a a := .inl rfl

theorem Forward.le {a b : Status} (h : Forward a b) : rank a ≤ rank b := by
  rcases h with rfl | h
  · exact Nat.le_refl _
  · exact Nat.le_of_lt h

theorem Forward.trans {a b c : Status} (h : Forward a b) (k : Forward b c) : Forward a c := by
  rcases h with rfl | h
  · exact k
  · exact .inr (Nat.lt_of_lt_of_le h k.le)

theorem rank_le_six (a : Status) : rank a ≤ 6 := by
  cases a <;> decide

theorem rank_claimable {a : Status} (h : a ∈ Status.claimable) : rank a < 5 := by
  cases a <;> first | decide | simp [Status.claimable] at h

theorem rank_active {a : Status} (h : a ∈ Status.active) : 2 ≤ rank a ∧ rank a < 5 := by
  cases a <;> first | decide | simp [Status.active] at h

theorem claimable_of_rank {a : Status} (h : rank a < 5) : a ∈ Status.claimable := by
  cases a <;> first | decide | exact absurd h (by decide)

theorem claimable_of_active {a : Status} (h : a ∈ Status.active) : a ∈ Status.claimable :=
  claimable_of_rank (rank_active h).2

theorem rank_terminal {a : Status} : a ∈ Status.terminal ↔ rank a = 6 := by
  cases a <;> decide

theorem Forward.terminal {a b : Status} (h : Forward a b) (ha : a ∈ Status.terminal) : b = a := by
  rcases h with rfl | h
  · rfl
  · have top := rank_terminal.1 ha
    have bound := rank_le_six b
    omega

inductive Label where
  | schedule
  | assign (w : WorkerID) (now : Int)
  | start
  | confirm
  | seen (now : Int)
  | claim
  | clear
  | finish (target : Status)

inductive Move : Label → SandboxRow → SandboxRow → Prop
  | schedule {r : SandboxRow} (h : r.status = .pending) :
      Move .schedule r { r with status := .scheduling }
  | assign {r : SandboxRow} (w : WorkerID) (now : Int) (h : r.status = .scheduling) :
      Move (.assign w now) r
        { r with workerID := some w, status := .assigned, lastSeenAt := some now }
  | start {r : SandboxRow} (h : r.status = .assigned) :
      Move .start r { r with status := .starting }
  | confirm {r : SandboxRow} (h : r.status = .starting) :
      Move .confirm r { r with status := .running }
  | seen {r : SandboxRow} (now : Int) (h : r.status ∈ Status.active) :
      Move (.seen now) r { r with lastSeenAt := some now }
  | claim {r : SandboxRow} (h : r.status ∈ Status.claimable) :
      Move .claim r { r with status := .cleanupPending }
  | clear {r : SandboxRow} (h : r.status = .cleanupPending) :
      Move .clear r { r with workerID := none }
  | finish {r : SandboxRow} (target : Status) (h : r.status ∉ Status.terminal)
      (ht : target ∈ Status.terminal) : Move (.finish target) r { r with status := target }

abbrev Permit := SandboxID → SandboxRow → Label → Prop

def Permit.any : Permit := fun _ _ _ => True

def Steps (may : SandboxRow → Label → Prop) : SandboxRow → SandboxRow → Prop :=
  Relation.ReflTransGen fun r r' => ∃ l, may r l ∧ Move l r r'

theorem Steps.single {may : SandboxRow → Label → Prop} {l : Label} {r r' : SandboxRow}
    (permitted : may r l) (h : Move l r r') : Steps may r r' :=
  Relation.ReflTransGen.single ⟨l, permitted, h⟩

theorem Steps.mono {may may' : SandboxRow → Label → Prop} (h : ∀ r l, may r l → may' r l)
    {r r' : SandboxRow} (steps : Steps may r r') : Steps may' r r' :=
  Relation.ReflTransGen.mono (fun _ _ ⟨l, permitted, move⟩ => ⟨l, h _ l permitted, move⟩) r r' steps

section Moves
variable {may : SandboxRow → Label → Prop} {l : Label}

theorem Move.forward {r r' : SandboxRow} (h : Move l r r') : Forward r.status r'.status := by
  cases h with
  | schedule h => exact .inr (h ▸ Nat.zero_lt_one)
  | assign w now h => exact .inr (h ▸ Nat.one_lt_two)
  | start h => exact .inr (h ▸ Nat.lt_succ_self 2)
  | confirm h => exact .inr (h ▸ Nat.lt_succ_self 3)
  | seen now h => exact .refl _
  | claim h => exact .inr (rank_claimable h)
  | clear h => exact .refl _
  | finish target h ht =>
    have top := rank_terminal.1 ht
    have below : rank r.status ≠ 6 := fun e => h (rank_terminal.2 e)
    have bound := rank_le_six r.status
    exact .inr (show rank r.status < rank target by omega)

theorem Steps.forward {r r' : SandboxRow} (h : Steps may r r') : Forward r.status r'.status := by
  induction h with
  | refl => exact .refl _
  | tail _ last ih =>
    obtain ⟨l, -, step⟩ := last
    exact ih.trans step.forward

def Unassigned (r : SandboxRow) : Prop := rank r.status < 2 → r.workerID = none

/-- What any number of transitions leaves of a row: the status moved forward,
and the worker is the same, or was given for the first time, or is cleared. -/
structure Evolved (r r' : SandboxRow) : Prop where
  status : Forward r.status r'.status
  worker : r'.workerID = r.workerID ∨ (r.workerID = none ∧ rank r.status < 2 ∧ 2 ≤ rank r'.status) ∨
    (r'.workerID = none ∧ 5 ≤ rank r'.status)

theorem Evolved.refl (r : SandboxRow) : Evolved r r := ⟨.refl _, .inl rfl⟩

theorem Evolved.trans {a b c : SandboxRow} (h : Evolved a b) (k : Evolved b c) : Evolved a c := by
  have first := h.status.le
  have second := k.status.le
  refine ⟨h.status.trans k.status, ?_⟩
  rcases k.worker with same | ⟨free, low, high⟩ | cleared
  · rcases h.worker with same' | ⟨free, low, high⟩ | ⟨cleared, high⟩
    · exact .inl (same.trans same')
    · exact .inr (.inl ⟨free, low, by omega⟩)
    · exact .inr (.inr ⟨same.trans cleared, by omega⟩)
  · rcases h.worker with same' | ⟨-, -, high'⟩ | ⟨-, high'⟩
    · exact .inr (.inl ⟨same'.symm.trans free, by omega, high⟩)
    all_goals omega
  · exact .inr (.inr cleared)

theorem Move.evolved {r r' : SandboxRow} (free : Unassigned r) (h : Move l r r') :
    Unassigned r' ∧ Evolved r r' := by
  have forward := h.forward
  have higher := forward.le
  cases h with
  | schedule h => exact ⟨fun _ => free (h ▸ Nat.zero_lt_two), forward, .inl rfl⟩
  | assign w now h =>
    have none : r.workerID = none := free (h ▸ Nat.one_lt_two)
    refine ⟨fun low => absurd low (Nat.lt_irrefl 2), forward, .inr (.inl ⟨none, ?_, Nat.le_refl 2⟩)⟩
    exact h ▸ Nat.one_lt_two
  | clear h => exact ⟨fun _ => rfl, forward, .inr (.inr ⟨rfl, h ▸ Nat.le_refl 5⟩)⟩
  | start | confirm | seen | claim | finish =>
    exact ⟨fun low => free (Nat.lt_of_le_of_lt higher low), forward, .inl rfl⟩

theorem Steps.evolved {r r' : SandboxRow} (free : Unassigned r) (h : Steps may r r') :
    Unassigned r' ∧ Evolved r r' := by
  induction h with
  | refl => exact ⟨free, .refl _⟩
  | tail _ last ih =>
    obtain ⟨l, -, step⟩ := last
    obtain ⟨free', moved⟩ := step.evolved ih.1
    exact ⟨free', ih.2.trans moved⟩

theorem Evolved.same_worker {r r' : SandboxRow} (h : Evolved r r') {v w : WorkerID}
    (hv : r.workerID = some v) (hw : r'.workerID = some w) : w = v := by
  rcases h.worker with same | ⟨none, -⟩ | ⟨none, -⟩
  · exact Option.some.inj (hw.symm.trans (same.trans hv))
  · cases none.symm.trans hv
  · cases none.symm.trans hw

theorem Evolved.stays_cleared {a b c : SandboxRow} (h : Evolved a b) (k : Evolved b c)
    (had : a.workerID ≠ none) (cleared : b.workerID = none) : c.workerID = none := by
  have high : 5 ≤ rank b.status := by
    rcases h.worker with same | ⟨none, -⟩ | ⟨-, high⟩
    · exact absurd (same.symm.trans cleared) had
    · exact absurd none had
    · exact high
  rcases k.worker with same | ⟨-, low, -⟩ | ⟨none, -⟩
  · exact same.trans cleared
  · omega
  · exact none

end Moves

section Repository
variable {may : Permit} {db : Database} {id : SandboxID}

abbrev Lives (may : Permit) (db db' : Database) : Prop := Moves (fun k => Steps (may k)) db db'

theorem Lives.refl (db : Database) : Lives may db db := Moves.refl (fun _ _ => .refl) db

theorem Lives.trans {a b c : Database} (h : Lives may a b) (k : Lives may b c) :
    Lives may a c :=
  Moves.trans (fun _ _ _ _ => Relation.ReflTransGen.trans) h k

theorem lives_rewrite {p : SandboxID → SandboxRow → Prop} [∀ k r, Decidable (p k r)]
    {f : SandboxRow → SandboxRow} {l : Label}
    (h : ∀ k r, db.sandbox? k = some r → p k r → may k r l ∧ Move l r (f r)) :
    Lives may db (db.rewrite fun k r => if p k r then f r else r) := by
  refine Moves.of_rewrite fun k r row => ?_
  split
  · exact .single (h k r row ‹_›).1 (h k r row ‹_›).2
  · exact .refl

/-- The transitions a job or a handler may ask of UpdateStatus. -/
inductive Allowed : Status → List Status → Label → Prop
  | scheduling : Allowed .scheduling [.pending] .schedule
  | starting : Allowed .starting [.assigned] .start
  | running : Allowed .running [.starting] .confirm
  | claimed : Allowed .cleanupPending Status.claimable .claim
  | ended (target : Status) (h : target ∈ Status.terminal) : Allowed target
      [.cleanupPending, .pending, .scheduling, .assigned, .starting, .running] (.finish target)

theorem Allowed.move {status : Status} {allowedFrom : List Status} {l : Label}
    (h : Allowed status allowedFrom l) {r : SandboxRow} (hr : r.status ∈ allowedFrom) :
    Move l r { r with status } := by
  cases h with
  | scheduling => exact .schedule (by simpa using hr)
  | starting => exact .start (by simpa using hr)
  | running => exact .confirm (by simpa using hr)
  | claimed => exact .claim hr
  | ended _ ht =>
    refine .finish status (fun terminal => ?_) ht
    cases hs : r.status <;> simp_all [Status.terminal]

theorem updateStatus_lives {status : Status} {allowedFrom : List Status} {l : Label}
    (h : Allowed status allowedFrom l) (permitted : ∀ r, db.sandbox? id = some r → may id r l) :
    Lives may db (updateStatus id status allowedFrom db).2 := by
  have moved : Lives may db (db.rewrite fun k r =>
      if k = id ∧ r.status ∈ allowedFrom then { r with status } else r) := by
    refine lives_rewrite (l := l) ?_
    rintro k r row ⟨rfl, allowed⟩
    exact ⟨permitted r row, h.move allowed⟩
  unfold updateStatus
  split
  · exact .refl db
  · dsimp only
    split <;> exact moved

theorem confirm_or_same {may : SandboxRow → Label → Prop} {r : SandboxRow}
    (h : r.status ∈ [Status.starting, .running]) (permitted : may r .confirm) :
    Steps may r { r with status := .running } := by
  obtain starting | running : r.status = .starting ∨ r.status = .running := by simpa using h
  · exact .single permitted (.confirm starting)
  · rw [← running]
    exact .refl

theorem updateStatusFenced_lives {workerID : WorkerID} {token : Int}
    (permitted : ∀ r, db.sandbox? id = some r → r.workerID = some workerID → may id r .confirm) :
    Lives may db (updateStatusFenced id workerID token .running [.starting, .running] db).2 := by
  refine Moves.of_rewrite fun k r row => ?_
  split
  · rename_i due
    simp only [Bool.and_eq_true, decide_eq_true_eq] at due
    obtain ⟨⟨rfl, held, status⟩, -⟩ := due
    exact confirm_or_same status (permitted r row held)
  · exact .refl

theorem claimToCleanup_lives {due : SandboxID → SandboxRow → Bool}
    (h : ∀ k r, db.sandbox? k = some r → due k r = true →
      r.status ∈ Status.claimable ∧ may k r .claim) :
    Lives may db (claimToCleanup due db).2 :=
  lives_rewrite fun k r row hr => ⟨(h k r row hr).2, .claim (h k r row hr).1⟩

theorem ttlExpired_claimable {now : Int} {r : SandboxRow} (h : ttlExpired now r = true) :
    r.status ∈ Status.claimable := by
  simp only [ttlExpired, decide_eq_true_eq] at h
  exact h.1

theorem livenessExpired_active {now livenessTimeout workerLostTimeout : Int} {r : SandboxRow}
    (h : livenessExpired now livenessTimeout workerLostTimeout db r = true) :
    r.status ∈ Status.active := by
  unfold livenessExpired at h
  split at h
  · simp only [Bool.and_eq_true, decide_eq_true_eq] at h
    exact h.1
  · cases h

theorem stalledCreation_claimable {now timeout : Int} {r : SandboxRow}
    (h : stalledCreation now timeout r = true) : r.status ∈ Status.claimable := by
  simp only [stalledCreation, decide_eq_true_eq] at h
  have early := h.1
  apply claimable_of_rank
  obtain e | e : r.status = .pending ∨ r.status = .scheduling := by simpa using early
  all_goals rw [e]; decide

theorem activeOn_active {workerID : WorkerID} {r : SandboxRow} (h : activeOn workerID r = true) :
    r.workerID = some workerID ∧ r.status ∈ Status.active := by
  simpa only [activeOn, decide_eq_true_eq] using h

section Reaper
variable {now : Int} {locked : SandboxID → Bool} (permitted : ∀ k r, may k r .claim)
include permitted

theorem claimTTLExpired_lives : Lives may db (claimTTLExpired now locked db).2 :=
  claimToCleanup_lives fun k r _ h =>
    ⟨ttlExpired_claimable (Bool.and_eq_true_iff.1 h).1, permitted k r⟩

theorem claimLivenessExpired_lives {livenessTimeout workerLostTimeout : Int} :
    Lives may db (claimLivenessExpired now locked livenessTimeout workerLostTimeout db).2 := by
  unfold claimLivenessExpired
  split
  · exact .refl db
  · exact claimToCleanup_lives fun k r _ h =>
      ⟨claimable_of_active (livenessExpired_active (Bool.and_eq_true_iff.1 h).1), permitted k r⟩

theorem claimStalledCreation_lives {timeout : Int} :
    Lives may db (claimStalledCreation now locked timeout db).2 := by
  unfold claimStalledCreation
  split
  · exact .refl db
  · exact claimToCleanup_lives fun k r _ h =>
      ⟨stalledCreation_claimable (Bool.and_eq_true_iff.1 h).1, permitted k r⟩

end Reaper
section Inventories
variable {workerID : WorkerID} {ids : List SandboxID}

theorem claimLost_lives (permitted : ∀ k r, r.workerID = some workerID → may k r .claim) :
    Lives may db (claimLost workerID ids db).2 := by
  refine claimToCleanup_lives fun k r _ h => ?_
  simp only [Bool.and_eq_true] at h
  obtain ⟨held, active⟩ := activeOn_active h.1.1
  exact ⟨claimable_of_active active, permitted k r held⟩

theorem refreshSeen_lives {now : Int}
    (permitted : ∀ k r, r.workerID = some workerID → k ∈ ids → may k r (.seen now)) :
    Lives may db (refreshSeen now workerID ids db) := by
  refine lives_rewrite (l := .seen now) fun k r _ h => ?_
  obtain ⟨held, active⟩ := activeOn_active h.1
  exact ⟨permitted k r held h.2, .seen now active⟩

theorem confirmRunning_lives
    (permitted : ∀ k r, r.workerID = some workerID → k ∈ ids → may k r .confirm) :
    Lives may db (confirmRunning workerID ids db) :=
  lives_rewrite fun k r _ h => ⟨permitted k r h.1 h.2.1, .confirm h.2.2⟩

theorem claimDead_lives (permitted : ∀ k r, r.workerID = some workerID → may k r .claim) :
    Lives may db (claimDead workerID ids db).2 := by
  refine claimToCleanup_lives fun k r _ h => ?_
  obtain ⟨held, active⟩ := activeOn_active (Bool.and_eq_true_iff.1 h).1
  exact ⟨claimable_of_active active, permitted k r held⟩

/-- What an accepted inventory may do to the sandboxes of its worker. -/
structure Reconciles (may : Permit) (now : Int) (workerID : WorkerID) (inv : Inventory) : Prop where
  seen : ∀ k r, r.workerID = some workerID → k ∈ inv.live ++ inv.running → may k r (.seen now)
  confirm : ∀ k r, r.workerID = some workerID → k ∈ inv.running → may k r .confirm
  claim : ∀ k r, r.workerID = some workerID → may k r .claim

theorem listed_lives {now : Int} {inv : Inventory} (h : Reconciles may now workerID inv) :
    Lives may db (claimDead workerID inv.dead (confirmRunning workerID inv.running
      (refreshSeen now workerID (inv.live ++ inv.running) db))).2 :=
  ((refreshSeen_lives h.seen).trans (confirmRunning_lives h.confirm)).trans
    (claimDead_lives h.claim)

theorem reconcileInventory_lives {now : Int} {first : Bool} {inv : Inventory}
    (h : Reconciles may now workerID inv) :
    Lives may db (reconcileInventory now workerID first inv db).2 := by
  have lost : Lives may db (if first then claimLost workerID inv.ids db else ([], db)).2 := by
    split
    · exact claimLost_lives h.claim
    · exact .refl db
  unfold reconcileInventory
  dsimp only
  split
  · exact lost
  · exact lost.trans (listed_lives h)

end Inventories

theorem assignWorker_lives {workerID : WorkerID} {now : Int}
    (permitted : ∀ r, db.sandbox? id = some r → may id r (.assign workerID now)) :
    Lives may db (assignWorker now id workerID db).2 := by
  unfold assignWorker
  split
  · exact .refl db
  split
  · exact .refl db
  rename_i r row
  split
  · rename_i scheduling
    split
    · refine Moves.of_rewrite fun k old found => ?_
      split
      · rename_i same
        subst same
        cases row.symm.trans found
        exact .single (permitted r row) (.assign workerID now scheduling)
      · exact .refl
    · exact .refl db
  · exact .refl db

theorem clearWorker_lives (permitted : ∀ r, db.sandbox? id = some r → may id r .clear) :
    Lives may db (clearWorker id db) := by
  refine lives_rewrite (l := .clear) ?_
  rintro k r row ⟨rfl, pending⟩
  exact ⟨permitted r row, .clear pending⟩

end Repository
end Fire2.Lifecycle
