import Mathlib.Data.List.Induction
import Mathlib.Data.List.TakeWhile
import Fire2.Handlers

/-! Inventory reconciliation, row by row. The five statements of
`ReconcileInventory` run one after the other, each over what the one before it
left. An inventory lists an ID once, so what they amount to for one row is
`reconciled`. -/

namespace Fire2

section Trim

theorem ofList_eq_empty {l : List Char} : String.ofList l = "" ↔ l = [] := by
  constructor
  · intro h
    simpa using congrArg String.toList h
  · rintro rfl
    rfl

theorem not_all_dropWhile {α : Type} {p : α → Bool} {l : List α} (h : l.dropWhile p ≠ []) :
    ¬ ∀ a ∈ l.dropWhile p, p a = true := by
  intro all
  have first := List.head_dropWhile_not p h
  rw [all _ (List.head_mem h)] at first
  cases first

theorem trimSpace_eq_empty {s : String} : trimSpace s = "" ↔ ∀ c ∈ s.toList, isSpace c = true := by
  rw [trimSpace, ofList_eq_empty, List.reverse_eq_nil_iff, List.dropWhile_eq_nil_iff]
  simp only [List.mem_reverse]
  constructor
  · intro all
    exact List.dropWhile_eq_nil_iff.1 (by_contra fun left => not_all_dropWhile left all)
  · intro all c mem
    exact all c ((List.dropWhile_suffix _).subset mem)

theorem trimSpace_trimmed {s : String} (h : trimSpace s ≠ "") : trimSpace (trimSpace s) ≠ "" := by
  intro blank
  have spaces := trimSpace_eq_empty.1 blank
  rw [trimSpace, ne_eq, ofList_eq_empty, List.reverse_eq_nil_iff] at h
  refine not_all_dropWhile h fun c mem => spaces c ?_
  simpa [trimSpace] using mem

end Trim

namespace EventGRPCServer
open SandboxRepository

def firstState (entries : List InventoryEntry) (id : SandboxID) : Option SandboxState :=
  (entries.find? fun entry => trimSpace entry.sandboxID = id).map InventoryEntry.state

def Inventory.of (inv : Inventory) : SandboxState → List SandboxID
  | .running => inv.running
  | .starting | .paused => inv.live
  | .dead => inv.dead
  | .unknown | .unspecified => inv.unknown

def bucket : SandboxState → SandboxState
  -- the states that share a list, by one of them
  | .paused => .starting
  | .unspecified => .unknown
  | state => state

structure Sorted (entries : List InventoryEntry) (acc : Inventory × List SandboxID) : Prop where
  seen : ∀ id, id ∈ acc.2 ↔ id ≠ "" ∧ (firstState entries id).isSome
  perm : acc.1.ids.Perm acc.2
  nodup : acc.2.Nodup
  of : ∀ state id, id ∈ Inventory.of acc.1 state ↔
    id ∈ acc.2 ∧ (firstState entries id).map bucket = some (bucket state)

section Entries
variable {entries : List InventoryEntry} {entry : InventoryEntry} {acc : Inventory × List SandboxID}
  {inv : Inventory} {id : SandboxID} {state : SandboxState}

theorem firstState_concat : firstState (entries ++ [entry]) id = (firstState entries id).or
    (if trimSpace entry.sandboxID = id then some entry.state else none) := by
  unfold firstState
  rw [List.find?_append, Option.map_or]
  by_cases same : trimSpace entry.sandboxID = id <;> simp [same]

theorem Inventory.add_perm : (Inventory.add inv id state).ids.Perm (id :: inv.ids) := by
  have first (a b : List SandboxID) : (a ++ id :: b).Perm (id :: (a ++ b)) := List.perm_middle
  cases state <;> simp only [Inventory.add, Inventory.ids, List.append_assoc, List.cons_append,
    List.nil_append]
  · simpa only [List.append_assoc] using first (inv.live ++ inv.running ++ inv.unknown) inv.dead
  · exact first _ _
  · simpa only [List.append_assoc] using first (inv.live ++ inv.running) (inv.unknown ++ inv.dead)
  · exact first _ _
  · simpa only [List.append_assoc] using first (inv.live ++ inv.running ++ inv.unknown) inv.dead
  · simpa only [List.append_assoc, List.append_nil] using
      first (inv.live ++ inv.running ++ inv.unknown ++ inv.dead) []

theorem Inventory.mem_add {k : SandboxID} {state' : SandboxState} :
    k ∈ Inventory.of (Inventory.add inv id state) state' ↔
      k ∈ Inventory.of inv state' ∨ k = id ∧ bucket state = bucket state' := by
  cases state <;> cases state' <;> simp [Inventory.add, Inventory.of, bucket]

theorem Sorted.skip (h : Sorted entries acc)
    (seen : trimSpace entry.sandboxID = "" ∨ trimSpace entry.sandboxID ∈ acc.2) :
    Sorted (entries ++ [entry]) acc := by
  have same (k : SandboxID) (named : k ≠ "") : firstState (entries ++ [entry]) k =
      firstState entries k := by
    rw [firstState_concat]
    by_cases eq : trimSpace entry.sandboxID = k
    · obtain ⟨state, found⟩ := Option.isSome_iff_exists.1
        ((h.seen k).1 (eq ▸ seen.resolve_left (eq ▸ named))).2
      simp [found]
    · simp [eq]
  refine ⟨fun k => ?_, h.perm, h.nodup, fun state k => ?_⟩
  · rw [h.seen]
    exact and_congr_right fun named => by rw [same k named]
  · rw [h.of]
    exact and_congr_right fun mem => by rw [same k ((h.seen k).1 mem).1]

theorem Sorted.add (h : Sorted entries acc) (named : trimSpace entry.sandboxID ≠ "")
    (fresh : trimSpace entry.sandboxID ∉ acc.2) :
    Sorted (entries ++ [entry]) (Inventory.add acc.1 (trimSpace entry.sandboxID) entry.state,
      trimSpace entry.sandboxID :: acc.2) := by
  have none : firstState entries (trimSpace entry.sandboxID) = none := by
    rw [h.seen] at fresh
    simpa [named] using fresh
  refine ⟨fun k => ?_, Inventory.add_perm.trans (h.perm.cons _), List.nodup_cons.2 ⟨fresh, h.nodup⟩,
    fun state k => ?_⟩
  · rw [List.mem_cons, h.seen, firstState_concat]
    by_cases eq : k = trimSpace entry.sandboxID
    · simp [eq, named]
    · simp [eq, Ne.symm eq]
  · rw [Inventory.mem_add, h.of, List.mem_cons, firstState_concat]
    by_cases eq : k = trimSpace entry.sandboxID
    · simp [eq, none, fresh]
    · simp [eq, Ne.symm eq]

theorem inventoryFromEntries_sorted (entries : List InventoryEntry) : ∃ seen,
    Sorted entries (inventoryFromEntries entries, seen) := by
  have all : Sorted entries (entries.foldl (fun (acc : Inventory × List SandboxID) entry =>
      let id := trimSpace entry.sandboxID
      if id = "" ∨ id ∈ acc.2 then acc
      else (Inventory.add acc.1 id entry.state, id :: acc.2)) (⟨[], [], [], []⟩, [])) := by
    induction entries using List.reverseRecOn with
    | nil =>
      refine ⟨by simp [firstState], .refl _, List.nodup_nil, fun state _ => ?_⟩
      cases state <;> simp [Inventory.of]
    | append_singleton entries entry ih =>
      rw [List.foldl_concat]
      dsimp only
      split
      · rename_i seen
        exact ih.skip seen
      · rename_i fresh
        exact ih.add (fun blank => fresh (.inl blank)) fun seen => fresh (.inr seen)
  exact ⟨_, all⟩

/-- What an inventory holds of the entries it was made from: each trimmed ID that
is no blank, once, in the list of its first entry's state. -/
structure Classified (entries : List InventoryEntry) (inv : Inventory) : Prop where
  nodup : inv.ids.Nodup
  named : ∀ id ∈ inv.ids, trimSpace id ≠ ""
  ids : ∀ id, id ∈ inv.ids ↔ id ≠ "" ∧ ∃ entry ∈ entries, trimSpace entry.sandboxID = id
  running : ∀ id, id ∈ inv.running ↔ id ≠ "" ∧ firstState entries id = some .running
  live : ∀ id, id ∈ inv.live ↔ id ≠ "" ∧
    (firstState entries id = some .starting ∨ firstState entries id = some .paused)
  dead : ∀ id, id ∈ inv.dead ↔ id ≠ "" ∧ firstState entries id = some .dead
  unknown : ∀ id, id ∈ inv.unknown ↔ id ≠ "" ∧
    (firstState entries id = some .unknown ∨ firstState entries id = some .unspecified)

theorem firstState_isSome : (firstState entries id).isSome ↔
    ∃ entry ∈ entries, trimSpace entry.sandboxID = id := by
  simp [firstState]

theorem inventoryFromEntries_classified (entries : List InventoryEntry) :
    Classified entries (inventoryFromEntries entries) := by
  obtain ⟨seen, sorted⟩ := inventoryFromEntries_sorted entries
  have mem (id : SandboxID) : id ∈ (inventoryFromEntries entries).ids ↔
      id ≠ "" ∧ (firstState entries id).isSome := by
    rw [sorted.perm.mem_iff, sorted.seen]
  have list (state : SandboxState) (id : SandboxID) :
      id ∈ Inventory.of (inventoryFromEntries entries) state ↔
        id ≠ "" ∧ (firstState entries id).map bucket = some (bucket state) := by
    rw [sorted.of, sorted.seen]
    cases firstState entries id <;> simp
  have state (id : SandboxID) (q : SandboxState → Prop) (state : SandboxState)
      (h : ∀ found, bucket found = bucket state ↔ q found) :
      (firstState entries id).map bucket = some (bucket state) ↔
        ∃ found, firstState entries id = some found ∧ q found := by
    simp only [Option.map_eq_some_iff, h]
  refine ⟨sorted.perm.nodup_iff.2 sorted.nodup, fun id listed => ?_, fun id => ?_,
    fun id => ?_, fun id => ?_, fun id => ?_, fun id => ?_⟩
  · obtain ⟨named, some⟩ := (mem id).1 listed
    obtain ⟨entry, -, rfl⟩ := firstState_isSome.1 some
    exact trimSpace_trimmed named
  · rw [mem, firstState_isSome]
  · refine (list .running id).trans (and_congr_right fun _ => ?_)
    rw [state id (· = .running) .running (by intro found; cases found <;> simp [bucket])]
    simp
  · refine (list .starting id).trans (and_congr_right fun _ => ?_)
    rw [state id (fun found => found = .starting ∨ found = .paused) .starting
      (by intro found; cases found <;> simp [bucket])]
    simp only [and_or_left, exists_or, exists_eq_right]
  · refine (list .dead id).trans (and_congr_right fun _ => ?_)
    rw [state id (· = .dead) .dead (by intro found; cases found <;> simp [bucket])]
    simp
  · refine (list .unknown id).trans (and_congr_right fun _ => ?_)
    rw [state id (fun found => found = .unknown ∨ found = .unspecified) .unknown
      (by intro found; cases found <;> simp [bucket])]
    simp only [and_or_left, exists_or, exists_eq_right]

end Entries
end EventGRPCServer

namespace SandboxRepository

def lostRow (workerID : WorkerID) (ids : List SandboxID) (db : Database) (id : SandboxID)
    (r : SandboxRow) : Bool :=
  activeOn workerID r && id ∉ ids && (db.worker? workerID).any fun w => lastSeen r < w.registeredAt

def reconciled (now : Int) (workerID : WorkerID) (first : Bool) (inv : Inventory) (db : Database)
    (id : SandboxID) (r : SandboxRow) : SandboxRow :=
  -- what an inventory that lists no ID twice does to a row
  if first && lostRow workerID inv.ids db id r then { r with status := .cleanupPending }
  else if activeOn workerID r then
    if id ∈ inv.dead then { r with status := .cleanupPending }
    else if id ∈ inv.live then { r with lastSeenAt := some now }
    else if id ∈ inv.running then { r with
      lastSeenAt := some now
      status := if r.status = .starting then .running else r.status }
    else r
  else r

section Rows
variable {now : Int} {workerID : WorkerID} {first : Bool} {inv : Inventory} {db : Database}
  {id : SandboxID} {r : SandboxRow}

theorem Inventory.mem_ids : id ∈ inv.ids ↔ id ∈ inv.live ∨ id ∈ inv.running ∨
    id ∈ inv.unknown ∨ id ∈ inv.dead := by
  simp [Inventory.ids]

theorem Inventory.apart (nodup : inv.ids.Nodup) :
    (id ∈ inv.dead → id ∉ inv.live ∧ id ∉ inv.running) ∧ (id ∈ inv.running → id ∉ inv.live) := by
  simp only [Inventory.ids, List.nodup_append', List.disjoint_left, List.mem_append] at nodup
  obtain ⟨⟨⟨-, -, live⟩, -, -⟩, -, dead⟩ := nodup
  exact ⟨fun mem => ⟨fun other => dead (.inl (.inl other)) mem, fun other => dead
    (.inl (.inr other)) mem⟩, fun mem other => live other mem⟩

theorem claimLost_sandbox? :
    (claimLost workerID inv.ids db).2.sandbox? id = (db.sandbox? id).map fun r =>
    if lostRow workerID inv.ids db id r then { r with status := .cleanupPending } else r :=
  Database.sandbox?_rewrite ..

theorem refreshed_sandbox? (nodup : inv.ids.Nodup) :
    (claimDead workerID inv.dead (confirmRunning workerID inv.running
      (refreshSeen now workerID (inv.live ++ inv.running) db))).2.sandbox? id =
      (db.sandbox? id).map (reconciled now workerID false inv db id) := by
  simp only [claimDead, claimToCleanup, confirmRunning, refreshSeen, Database.sandbox?_rewrite,
    Option.map_map]
  congr 1
  funext r
  simp only [Function.comp_apply, reconciled, List.mem_append, Bool.false_and,
    Bool.false_eq_true, if_false]
  obtain ⟨dead, running⟩ : (id ∈ inv.dead → id ∉ inv.live ∧ id ∉ inv.running) ∧
      (id ∈ inv.running → id ∉ inv.live) :=
    Inventory.apart nodup
  by_cases on : activeOn workerID r = true
  · have here : r.workerID = some workerID := (of_decide_eq_true on).1
    by_cases isDead : id ∈ inv.dead
    · simp [on, isDead, dead isDead]
    by_cases isRunning : id ∈ inv.running
    · by_cases starting : r.status = .starting
      · simp [on, isDead, isRunning, running isRunning, starting, here]
      · simp [on, isDead, isRunning, running isRunning, starting]
    · by_cases isLive : id ∈ inv.live <;> simp [on, isDead, isRunning, isLive]
  · have idle : ¬ (r.workerID = some workerID ∧ id ∈ inv.running ∧ r.status = .starting) := by
      rintro ⟨here, -, starting⟩
      exact on (decide_eq_true ⟨here, by simp [starting, Status.active]⟩)
    simp [on, idle]

theorem reconcileInventory_sandbox? (nodup : inv.ids.Nodup) :
    (reconcileInventory now workerID first inv db).2.sandbox? id =
      (db.sandbox? id).map (reconciled now workerID first inv db id) := by
  have later (db' : Database) : (if inv.ids = [] then db' else (claimDead workerID inv.dead
      (confirmRunning workerID inv.running
        (refreshSeen now workerID (inv.live ++ inv.running) db'))).2).sandbox?
      id = (db'.sandbox? id).map (reconciled now workerID false inv db' id) := by
    split
    · rename_i empty
      simp only [Inventory.ids, List.append_eq_nil_iff] at empty
      cases db'.sandbox? id <;> simp [reconciled, empty]
    · exact refreshed_sandbox? nodup
  have unfolded : (reconcileInventory now workerID first inv db).2 = if inv.ids = [] then
      (if first then claimLost workerID inv.ids db else ([], db)).2
        else (claimDead workerID inv.dead (confirmRunning workerID inv.running
          (refreshSeen now workerID (inv.live ++ inv.running)
          (if first then claimLost workerID inv.ids db else ([], db)).2))).2 := by
    cases first <;> simp only [reconcileInventory, if_true, Bool.false_eq_true,
      if_false] <;> split <;> rfl
  rw [unfolded, later]
  cases first with
  | false => simp
  | true =>
    simp only [if_true, claimLost_sandbox?, Option.map_map]
    congr 1
    funext r
    by_cases lost : lostRow workerID inv.ids db id r = true
    · simp [reconciled, lost, activeOn, Status.active]
    · simp [reconciled, lost]

theorem reconcileInventory_lost : (reconcileInventory now workerID first inv db).1.lost =
    if first then db.sandboxes.select (lostRow workerID inv.ids db) else [] := by
  cases first <;> simp only [reconcileInventory, if_true, Bool.false_eq_true,
    if_false] <;> split <;> rfl

theorem reconcileInventory_dead (nodup : inv.ids.Nodup) :
    (reconcileInventory now workerID first inv db).1.dead =
      db.sandboxes.select fun id r => activeOn workerID r && id ∈ inv.dead := by
  have none (empty : inv.ids = []) : db.sandboxes.select (fun id r => activeOn workerID r &&
      id ∈ inv.dead) = [] := by
    simp only [Inventory.ids, List.append_eq_nil_iff] at empty
    simp [Table.select, empty]
  have listed (id : SandboxID) (mem : id ∈ inv.dead) :
      id ∈ inv.ids ∧ id ∉ inv.live ++ inv.running ∧ id ∉ inv.running := by
    obtain ⟨live, running⟩ := (Inventory.apart nodup).1 mem
    simp [Inventory.mem_ids, mem, live, running]
  have same (id : SandboxID) (r r' : SandboxRow) (h : id ∈ inv.dead → r' = r) :
      (activeOn workerID r' && decide (id ∈ inv.dead)) = (activeOn workerID r &&
        decide (id ∈ inv.dead)) := by
    by_cases mem : id ∈ inv.dead
    · rw [h mem]
    · simp [mem]
  cases first <;> simp only [reconcileInventory, if_true, Bool.false_eq_true, if_false] <;> split
  · exact (none ‹_›).symm
  · simp only [claimDead, claimToCleanup, confirmRunning, refreshSeen, Database.rewrite,
      Table.select_update]
    refine Table.select_congr fun id r _ => same id r _ fun mem => ?_
    simp [listed id mem]
  · exact (none ‹_›).symm
  · simp only [claimDead, claimToCleanup, confirmRunning, refreshSeen, claimLost, Database.rewrite,
      Table.select_update]
    refine Table.select_congr fun id r _ => same id r _ fun mem => ?_
    simp [listed id mem]

theorem reconcileInventory_orphans : (reconcileInventory now workerID first inv db).1.orphans =
    orphans workerID inv.ids (reconcileInventory now workerID first inv db).2 := by
  cases first <;> simp only [reconcileInventory, if_true, Bool.false_eq_true, if_false] <;> split
  all_goals first | rfl | (rename_i empty; simp [orphans, empty])

def attributed (workerID : WorkerID) (db : Database) (id : SandboxID) : Bool :=
  (db.sandbox? id).any fun r => r.workerID = some workerID ∧ r.status ∉ Status.terminal

/-- What a worker's inventory makes of the database, and what it returns. -/
structure Exact (workerID : WorkerID) (first : Bool) (inv : Inventory) (db : Database)
    (res : ReconcileResult) (db' : Database) : Prop where
  apart : (res.lost ++ res.dead ++ res.orphans).Nodup
  claimed : ∀ id, id ∈ res.lost ∨ id ∈ res.dead ↔ ∃ r r', db.sandbox? id = some r ∧
    db'.sandbox? id = some r' ∧ r.status ≠ .cleanupPending ∧ r'.status = .cleanupPending
  active : ∀ id, id ∈ res.lost ∨ id ∈ res.dead → ∃ r, db.sandbox? id = some r ∧
    activeOn workerID r = true
  orphans : ∀ id, id ∈ res.orphans ↔ id ∈ inv.ids ∧ attributed workerID db' id = false
  spared : ∀ id, id ∈ inv.live ∨ id ∈ inv.running → id ∉ res.lost ∧ id ∉ res.dead
  seen : first = true → ∀ id r, db'.sandbox? id = some r → activeOn workerID r = true →
    id ∈ inv.ids ∨ ∀ w, db.worker? workerID = some w → w.registeredAt ≤ lastSeen r
  others : ∀ id r, db.sandbox? id = some r → r.workerID ≠ some workerID → db'.sandbox? id = some r
  unlisted : first = false → ∀ id, id ∉ inv.ids → db'.sandbox? id = db.sandbox? id
  absent : ∀ id, db.sandbox? id = none → db'.sandbox? id = none
  rest : db'.workers = db.workers ∧ db'.events = db.events ∧ db'.jobs = db.jobs

theorem reconcileInventory_rest :
    (reconcileInventory now workerID first inv db).2.workers = db.workers ∧
    (reconcileInventory now workerID first inv db).2.events = db.events ∧
    (reconcileInventory now workerID first inv db).2.jobs = db.jobs := by
  cases first <;> simp only [reconcileInventory, if_true, Bool.false_eq_true, if_false] <;> split
  all_goals exact ⟨rfl, rfl, rfl⟩

def claims (workerID : WorkerID) (first : Bool) (inv : Inventory) (db : Database) (id : SandboxID)
    (r : SandboxRow) : Bool :=
  first && lostRow workerID inv.ids db id r || activeOn workerID r && id ∈ inv.dead

theorem claims_active (h : claims workerID first inv db id r = true) :
    activeOn workerID r = true := by
  simp only [claims, lostRow, Bool.or_eq_true, Bool.and_eq_true] at h
  exact h.elim (fun lost => lost.2.1.1) fun dead => dead.1

theorem reconciled_of_claims (h : claims workerID first inv db id r = true) :
    reconciled now workerID first inv db id r = { r with status := .cleanupPending } := by
  simp only [claims, Bool.or_eq_true, Bool.and_eq_true, decide_eq_true_eq] at h
  unfold reconciled
  split
  · rfl
  · rename_i kept
    obtain lost | dead := h
    · exact absurd (by simp [lost]) kept
    · simp [dead]

theorem reconciled_of_not_claims (now : Int) (h : claims workerID first inv db id r = false) :
    (reconciled now workerID first inv db id r).workerID = r.workerID ∧
    ((reconciled now workerID first inv db id r).status = r.status ∨ r.status = .starting ∧
      (reconciled now workerID first inv db id r).status = .running) ∧
    (id ∉ inv.ids → reconciled now workerID first inv db id r = r) := by
  simp only [claims, Bool.or_eq_false_iff, Bool.and_eq_false_iff, decide_eq_false_iff_not] at h
  obtain ⟨lost, dead⟩ := h
  have kept : ¬ (first && lostRow workerID inv.ids db id r) = true := by
    simpa only [Bool.and_eq_true, not_and_or, Bool.not_eq_true] using lost
  unfold reconciled
  simp only [kept]
  by_cases on : activeOn workerID r = true
  · have alive : id ∉ inv.dead := dead.resolve_left (by simp [on])
    simp only [on, alive, if_true, if_false, Inventory.mem_ids]
    by_cases live : id ∈ inv.live
    · simp [live]
    by_cases running : id ∈ inv.running
    · by_cases starting : r.status = .starting <;> simp [live, running, starting]
    · simp [live, running]
  · simp [on]

theorem reconciled_of_idle (h : activeOn workerID r = false) :
    reconciled now workerID first inv db id r = r := by
  have idle : lostRow workerID inv.ids db id r = false := by simp [lostRow, h]
  simp [reconciled, h, idle]

theorem claims_of_idle (h : activeOn workerID r = false) :
    claims workerID first inv db id r = false := by
  simp [claims, lostRow, h]

theorem reconciled_again (now' : Int) {first' : Bool} {db' : Database}
    (again : first' = true → first = true) (same : db'.workers = db.workers) :
    claims workerID first' inv db' id (reconciled now workerID first inv db id r) = false ∧
    (reconciled now' workerID first' inv db' id
      (reconciled now workerID first inv db id r)).toSandboxColumns =
      (reconciled now workerID first inv db id r).toSandboxColumns := by
  have idle {r' : SandboxRow} (h : activeOn workerID r' = false) :
      claims workerID first' inv db' id r' = false ∧
      (reconciled now' workerID first' inv db' id r').toSandboxColumns = r'.toSandboxColumns :=
    ⟨claims_of_idle h, by rw [reconciled_of_idle h]⟩
  by_cases claimed : claims workerID first inv db id r = true
  · rw [reconciled_of_claims claimed]
    exact idle (by simp [activeOn, Status.active])
  by_cases on : activeOn workerID r = true
  · simp only [claims, on, Bool.true_and, Bool.or_eq_true, decide_eq_true_eq, not_or] at claimed
    obtain ⟨kept, alive⟩ := claimed
    have kept' : ¬ (first' && lostRow workerID inv.ids db' id r) = true := by
      simp only [lostRow, Database.worker?, same, Bool.and_eq_true] at kept ⊢
      exact fun lost => kept ⟨again lost.1, lost.2⟩
    -- a listed row is not lost, whatever was made of it
    have listed {r' : SandboxRow}
        (mem : id ∈ inv.ids) : lostRow workerID inv.ids db' id r' = false := by
      simp [lostRow, mem]
    have here : r.workerID = some workerID := (of_decide_eq_true on).1
    have status : r.status ∈ Status.active := (of_decide_eq_true on).2
    by_cases live : id ∈ inv.live
    · simp [reconciled, claims, kept, alive, live, activeOn, here, status,
        listed (Inventory.mem_ids.2 (.inl live))]
    by_cases running : id ∈ inv.running
    · have mem := Inventory.mem_ids.2 (.inr (.inl running))
      by_cases starting : r.status = .starting
      · simp [reconciled, claims, kept, alive, live, running, activeOn, here, starting, listed mem,
          Status.active]
      · simp [reconciled, claims, kept, alive, live, running, activeOn, here,
          starting, listed mem, status]
    · simp [reconciled, claims, kept, kept', alive, on, live, running]
  · rw [reconciled_of_idle (by simpa using on)]
    exact idle (by simpa using on)

theorem mem_claimed (nodup : inv.ids.Nodup) :
    id ∈ (reconcileInventory now workerID first inv db).1.lost ∨
      id ∈ (reconcileInventory now workerID first inv db).1.dead ↔
    ∃ r, db.sandbox? id = some r ∧ claims workerID first inv db id r = true := by
  rw [reconcileInventory_lost, reconcileInventory_dead nodup]
  have lost : id ∈ (if first then db.sandboxes.select (lostRow workerID inv.ids db) else []) ↔
      ∃ r, db.sandbox? id = some r ∧ (first && lostRow workerID inv.ids db id r) = true := by
    cases first <;> simp [Table.mem_select, Database.sandbox?]
  rw [lost, Table.mem_select, ← exists_or]
  simp only [Database.sandbox?, claims, ← and_or_left, Bool.or_eq_true]

theorem mem_orphans : id ∈ (reconcileInventory now workerID first inv db).1.orphans ↔
    id ∈ inv.ids ∧ attributed workerID
    (reconcileInventory now workerID first inv db).2 id = false := by
  rw [reconcileInventory_orphans]
  simp [orphans, attributed]

theorem lost_unlisted (mem : id ∈ (reconcileInventory now workerID first inv db).1.lost) :
    id ∉ inv.ids := by
  rw [reconcileInventory_lost] at mem
  cases first with
  | false => cases mem
  | true =>
    obtain ⟨r, -, lost⟩ := (Table.mem_select _ _ id).1 mem
    simp only [lostRow, Bool.and_eq_true, decide_eq_true_eq] at lost
    exact lost.1.2

theorem dead_listed (nodup : inv.ids.Nodup)
    (mem : id ∈ (reconcileInventory now workerID first inv db).1.dead) :
    id ∈ inv.dead ∧ attributed workerID
    (reconcileInventory now workerID first inv db).2 id = true := by
  obtain ⟨r, found, claimed⟩ := (mem_claimed nodup).1 (.inr mem)
  rw [reconcileInventory_dead nodup] at mem
  obtain ⟨r', -, listed⟩ := (Table.mem_select _ _ id).1 mem
  have here : r.workerID = some workerID := (of_decide_eq_true (claims_active claimed)).1
  refine ⟨of_decide_eq_true (Bool.and_eq_true_iff.1 listed).2, ?_⟩
  simp [attributed, reconcileInventory_sandbox? nodup, found, reconciled_of_claims claimed,
    here, Status.terminal]

theorem results_apart (nodup : inv.ids.Nodup) :
    ((reconcileInventory now workerID first inv db).1.lost ++
      (reconcileInventory now workerID first inv db).1.dead ++
      (reconcileInventory now workerID first inv db).1.orphans).Nodup := by
  have lost : (reconcileInventory now workerID first inv db).1.lost.Nodup := by
    rw [reconcileInventory_lost]
    split
    · exact Table.nodup_select _ _
    · exact List.nodup_nil
  have dead : (reconcileInventory now workerID first inv db).1.dead.Nodup := by
    rw [reconcileInventory_dead nodup]
    exact Table.nodup_select _ _
  have orphans : (reconcileInventory now workerID first inv db).1.orphans.Nodup := by
    rw [reconcileInventory_orphans]
    exact nodup.filter _
  refine List.nodup_append'.2 ⟨List.nodup_append'.2 ⟨lost, dead, ?_⟩, orphans, ?_⟩
  · intro id isLost isDead
    exact lost_unlisted isLost
      (Inventory.mem_ids.2 (.inr (.inr (.inr (dead_listed nodup isDead).1))))
  · intro id mem orphan
    obtain ⟨listed, foreign⟩ := mem_orphans.1 orphan
    rcases List.mem_append.1 mem with isLost | isDead
    · exact lost_unlisted isLost listed
    · cases foreign.symm.trans (dead_listed nodup isDead).2

theorem seen_since
    (on : activeOn workerID (reconciled now workerID true inv db id r) = true) :
    id ∈ inv.ids ∨ ∀ w, db.worker? workerID = some w →
      w.registeredAt ≤ lastSeen (reconciled now workerID true inv db id r) := by
  by_cases listed : id ∈ inv.ids
  · exact .inl listed
  refine .inr fun w row => ?_
  by_cases claimed : claims workerID true inv db id r = true
  · rw [reconciled_of_claims claimed] at on
    simp [activeOn, Status.active] at on
  · have kept := (reconciled_of_not_claims now (by simpa using claimed)).2.2 listed
    rw [kept] at on ⊢
    simp only [claims, lostRow, on, listed, row, Bool.true_and, Option.any_some,
      Bool.or_eq_true, not_or, decide_eq_true_eq, not_false_eq_true, decide_true, not_lt] at claimed
    exact claimed.1

theorem reconcileInventory_exact (nodup : inv.ids.Nodup) :
    Exact workerID first inv db (reconcileInventory now workerID first inv db).1
      (reconcileInventory now workerID first inv db).2 := by
  have row (id : SandboxID) : (reconcileInventory now workerID first inv db).2.sandbox? id =
      (db.sandbox? id).map (reconciled now workerID first inv db id) :=
      reconcileInventory_sandbox? nodup
  refine ⟨results_apart nodup, fun id => ?_, fun id mem => ?_, fun id => mem_orphans,
    fun id listed => ?_, fun isFirst id r found on => ?_, fun id r found elsewhere => ?_,
    fun later id unlisted => ?_, fun id none => by rw [row, none]; rfl, reconcileInventory_rest⟩
  · rw [mem_claimed nodup, row]
    constructor
    · rintro ⟨r, found, claimed⟩
      have on : r.status ∈ Status.active := (of_decide_eq_true (claims_active claimed)).2
      refine ⟨r, _,
        found, by rw [found]; rfl, fun pending => ?_, by rw [reconciled_of_claims claimed]⟩
      simp [pending, Status.active] at on
    · rintro ⟨r, r', found, moved, before, after⟩
      rw [found] at moved
      cases moved
      refine ⟨r, found, by_contra fun kept => ?_⟩
      rcases (reconciled_of_not_claims now (by simpa using kept)).2.1 with same | ⟨-, running⟩
      · exact before (same ▸ after)
      · cases running.symm.trans after
  · obtain ⟨r, found, claimed⟩ := (mem_claimed nodup).1 mem
    exact ⟨r, found, claims_active claimed⟩
  · have mem : id ∈ inv.ids := Inventory.mem_ids.2 (by tauto)
    refine ⟨fun lost => lost_unlisted lost mem, fun dead => ?_⟩
    obtain ⟨live, running⟩ := (Inventory.apart nodup).1 (dead_listed nodup dead).1
    exact listed.elim live running
  · cases isFirst
    rw [row] at found
    obtain ⟨r, -, rfl⟩ := Option.map_eq_some_iff.1 found
    exact seen_since on
  · have idle : activeOn workerID r = false := by simp [activeOn, elsewhere]
    rw [row, found, Option.map_some, reconciled_of_idle idle]
  · cases later
    rw [row]
    cases found : db.sandbox? id with
    | none => rfl
    | some r =>
      have kept : claims workerID false inv db id r = false := by
        have alive : id ∉ inv.dead := fun dead => unlisted
          (Inventory.mem_ids.2 (.inr (.inr (.inr dead))))
        simp [claims, alive]
      rw [Option.map_some, (reconciled_of_not_claims now kept).2.2 unlisted]

theorem reconcileInventory_again {now' : Int} {first' : Bool} (nodup : inv.ids.Nodup)
    (again : first' = true → first = true) :
    (reconcileInventory now' workerID first' inv
      (reconcileInventory now workerID first inv db).2).1 =
      ⟨(reconcileInventory now workerID first inv db).1.orphans, [], []⟩ ∧
    ∀ id, ((reconcileInventory now' workerID first' inv
        (reconcileInventory now workerID first inv db).2).2.sandbox? id).map
        SandboxRow.toSandboxColumns =
      ((reconcileInventory now workerID first inv db).2.sandbox? id).map
      SandboxRow.toSandboxColumns := by
  set db' := (reconcileInventory now workerID first inv db).2 with eq
  have workers : db'.workers = db.workers := reconcileInventory_rest.1
  have row (id : SandboxID) : db'.sandbox? id = (db.sandbox? id).map
      (reconciled now workerID first inv db id) :=
    reconcileInventory_sandbox? nodup
  have columns (id : SandboxID) :
    ((reconcileInventory now' workerID first' inv db').2.sandbox? id).map
      SandboxRow.toSandboxColumns = (db'.sandbox? id).map SandboxRow.toSandboxColumns := by
    rw [reconcileInventory_sandbox? nodup, row]
    cases db.sandbox? id with
    | none => rfl
    | some r => simpa using (reconciled_again now' again workers).2
  have none (id : SandboxID) (mem : id ∈ (reconcileInventory now' workerID first' inv db').1.lost ∨
      id ∈ (reconcileInventory now' workerID first' inv db').1.dead) : False := by
    obtain ⟨r, found, claimed⟩ := (mem_claimed nodup).1 mem
    rw [row] at found
    obtain ⟨r, -, rfl⟩ := Option.map_eq_some_iff.1 found
    cases claimed.symm.trans (reconciled_again now' again workers).1
  have attributed (id : SandboxID) : attributed workerID
    (reconcileInventory now' workerID first' inv db').2 id =
      attributed workerID db' id := by
    have by_columns (db : Database) : SandboxRepository.attributed workerID db id =
        ((db.sandbox? id).map SandboxRow.toSandboxColumns).any fun c =>
          c.workerID = some workerID ∧ c.status ∉ Status.terminal := by
      cases found : db.sandbox? id <;> simp [SandboxRepository.attributed, found]
    rw [by_columns, by_columns, columns]
  refine ⟨?_, columns⟩
  have orphans : (reconcileInventory now' workerID first' inv db').1.orphans =
      (reconcileInventory now workerID first inv db).1.orphans := by
    rw [reconcileInventory_orphans, reconcileInventory_orphans, ← eq]
    exact List.filter_congr fun id _ => congrArg (!·) (attributed id)
  have lost := List.eq_nil_iff_forall_not_mem.2 fun id mem => none id (.inl mem)
  have dead := List.eq_nil_iff_forall_not_mem.2 fun id mem => none id (.inr mem)
  calc (reconcileInventory now' workerID first' inv db').1
      = ⟨(reconcileInventory now' workerID first' inv db').1.orphans,
          (reconcileInventory now' workerID first' inv db').1.lost,
          (reconcileInventory now' workerID first' inv db').1.dead⟩ := rfl
    _ = _ := by rw [orphans, lost, dead]

end Rows

/-- Reconciliation is exact, for every list of entries: the inventory classifies
them, its effect and its results are those of `Exact`, and to reconcile it once
more, not as a first inventory if it was none, changes nothing but the time its
live sandboxes were last seen. -/
theorem inventory_reconciliation_exact (now now' : Int) (workerID : WorkerID) (first : Bool)
    (entries : List InventoryEntry) (db : Database) :
    let inv := EventGRPCServer.inventoryFromEntries entries
    let once := reconcileInventory now workerID first inv db
    EventGRPCServer.Classified entries inv ∧ Exact workerID first inv db once.1 once.2 ∧
    ∀ first', (first' = true → first = true) →
      let twice := reconcileInventory now' workerID first' inv once.2
      twice.1 = ⟨once.1.orphans, [], []⟩ ∧
      ∀ id, (twice.2.sandbox? id).map SandboxRow.toSandboxColumns =
        (once.2.sandbox? id).map SandboxRow.toSandboxColumns := by
  have classified := EventGRPCServer.inventoryFromEntries_classified entries
  exact ⟨classified, reconcileInventory_exact classified.nodup,
    fun first' again => reconcileInventory_again classified.nodup again⟩

end SandboxRepository
end Fire2
