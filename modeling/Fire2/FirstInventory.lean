import Fire2.Runs
import Fire2.Workers

/-! The first inventory of an incarnation. The transaction of a heartbeat with a
complete inventory, statement by statement: `Update` locks the worker's row and
keeps it to the end, so `ClaimInventory` and whatever else would write the row
wait for the commit or the rollback. A rollback drops the transaction's version
of the row, the mark of `ClaimInventory` with it. The statements between
`ClaimInventory` and the commit write no worker row. -/

namespace Fire2.FirstInventory
open WorkerRepository

/-- How far a transaction has come, its version of the row, and what
ClaimInventory answered. -/
inductive Stage where
  | begun
  | updated (row : WorkerRow)
  | claimed (row : WorkerRow) (first : Bool)
  | reconciled (row : WorkerRow) (first : Bool)
  | enqueued (row : WorkerRow) (first : Bool)

def Stage.row : Stage → Option WorkerRow
  | begun => none
  | updated row | claimed row _ | reconciled row _ | enqueued row _ => some row

def Stage.first : Stage → Option Bool
  | begun | updated _ => none
  | claimed _ first | reconciled _ first | enqueued _ first => some first

structure Tx where
  worker : Worker
  stage : Stage

inductive Entry where
  | registered (worker : WorkerID) (token : Int)
  | heartbeat (worker : WorkerID) (token : Int) (first : Bool)
  deriving DecidableEq, Repr

/-- What is committed, the open transactions by connection, who has which row
locked, and the commits so far, latest first. -/
structure State where
  db : Database
  txs : Nat → Option Tx
  locks : WorkerID → Option Nat
  log : List Entry

/-- Registrations, heartbeats without an inventory and sweeps are one statement;
the others are the statements of one with an inventory. -/
inductive Event where
  | register (now : Int) (w : Worker)
  | heartbeat (now : Int) (w : Worker)
  | sweep (now timeout : Int)
  | begin (i : Nat) (w : Worker)
  | update (i : Nat) (now : Int)
  | claimInventory (i : Nat)
  | reconcileInventory (i : Nat)
  | enqueue (i : Nat)
  | commit (i : Nat)
  | rollback (i : Nat)

def State.setTx (s : State) (i : Nat) (tx : Option Tx) : State :=
  { s with txs := Function.update s.txs i tx }

def view (db : Database) (id : WorkerID) (row : WorkerRow) : Database :=
  { db with workers := db.workers.set id row }

def registered (now : Int) (w : Worker) (s : State) : State :=
  match register now w s.db with
  | (.ok r, db) => { s with db, log := .registered w.id r.fencingToken :: s.log }
  | (.error _, _) => s

def updated (i : Nat) (now : Int) (w : Worker) (s : State) : Option State :=
  -- an Update that matches no row fails the heartbeat, which is rolled back
  match WorkerRepository.update now w s.db with
  | (none, _) => some (s.setTx i none)
  | (some _, db) => (db.worker? w.id).map fun row =>
      { s.setTx i (some ⟨w, .updated row⟩) with locks := Function.update s.locks w.id (some i) }

def claimed (i : Nat) (w : Worker) (row : WorkerRow) (s : State) : Option State :=
  let done := claimInventory w.id w.fencingToken (view s.db w.id row)
  (done.2.worker? w.id).map fun row => s.setTx i (some ⟨w, .claimed row done.1⟩)

def State.release (s : State) (i : Nat) (id : WorkerID) : State :=
  -- the locks a transaction had are released
  { s with locks := fun k => if k = id ∧ s.locks k = some i then none else s.locks k }

def step (s : State) : Event → Option State
  -- a statement that would write a row another transaction has locked waits
  | .register now w => if s.locks w.id = none then some (registered now w s) else none
  | .heartbeat now w =>
    if s.locks w.id = none then some { s with db := (WorkerRepository.update now w s.db).2 }
    else none
  | .sweep now timeout =>
    if (markStaleInactive now timeout s.db).1.all fun id => s.locks id = none then
      some { s with db := (markStaleInactive now timeout s.db).2 }
    else none
  | .begin i w => if (s.txs i).isNone then some (s.setTx i (some ⟨w, .begun⟩)) else none
  | .update i now =>
    match s.txs i with
    | some ⟨w, .begun⟩ => if s.locks w.id = none then updated i now w s else none
    | _ => none
  | .claimInventory i =>
    match s.txs i with
    | some ⟨w, .updated row⟩ => claimed i w row s
    | _ => none
  | .reconcileInventory i =>
    match s.txs i with
    | some ⟨w, .claimed row first⟩ => some (s.setTx i (some ⟨w, .reconciled row first⟩))
    | _ => none
  | .enqueue i =>
    match s.txs i with
    | some ⟨w, .reconciled row first⟩ => some (s.setTx i (some ⟨w, .enqueued row first⟩))
    | _ => none
  | .commit i =>
    match s.txs i with
    | some ⟨w, .enqueued row first⟩ => some { (s.setTx i none).release i w.id with
        db := view s.db w.id row
        log := .heartbeat w.id w.fencingToken first :: s.log }
    | _ => none
  | .rollback i => (s.txs i).map fun tx => (s.setTx i none).release i tx.worker.id

def initial : State := ⟨.empty, fun _ => none, fun _ => none, []⟩

def Firsts : List Entry → Prop
  -- a heartbeat was first if and only if none of its token was committed before
  | [] => True
  | .heartbeat id token first :: log =>
    (first = true ↔ ∀ f, .heartbeat id token f ∉ log) ∧ Firsts log
  | .registered .. :: log => Firsts log

structure Kept (log : List Entry) (id : WorkerID) (r : WorkerRow) : Prop where
  bound : r.inventoryToken ≤ r.fencingToken
  tokens : ∀ token first, Entry.heartbeat id token first ∈ log → token ≤ r.fencingToken
  taken : (∃ first, Entry.heartbeat id r.fencingToken first ∈ log) ↔
    r.inventoryToken = r.fencingToken

def Drafted (r row : WorkerRow) : Option Bool → Prop
  | none => row.inventoryToken = r.inventoryToken
  | some first =>
    row.inventoryToken = r.fencingToken ∧ (first = true ↔ r.inventoryToken ≠ r.fencingToken)

structure Counted (s : State) : Prop where
  rows : ∀ id r, s.db.worker? id = some r → Kept s.log id r
  absent : ∀ id token first, s.db.worker? id = none → Entry.heartbeat id token first ∉ s.log
  drafts : ∀ i tx row, s.txs i = some tx → tx.stage.row = some row → s.locks tx.worker.id = some i ∧
    ∃ r, s.db.worker? tx.worker.id = some r ∧ r.fencingToken = tx.worker.fencingToken ∧
      row.fencingToken = r.fencingToken ∧ Drafted r row tx.stage.first
  firsts : Firsts s.log

section Steps
variable {s t : State} {i : Nat} {now : Int} {w : Worker} {id : WorkerID} {row r : WorkerRow}

theorem Counted.write (h : Counted s) (id : WorkerID) (row : WorkerRow)
    (db : ∀ k, t.db.worker? k = if k = id then some row else s.db.worker? k)
    (others : ∀ k token first, k ≠ id → (Entry.heartbeat k token first ∈ t.log ↔
      Entry.heartbeat k token first ∈ s.log))
    (kept : Kept t.log id row)
    (txs : ∀ i tx, t.txs i = some tx → s.txs i = some tx ∧
      (tx.stage.row.isSome → tx.worker.id ≠ id))
    (locks : ∀ k, k ≠ id → t.locks k = s.locks k) (firsts : Firsts t.log) : Counted t := by
  refine ⟨fun k r found => ?_, fun k token first absent mem => ?_,
    fun i tx draft running drafted => ?_, firsts⟩
  · rw [db] at found
    split at found
    · rename_i same
      cases found
      exact same ▸ kept
    · rename_i other
      have old := h.rows k r found
      exact ⟨old.bound, fun token first mem => old.tokens token first
        ((others k token first other).1 mem), by simp only [others k _ _ other, old.taken]⟩
  · rw [db] at absent
    split at absent
    · cases absent
    · rename_i other
      exact h.absent k token first absent ((others k token first other).1 mem)
  · obtain ⟨before, elsewhere⟩ := txs i tx running
    have other := elsewhere (by simp [drafted])
    obtain ⟨held, r, found, rest⟩ := h.drafts i tx draft before drafted
    exact ⟨(locks _ other).trans held, r, by rw [db, if_neg other, found], rest⟩

theorem Counted.move (h : Counted s) (db : t.db = s.db) (log : t.log = s.log)
    (drafts : ∀ i tx row, t.txs i = some tx → tx.stage.row = some row →
      t.locks tx.worker.id = some i ∧
      ∃ r, s.db.worker? tx.worker.id = some r ∧ r.fencingToken = tx.worker.fencingToken ∧
        row.fencingToken = r.fencingToken ∧ Drafted r row tx.stage.first) : Counted t := by
  refine ⟨?_, ?_, ?_, ?_⟩
  · rw [db, log]
    exact h.rows
  · rw [db, log]
    exact h.absent
  · rw [db]
    exact drafts
  · rw [log]
    exact h.firsts

theorem Counted.refresh (h : Counted s) {f : WorkerID → WorkerRow → WorkerRow}
    (db : ∀ k, t.db.worker? k = (s.db.worker? k).map (f k))
    (same : ∀ k r, (f k r).fencingToken = r.fencingToken ∧
      (f k r).inventoryToken = r.inventoryToken)
    (txs : t.txs = s.txs) (locks : t.locks = s.locks) (log : t.log = s.log) : Counted t := by
  refine ⟨fun k r found => ?_, fun k token first absent => ?_,
    fun i tx row running drafted => ?_, ?_⟩
  · rw [db, Option.map_eq_some_iff] at found
    obtain ⟨r, found, rfl⟩ := found
    have old := h.rows k r found
    rw [log]
    exact ⟨by simpa only [same] using old.bound, by simpa only [same] using old.tokens,
      by simpa only [same] using old.taken⟩
  · rw [db, Option.map_eq_none_iff] at absent
    rw [log]
    exact h.absent k token first absent
  · rw [txs] at running
    obtain ⟨held, r, found, token, token', draft⟩ := h.drafts i tx row running drafted
    refine ⟨locks ▸ held,
      f _ r, by rw [db, found]; rfl, (same _ r).1.trans token, token'.trans (same _ r).1.symm, ?_⟩
    cases stage : tx.stage.first with
    | none => simpa only [Drafted, same, stage] using draft
    | some first => simpa only [Drafted, same, stage] using draft
  · rw [log]
    exact h.firsts

theorem register_rows {registered : Worker} {db db' : Database}
    (h : register now w db = (.ok registered, db')) : ∃ n,
      (∀ r, db.worker? w.id = some r → n = r.inventoryToken) ∧ (db.worker? w.id = none → n = 0) ∧
      ∀ k, db'.worker? k = if k = w.id then some (registeredRow now (nextToken w db) n w)
      else db.worker? k := by
  simp only [register] at h
  split at h
  · cases h
  split at h
  · rename_i table new
    cases h
    obtain ⟨free, rows⟩ := Table.insert?_eq_some new
    refine ⟨0, fun r found => ?_, fun _ => rfl, rows⟩
    cases free.symm.trans found
  · rename_i taken
    cases h
    cases found : db.worker? w.id with
    | none => exact absurd taken (Option.isSome_iff_ne_none.1 (Table.insert?_isSome found))
    | some r =>
      refine ⟨r.inventoryToken, fun r' eq => by cases eq; rfl, by simp, fun k => ?_⟩
      by_cases own : k = w.id
      · simp [own, found]
      · simp [own]

theorem nextToken_fresh (h : Counted s) {n : Int} (same : ∀ r, s.db.worker? w.id = some r →
    n = r.inventoryToken) (none : s.db.worker? w.id = none → n = 0) : n < nextToken w s.db ∧
      ∀ token first, Entry.heartbeat w.id token first ∈ s.log → token < nextToken w s.db := by
  unfold nextToken
  cases found : s.db.worker? w.id with
  | none =>
    refine ⟨?_, fun token first mem => absurd mem (h.absent _ _ _ found)⟩
    have := none found
    dsimp only
    omega
  | some r =>
    have kept := h.rows _ r found
    have bound := kept.bound
    have := same r found
    refine ⟨by dsimp only; omega, fun token first mem => ?_⟩
    have := kept.tokens token first mem
    dsimp only
    omega

theorem registered_counted (h : Counted s) (free : s.locks w.id = none) :
    Counted (registered now w s) := by
  unfold registered
  split
  · rename_i r db done
    obtain ⟨n, same, none, rows⟩ := register_rows done
    obtain ⟨fresh, unused⟩ := nextToken_fresh h same none
    have log (k : WorkerID) (token : Int) (first : Bool) : Entry.heartbeat k token first ∈
        Entry.registered w.id r.fencingToken :: s.log ↔
        Entry.heartbeat k token first ∈ s.log := by simp
    refine h.write w.id _ rows (fun k token first _ => log k token first)
      ⟨fresh.le, fun token first mem => ?_, ?_⟩
      (fun i tx running => ⟨running, fun some same => ?_⟩) (fun _ _ => rfl) h.firsts
    · exact (unused token first ((log _ _ _).1 mem)).le
    · constructor
      · rintro ⟨first, mem⟩
        exact absurd (unused _ first ((log _ _ _).1 mem)) (lt_irrefl _)
      · intro eq
        exact absurd eq fresh.ne
    · obtain ⟨row, drafted⟩ := Option.isSome_iff_exists.1 some
      have held := (h.drafts i tx row running drafted).1
      rw [same, free] at held
      cases held
  · exact h

theorem Counted.foreign (h : Counted s) {tx : Tx} (running : s.txs i = some tx)
    (drafted : tx.stage.row = some row) (free : s.locks id = none) : tx.worker.id ≠ id := by
  rintro rfl
  cases (h.drafts i tx row running drafted).1.symm.trans free

theorem updated_counted (h : Counted s) (free : s.locks w.id = none)
    (done : updated i now w s = some t) : Counted t := by
  unfold updated at done
  split at done
  · cases done
    refine h.move rfl rfl fun j tx row running drafted => ?_
    by_cases same : j = i
    · simp [State.setTx, same] at running
    · exact h.drafts j tx row (by simpa [State.setTx, same] using running) drafted
  · rename_i w' db accepted
    obtain ⟨r, found, current, rfl⟩ := Orchestrator.update_beats accepted
    obtain ⟨row, written, rfl⟩ := Option.map_eq_some_iff.1 done
    have written : row = heartbeatRow now w r := by simpa [found] using written.symm
    refine h.move rfl rfl fun j tx draft running drafted => ?_
    by_cases same : j = i
    · subst same
      have running : tx = ⟨w, .updated row⟩ := by simpa [State.setTx] using running.symm
      subst running
      have drafted : draft = row := (Option.some.inj drafted).symm
      rw [drafted, written]
      exact ⟨by simp, r, found, current, rfl, rfl⟩
    · have running : s.txs j = some tx := by simpa [State.setTx, same] using running
      have other := h.foreign running drafted free
      obtain ⟨held, rest⟩ := h.drafts j tx draft running drafted
      exact ⟨by simpa [State.setTx, other] using held, rest⟩

theorem claimInventory_view (id : WorkerID) (row : WorkerRow) (db : Database) (token : Int) :
    (claimInventory id token (view db id row)).1 = decide (row.fencingToken = token ∧
      row.inventoryToken ≠ token) ∧
    (claimInventory id token (view db id row)).2.worker? id =
      some (if row.fencingToken = token ∧ row.inventoryToken ≠ token then
        { row with inventoryToken := token } else row) := by
  have found : (view db id row).worker? id = some row := by simp [view, Database.worker?]
  constructor
  · refine decide_eq_decide.2 ?_
    rw [Table.count, List.length_pos_iff_exists_mem]
    simp only [Table.mem_select, decide_eq_true_eq]
    refine ⟨?_, fun due => ⟨id, row, found, rfl, due⟩⟩
    rintro ⟨k, r, found', rfl, due⟩
    cases found.symm.trans found'
    exact due
  · simp [claimInventory, found]

theorem claimed_counted (h : Counted s) (running : s.txs i = some ⟨w, .updated row⟩)
    (done : claimed i w row s = some t) : Counted t := by
  unfold claimed at done
  obtain ⟨row', written, rfl⟩ := Option.map_eq_some_iff.1 done
  obtain ⟨held, r, found, current, token, draft⟩ := h.drafts i _ row running rfl
  refine h.move rfl rfl fun j tx draft' running' drafted => ?_
  by_cases same : j = i
  · subst same
    have eq : tx =
        ⟨w, .claimed row' (claimInventory w.id w.fencingToken (view s.db w.id row)).1⟩ := by
      simpa [State.setTx] using running'.symm
    subst eq
    have drafted : draft' = row' := (Option.some.inj drafted).symm
    subst drafted
    obtain ⟨answer, after⟩ := claimInventory_view w.id row s.db w.fencingToken
    rw [after, Option.some.injEq] at written
    have draft : row.inventoryToken = r.inventoryToken := draft
    refine ⟨held, r, found, current, ?_⟩
    simp only [Drafted, Stage.first, answer, decide_eq_true_eq, ← written]
    by_cases taken : row.inventoryToken = w.fencingToken
    · simp [taken, token, current, ← draft]
    · simp [taken, token, current, ← draft]
  · exact h.drafts j tx draft' (by simpa [State.setTx, same] using running') drafted

theorem Counted.onward (h : Counted s) {stage stage' : Stage} (running : s.txs i = some ⟨w, stage⟩)
    (same : stage'.row = stage.row ∧ stage'.first = stage.first) :
    Counted (s.setTx i (some ⟨w, stage'⟩)) := by
  refine h.move rfl rfl fun j tx draft running' drafted => ?_
  by_cases own : j = i
  · subst own
    have eq : tx = ⟨w, stage'⟩ := by simpa [State.setTx] using running'.symm
    subst eq
    rw [show (Tx.mk w stage').stage = stage' from rfl, same.2]
    exact h.drafts j ⟨w, stage⟩ draft running (same.1 ▸ drafted)
  · exact h.drafts j tx draft (by simpa [State.setTx, own] using running') drafted

theorem rollback_counted (h : Counted s) {tx : Tx} :
    Counted ((s.setTx i none).release i tx.worker.id) := by
  refine h.move rfl rfl fun j tx' draft running drafted => ?_
  by_cases own : j = i
  · simp [State.setTx, State.release, own] at running
  · obtain ⟨held, rest⟩ := h.drafts j tx' draft
      (by simpa [State.setTx, State.release, own] using running) drafted
    refine ⟨(if_neg fun mine => ?_).trans held, rest⟩
    exact own (Option.some.inj (held.symm.trans mine.2))

theorem commit_counted (h : Counted s) {first : Bool}
    (running : s.txs i = some ⟨w, .enqueued row first⟩) :
    Counted { (s.setTx i none).release i w.id with
      db := view s.db w.id row
      log := .heartbeat w.id w.fencingToken first :: s.log } := by
  obtain ⟨held, r, found, current, token, marked, told⟩ := h.drafts i _ row running rfl
  have current : r.fencingToken = w.fencingToken := current
  have kept := h.rows _ r found
  refine h.write w.id row (fun k => ?_) (fun k token first other => ?_) ⟨?_, ?_, ?_⟩
    (fun j tx running' => ?_) (fun k other => ?_) ⟨?_, h.firsts⟩
  · simp [view, Database.worker?]
  · simp [other]
  · rw [marked, token]
  · intro tok f mem
    rcases List.mem_cons.1 mem with eq | mem
    · cases eq
      rw [token, current]
    · rw [token]
      exact kept.tokens tok f mem
  · rw [marked, token]
    exact ⟨fun _ => rfl, fun _ => ⟨first, by rw [current]; exact List.mem_cons_self⟩⟩
  · by_cases own : j = i
    · simp [State.setTx, State.release, own] at running'
    · have before : s.txs j = some tx := by simpa [State.setTx, State.release, own] using running'
      refine ⟨before, fun some same => ?_⟩
      obtain ⟨draft, drafted⟩ := Option.isSome_iff_exists.1 some
      have held' := (h.drafts j tx draft before drafted).1
      rw [same] at held'
      exact own (Option.some.inj (held'.symm.trans held))
  · exact if_neg fun own => other own.1
  · rw [told, ← current, ne_eq, ← kept.taken, not_exists]

theorem update_rows (now : Int) (w : Worker) (db : Database) :
    ∃ f : WorkerID → WorkerRow → WorkerRow, (∀ k, (WorkerRepository.update now w db).2.worker? k =
      (db.worker? k).map (f k)) ∧
    ∀ k r, (f k r).fencingToken = r.fencingToken ∧ (f k r).inventoryToken = r.inventoryToken := by
  have same : ∃ f : WorkerID → WorkerRow → WorkerRow,
    (∀ k, db.worker? k = (db.worker? k).map (f k)) ∧
      ∀ k r, (f k r).fencingToken = r.fencingToken ∧ (f k r).inventoryToken = r.inventoryToken :=
    ⟨fun _ r => r, fun k => by simp, fun _ _ => ⟨rfl, rfl⟩⟩
  unfold WorkerRepository.update
  split
  · split
    · refine ⟨_, fun k => Database.worker?_rewriteWorkers .., fun k r => ?_⟩
      split <;> exact ⟨rfl, rfl⟩
    · exact same
  · exact same

theorem counted_step {a : Event} (h : Counted s) (done : step s a = some t) : Counted t := by
  cases a with
  | register now w =>
    simp only [step, Option.ite_none_right_eq_some, Option.some.injEq] at done
    obtain ⟨free, rfl⟩ := done
    exact registered_counted h free
  | heartbeat now w =>
    simp only [step, Option.ite_none_right_eq_some, Option.some.injEq] at done
    obtain ⟨free, rfl⟩ := done
    obtain ⟨f, rows, same⟩ := update_rows now w s.db
    exact h.refresh rows same rfl rfl rfl
  | sweep now timeout =>
    simp only [step, Option.ite_none_right_eq_some, Option.some.injEq] at done
    obtain ⟨-, rfl⟩ := done
    refine h.refresh (fun k => Database.worker?_rewriteWorkers ..) (fun k r => ?_) rfl rfl rfl
    split <;> exact ⟨rfl, rfl⟩
  | begin i w =>
    simp only [step, Option.ite_none_right_eq_some, Option.some.injEq] at done
    obtain ⟨-, rfl⟩ := done
    refine h.move rfl rfl fun j tx draft running drafted => ?_
    by_cases own : j = i
    · have eq : tx = ⟨w, .begun⟩ := by simpa [State.setTx, own] using running.symm
      subst eq
      cases drafted
    · exact h.drafts j tx draft (by simpa [State.setTx, own] using running) drafted
  | update i now =>
    simp only [step] at done
    split at done
    · split at done
      · rename_i free
        exact updated_counted h free done
      · cases done
    · cases done
  | claimInventory i =>
    simp only [step] at done
    split at done
    · rename_i running
      exact claimed_counted h running done
    · cases done
  | reconcileInventory i | enqueue i =>
    simp only [step] at done
    split at done <;> cases done
    rename_i running
    exact h.onward running ⟨rfl, rfl⟩
  | commit i =>
    simp only [step] at done
    split at done <;> cases done
    rename_i running
    exact commit_counted h running
  | rollback i =>
    obtain ⟨tx, -, rfl⟩ := Option.map_eq_some_iff.1 done
    exact rollback_counted h

def statements (i : Nat) (now : Int) (w : Worker) : List Event :=
  [.begin i w, .update i now, .claimInventory i, .reconcileInventory i, .enqueue i, .commit i]

theorem lone_transaction {inv : SandboxRepository.Inventory} {db' : Database}
    (unused : s.txs i = none) (free : s.locks w.id = none)
    (done : Transactions.reconcileHeartbeat now w inv s.db = some db') :
    ∃ t first, Runs.run step s (statements i now w) = some t ∧
    (∀ k, t.db.worker? k = db'.worker? k) ∧
      t.log = .heartbeat w.id w.fencingToken first :: s.log := by
  obtain ⟨w', db₁, accepted, workers⟩ := Orchestrator.reconcileHeartbeat_workers done
  obtain ⟨r, found, current, rfl⟩ := Orchestrator.update_beats accepted
  have marked : (claimInventory w.id w.fencingToken
    (view s.db w.id (heartbeatRow now w r))).2.worker? w.id =
      some { heartbeatRow now w r with inventoryToken := w.fencingToken } := by
    rw [(claimInventory_view _ _ _ _).2]
    by_cases taken : r.inventoryToken = w.fencingToken <;> simp [heartbeatRow, current, taken]
  have ran : (Runs.run step s (statements i now w)).map (fun t => (t.db.workers, t.log)) =
      some (s.db.workers.set w.id { heartbeatRow now w r with inventoryToken := w.fencingToken },
        .heartbeat w.id w.fencingToken
          (claimInventory w.id w.fencingToken (view s.db w.id (heartbeatRow now w r))).1 ::
          s.log) := by
    simp [Runs.run, Runs.runWhen, statements, step, unused, free, State.setTx, updated,
      accepted, found, claimed, marked]
    rfl
  obtain ⟨t, ran, eq⟩ := Option.map_eq_some_iff.1 ran
  obtain ⟨rows, log⟩ := Prod.mk.inj eq
  refine ⟨t, _, ran, fun k => ?_, log⟩
  have mine : t.db.worker? k = if k = w.id then
      some { heartbeatRow now w r with inventoryToken := w.fencingToken } else s.db.worker? k := by
    rw [Database.worker?, rows, Table.get?_set, Database.worker?]
  have theirs : db'.worker? k = (Database.rewriteWorkers _ _).worker? k := congrArg
    (fun rows => rows.get? k) workers
  rw [mine, theirs, Database.worker?_rewriteWorkers, Database.worker?_rewriteWorkers]
  by_cases own : k = w.id
  · by_cases taken : r.inventoryToken = w.fencingToken <;> simp [own, found,
      heartbeatRow, current, taken]
  · simp [own]

end Steps

theorem firsts_split {log later earlier : List Entry} {id : WorkerID} {token : Int} {first : Bool}
    (h : Firsts log) (eq : log = later ++ .heartbeat id token first :: earlier) :
    first = true ↔ ∀ f, .heartbeat id token f ∉ earlier := by
  induction later generalizing log with
  | nil =>
    subst eq
    exact h.1
  | cons e later ih =>
    subst eq
    cases e with
    | registered w tok =>
      have rest : Firsts (later ++ .heartbeat id token first :: earlier) := h
      exact ih rest rfl
    | heartbeat w tok f =>
      have rest : Firsts (later ++ .heartbeat id token first :: earlier) := h.2
      exact ih rest rfl

theorem firsts_count {log : List Entry} (h : Firsts log) (id : WorkerID) (token : Int) :
    log.count (.heartbeat id token true) ≤ 1 := by
  induction log with
  | nil => simp
  | cons e log ih =>
    cases e with
    | registered => simpa using ih h
    | heartbeat id' token' first =>
      by_cases same : Entry.heartbeat id' token' first = .heartbeat id token true
      · cases same
        simp [List.count_eq_zero.2 (h.1.1 rfl true)]
      · simpa [List.count_cons, same] using ih h.2

theorem initial_counted : Counted initial where
  rows id r found := by simp [initial, Database.empty, Database.worker?] at found
  absent _ _ _ _ := List.not_mem_nil
  drafts i tx row running := by simp [initial] at running
  firsts := trivial

/-- In every run, whatever transactions are rolled back and wherever they are,
of the heartbeats with a complete inventory that were committed with a token the
first one was told so, and no other. -/
theorem one_first_inventory {s : State} (h : Runs.Reaches step initial s)
    (id : WorkerID) (token : Int) : s.log.count (.heartbeat id token true) ≤ 1 ∧
    ∀ later first earlier, s.log = later ++ .heartbeat id token first :: earlier →
      (first = true ↔ ∀ f, .heartbeat id token f ∉ earlier) := by
  have counted : Counted s :=
    Runs.ReachesWhen.invariant h initial_counted fun u v a counted _ done =>
      counted_step counted done
  exact ⟨firsts_count counted.firsts id token, fun later first earlier =>
    firsts_split counted.firsts⟩

def helloWorker (token : Int) : Worker where
  id := "worker-1"
  status := .active
  address := "10.0.0.2"
  capacity := 4
  port := 50051
  cpuBudget := 4
  memBudget := 8192
  cpuUsage := 0
  memUsage := 0
  lastHeartbeat := 0
  fencingToken := token

/-- The first transaction is rolled back after it was told that it is the first
one; the two after it are committed, and so is one of the next incarnation. -/
def retried : List Event :=
  [.register 0 (helloWorker 0), .begin 0 (helloWorker 1), .update 0 1,
    .claimInventory 0, .rollback 0] ++ statements 1 2 (helloWorker 1) ++
    statements 2 3 (helloWorker 1) ++ [.register 4 (helloWorker 0)] ++
    statements 3 5 (helloWorker 2)

theorem one_first_inventory_retried : ∃ s, Runs.run step initial retried = some s ∧
    s.log = [.heartbeat "worker-1" 2 true, .registered "worker-1" 2, .heartbeat "worker-1" 1 false,
      .heartbeat "worker-1" 1 true, .registered "worker-1" 1] ∧
    s.log.count (.heartbeat "worker-1" 1 true) ≤ 1 := by
  have ran : (Runs.run step initial retried).map (·.log) =
      some [.heartbeat "worker-1" 2 true, .registered "worker-1" 2, .heartbeat "worker-1" 1 false,
        .heartbeat "worker-1" 1 true, .registered "worker-1" 1] := by
    decide +kernel
  obtain ⟨s, ran, log⟩ := Option.map_eq_some_iff.1 ran
  exact ⟨s, ran, log, (one_first_inventory (Runs.reachesWhen_of_run ran) "worker-1" 1).1⟩

end Fire2.FirstInventory
