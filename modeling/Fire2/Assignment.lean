import Fire2.Growth

/-! AssignWorker at the granularity of its statements, under READ COMMITTED. A
transaction locks the row of the worker until it ends. Its UPDATE reads the
count and the status from a snapshot taken when it starts, waits for the
sandbox row, and checks the row's latest version again before it writes.
Nobody else sees what is written before the commit. Every other statement of
the orchestrator may come at any time, as long as it touches no row that an
open transaction holds. -/

namespace Fire2.Capacity
open Interleaving Lifecycle SandboxRepository Orchestrator

/-- What the UPDATE reads when it starts. -/
structure Snapshot where
  status : Option Status
  hosted : Nat

inductive Statement where
  | begin
  | lockWorker (workerID : WorkerID)
  | snapshot (id : SandboxID) (workerID : WorkerID)
  | update (id : SandboxID) (workerID : WorkerID) (capacity : Int) (snap : Snapshot)
  | readStatus (id : SandboxID)
  | commit
  | rollback

abbrev Statement.Result : Statement → Type
  | lockWorker _ => Option Int
  | snapshot .. => Snapshot
  | update .. => Option Sandbox
  | readStatus _ => Option Status
  | begin | commit | rollback => Unit

abbrev Statement.Answer (c : Statement) : Type := Except Err c.Result

abbrev Transaction := Prog Statement Statement.Answer

def execute (c : Statement) : Transaction c.Answer := .call c .ret

abbrev Assigned := Except Err (Option Sandbox)

def guardedUpdate (id : SandboxID) (workerID : WorkerID) (capacity : Int) :
    Transaction Assigned := do
  match ← execute (.snapshot id workerID) with
  | .error err => return .error err
  | .ok snap => execute (.update id workerID capacity snap)

def notUpdated (id : SandboxID) : Transaction Assigned := do
  -- no row was updated: the worker is full or the status guard rejected us
  match ← execute (.readStatus id) with
  | .error err => return .error err
  | .ok none => return .error (.sentinel .sandboxNotFound)
  | .ok (some status) =>
    return if status = .scheduling then .error (.sentinel .workerFull) else .ok none

def updateAndCommit (id : SandboxID) (workerID : WorkerID) (capacity : Int) :
    Transaction Assigned := do
  match ← guardedUpdate id workerID capacity with
  | .error err => return .error err
  | .ok none => notUpdated id
  | .ok (some s) =>
    match ← execute .commit with
    | .error err => return .error err
    | .ok () => return .ok (some s)

def lockAndUpdate (id : SandboxID) (workerID : WorkerID) : Transaction Assigned := do
  match ← execute (.lockWorker workerID) with
  | .error err => return .error err
  | .ok none => return .error (.new ("assign worker: worker " ++ workerID ++ " not found"))
  | .ok (some capacity) => updateAndCommit id workerID capacity

/-- `AssignWorker`; `beginner` tells whether the handle can open a transaction. -/
def assignWorker (beginner : Bool) (id : SandboxID) (workerID : WorkerID) :
    Transaction Assigned := do
  if !beginner then
    return .error (.new "AssignWorker: db cannot begin a transaction")
  match ← execute .begin with
  | .error err => return .error err
  | .ok () =>
    let r ← lockAndUpdate id workerID
    -- deferred; it finds the transaction closed after a commit
    let _ ← execute .rollback
    return r

inductive Phase where
  | idle | running | ended
  deriving DecidableEq, Repr

/-- The committed data, and what the open transactions hold: transactions are
numbered by the thread that opens them. `full` is history: the transactions
whose UPDATE started while they held the lock, the sandbox was scheduling and
the worker had no room. -/
structure Shared where
  world : World
  phase : Nat → Phase
  locks : WorkerID → Option Nat
  writes : SandboxID → Option (Nat × SandboxRow)
  full : List (Nat × SandboxID × WorkerID)

namespace Shared

def db (s : Shared) : Database := s.world.db

def isFull (i : Nat) (id : SandboxID) (workerID : WorkerID) (s : Shared) : Bool :=
  s.locks workerID = some i &&
    ((s.db.worker? workerID).any fun w => w.capacity ≤ (hostedCount workerID s.db : Int)) &&
    (s.db.sandbox? id).any fun r => r.status = .scheduling

def visible (i : Nat) (id : SandboxID) (s : Shared) : Option SandboxRow :=
  -- the row as the transaction sees it: its own version, or the committed one
  match s.writes id with
  | some (j, r) => if j = i then some r else s.db.sandbox? id
  | none => s.db.sandbox? id

def release (i : Nat) (s : Shared) : Shared where
  world := s.world
  phase := Function.update s.phase i .ended
  locks w := (s.locks w).filter fun j => j ≠ i
  writes id := (s.writes id).filter fun p => p.1 ≠ i
  full := s.full

def applied (i : Nat) (s : Shared) : Database :=
  s.db.rewrite fun id old =>
    match s.writes id with
    | some (j, r) => if j = i then r else old
    | none => old

def undisturbed (s : Shared) (db : Database) : Bool :=
  s.db.workers.agrees db.workers (fun w => (s.locks w).isSome) &&
    s.db.sandboxes.agrees db.sandboxes (fun id => (s.writes id).isSome)

end Shared

def Statement.ready : Statement → Phase
  | begin => .idle
  | _ => .running

def run (i : Nat) (c : Statement) (now : Int) (s : Shared) : Option (c.Result × Shared) :=
  -- one statement of an open transaction; `none` when it waits for a row
  match c with
  | .begin => some ((), { s with phase := Function.update s.phase i .running })
  | .lockWorker workerID =>
    match s.db.worker? workerID with
    | none => some (none, s)
    | some w =>
      if (s.locks workerID).all fun j => j = i then
        some (some w.capacity, { s with locks := Function.update s.locks workerID (some i) })
      else none
  | .snapshot id workerID =>
    some (⟨(s.db.sandbox? id).map fun r => r.status, hostedCount workerID s.db⟩,
      { s with full := if s.isFull i id workerID then (i, id, workerID) :: s.full else s.full })
  | .update id workerID capacity snap =>
    if snap.status = some .scheduling ∧ snap.hosted < capacity then
      match s.writes id, s.db.sandbox? id with
      | some _, _ => none
      | none, some r =>
        if r.status = .scheduling then
          let r' := { r with
            workerID := some workerID, status := .assigned, lastSeenAt := some now }
          some (some (scanSandbox id r'),
            { s with writes := Function.update s.writes id (some (i, r')) })
        else some (none, s)
      | none, none => some (none, s)
    else some (none, s)
  | .readStatus id => some ((s.visible i id).map fun r => r.status, s)
  | .commit => some ((), Shared.release i { s with world := { s.world with db := s.applied i } })
  | .rollback => some ((), s.release i)

def exec : Exec Statement Env Shared Statement.Answer := fun i c e s =>
  if s.phase i = c.ready then
    match e.fault with
    | .none => (run i c e.now s).map fun r => (.ok r.1, r.2)
    | .fail text => some (.error (.database text), s)
    | .lost text => (run i c e.now s).map fun r => (.error (.database text), r.2)
  else some (.error (.database "conn closed"), s)

structure Kind where
  beginner : Bool
  id : SandboxID
  workerID : WorkerID
  deriving DecidableEq

def assigns : Call → Bool
  | .assignWorker .. => true
  | _ => false

/-- Any other call of the orchestrator. -/
structure Other where
  call : Call
  lawful : Lawful call
  other : assigns call = false

inductive Outside where
  | statement (o : Other) (e : Env)
  | disconnect (i : Nat)

def outside (x : Outside) (s : Shared) : Option Shared :=
  -- the database ends a transaction whose connection is lost
  match x with
  | .statement o e =>
    if s.undisturbed (answer o.call e s.world).2.db then
      some { s with world := (answer o.call e s.world).2 }
    else none
  | .disconnect i => some (s.release i)

def system : System Kind Statement Env Outside Assigned Shared Statement.Answer where
  -- transactions start as stepAssign starts them: on sandboxes past pending
  exec := exec
  body k := assignWorker k.beginner k.id k.workerID
  start _ k s := if (s.db.sandbox? k.id).any fun r => r.status ≠ .pending then some s else none
  stoppable _ := true
  ext := outside

abbrev State := Config Kind Statement Assigned Shared Statement.Answer

def initial : State :=
  System.init ⟨⟨.empty, []⟩, fun _ => .idle, fun _ => none, fun _ => none, []⟩

section Occupancy
variable {db db' : Database} {workerID : WorkerID}

theorem hostedOn_iff {r : SandboxRow} : hostedOn workerID r = true ↔
    r.workerID = some workerID ∧ 2 ≤ rank r.status ∧ rank r.status ≤ 5 := by
  simp only [hostedOn, decide_eq_true_eq]
  refine and_congr_right fun _ => ?_
  cases r.status <;> decide

def NoneGiven (workerID : WorkerID) (db db' : Database) : Prop :=
  ∀ id r', db'.sandbox? id = some r' → r'.workerID = some workerID →
    ∃ r, db.sandbox? id = some r ∧ r.workerID = some workerID ∧
      (hostedOn workerID r' = true → hostedOn workerID r = true)

theorem NoneGiven.refl (db : Database) : NoneGiven workerID db db :=
  fun _ r row given => ⟨r, row, given, id⟩

theorem NoneGiven.count_le (h : NoneGiven workerID db db') :
    hostedCount workerID db' ≤ hostedCount workerID db := by
  refine Table.count_le_of_subset _ _ _ _ fun id mem => ?_
  obtain ⟨r', row', hosted⟩ := (Table.mem_select _ _ _).1 mem
  obtain ⟨r, row, -, before⟩ := h id r' row' (hostedOn_iff.1 hosted).1
  exact (Table.mem_select _ _ _).2 ⟨r, row, before hosted⟩

theorem keeps_worker {may : SandboxRow → Label → Prop} {r r' : SandboxRow} (h : Steps may r r')
    (never : ∀ r w now, ¬ may r (.assign w now)) (given : r'.workerID = some workerID) :
    r.workerID = some workerID := by
  induction h with
  | refl => exact given
  | tail _ last ih =>
    obtain ⟨l, permitted, move⟩ := last
    refine ih ?_
    cases move with
    | assign w now => exact absurd permitted (never _ w now)
    | clear => cases given
    | schedule | start | confirm | seen | claim | finish => exact given

theorem noneGiven_of_grows {may : Permit} (g : Grows may db db')
    (never : ∀ id r w now, ¬ may id r (.assign w now))
    (rows : ∀ id r, db.sandbox? id = some r → Unassigned r) : NoneGiven workerID db db' := by
  intro id r' row' given
  cases row : db.sandbox? id with
  | none =>
    obtain ⟨r, born, steps⟩ := g.fresh id r' row row'
    have := keeps_worker steps (never id) given
    rw [born.2.1] at this
    cases this
  | some r =>
    obtain ⟨r'', row'', steps⟩ := g.kept id r row
    cases row'.symm.trans row''
    have given' := keeps_worker steps (never id) given
    refine ⟨r, rfl, given', fun hosted => ?_⟩
    have above : 2 ≤ rank r.status := by
      by_contra low
      rw [rows id r row (Nat.lt_of_not_le low)] at given'
      cases given'
    have := steps.forward.le
    exact hostedOn_iff.2 ⟨given', above, by have := hostedOn_iff.1 hosted; omega⟩

theorem grant_other {c : Call} (other : assigns c = false) {e : Env} {id : SandboxID}
    {r : SandboxRow} {w : WorkerID} {now : Int} : ¬ Grant e db c id r (.assign w now) := by
  intro grant
  cases grant with
  | updateStatus allowed => cases allowed
  | assign => cases other

theorem unassigned_grows {may : Permit} (g : Grows may db db')
    (rows : ∀ id r, db.sandbox? id = some r → Unassigned r) (id : SandboxID) (r' : SandboxRow)
    (row' : db'.sandbox? id = some r') : Unassigned r' := by
  cases row : db.sandbox? id with
  | none =>
    obtain ⟨r, born, steps⟩ := g.fresh id r' row row'
    exact (steps.evolved fun _ => born.2.1).1
  | some r =>
    obtain ⟨r'', row'', steps⟩ := g.kept id r row
    cases row'.symm.trans row''
    exact (steps.evolved (rows id r row)).1

theorem assignWorker_counts (now : Int) (id : SandboxID) (w : WorkerID) (db : Database) :
    let db' := (SandboxRepository.assignWorker now id w db).2
    hostedCount w db' ≤ hostedCount w db + 1 ∧ ∀ v, v ≠ w → NoneGiven v db db' := by
  have same (v : WorkerID) : NoneGiven v db db := .refl db
  unfold SandboxRepository.assignWorker
  split
  · exact ⟨Nat.le_succ _, fun v _ => same v⟩
  split
  · exact ⟨Nat.le_succ _, fun v _ => same v⟩
  rename_i r row
  split
  · split
    · refine ⟨Table.count_le_succ _ _ _ _ id fun k mem => ?_, fun v other k r' row' given => ?_⟩
      · obtain ⟨r', row', hosted⟩ := (Table.mem_select _ _ _).1 mem
        by_cases mine : k = id
        · exact .inl mine
        · refine .inr ((Table.mem_select _ _ _).2 ⟨r', ?_, hosted⟩)
          have written := (Database.sandbox?_rewrite db _ k).symm.trans row'
          obtain ⟨old, found, rfl⟩ := Option.map_eq_some_iff.1 written
          rw [if_neg mine]
          exact found
      · rw [Database.sandbox?_rewrite] at row'
        obtain ⟨old, found, rfl⟩ := Option.map_eq_some_iff.1 row'
        split at given
        · exact absurd (Option.some.inj given).symm other
        · rename_i elsewhere
          rw [if_neg elsewhere]
          exact ⟨old, found, given, fun hosted => hosted⟩
    · exact ⟨Nat.le_succ _, fun v _ => same v⟩
  · exact ⟨Nat.le_succ _, fun v _ => same v⟩

end Occupancy

/-- A row version that awaits its commit: its transaction holds the lock of the
worker it gives, which still has room, and nobody has moved the sandbox. -/
structure Justified (s : Shared) (id : SandboxID) (i : Nat) (r' : SandboxRow) : Prop where
  running : s.phase i = .running
  assignment : ∃ workerID w r now, s.locks workerID = some i ∧ s.db.worker? workerID = some w ∧
    s.db.sandbox? id = some r ∧ r.status = .scheduling ∧ hostedCount workerID s.db < w.capacity ∧
    r' = { r with workerID := some workerID, status := .assigned, lastSeenAt := some now }
  single : ∀ k q, s.writes k = some (i, q) → k = id

structure Inv (s : Shared) : Prop where
  rows : ∀ id r, s.db.sandbox? id = some r → Unassigned r
  written : ∀ id i r', s.writes id = some (i, r') → Justified s id i r'

/-- What the others leave alone for an open transaction: the rows of the workers
it has locked, and the room it has seen there. -/
structure Held (i : Nat) (s t : Shared) : Prop where
  locked : ∀ w, s.locks w = some i → t.locks w = some i ∧ t.db.worker? w = s.db.worker? w ∧
    hostedCount w t.db ≤ hostedCount w s.db
  writes : ∀ id r, t.writes id = some (i, r) → s.writes id = some (i, r)

theorem Held.refl (i : Nat) (s : Shared) : Held i s s :=
  ⟨fun _ h => ⟨h, rfl, Nat.le_refl _⟩, fun _ _ h => h⟩

theorem Held.trans {i : Nat} {s t u : Shared} (h : Held i s t) (k : Held i t u) : Held i s u where
  locked w mine := by
    obtain ⟨mine', row, count⟩ := h.locked w mine
    obtain ⟨mine'', row', count'⟩ := k.locked w mine'
    exact ⟨mine'', row'.trans row, Nat.le_trans count' count⟩
  writes id r mine := h.writes id r (k.writes id r mine)

def Unwritten (i : Nat) (s : Shared) : Prop := ∀ id r, s.writes id ≠ some (i, r)

structure Locked (i : Nat) (workerID : WorkerID) (capacity : Int) (s : Shared) : Prop where
  mine : s.locks workerID = some i
  row : ∃ w, s.db.worker? workerID = some w ∧ w.capacity = capacity
  unwritten : Unwritten i s

theorem Locked.held {i : Nat} {workerID : WorkerID} {capacity : Int} {s t : Shared}
    (h : Locked i workerID capacity s) (k : Held i s t) : Locked i workerID capacity t := by
  obtain ⟨mine, row, -⟩ := k.locked workerID h.mine
  exact ⟨mine, row ▸ h.row, fun id r own => h.unwritten id r (k.writes id r own)⟩

/-- An UPDATE writes only under the lock, and only by a count that nobody has
raised since. -/
def lockSpec : Spec Statement Env Outside Shared where
  Inv := Inv
  Evolves s t := Grows .any s.db t.db ∧ ∀ x ∈ s.full, x ∈ t.full
  Keeps i s t := (s.phase i = .ended → t.phase i = .ended) ∧ (t.phase i = .ended ∨ Held i s t)
  Pre i c s :=
    match c with
    | .update _ workerID capacity snap => s.phase i = .ended ∨
      Locked i workerID capacity s ∧ hostedCount workerID s.db ≤ snap.hosted
    | _ => True
  Cond _ _ _ _ := True
  Out _ _ := True

section Sound
variable {s t : Shared} {i : Nat}

theorem exec_cases {c : Statement} {e : Env} {a : c.Answer} (h : exec i c e s = some (a, t)) :
    (∃ text, a = .error (.database text)) ∧ (t = s ∨ ∃ r, s.phase i = c.ready ∧
      run i c e.now s = some (r, t)) ∨
    ∃ r, a = .ok r ∧ s.phase i = c.ready ∧ run i c e.now s = some (r, t) := by
  unfold exec at h
  split at h
  · rename_i ready
    split at h
    · obtain ⟨⟨r, u⟩, ran, eq⟩ := Option.map_eq_some_iff.1 h
      cases eq
      exact .inr ⟨r, rfl, ready, ran⟩
    · cases h
      exact .inl ⟨⟨_, rfl⟩, .inl rfl⟩
    · obtain ⟨⟨r, u⟩, ran, eq⟩ := Option.map_eq_some_iff.1 h
      cases eq
      exact .inl ⟨⟨_, rfl⟩, .inr ⟨r, ready, ran⟩⟩
  · cases h
    exact .inl ⟨⟨_, rfl⟩, .inl rfl⟩

theorem keeps_of_held {j : Nat} (phase : t.phase j = s.phase j) (h : Held j s t) :
    lockSpec.Keeps j s t := ⟨fun ended => phase.trans ended, .inr h⟩

theorem Justified.held {id : SandboxID} {r' : SandboxRow} (h : Justified s id i r')
    (running : t.phase i = .running) (k : Held i s t)
    (row : t.db.sandbox? id = s.db.sandbox? id) : Justified t id i r' := by
  obtain ⟨workerID, w, r, now, lock, worker, found, status, room, eq⟩ := h.assignment
  obtain ⟨lock', worker', count⟩ := k.locked workerID lock
  refine ⟨running, ⟨workerID, w, r, now, lock', worker'.trans worker,
    row.trans found, status, ?_, eq⟩, fun id q own => h.single id q (k.writes id q own)⟩
  omega

theorem sound_of_held (inv : Inv s) (grows : Grows .any s.db t.db) (full : ∀ x ∈ s.full, x ∈ t.full)
    (others : ∀ j, j ≠ i → t.phase j = s.phase j ∧ Held j s t)
    (rows : ∀ id j r, j ≠ i → s.writes id = some (j, r) → t.db.sandbox? id = s.db.sandbox? id)
    (own : ∀ id r', t.writes id = some (i, r') → Justified t id i r') :
    Inv t ∧ lockSpec.Evolves s t ∧ ∀ j, j ≠ i → lockSpec.Keeps j s t := by
  refine ⟨⟨unassigned_grows grows inv.rows, fun id j r' written => ?_⟩, ⟨grows, full⟩,
    fun j other => keeps_of_held (others j other).1 (others j other).2⟩
  by_cases mine : j = i
  · subst mine
    exact own id r' written
  · obtain ⟨phase, held⟩ := others j mine
    have before := held.writes id r' written
    have just := inv.written id j r' before
    exact just.held (phase.trans just.running) held (rows id j r' mine before)

theorem release_held {j : Nat} (other : j ≠ i) : Held j s (s.release i) where
  locked w lock := ⟨Option.filter_eq_some_iff.2 ⟨lock, by simpa using other⟩, rfl, Nat.le_refl _⟩
  writes id r own := (Option.filter_eq_some_iff.1 own).1

theorem release_unwritten : Unwritten i (s.release i) := by
  intro id r own
  simpa using (Option.filter_eq_some_iff.1 own).2

theorem release_sound (inv : Inv s) : Inv (s.release i) ∧ lockSpec.Evolves s (s.release i) ∧
    ∀ j, lockSpec.Keeps j s (s.release i) := by
  obtain ⟨inv', evolves, keeps⟩ := sound_of_held (t := s.release i) (i := i) inv (.refl _)
    (fun _ h => h) (fun j other => ⟨Function.update_of_ne other _ _, release_held other⟩)
    (fun _ _ _ _ _ => rfl) fun id r' own => absurd own (release_unwritten id r')
  refine ⟨inv', evolves, fun j => ?_⟩
  by_cases mine : j = i
  · subst mine
    exact ⟨fun _ => Function.update_self .., .inl (Function.update_self ..)⟩
  · exact keeps j mine

theorem applied_cases (inv : Inv s) (i : Nat) : s.applied i = s.db ∨
    ∃ id workerID w r now, s.locks workerID = some i ∧ s.db.worker? workerID = some w ∧
      s.db.sandbox? id = some r ∧ hostedCount workerID s.db < w.capacity ∧
      s.applied i = (SandboxRepository.assignWorker now id workerID s.db).2 := by
  by_cases own : ∃ id r', s.writes id = some (i, r')
  · obtain ⟨id, r', own⟩ := own
    obtain ⟨-, ⟨workerID, w, r, now, lock, worker, row, status, room, rfl⟩, single⟩ :=
      inv.written id i r' own
    refine .inr ⟨id, workerID, w, r, now, lock, worker, row, room, ?_⟩
    have written (k : SandboxID) (old : SandboxRow) : (match s.writes k with
        | some (j, q) => if j = i then q else old
        | none => old) = if k = id then
          { r with workerID := some workerID, status := .assigned, lastSeenAt := some now }
          else old := by
      by_cases mine : k = id
      · subst mine
        rw [own, if_pos rfl]
        exact if_pos rfl
      · rw [if_neg mine]
        split
        · rename_i j q theirs
          exact if_neg fun (same : j = i) => mine (single k q (same ▸ theirs))
        · rfl
    simp only [Shared.applied, written, SandboxRepository.assignWorker, worker, row, status, room,
      if_true]
  · refine .inl ?_
    have same : s.db.sandboxes.update _ = s.db.sandboxes :=
      Table.update_eq_self _ (fun id old => match s.writes id with
        | some (j, r) => if j = i then r else old
        | none => old) fun id old _ => by
          split
          · rename_i j r theirs
            exact if_neg fun (mine : j = i) => own ⟨id, r, mine ▸ theirs⟩
          · rfl
    simp only [Shared.applied, Database.rewrite, same]

theorem stay_sound (inv : Inv s) :
    Inv s ∧ lockSpec.Evolves s s ∧ ∀ j, j ≠ i → lockSpec.Keeps j s s :=
  sound_of_held inv (.refl _) (fun _ h => h) (fun j _ => ⟨rfl, .refl j s⟩) (fun _ _ _ _ _ => rfl)
    (inv.written · i)

theorem write_sound {id : SandboxID} {workerID : WorkerID} {capacity : Int} {r : SandboxRow}
    {now : Int} (inv : Inv s) (running : s.phase i = .running)
    (locked : Locked i workerID capacity s) (room : hostedCount workerID s.db < capacity)
    (row : s.db.sandbox? id = some r) (status : r.status = .scheduling)
    (free : s.writes id = none) : let r' :=
  { r with workerID := some workerID, status := .assigned, lastSeenAt := some now }
    let t := { s with writes := Function.update s.writes id (some (i, r')) }
    Inv t ∧ lockSpec.Evolves s t ∧ ∀ j, j ≠ i → lockSpec.Keeps j s t := by
  intro r' t
  have cases {k : SandboxID} {j : Nat} {q : SandboxRow} (h : t.writes k = some (j, q)) :
      k = id ∧ j = i ∧ q = r' ∨ s.writes k = some (j, q) := by
    by_cases same : k = id
    · subst same
      cases (Function.update_self k _ s.writes).symm.trans h
      exact .inl ⟨rfl, rfl, rfl⟩
    · exact .inr ((Function.update_of_ne same _ _).symm.trans h)
  refine sound_of_held inv (.refl _) (fun _ h => h) (fun j other => ⟨rfl, ?_, ?_⟩)
    (fun _ _ _ _ _ => rfl) fun k q own => ?_
  · exact fun _ lock => ⟨lock, rfl, Nat.le_refl _⟩
  · intro k q theirs
    obtain ⟨-, mine, -⟩ | before := cases theirs
    · exact absurd mine other
    · exact before
  · obtain ⟨rfl, -, rfl⟩ | before := cases own
    · obtain ⟨w, worker, rfl⟩ := locked.row
      refine ⟨running, ⟨workerID, w, r, now, locked.mine, worker, row, status, room, rfl⟩, ?_⟩
      intro k' q' own'
      obtain ⟨same, -⟩ | before := cases own'
      · exact same
      · exact absurd before (locked.unwritten k' q')
    · exact absurd before (locked.unwritten k q)

theorem commit_sound (inv : Inv s) :
    let t := Shared.release i { s with world := { s.world with db := s.applied i } }
    Inv t ∧ lockSpec.Evolves s t ∧ ∀ j, j ≠ i → lockSpec.Keeps j s t := by
  obtain same | ⟨id, workerID, w, r, now, lock, -, row, -, done⟩ := applied_cases inv i
  · rw [same]
    obtain ⟨inv', evolves, keeps⟩ := release_sound (i := i) inv
    exact ⟨inv', evolves, fun j _ => keeps j⟩
  have lives : Lives .any s.db (s.applied i) := done ▸ assignWorker_lives fun _ _ => trivial
  obtain ⟨-, others⟩ := assignWorker_counts now id workerID s.db
  refine sound_of_held inv (Lives.quiet lives).grows (fun _ h => h) (fun j other => ?_) ?_ ?_
  · refine ⟨Function.update_of_ne other _ _, fun v mine => ?_, (release_held other).writes⟩
    have elsewhere : v ≠ workerID := by
      rintro rfl
      exact other (Option.some.inj (mine.symm.trans lock))
    refine ⟨((release_held other).locked v mine).1, ?_, ?_⟩
    · exact congrArg (fun ws => Table.get? ws v) lives.workers
    · exact (done ▸ others v elsewhere : NoneGiven v s.db (s.applied i)).count_le
  · intro k j q other theirs
    refine (Database.sandbox?_rewrite s.db _ k).trans ?_
    simp only [theirs, if_neg other, Option.map_id']
  · exact fun k q own => absurd own (release_unwritten k q)

theorem run_sound {c : Statement} {now : Int} {r : c.Result} (inv : Inv s)
    (pre : lockSpec.Pre i c s) (ready : s.phase i = c.ready) (h : run i c now s = some (r, t)) :
    Inv t ∧ lockSpec.Evolves s t ∧ ∀ j, j ≠ i → lockSpec.Keeps j s t := by
  cases c with
  | begin =>
    cases h
    refine sound_of_held inv (.refl _) (fun _ h => h) (fun j other => ?_) (fun _ _ _ _ _ => rfl) ?_
    · exact ⟨Function.update_of_ne other _ _, fun _ lock =>
        ⟨lock, rfl, Nat.le_refl _⟩, fun _ _ h => h⟩
    · intro id r' own
      cases ready.symm.trans (inv.written id i r' own).running
  | lockWorker workerID =>
    simp only [run] at h
    split at h
    · cases h
      exact stay_sound inv
    · split at h
      · rename_i free
        cases h
        have held (j : Nat) : Held j s { s with
            locks := Function.update s.locks workerID (some i) } := by
          refine ⟨fun v lock => ⟨?_, rfl, Nat.le_refl _⟩, fun _ _ h => h⟩
          by_cases same : v = workerID
          · subst same
            rw [lock] at free
            obtain rfl : j = i := by simpa using free
            exact Function.update_self ..
          · exact (Function.update_of_ne same _ _).trans lock
        refine sound_of_held inv (.refl _) (fun _ h => h) (fun j _ => ⟨rfl, held j⟩)
          (fun _ _ _ _ _ => rfl) fun id r' own => ?_
        have just := inv.written id i r' own
        exact just.held just.running (held i) rfl
      · cases h
  | snapshot id workerID =>
    cases h
    have held (j : Nat) : Held j s { s with
        full := if s.isFull i id workerID then (i, id, workerID) :: s.full else s.full } :=
      ⟨fun _ lock => ⟨lock, rfl, Nat.le_refl _⟩, fun _ _ h => h⟩
    refine sound_of_held inv (.refl _) (fun x mem => ?_) (fun j _ => ⟨rfl, held j⟩)
      (fun _ _ _ _ _ => rfl) fun k r' own => ?_
    · dsimp only
      split
      · exact List.mem_cons_of_mem _ mem
      · exact mem
    · have just := inv.written k i r' own
      exact just.held just.running (held i) rfl
  | update id workerID capacity snap =>
    simp only [run] at h
    split at h
    · rename_i guard
      split at h
      · cases h
      · rename_i r free row
        split at h
        · rename_i status
          cases h
          obtain ended | ⟨locked, count⟩ := pre
          · cases ready.symm.trans ended
          · exact write_sound inv ready locked (by omega) row status free
        · cases h
          exact stay_sound inv
      · cases h
        exact stay_sound inv
    · cases h
      exact stay_sound inv
  | readStatus id =>
    cases h
    exact stay_sound inv
  | commit =>
    cases h
    exact commit_sound inv
  | rollback =>
    cases h
    obtain ⟨inv', evolves, keeps⟩ := release_sound (i := i) inv
    exact ⟨inv', evolves, fun j _ => keeps j⟩

theorem lockSpec_sound : lockSpec.Sound exec where
  evolves_refl s := ⟨.refl _, fun _ h => h⟩
  evolves_trans h k := ⟨h.1.trans k.1, fun x mem => k.2 x (h.2 x mem)⟩
  keeps_refl i s := ⟨fun h => h, .inr (.refl i s)⟩
  keeps_trans h k := by
    refine ⟨fun ended => k.1 (h.1 ended), ?_⟩
    obtain ended | held := h.2
    · exact .inl (k.1 ended)
    · exact k.2.imp_right held.trans
  step inv pre _ ran := by
    obtain ⟨-, rfl | ⟨r, ready, ran⟩⟩ | ⟨r, -, ready, ran⟩ := exec_cases ran
    · exact stay_sound inv
    · exact run_sound inv pre ready ran
    · exact run_sound inv pre ready ran

theorem other_noneGiven (inv : Inv s) (o : Other) (e : Env) (workerID : WorkerID) :
    NoneGiven workerID s.db (answer o.call e s.world).2.db :=
  noneGiven_of_grows (answer_grows o.lawful e) (fun _ _ _ _ => grant_other o.other) inv.rows

theorem outside_sound {x : Outside} (inv : Inv s) (h : outside x s = some t) :
    Inv t ∧ lockSpec.Evolves s t ∧ ∀ j, lockSpec.Keeps j s t := by
  cases x with
  | disconnect i =>
    cases h
    exact release_sound inv
  | statement o e =>
    simp only [outside] at h
    split at h
    · rename_i quiet
      obtain ⟨workers, sandboxes⟩ := Bool.and_eq_true_iff.1 quiet
      cases h
      have held (j : Nat) : Held j s { s with world := (answer o.call e s.world).2 } := by
        refine ⟨fun w lock => ⟨lock, ?_, (other_noneGiven inv o e w).count_le⟩, fun _ _ h => h⟩
        exact (Table.agrees_get? workers (by simp only [lock, Option.isSome_some])).symm
      have row {id : SandboxID} {p : Nat × SandboxRow} (written : s.writes id = some p) :
          (answer o.call e s.world).2.db.sandbox? id = s.db.sandbox? id :=
        (Table.agrees_get? sandboxes (by simp only [written, Option.isSome_some])).symm
      have grows : Grows .any s.db (answer o.call e s.world).2.db :=
        (answer_grows o.lawful e).mono fun _ _ _ _ => trivial
      obtain ⟨inv', evolves, -⟩ := sound_of_held (i := 0)
        (t := { s with world := (answer o.call e s.world).2 }) inv grows (fun _ h => h)
        (fun j _ => ⟨rfl, held j⟩) (fun _ _ _ _ written => row written) fun id r' own =>
          (inv.written id 0 r' own).held (inv.written id 0 r' own).running (held 0) (row own)
      exact ⟨inv', evolves, fun j => keeps_of_held rfl (held j)⟩
    · cases h

end Sound

end Fire2.Capacity
