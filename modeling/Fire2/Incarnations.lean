import Fire2.Capacity
import Fire2.Workers

/-! What the first inventory of a worker's new process takes for lost. `now()` is
the time a transaction started: the clock only moves forward, an AssignWorker
transaction keeps the time of its BEGIN through all its statements, and any
other transaction commits at or after the time it started.

The lost rule compares two such start times, while what spares a sandbox is
the order of the commits. A transaction that begins, waits for the worker row
while the worker registers, and commits then writes the older time. -/

namespace Fire2.Incarnations
open Interleaving Lifecycle SandboxRepository Capacity
open Orchestrator hiding Kind

structure Shared where
  base : Capacity.Shared
  clock : Int
  began : Nat → Int

namespace Shared

def db (s : Shared) : Database := s.base.world.db

end Shared

inductive Outside where
  | tick (clock : Int)
  | statement (o : Other) (e : Env)
  | disconnect (i : Nat)

def outside (x : Outside) (s : Shared) : Option Shared :=
  -- the clock moves forward, and nothing commits before it has started
  match x with
  | .tick clock => if s.clock ≤ clock then some { s with clock } else none
  | .statement o e =>
    if e.now ≤ s.clock then
      (Capacity.outside (.statement o e) s.base).map fun base => { s with base }
    else none
  | .disconnect i => (Capacity.outside (.disconnect i) s.base).map fun base => { s with base }

/-- Every statement of a transaction sees the time of its BEGIN; until it is
open, that is the present. -/
def exec : Exec Statement Env Shared Statement.Answer := fun i c e s =>
  (Capacity.exec i c { e with now := s.began i } s.base).map fun r =>
    (r.1, { s with
      base := r.2
      began := if s.base.phase i = .idle then Function.update s.began i s.clock else s.began })

def system : System Kind Statement Env Outside Assigned Shared Statement.Answer where
  exec := exec
  body := Capacity.system.body
  start i k s := (Capacity.system.start i k s.base).map fun base => { s with base }
  stoppable _ := true
  ext := outside

abbrev State := Config Kind Statement Assigned Shared Statement.Answer

def initial : State := System.init ⟨Capacity.initial.shared, 0, fun _ => 0⟩

def lostBy (now : Int) (w : Worker) (inv : Inventory) (db : Database) : List SandboxID :=
  (Transactions.reconciled now w inv db).elim [] fun done => done.1.lost

/-- A transaction only commits if it began no earlier than the registrations of
the workers it has locked. -/
def punctual : Nat → Statement → Env → Shared → Bool
  | i, .commit, _, s => s.db.workers.rows.all fun p =>
      s.base.locks p.1 ≠ some i || p.2.registeredAt ≤ s.began i
  | _, _, _, _ => true

def under (s : State) : Capacity.State := ⟨s.shared.base, s.next, s.threads⟩

section Steps
variable {s t : State} {i : Nat} {c : Statement} {v w : Shared}

theorem exec_under {e : Env} {a : c.Answer} (h : exec i c e v = some (a, w)) :
    Capacity.exec i c { e with now := v.began i } v.base = some (a, w.base) ∧
      w.began = if v.base.phase i = .idle then Function.update v.began i v.clock else v.began := by
  obtain ⟨⟨a', base⟩, ran, eq⟩ := Option.map_eq_some_iff.1 h
  cases eq
  exact ⟨ran, rfl⟩

theorem outside_under {x : Outside} (h : outside x v = some w) :
    w.began = v.began ∧ (w.base = v.base ∨ ∃ y, Capacity.outside y v.base = some w.base) := by
  cases x with
  | tick clock =>
    simp only [outside] at h
    split at h <;> cases h
    exact ⟨rfl, .inl rfl⟩
  | statement o e =>
    simp only [outside] at h
    split at h
    · obtain ⟨base, done, rfl⟩ := Option.map_eq_some_iff.1 h
      exact ⟨rfl, .inr ⟨_, done⟩⟩
    · cases h
  | disconnect i =>
    cases h
    exact ⟨rfl, .inr ⟨.disconnect i, rfl⟩⟩

theorem step_under {a : Action Kind Env Outside} (h : system.step s a = some t) :
    under t = under s ∨ ∃ b, Capacity.system.step (under s) b = some (under t) := by
  obtain ⟨k, v, -, start, rfl⟩ | ⟨i, e, k, c, f, r, v, -, hi, ran, rfl⟩ | ⟨i, th, -, hi, -, rfl⟩ |
    ⟨x, v, -, done, rfl⟩ := System.step_cases h
  · obtain ⟨base, began, rfl⟩ := Option.map_eq_some_iff.1 start
    exact .inr ⟨.spawn k, Option.map_eq_some_iff.2 ⟨base, began, rfl⟩⟩
  · have moved : Capacity.system.exec i c { e with now := s.shared.began i } s.shared.base =
        some (r, v.base) := (exec_under ran).1
    exact .inr ⟨.call i { e with now := s.shared.began i }, by simp [System.step, under, hi, moved]⟩
  · exact .inr ⟨.stop i, by simp [System.step, under, hi, Capacity.system]⟩
  · obtain ⟨-, same | ⟨y, moved⟩⟩ := outside_under done
    · exact .inl (by simp only [under, same])
    · exact .inr ⟨.ext y, Option.map_eq_some_iff.2 ⟨v.base, moved, rfl⟩⟩

theorem reaches_under (h : system.Reaches initial s) :
    Capacity.system.Reaches Capacity.initial (under s) := by
  induction h with
  | refl => exact .refl
  | tail _ last ih =>
    obtain ⟨a, -, moved⟩ := last
    obtain same | ⟨b, ran⟩ := step_under moved
    · exact same ▸ ih
    · exact ih.trans (System.Reaches.single ran)

theorem reaches_inv (h : system.Reaches initial s) : Capacity.Inv s.shared.base :=
  (reached_safe (reaches_under h)).inv

def Dated (s : Shared) : Prop :=
  ∀ id i r, s.base.writes id = some (i, r) → r.lastSeenAt = some (s.began i)

theorem Dated.release {s : Shared} (h : Dated s) (i : Nat) (world : World) :
    Dated { s with base := { s.base.release i with world } } :=
  fun id j r own => h id j r (Option.filter_eq_some_iff.1 own).1

theorem run_dated {base base' : Capacity.Shared} {clock : Int}
    {began : Nat → Int} {r : c.Result} (h : Dated ⟨base, clock, began⟩)
    (ran : run i c (began i) base = some (r, base')) : Dated ⟨base', clock, began⟩ := by
  cases c with
  | commit | rollback =>
    cases ran
    exact h.release i _
  | lockWorker workerID =>
    simp only [run] at ran
    split at ran
    · cases ran
      exact h
    · split at ran <;> cases ran
      exact h
  | update id workerID capacity snap =>
    simp only [run] at ran
    split at ran
    · split at ran
      · cases ran
      · split at ran <;> cases ran
        · intro k j q own
          dsimp only at own
          by_cases mine : k = id
          · subst mine
            rw [Function.update_self] at own
            cases own
            rfl
          · rw [Function.update_of_ne mine] at own
            exact h k j q own
        · exact h
      · cases ran
        exact h
    · cases ran
      exact h
  | begin | snapshot | readStatus =>
    cases ran
    exact h

theorem exec_dated {e : Env} {a : c.Answer}
    (inv : Capacity.Inv v.base) (h : Dated v) (ran : exec i c e v = some (a, w)) : Dated w := by
  obtain ⟨moved, times⟩ := exec_under ran
  obtain ⟨base, clock, began⟩ := w
  dsimp only at moved times
  by_cases idle : v.base.phase i = .idle
  · -- it has written nothing yet, and all it can do is begin
    have writes : base.writes = v.base.writes := by
      have begins {r : c.Result} (ready : v.base.phase i = c.ready)
          (done : run i c (v.began i) v.base = some (r, base)) : base.writes = v.base.writes := by
        cases c with
        | begin =>
          cases done
          rfl
        | _ => cases idle.symm.trans ready
      obtain ⟨-, rfl | ⟨r, ready, done⟩⟩ | ⟨r, -, ready, done⟩ := exec_cases moved
      · rfl
      · exact begins ready done
      · exact begins ready done
    intro id j r own
    dsimp only at own ⊢
    rw [writes] at own
    rw [times, if_pos idle, Function.update_of_ne]
    · exact h id j r own
    · rintro rfl
      cases idle.symm.trans (inv.written id j r own).running
  · rw [if_neg idle] at times
    subst times
    obtain ⟨-, rfl | ⟨r, -, done⟩⟩ | ⟨r, -, -, done⟩ := exec_cases moved
    · exact h
    · exact run_dated h done
    · exact run_dated h done

theorem outside_dated {x : Outside} (h : Dated v) (done : outside x v = some w) :
    Dated w := by
  obtain ⟨base, clock, began⟩ := w
  obtain ⟨rfl, same | ⟨y, moved⟩⟩ := outside_under done
  · cases same
    exact h
  · cases y with
    | disconnect i =>
      cases moved
      exact h.release i _
    | statement o e =>
      simp only [Capacity.outside] at moved
      split at moved <;> cases moved
      exact h

theorem reaches_dated (h : system.Reaches initial s) : Dated s.shared := by
  induction h with
  | refl => exact fun _ _ _ own => nomatch own
  | tail before last ih =>
    obtain ⟨a, -, moved⟩ := last
    obtain ⟨k, v, -, start, rfl⟩ | ⟨i, e, k, c, f, r, v, -, -, ran, rfl⟩ | ⟨i, th, -, -, -, rfl⟩ |
      ⟨x, v, -, done, rfl⟩ := System.step_cases moved
    · obtain ⟨base, began, rfl⟩ := Option.map_eq_some_iff.1 start
      simp only [Capacity.system] at began
      split at began <;> cases began
      exact ih
    · exact exec_dated (reaches_inv before) ih ran
    · exact ih
    · exact outside_dated ih done

end Steps

/-- No inventory of the token has been taken, and when one is, the sandbox was
seen since the registration that gave the token. -/
def Spared (workerID : WorkerID) (token : Int) (id : SandboxID) (db : Database) : Prop :=
  ∃ w, db.worker? workerID = some w ∧ token ≤ w.fencingToken ∧
    (w.fencingToken = token → w.inventoryToken ≠ token →
      ∀ r, db.sandbox? id = some r → r.workerID = some workerID → w.registeredAt ≤ lastSeen r)

section Spared
variable {workerID : WorkerID} {token : Int} {id : SandboxID} {c : Call} {s : World} {e : Env}
  {i : Nat} {r : SandboxRow}

theorem Steps.lastSeen {may : SandboxRow → Label → Prop} {r r' : SandboxRow} (h : Steps may r r')
    (never : ∀ r w now, ¬ may r (.assign w now))
    (unseen : ∀ r now, r.workerID = some workerID → ¬ may r (.seen now))
    (given : r'.workerID = some workerID) :
    r.workerID = some workerID ∧ lastSeen r = lastSeen r' := by
  induction h with
  | refl => exact ⟨given, rfl⟩
  | tail _ last ih =>
    obtain ⟨l, permitted, move⟩ := last
    cases move with
    | assign w now => exact absurd permitted (never _ w now)
    | clear => cases given
    | seen now => exact absurd permitted (unseen _ now given)
    | schedule | start | confirm | claim | finish => exact ih given

theorem grows_lastSeen {may : Permit} {db db' : Database} (g : Grows may db db')
    (never : ∀ r w now, ¬ may id r (.assign w now))
    (unseen : ∀ r now, r.workerID = some workerID → ¬ may id r (.seen now)) {r' : SandboxRow}
    (row' : db'.sandbox? id = some r') (given : r'.workerID = some workerID) :
    ∃ r, db.sandbox? id = some r ∧ r.workerID = some workerID ∧ lastSeen r = lastSeen r' := by
  cases row : db.sandbox? id with
  | none =>
    obtain ⟨r, born, steps⟩ := g.fresh id r' row row'
    have held := (Steps.lastSeen steps never unseen given).1
    rw [born.2.1] at held
    cases held
  | some r =>
    obtain ⟨q, found, steps⟩ := g.kept id r row
    cases row'.symm.trans found
    exact ⟨r, rfl, Steps.lastSeen steps never unseen given⟩

theorem worker_token {now : Int} {s t : World} (h : WorkerStep now s t c)
    {w : WorkerRow} (row : s.db.worker? workerID = some w) (le : token ≤ w.fencingToken) :
    ∃ w', t.db.worker? workerID = some w' ∧ token ≤ w'.fencingToken ∧
      (w'.fencingToken = token → w'.inventoryToken ≠ token → w.fencingToken = token ∧
        w.inventoryToken ≠ token ∧ w'.registeredAt = w.registeredAt ∧
        (t = s ∨ inventoryOf c ≠ some workerID)) := by
  have other {w₀ : Worker} (others : ∀ id, id ≠ w₀.id → t.db.worker? id = s.db.worker? id)
      (named : inventoryOf c = none ∨ inventoryOf c = some w₀.id) (ne : workerID ≠ w₀.id) :
      ∃ w', t.db.worker? workerID = some w' ∧ token ≤ w'.fencingToken ∧
        (w'.fencingToken = token → w'.inventoryToken ≠ token → w.fencingToken = token ∧
          w.inventoryToken ≠ token ∧ w'.registeredAt = w.registeredAt ∧
          (t = s ∨ inventoryOf c ≠ some workerID)) := by
    refine ⟨w, (others _ ne).trans row, le, fun a b => ⟨a, b, rfl, .inr fun same => ?_⟩⟩
    obtain none | some := named
    · cases none.symm.trans same
    · exact ne (Option.some.inj (same.symm.trans some))
  cases h with
  | silent workers log kept =>
    refine ⟨w, (congrArg (fun ws => Table.get? ws workerID) workers).trans row, le,
      fun a b => ⟨a, b, rfl, kept.imp_right fun none => ?_⟩⟩
    rw [none]
    simp
  | @registered w₀ done =>
    by_cases own : workerID = w₀.id
    · subst own
      obtain ⟨n, row'⟩ := done.row
      have higher : token < WorkerRepository.nextToken w₀ s.db := by
        simp only [WorkerRepository.nextToken, row]
        omega
      refine ⟨_, row', Int.le_of_lt higher, fun same => ?_⟩
      exact absurd same (Int.ne_of_gt higher)
    · exact other done.others (.inl rfl) own
  | @heartbeat w₀ done =>
    by_cases own : workerID = w₀.id
    · subst own
      obtain ⟨r, n, found, current, row'⟩ := done.row
      cases found.symm.trans row
      have unmarked := done.taken _ _ row row'
      exact ⟨_, row', le, fun same a => ⟨same, fun eq => a (unmarked.trans eq), rfl,
        .inr fun eq => by cases eq⟩⟩
    · exact other done.others (.inl rfl) own
  | @inventory w₀ inv beats done =>
    by_cases own : workerID = w₀.id
    · subst own
      obtain ⟨r, n, found, current, row'⟩ := beats.row
      cases found.symm.trans row
      have marked := beats.taken _ _ row row'
      refine ⟨_, row', le, fun same unmarked => ?_⟩
      exact absurd (marked.trans (current.symm.trans same)) unmarked
    · exact other beats.others (.inr rfl) own
  | @swept timeout done =>
    refine ⟨_, (done.rows workerID).trans (by rw [row, Option.map_some]), ?_, ?_⟩
    · split <;> exact le
    · split <;> exact fun a b => ⟨a, b, rfl, .inr fun eq => by cases eq⟩

theorem Spared.other (lawful : Lawful c) (plain : assigns c = false)
    (h : Spared workerID token id s.db) : Spared workerID token id (answer c e s).2.db := by
  obtain ⟨w, row, le, seen⟩ := h
  obtain ⟨w', row', le', kept⟩ := worker_token (answer_workers lawful e s) row le
  refine ⟨w', row', le', fun same unmarked r' found given => ?_⟩
  obtain ⟨same₀, unmarked₀, registered, apart⟩ := kept same unmarked
  rw [registered]
  obtain still | apart := apart
  · rw [still] at found
    exact seen same₀ unmarked₀ r' found given
  · have unseen (r : SandboxRow) (now : Int) (held : r.workerID = some workerID) :
        ¬ Grant e s.db c id r (.seen now) := by
      intro grant
      cases grant with
      | updateStatus allowed => cases allowed
      | seen held' => exact apart (held'.symm.trans held)
    obtain ⟨r, before, held, eq⟩ := grows_lastSeen (answer_grows lawful e)
      (fun _ _ _ => grant_other plain) unseen found given
    rw [← eq]
    exact seen same₀ unmarked₀ r before held

theorem applied_row {s : Capacity.Shared} (h : (s.applied i).sandbox? id = some r) :
    s.db.sandbox? id = some r ∨ s.writes id = some (i, r) := by
  rw [Capacity.Shared.applied, Database.sandbox?_rewrite, Option.map_eq_some_iff] at h
  obtain ⟨old, before, eq⟩ := h
  split at eq
  · rename_i j version own
    split at eq
    · rename_i mine
      exact .inr (by rw [own, mine, eq])
    · exact .inl (eq ▸ before)
  · exact .inl (eq ▸ before)

theorem commit_seen {s : Shared} (inv : Capacity.Inv s.base) (dated : Dated s)
    (may : punctual i .commit e s = true) (own : s.base.writes id = some (i, r))
    (given : r.workerID = some workerID) {w : WorkerRow} (row : s.db.worker? workerID = some w) :
    w.registeredAt ≤ lastSeen r := by
  obtain ⟨-, ⟨v, w', q, now, lock, -, -, -, -, eq⟩, -⟩ := inv.written id i r own
  have date := dated id i r own
  have mine : s.base.locks workerID = some i := by
    rw [eq] at given
    exact Option.some.inj given ▸ lock
  have late := List.all_eq_true.1 may _ ((Table.get?_eq_some_iff ..).1 row)
  simp only [mine, ne_eq, not_true_eq_false, decide_false, Bool.false_or, decide_eq_true_eq] at late
  rw [lastSeen, date]
  exact late

theorem Spared.commit {s : Shared} (inv : Capacity.Inv s.base) (dated : Dated s)
    (may : punctual i .commit e s = true) (h : Spared workerID token id s.db) :
    Spared workerID token id (s.base.applied i) := by
  obtain ⟨w, row, le, seen⟩ := h
  refine ⟨w, row, le, fun same unmarked r found given => ?_⟩
  obtain before | own := applied_row found
  · exact seen same unmarked r before given
  · exact commit_seen inv dated may own given row

theorem exec_world {c : Statement} {a : c.Answer} {v w : Shared}
    (h : exec i c e v = some (a, w)) : w.base.world = v.base.world ∨
      c = .commit ∧ w.base.world = { v.base.world with db := v.base.applied i } := by
  obtain ⟨-, same | ⟨r, -, done⟩⟩ | ⟨r, -, -, done⟩ := exec_cases (exec_under h).1
  · exact .inl (congrArg Capacity.Shared.world same)
  · exact run_world done
  · exact run_world done

theorem outside_world {x : Outside} {v w : Shared} (h : outside x v = some w) :
    w.base.world = v.base.world ∨
      ∃ (o : Other) (e : Env), w.base.world = (answer o.call e v.base.world).2 := by
  obtain ⟨-, same | ⟨y, moved⟩⟩ := outside_under h
  · exact .inl (congrArg Capacity.Shared.world same)
  · cases y with
    | disconnect i =>
      refine .inl ?_
      rw [← Option.some.inj moved]
      rfl
    | statement o e =>
      simp only [Capacity.outside] at moved
      split at moved
      · exact .inr ⟨o, e, by rw [← Option.some.inj moved]⟩
      · cases moved

theorem step_world {s t : State} {a : Action Kind Env Outside} (h : system.step s a = some t) :
    t.shared.base.world = s.shared.base.world ∨
    (∃ i e k f, a = .call i e ∧ s.threads i = some ⟨k, .call .commit f⟩ ∧
      t.shared.base.world = { s.shared.base.world with db := s.shared.base.applied i }) ∨
    ∃ (o : Other) (e : Env), t.shared.base.world = (answer o.call e s.shared.base.world).2 := by
  obtain ⟨k, v, -, start, rfl⟩ | ⟨i, e, k, c, f, r, v, rfl, hi, ran, rfl⟩ | ⟨i, th, -, -, -, rfl⟩ |
    ⟨x, v, -, done, rfl⟩ := System.step_cases h
  · obtain ⟨base, began, rfl⟩ := Option.map_eq_some_iff.1 start
    simp only [Capacity.system] at began
    split at began <;> cases began
    exact .inl rfl
  · obtain same | ⟨rfl, done⟩ := exec_world ran
    · exact .inl same
    · exact .inr (.inl ⟨i, e, k, f, rfl, hi, done⟩)
  · exact .inl rfl
  · exact (outside_world done).imp_right .inr

def Logged (s : World) : Prop :=
  ∀ workerID token time, .registered workerID token time ∈ s.log →
    ∃ w, s.db.worker? workerID = some w ∧ token ≤ w.fencingToken

theorem Logged.step {now : Int} {s t : World} (h : Logged s) (step : WorkerStep now s t c) :
    Logged t := by
  intro workerID token time mem
  have old (known : .registered workerID token time ∈ s.log) :
      ∃ w, t.db.worker? workerID = some w ∧ token ≤ w.fencingToken := by
    obtain ⟨w, row, le⟩ := h workerID token time known
    obtain ⟨w', row', le', -⟩ := worker_token step row le
    exact ⟨w', row', le'⟩
  cases step with
  | silent workers log kept => exact old (log ▸ mem)
  | registered done =>
    rw [done.log] at mem
    obtain new | known := List.mem_cons.1 mem
    · cases new
      obtain ⟨n, row⟩ := done.row
      exact ⟨_, row, Int.le_refl _⟩
    · exact old known
  | heartbeat done | inventory done | swept done =>
    rw [done.log] at mem
    exact old ((List.mem_cons.1 mem).resolve_left nofun)

end Spared

abbrev Punctual : State → State → Prop := system.ReachesWhen punctual fun _ _ => true

section Runs
variable {s t u : State} {workerID : WorkerID} {token : Int} {id : SandboxID}

theorem step_spared {a : Action Kind Env Outside} (hs : system.Reaches initial s)
    (may : System.meets punctual (fun _ _ => true) s a = true) (h : system.step s a = some t)
    (spared : Spared workerID token id s.shared.db) : Spared workerID token id t.shared.db := by
  obtain same | ⟨i, e, k, f, rfl, hi, done⟩ | ⟨o, e, done⟩ := step_world h
  · rw [Shared.db, same]
    exact spared
  · rw [Shared.db, done]
    exact spared.commit (reaches_inv hs) (reaches_dated hs) (System.meets_iff.1 may _ _ _ hi)
  · rw [Shared.db, done]
    exact spared.other o.lawful o.other

theorem reaches_spared (hs : system.Reaches initial s) (h : Punctual s t)
    (spared : Spared workerID token id s.shared.db) :
    Spared workerID token id t.shared.db := by
  induction h with
  | refl => exact spared
  | tail before last ih =>
    obtain ⟨a, may, moved⟩ := last
    exact step_spared (hs.trans (System.ReachesIf.reaches before)) (System.meets_iff.2 may) moved ih

theorem reaches_logged (hs : system.Reaches initial s) : Logged s.shared.base.world := by
  induction hs with
  | refl => exact fun _ _ _ mem => nomatch mem
  | tail _ last ih =>
    obtain ⟨a, -, moved⟩ := last
    obtain same | ⟨i, e, k, f, -, -, done⟩ | ⟨o, e, done⟩ := step_world moved
    · rw [same]
      exact ih
    · rw [done]
      exact ih
    · rw [done]
      exact ih.step (answer_workers o.lawful e _)

def Assigns (workerID : WorkerID) (id : SandboxID) (s t : State) : Prop :=
  (∃ r, t.shared.db.sandbox? id = some r ∧ r.workerID = some workerID) ∧
  ∀ r, s.shared.db.sandbox? id = some r → r.workerID ≠ some workerID

theorem assigns_spared {a : Action Kind Env Outside} (hs : system.Reaches initial s)
    (may : System.meets punctual (fun _ _ => true) s a = true) (h : system.step s a = some t)
    {time : Int} (registered : .registered workerID token time ∈ s.shared.base.world.log)
    (assigns : Assigns workerID id s t) : Spared workerID token id t.shared.db := by
  obtain ⟨⟨r, row, given⟩, before⟩ := assigns
  obtain ⟨w, worker, le⟩ := reaches_logged hs _ _ _ registered
  have inv := reaches_inv hs
  obtain same | ⟨i, e, k, f, rfl, hi, done⟩ | ⟨o, e, done⟩ := step_world h
  · rw [Shared.db, same] at row
    exact absurd given (before r row)
  · rw [Shared.db, done] at row ⊢
    refine ⟨w, worker, le, fun _ _ r' row' _ => ?_⟩
    cases row.symm.trans row'
    obtain there | own := applied_row row
    · exact absurd given (before r there)
    · exact commit_seen inv (reaches_dated hs) (System.meets_iff.1 may _ _ _ hi) own given worker
  · rw [Shared.db, done] at row
    obtain ⟨r₀, there, held, -⟩ := other_noneGiven inv o e workerID id r row given
    exact absurd held (before r₀ there)

theorem lost_eq (now : Int) (first : Bool) (inv : Inventory) (db : Database) :
    (reconcileInventory now workerID first inv db).1.lost =
      if first then (claimLost workerID inv.ids db).1 else [] := by
  unfold reconcileInventory
  cases first <;> (dsimp only; split <;> rfl)

theorem claimInventory_first {db : Database} {r : WorkerRow} (row : db.worker? workerID = some r)
    (first : (WorkerRepository.claimInventory workerID token db).1 = true) :
    r.inventoryToken ≠ token := by
  obtain ⟨k, mem⟩ := List.exists_mem_of_length_pos (of_decide_eq_true first)
  obtain ⟨r', found, due⟩ := (Table.mem_select _ _ _).1 mem
  obtain ⟨rfl, -, other⟩ := of_decide_eq_true due
  cases row.symm.trans found
  exact other

theorem claimInventory_registeredAt (token : Int) {db : Database} {r : WorkerRow}
    (row : db.worker? workerID = some r) : ∃ r',
      (WorkerRepository.claimInventory workerID token db).2.worker? workerID = some r' ∧
        r'.registeredAt = r.registeredAt := by
  refine ⟨_, (Database.worker?_rewriteWorkers ..).trans (by rw [row, Option.map_some]), ?_⟩
  split <;> rfl

theorem Spared.not_lost {db : Database} (h : Spared workerID token id db) {now : Int} {w : Worker}
    {inv : Inventory} (name : w.id = workerID) (carried : w.fencingToken = token) :
    id ∉ lostBy now w inv db := by
  subst name carried
  obtain ⟨r, row, -, seen⟩ := h
  unfold lostBy Transactions.reconciled
  split
  · exact List.not_mem_nil
  rename_i w' db₁ updated
  obtain ⟨r₀, row₀, current, rfl⟩ := update_beats updated
  cases row.symm.trans row₀
  have row₁ : (db.rewriteWorkers fun k r => if k = w.id then WorkerRepository.heartbeatRow now w r
      else r).worker? w.id = some (WorkerRepository.heartbeatRow now w r) := by
    simp [row]
  intro mem
  dsimp only at mem
  rw [Option.elim_some, lost_eq] at mem
  split at mem
  · rename_i first
    have unmarked : (WorkerRepository.heartbeatRow now w r).inventoryToken ≠ w.fencingToken :=
      claimInventory_first row₁ first
    obtain ⟨r₂, row₂, registered⟩ := claimInventory_registeredAt w.fencingToken row₁
    obtain ⟨sbx, found, due⟩ := mem_claimToCleanup.1 mem
    simp only [Bool.and_eq_true, row₂, Option.any_some, decide_eq_true_eq, registered] at due
    have late := seen current unmarked sbx found (activeOn_active due.1.1).1
    have early : lastSeen sbx < r.registeredAt := due.2
    omega
  · cases mem

/-- A sandbox whose assignment to a worker commits after a registration of the
worker is never lost to the inventories of that registration's token, listed or
not, as long as assignments only commit punctually. -/
theorem assigned_since_registration_spared {a : Action Kind Env Outside} {time : Int}
    (hs : Punctual initial s) (may : System.meets punctual (fun _ _ => true) s a = true)
    (h : system.step s a = some t)
    (registered : .registered workerID token time ∈ s.shared.base.world.log)
    (assigns : Assigns workerID id s t) (later : Punctual t u) (now : Int) (w : Worker)
    (inv : Inventory) (name : w.id = workerID) (carried : w.fencingToken = token) :
    id ∉ lostBy now w inv u.shared.db := by
  have reached := System.ReachesIf.reaches hs
  have spared := assigns_spared reached may h registered assigns
  exact (reaches_spared (reached.trans (System.Reaches.single h)) later spared).not_lost name
    carried

end Runs

def worker1 (token : Int) : Worker :=
  ⟨⟨.active, "10.0.0.1", 1, 50051, 2, 1024, 0, 0, 0, token⟩, "worker-1"⟩

def registers (now : Int) : Action Kind Env Outside :=
  .ext (.statement ⟨.register (worker1 0), trivial, rfl⟩ { now })

theorem scheduling_lawful (id : SandboxID) : Lawful (.updateStatus id .scheduling [.pending]) :=
  ⟨_, .scheduling⟩

def orderedOne : List (Action Kind Env Outside) :=
  [registers 0,
    .ext (.statement
      ⟨.createTx ⟨⟨"node", .pending, 0, 0, 0, "", "", none, 1, 512, none⟩, "sandbox-1"⟩,
      ⟨rfl, rfl⟩, rfl⟩ {}),
    .ext (.statement ⟨.updateStatus "sandbox-1" .scheduling [.pending],
      scheduling_lawful _, rfl⟩ {})]

def assigning : List (Action Kind Env Outside) := List.replicate 3 (.call 0 {})

def registeredMeanwhile : List (Action Kind Env Outside) :=
  -- the worker registers again while the transaction, already begun, waits
  orderedOne ++ [.spawn ⟨true, "sandbox-1", "worker-1"⟩, .call 0 {}, .ext (.tick 1), registers 1] ++
    assigning

def registeredBefore : List (Action Kind Env Outside) :=
  -- the transaction begins after the worker has registered again
  orderedOne ++ [.ext (.tick 1), registers 1, .spawn ⟨true, "sandbox-1", "worker-1"⟩, .call 0 {}] ++
    assigning

def assignedTo (s : State) : Option (Option WorkerID) :=
  (s.shared.db.sandbox? "sandbox-1").map fun r => r.workerID

theorem assigns_of_views {s t : State} (before : assignedTo s = some none)
    (after : assignedTo t = some (some "worker-1")) : Assigns "worker-1" "sandbox-1" s t := by
  obtain ⟨r, row, free⟩ := Option.map_eq_some_iff.1 before
  obtain ⟨r', row', given⟩ := Option.map_eq_some_iff.1 after
  refine ⟨⟨r', row', given⟩, fun q found => ?_⟩
  cases row.symm.trans found
  rw [free]
  nofun

theorem assigned_since_registration_spared_later : ∃ s t, Punctual initial s ∧
    system.step s (.call 0 {}) = some t ∧ Assigns "worker-1" "sandbox-1" s t ∧
    "sandbox-1" ∉ lostBy 2 (worker1 2) ⟨[], [], [], []⟩ t.shared.db := by
  have run : ((system.runIf punctual (fun _ _ => true) initial registeredBefore).bind fun s =>
      (system.step s (.call 0 {})).map fun t =>
        (System.meets punctual (fun _ _ => true) s (.call 0 {} : Action Kind Env Outside),
          decide (.registered "worker-1" 2 1 ∈ s.shared.base.world.log),
          assignedTo s, assignedTo t)) =
      some (true, true, some none, some (some "worker-1")) := by
    decide +kernel
  simp only [Option.bind_eq_some_iff, Option.map_eq_some_iff, Prod.mk.injEq] at run
  obtain ⟨s, hs, t, step, may, registered, before, after⟩ := run
  have reached := System.reachesWhen_of_runIf hs
  have assigns := assigns_of_views before after
  exact ⟨s, t, reached, step, assigns, assigned_since_registration_spared reached may step
    (of_decide_eq_true registered) assigns .refl 2 (worker1 2) _ rfl rfl⟩

theorem assigned_since_registration_lost : ∃ s t, system.Reaches initial s ∧
    system.step s (.call 0 {}) = some t ∧
    .registered "worker-1" 2 1 ∈ s.shared.base.world.log ∧ Assigns "worker-1" "sandbox-1" s t ∧
    "sandbox-1" ∈ lostBy 2 (worker1 2) ⟨[], [], [], []⟩ t.shared.db := by
  -- an assignment that began before the registration and commits after it is lost to the
  -- first inventory of the new token
  have run : ((system.run initial registeredMeanwhile).bind fun s =>
      (system.step s (.call 0 {})).map fun t =>
        (decide (.registered "worker-1" 2 1 ∈ s.shared.base.world.log), assignedTo s, assignedTo t,
          lostBy 2 (worker1 2) ⟨[], [], [], []⟩ t.shared.db)) =
      some (true, some none, some (some "worker-1"), ["sandbox-1"]) := by
    decide +kernel
  simp only [Option.bind_eq_some_iff, Option.map_eq_some_iff, Prod.mk.injEq] at run
  obtain ⟨s, hs, t, step, registered, before, after, lost⟩ := run
  refine ⟨s, t, System.reaches_of_run hs, step, of_decide_eq_true registered,
    assigns_of_views before after, ?_⟩
  rw [lost]
  exact List.mem_singleton.2 rfl

end Fire2.Incarnations
