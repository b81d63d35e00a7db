import Fire2.Cleanups

/-! What one user learns of the sandboxes of others. The two handlers that only
read ask for rows by ID, or for whatever IDs the workers name, and filter what
they got afterwards; so does deleteSandbox before it writes. The goroutines of
listSandboxes write to a slot each and share nothing else, so they are taken one
after the other here. -/

namespace Fire2

def WorkerRepository.listActive (db : Database) : List Worker :=
  (list db).filter fun w => w.status = .active

namespace HTTPHandlers
open Interleaving

/-- What the reading handlers ask of the database and of the workers. -/
inductive Query where
  | getSandbox (id : SandboxID)
  | listActive
  | newClient (address : String)
  | listRunningSandboxes (workerID : WorkerID) (address : String)

abbrev Query.Answer : Query → Type
  | getSandbox _ => Except Err Sandbox
  | listActive => Except Err (List Worker)
  | newClient _ => Except Err Unit
  | listRunningSandboxes .. => Except Err (List SandboxID)

/-- What an execution may choose at one of them; `running` is what the worker
says it runs. -/
structure QueryEnv where
  fault : Option String := none
  rpc : Option (Code × String) := none
  running : List SandboxID := []

def reading {α : Type} (e : QueryEnv) (a : Except Err α) : Except Err α :=
  match e.fault with
  | none => a
  | some text => .error (.database text)

def rpcAnswer {α : Type} (e : QueryEnv) (a : α) : Except Err α :=
  match e.rpc with
  | none => .ok a
  | some (code, text) => .error (.rpc code text)

def respond (q : Query) (e : QueryEnv) (db : Database) : q.Answer :=
  match q with
  | .getSandbox id => reading e (SandboxRepository.getByID id db)
  | .listActive => reading e (.ok (WorkerRepository.listActive db))
  | .newClient _ => rpcAnswer e ()
  | .listRunningSandboxes .. => rpcAnswer e e.running

def query : Exec Query QueryEnv Database Query.Answer := fun _ q e db => some (respond q e db, db)

abbrev Read := Prog Query Query.Answer

def inquire (q : Query) : Read q.Answer := Prog.perform q

inductive ReadResponse where
  | text (code : Nat) (body : String)
  | sandbox (sbx : Sandbox)
  | sandboxes (sbxs : List Sandbox)
  deriving DecidableEq, Repr

def shown (user : String) : Except Err Sandbox → ReadResponse
  -- 404 for someone else's sandbox too
  | .error err =>
    if err.is .sandboxNotFound then .text 404 "not found" else .text 500 "failed to fetch sandbox"
  | .ok sbx => if sbx.userID = some user then .sandbox sbx else .text 404 "not found"

def getSandboxByID (user : Option String) (id : SandboxID) : Read ReadResponse :=
  match user with
  | none => return .text 401 "authentication required"
  | some user =>
    if id = "" then return .text 400 "id is required"
    else do
      let found ← inquire (.getSandbox id)
      return shown user found

def kept (user : String) : Except Err Sandbox → List Sandbox
  | .error _ => []
  | .ok sbx => if sbx.userID = some user then [sbx] else []

def listHosted (user : String) : List SandboxID → Read (List Sandbox)
  | [] => return []
  | id :: ids => do
    let found ← inquire (.getSandbox id)
    let rest ← listHosted user ids
    return kept user found ++ rest

def listOnWorker (user : String) (w : Worker) : Read (List Sandbox) := do
  match ← inquire (.newClient w.dialTarget) with
  | .error _ => return []
  | .ok () =>
    match ← inquire (.listRunningSandboxes w.id w.dialTarget) with
    | .error _ => return []
    | .ok ids => listHosted user ids

def listOnWorkers (user : String) : List Worker → Read (List Sandbox)
  | [] => return []
  | w :: workers => do
    let sbxs ← listOnWorker user w
    let rest ← listOnWorkers user workers
    return sbxs ++ rest

def listSandboxes (user : Option String) : Read ReadResponse :=
  match user with
  | none => return .text 401 "authentication required"
  | some user => do
    match ← inquire .listActive with
    | .error _ => return .text 500 "failed to list workers"
    | .ok workers =>
      let sbxs ← listOnWorkers user workers
      return .sandboxes sbxs

/-- Two databases with the same workers and the same sandboxes of the user. -/
structure Agree (user : String) (db db' : Database) : Prop where
  own : ∀ id r, r.userID = some user → (db.sandbox? id = some r ↔ db'.sandbox? id = some r)
  workers : db.workers = db'.workers

def Hidden (user : String) : Except Err Sandbox → Prop
  | .ok sbx => sbx.userID ≠ some user
  | .error err => err = .sentinel .sandboxNotFound

def Same (user : String) : (q : Query) → q.Answer → q.Answer → Prop
  | .getSandbox _ => fun a a' => a = a' ∨ Hidden user a ∧ Hidden user a'
  | _ => fun a a' => a = a'

section Reads
variable {user : String} {db db' : Database}

theorem getByID_hidden {id : SandboxID}
    (absent : ∀ r, r.userID = some user → db.sandbox? id ≠ some r) :
    Hidden user (SandboxRepository.getByID id db) := by
  unfold SandboxRepository.getByID
  split
  · rename_i r row
    exact fun own => absent r own row
  · rfl

theorem getByID_same (agree : Agree user db db') (id : SandboxID) :
    SandboxRepository.getByID id db = SandboxRepository.getByID id db' ∨
      Hidden user (SandboxRepository.getByID id db) ∧
      Hidden user (SandboxRepository.getByID id db') := by
  by_cases owned : ∃ r, r.userID = some user ∧ db.sandbox? id = some r
  · obtain ⟨r, own, row⟩ := owned
    refine .inl ?_
    simp only [SandboxRepository.getByID, row, (agree.own id r own).1 row]
  · have absent (r : SandboxRow) (own : r.userID = some user) : db.sandbox? id ≠ some r :=
      fun row => owned ⟨r, own, row⟩
    exact .inr ⟨getByID_hidden absent, getByID_hidden fun r own row => absent r own
      ((agree.own id r own).2 row)⟩

theorem listActive_same (agree : Agree user db db') :
    WorkerRepository.listActive db = WorkerRepository.listActive db' := by
  unfold WorkerRepository.listActive WorkerRepository.list
  rw [agree.workers]

theorem respond_same (agree : Agree user db db') (q : Query) (e : QueryEnv) :
    Same user q (respond q e db) (respond q e db') := by
  cases q with
  | getSandbox id =>
    simp only [respond, reading]
    split
    · exact getByID_same agree id
    · exact .inl rfl
  | listActive => simp only [respond, listActive_same agree, Same]
  | newClient => rfl
  | listRunningSandboxes => rfl

theorem read_same {α : Type} {p p' : Read α} (h : p.Alike (Same user) p')
    (agree : Agree user db db') (i : Nat) (es : List QueryEnv) :
    (p.alone query i es db).map Prod.fst = (p'.alone query i es db').map Prod.fst :=
  h.alone (fun q e _ _ agree => .some ⟨respond_same agree q e, agree⟩) es agree

theorem inquire_alike {α : Type} (q : Query) {f f' : q.Answer → Read α}
    (h : ∀ a a', Same user q a a' → (f a).Alike (Same user) (f' a')) :
    (inquire q >>= f).Alike (Same user) (inquire q >>= f') :=
  .call h

theorem shown_hidden {a : Except Err Sandbox} (h : Hidden user a) :
    shown user a = .text 404 "not found" := by
  cases a with
  | error err =>
    cases (h : err = _)
    rfl
  | ok sbx => exact if_neg h

theorem kept_hidden {a : Except Err Sandbox} (h : Hidden user a) : kept user a = [] := by
  cases a with
  | error err => rfl
  | ok sbx => exact if_neg h

theorem getSandboxByID_alike (user : String) (id : SandboxID) :
    (getSandboxByID (some user) id).Alike (Same user) (getSandboxByID (some user) id) := by
  simp only [getSandboxByID]
  split
  · exact .ret _
  refine inquire_alike (.getSandbox id) fun a a' same => ?_
  rcases same with rfl | ⟨hidden, hidden'⟩
  · exact .ret _
  · rw [shown_hidden hidden, shown_hidden hidden']
    exact .ret _

theorem listHosted_alike (user : String) (ids : List SandboxID) :
    (listHosted user ids).Alike (Same user) (listHosted user ids) := by
  induction ids with
  | nil => exact .ret []
  | cons id ids ih =>
    refine inquire_alike (.getSandbox id) fun a a' same => ih.bind fun rest => ?_
    rcases same with rfl | ⟨hidden, hidden'⟩
    · exact .ret _
    · rw [kept_hidden hidden, kept_hidden hidden']
      exact .ret _

theorem listOnWorkers_alike (user : String) (workers : List Worker) :
    (listOnWorkers user workers).Alike (Same user) (listOnWorkers user workers) := by
  induction workers with
  | nil => exact .ret []
  | cons w workers ih =>
    refine Prog.Alike.bind ?_ fun sbxs => ih.bind fun rest => .ret _
    refine inquire_alike (.newClient w.dialTarget) fun a a' same => ?_
    obtain rfl : a = a' := same
    obtain err | _ := a
    · exact .ret []
    refine inquire_alike (.listRunningSandboxes w.id w.dialTarget) fun a a' same => ?_
    obtain rfl : a = a' := same
    obtain err | ids := a
    · exact .ret []
    · exact listHosted_alike user ids

theorem listSandboxes_alike (user : String) :
    (listSandboxes (some user)).Alike (Same user) (listSandboxes (some user)) := by
  refine inquire_alike .listActive fun a a' same => ?_
  obtain rfl : a = a' := same
  obtain err | workers := a
  · exact .ret _
  · exact (listOnWorkers_alike user workers).bind fun sbxs => .ret _

end Reads

section Deletes
variable {user : String} {id : SandboxID} {i : Nat} {e : Env} {s s' t : World} {db : Database}
  {sbx : Sandbox} {r : SandboxRow} {steps : List (World × World)}

def found (e : Env) (id : SandboxID) (db : Database) : Except Err Sandbox :=
  -- what GetByID answers, which the database may fail
  match e.fault with
  | .none => SandboxRepository.getByID id db
  | .fail text | .lost text => .error (.database text)

theorem exec_getSandbox : exec i (.getSandbox id) e s = some (found e id s.db, s) := by
  simp only [exec, Env.possible, if_true, answer, statement, faulty, Fire2.reading, found]
  cases e.fault <;> rfl

theorem found_same {db db' : Database} (agree : Agree user db db') :
    found e id db = found e id db' ∨
    Hidden user (found e id db) ∧ Hidden user (found e id db') := by
  unfold found
  split
  · exact getByID_same agree id
  · exact .inl rfl
  · exact .inl rfl

theorem found_own (h : found e id db = .ok sbx) (own : sbx.userID = some user) :
    ∃ r, db.sandbox? id = some r ∧ r.userID = some user := by
  unfold found at h
  split at h
  · unfold SandboxRepository.getByID at h
    split at h
    · rename_i r row
      cases h
      exact ⟨r, row, own⟩
    · cases h
  · cases h
  · cases h

theorem delete_answer (row : db.sandbox? id = some r) :
    (Transactions.delete id db).1 = .ok (decide (r.status ∈ Status.claimable)) := by
  have guarded : Status.claimable ≠ [] := by decide
  simp only [Transactions.delete, SandboxRepository.updateStatus, if_neg guarded, row]
  by_cases claimable : r.status ∈ Status.claimable
  · simp only [claimable, if_true, decide_true]
  · simp only [claimable, if_false, decide_false]

theorem delete_others {k : SandboxID} (other : k ≠ id) :
    (Transactions.delete id db).2.sandbox? k = db.sandbox? k ∧
      Orchestrator.cleanups k (Transactions.delete id db).2 = Orchestrator.cleanups k db := by
  have guarded : Status.claimable ≠ [] := by decide
  simp only [Transactions.delete, SandboxRepository.updateStatus, if_neg guarded]
  cases db.sandbox? id with
  | none => exact ⟨rfl, rfl⟩
  | some r =>
    by_cases claimable : r.status ∈ Status.claimable
    · simp only [claimable, if_true]
      constructor
      · change (db.rewrite _).sandbox? k = _
        simp [other]
      · rw [Orchestrator.cleanups_insertJobs,
          Orchestrator.cleanups_of_jobs (show (db.rewrite _).jobs = db.jobs from rfl)]
        simp [Orchestrator.cleanupOf, other.symm]
    · simp only [claimable, if_false, and_self]

theorem deleteOwned_same (row : s.db.sandbox? id = some r)
    (row' : s'.db.sandbox? id = some r) (es : List Env) :
    ((deleteOwned id sbx).alone exec i es s).map Prod.fst =
      ((deleteOwned id sbx).alone exec i es s').map Prod.fst := by
  unfold deleteOwned
  split
  · rfl
  cases es with
  | nil => rfl
  | cons e es =>
    have answers : (answer (.deleteTx id) e s).1 = (answer (.deleteTx id) e s').1 := by
      simp only [answer, statement, faulty, onDatabase]
      cases e.fault with
      | none => exact (delete_answer row).trans (delete_answer row').symm
      | fail | lost => rfl
    simp only [ask, Prog.perform_bind, Prog.alone, exec, Env.possible, if_true,
      Option.bind_some, answers]
    cases (answer (.deleteTx id) e s').1 with
    | error => rfl
    | ok claimed => cases claimed <;> rfl

theorem deleteSandbox_call (user : String) (named : id ≠ "") :
    ∃ k, deleteSandbox (some user) id = .call (.getSandbox id) k ∧
    (∀ a, Hidden user a → k a = .ret (.text 404 "not found")) ∧
    (∀ err, ∃ response, k (.error err) = .ret response) ∧
    ∀ sbx, sbx.userID = some user → k (.ok sbx) = deleteOwned id sbx := by
  refine ⟨_, if_neg named, ?_, ?_, ?_⟩
  · intro a hidden
    cases a with
    | error err =>
      cases (hidden : err = _)
      rfl
    | ok sbx => exact if_neg hidden
  · intro err
    by_cases absent : err.is .sandboxNotFound = true
    · exact ⟨_, if_pos absent⟩
    · exact ⟨_, if_neg absent⟩
  · exact fun sbx own => if_pos own

theorem deleteSandbox_same (agree : Agree user s.db s'.db) (es : List Env) :
    ((deleteSandbox (some user) id).alone exec i es s).map Prod.fst =
      ((deleteSandbox (some user) id).alone exec i es s').map Prod.fst := by
  by_cases named : id = ""
  · simp [deleteSandbox, named, Prog.alone]
  obtain ⟨k, shape, hidden, failed, owned⟩ := deleteSandbox_call user named
  rw [shape]
  cases es with
  | nil => rfl
  | cons e es =>
    simp only [Prog.alone, exec_getSandbox, Option.bind_some]
    rcases found_same agree with same | ⟨first, second⟩
    · rw [← same]
      cases answer : found e id s.db with
      | error err =>
        obtain ⟨response, eq⟩ := failed err
        rw [eq]
        rfl
      | ok sbx =>
        by_cases own : sbx.userID = some user
        · obtain ⟨r, row, mine⟩ := found_own answer own
          rw [owned sbx own]
          exact deleteOwned_same row ((agree.own id r mine).1 row) es
        · rw [hidden (.ok sbx) own]
          rfl
    · rw [hidden _ first, hidden _ second]
      rfl

def Owners (s t : World) : Prop :=
  ∀ id r, s.db.sandbox? id = some r → ∃ r', t.db.sandbox? id = some r' ∧ r'.userID = r.userID

def Spares (user : String) (s t : World) : Prop :=
  ∀ id, (∀ r, s.db.sandbox? id = some r → r.userID ≠ some user) →
    t.db.sandbox? id = s.db.sandbox? id ∧ Orchestrator.cleanups id t.db =
      Orchestrator.cleanups id s.db

theorem deleteTx_spares (row : s.db.sandbox? id = some r) (mine : r.userID = some user)
    {a : (Call.deleteTx id).Answer} (ran : exec i (.deleteTx id) e s = some (a, t)) :
    Spares user s t := by
  intro k foreign
  have other : k ≠ id := by
    rintro rfl
    exact foreign r row mine
  obtain rfl : t = (answer (.deleteTx id) e s).2 := congrArg Prod.snd (exec_eq_some ran)
  simp only [answer, statement, faulty, onDatabase]
  cases e.fault with
  | none | lost => exact delete_others other
  | fail => exact ⟨rfl, rfl⟩

theorem ret_amid {response : Response}
    (h : (Prog.ret response : Job Response).Amid exec i Owners s steps) : steps = [] := by
  cases h
  rfl

theorem deleteOwned_spares (row : s.db.sandbox? id = some r) (mine : r.userID = some user)
    (h : (deleteOwned id sbx).Amid exec i Owners s steps) : ∀ p ∈ steps, Spares user p.1 p.2 := by
  unfold deleteOwned at h
  split at h
  · simp [ret_amid h]
  · cases h with
    | refl => simp
    | @call _ _ e _ v t a steps moved ran rest =>
      obtain ⟨r', row', same⟩ := moved id r row
      have last : steps = [] := by
        obtain err | claimed := a
        · exact ret_amid rest
        · cases claimed <;> exact ret_amid rest
      subst last
      simpa using deleteTx_spares row' (same.trans mine) ran

theorem deleteSandbox_spares
    (h : (deleteSandbox (some user) id).Amid exec i Owners s steps) :
    ∀ p ∈ steps, Spares user p.1 p.2 := by
  by_cases named : id = ""
  · simp only [deleteSandbox, named, if_true] at h
    cases h
    simp
  obtain ⟨k, shape, hidden, failed, owned⟩ := deleteSandbox_call user named
  rw [shape] at h
  cases h with
  | refl => simp
  | @call _ _ e _ v t a steps moved ran rest =>
    rw [exec_getSandbox] at ran
    cases ran
    refine List.forall_mem_cons.2 ⟨fun _ _ => ⟨rfl, rfl⟩, ?_⟩
    cases answer : found e id v.db with
    | error err =>
      obtain ⟨response, eq⟩ := failed err
      rw [answer, eq] at rest
      simp [ret_amid rest]
    | ok sbx =>
      rw [answer] at rest
      by_cases own : sbx.userID = some user
      · obtain ⟨r, row, mine⟩ := found_own answer own
        rw [owned sbx own] at rest
        exact deleteOwned_spares row mine rest
      · rw [hidden (.ok sbx) own] at rest
        simp [ret_amid rest]

theorem reaches_owners {s t : Orchestrator.State}
    (hs : Orchestrator.system.Reaches Orchestrator.initial s)
    (h : Orchestrator.system.Reaches s t) : Owners s.shared t.shared := by
  intro id r row
  obtain ⟨r', row', steps⟩ := (Orchestrator.reaches_grows hs h).kept id r row
  refine ⟨r', row', ?_⟩
  clear row'
  induction steps with
  | refl => rfl
  | tail _ last ih =>
    obtain ⟨l, -, move⟩ := last
    rw [← ih]
    cases move <;> rfl

end Deletes

/-- What a user is answered does not depend on the sandboxes of others, for each
of the three handlers and whatever the database and the workers answer besides;
and no call of a delete, amid whatever others do that leaves the sandboxes to
their owners, changes a sandbox that is not the user's or enqueues a cleanup for
it. -/
theorem tenant_isolation (user : String) (id : SandboxID) {s s' : World}
    (agree : Agree user s.db s'.db) (i : Nat) (qs : List QueryEnv) (es : List Env) :
    ((getSandboxByID (some user) id).alone query i qs s.db).map Prod.fst =
      ((getSandboxByID (some user) id).alone query i qs s'.db).map Prod.fst ∧
    ((listSandboxes (some user)).alone query i qs s.db).map Prod.fst =
      ((listSandboxes (some user)).alone query i qs s'.db).map Prod.fst ∧
    ((deleteSandbox (some user) id).alone exec i es s).map Prod.fst =
      ((deleteSandbox (some user) id).alone exec i es s').map Prod.fst ∧
    ∀ v steps, (deleteSandbox (some user) id).Amid exec i Owners v steps → ∀ p ∈ steps,
    Spares user p.1 p.2 :=
  ⟨read_same (getSandboxByID_alike user id) agree i qs,
    read_same (listSandboxes_alike user) agree i qs,
    deleteSandbox_same agree es, fun _ _ => deleteSandbox_spares⟩

section Example

def rowOf (user : String) : SandboxRow where
  runtime := "node"
  status := .running
  ttl := 3600
  createdAt := 0
  port := 10000
  previewURL := ""
  image := "node:20-alpine"
  workerID := some "worker-1"
  vcpuCount := 1
  memSizeMib := 256
  userID := some user
  lastSeenAt := none

def hostRow : WorkerRow where
  status := .active
  address := "10.0.0.2"
  capacity := 4
  port := 50051
  cpuBudget := 4
  memBudget := 8192
  cpuUsage := 0
  memUsage := 0
  lastHeartbeat := 0
  fencingToken := 1
  inventoryToken := 0
  registeredAt := 0
  inactiveSince := none

def shared : World :=
  ⟨⟨⟨[("sandbox-1", rowOf "user-1"), ("sandbox-2", rowOf "user-2")], by decide⟩,
    ⟨[("worker-1", hostRow)], by decide⟩, .empty, []⟩, []⟩

def single : World :=
  ⟨⟨⟨[("sandbox-1", rowOf "user-1")], by decide⟩, ⟨[("worker-1", hostRow)], by decide⟩, .empty, []⟩,
    []⟩

theorem shared_agrees : Agree "user-1" shared.db single.db where
  own id r mine := by
    by_cases first : id = "sandbox-1"
    · simp [Database.sandbox?, shared, single, Table.get?, first]
    · by_cases second : id = "sandbox-2"
      · have foreign : rowOf "user-2" ≠ r := by
          rintro rfl
          exact absurd mine (by decide)
        simp [Database.sandbox?, shared, single, Table.get?, List.lookup_cons, second, foreign]
      · have other (b : SandboxID) (ne : id ≠ b) : (id == b) = false := beq_eq_false_iff_ne.2 ne
        simp [Database.sandbox?, shared, single, Table.get?, List.lookup_cons,
          other _ first, other _ second]
  workers := rfl

/-- The worker also names the sandbox of the other user, and the user asks for
that one. -/
def asked : List QueryEnv := [{}, {}, { running := ["sandbox-1", "sandbox-2"] }, {}, {}]

theorem tenant_isolation_shared :
    ((getSandboxByID (some "user-1") "sandbox-2").alone query 0 asked shared.db).map Prod.fst =
      some (.text 404 "not found") ∧
    ((listSandboxes (some "user-1")).alone query 0 asked shared.db).map Prod.fst =
      some (.sandboxes [scanSandbox "sandbox-1" (rowOf "user-1")]) ∧
    ((deleteSandbox (some "user-1") "sandbox-2").alone exec 0 [{}] shared).map Prod.fst =
      some (.text 404 "not found") := by
  obtain ⟨get, list, delete, -⟩ := tenant_isolation "user-1" "sandbox-2" shared_agrees 0 asked [{}]
  rw [get, list, delete]
  decide +kernel

end Example

end HTTPHandlers
end Fire2
