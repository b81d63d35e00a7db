import Fire2.Orchestrator

/-! What one call of the orchestrator can do to the database: no sandbox and no
job ever disappears, a new sandbox is pending without a worker, every sandbox
moves along its life, and a cleanup job is inserted with the claim of its
sandbox. -/

namespace Fire2.Orchestrator
open Interleaving Lifecycle SandboxRepository

section Tables
variable {db db' : Database} {i : Nat} {c : Call} {s : World} {sbx : Sandbox} {id : SandboxID}
  {r : SandboxRow} {livenessTimeout now workerLostTimeout : Int} {locked : SandboxID → Bool}
  {inv : Inventory} {w : Worker} {e : Env} {j : JobArgs}

def Newborn (r : SandboxRow) : Prop :=
  r.status = .pending ∧ r.workerID = none ∧ r.lastSeenAt = none

variable {may : Permit}

structure Grows (may : Permit) (db db' : Database) : Prop where
  kept : ∀ id r, db.sandbox? id = some r → ∃ r', db'.sandbox? id = some r' ∧ Steps (may id) r r'
  fresh : ∀ id r', db.sandbox? id = none → db'.sandbox? id = some r' →
    ∃ r, Newborn r ∧ Steps (may id) r r'
  jobs : ∀ j ∈ db.jobs, j ∈ db'.jobs

theorem Grows.refl (db : Database) : Grows may db db where
  kept _ r row := ⟨r, row, .refl⟩
  fresh id r' absent row := by rw [absent] at row; cases row
  jobs _ h := h

theorem Grows.trans {a b c : Database} (h : Grows may a b) (k : Grows may b c) : Grows may a c where
  kept id r row := by
    obtain ⟨r', row', first⟩ := h.kept id r row
    obtain ⟨r'', row'', second⟩ := k.kept id r' row'
    exact ⟨r'', row'', first.trans second⟩
  fresh id r'' absent row'' := by
    cases row' : b.sandbox? id with
    | none => exact k.fresh id r'' row' row''
    | some r' =>
      obtain ⟨r, born, first⟩ := h.fresh id r' absent row'
      obtain ⟨s, found, second⟩ := k.kept id r' row'
      rw [found] at row''
      cases row''
      exact ⟨r, born, first.trans second⟩
  jobs j hj := k.jobs j (h.jobs j hj)

theorem Grows.mono {may may' : Permit}
    (h : ∀ id r l, may id r l → may' id r l) (g : Grows may db db') : Grows may' db db' where
  kept id r row := by
    obtain ⟨r', row', steps⟩ := g.kept id r row
    exact ⟨r', row', steps.mono (h id)⟩
  fresh id r' absent row := by
    obtain ⟨r, born, steps⟩ := g.fresh id r' absent row
    exact ⟨r, born, steps.mono (h id)⟩
  jobs := g.jobs

/-- The same without a new sandbox. -/
structure Quiet (may : Permit) (db db' : Database) : Prop where
  kept : ∀ id r, db.sandbox? id = some r → ∃ r', db'.sandbox? id = some r' ∧ Steps (may id) r r'
  absent : ∀ id, db.sandbox? id = none → db'.sandbox? id = none
  jobs : ∀ j ∈ db.jobs, j ∈ db'.jobs

theorem Quiet.grows (h : Quiet may db db') : Grows may db db' where
  kept := h.kept
  fresh id r' absent row := by rw [h.absent id absent] at row; cases row
  jobs := h.jobs

theorem Quiet.refl (db : Database) : Quiet may db db where
  kept _ r row := ⟨r, row, .refl⟩
  absent _ row := row
  jobs _ h := h

theorem Quiet.trans {a b c : Database} (h : Quiet may a b) (k : Quiet may b c) : Quiet may a c where
  kept := (h.grows.trans k.grows).kept
  absent id row := k.absent id (h.absent id row)
  jobs j hj := k.jobs j (h.jobs j hj)

theorem Lives.quiet (h : Lives may db db') : Quiet may db db' where
  kept := h.kept
  absent := h.absent
  jobs _ hj := h.jobs ▸ hj

theorem Quiet.insertJobs (h : Quiet may db db') (js : List JobArgs) :
    Quiet may db (db'.insertJobs js) where
  kept := h.kept
  absent := h.absent
  jobs j hj := List.mem_append_left js (h.jobs j hj)

theorem Quiet.of_eq (rows : db'.sandboxes = db.sandboxes)
    (jobs : db'.jobs = db.jobs) : Quiet may db db' where
  kept _ r row := ⟨r, by rw [← row, Database.sandbox?, rows]; rfl, .refl⟩
  absent id row := by rw [Database.sandbox?, rows]; exact row
  jobs _ hj := jobs ▸ hj

theorem wp_ask {α : Type} {D : Spec Call Env Empty World} {Q : α → World → Prop}
    {f : c.Answer → Job α}
    (h : ∀ t, D.Inv t → D.Rely i s t → D.Pre i c t ∧ ∀ e a u, answer c e t = (a, u) →
      Answered c a → D.Inv u → WP exec D i Q (f a) u) : WP exec D i Q (ask c >>= f) s :=
  .call (fun t inv rely => (h t inv rely).1) fun t e a u inv rely _ ran inv' =>
    (h t inv rely).2 e a u (exec_eq_some ran).symm (exec_answered ran) inv'

theorem wp_job {E X σ : Type} {exec : Exec Call E σ Call.Answer} {D : Spec Call E X σ}
    {R : Option Err → σ → Prop} {p : Work} {s : σ} (h : WP exec D i R p s) :
    WP exec D i (fun _ _ => True) (p >>= fun r => .ret (Outcome.job r)) s :=
  h.bind fun _ _ _ => .ret trivial

theorem faulty_effect {α ε : Type} (e : Env) (wrap : Err → ε) (run : World → Except ε α × World)
    (s : World) : (faulty e wrap run s).2 = s ∨ (faulty e wrap run s).2 = (run s).2 := by
  unfold faulty
  split
  · exact .inr rfl
  · exact .inl rfl
  · exact .inr rfl

def effect (c : Call) (e : Env) (s : World) : World := (answer c { e with fault := .none } s).2

theorem answer_effect (c : Call) (e : Env) (s : World) :
    (answer c e s).2 = s ∨ (answer c e s).2 = effect c e s := by
  cases c with
  | timeNow | newUUID | draw | newClient | getWorkerInfo | sendCreate | sendRemove | await
  | awaitJob => exact .inl rfl
  | whyRefused id presented =>
    refine .inl ?_
    simp only [answer]
    split <;> rfl
  | reapTx _ _ _ => exact faulty_effect e _ _ s
  | _ => exact faulty_effect e (fun err => err) _ s

theorem create_rows (sbx : Sandbox) (db : Database) :
    (Transactions.create sbx db).2 = db ∨ db.sandbox? sbx.id = none ∧
      (Transactions.create sbx db).2.jobs = db.jobs ++ [.createSandbox sbx.id] ∧
      ∀ id, (Transactions.create sbx db).2.sandbox? id =
        if id = sbx.id then some { sbx.toSandboxColumns with lastSeenAt := none }
        else db.sandbox? id := by
  unfold Transactions.create SandboxRepository.create
  split
  · rename_i inserted
    split at inserted
    · rename_i t new
      cases inserted
      obtain ⟨absent, rows⟩ := Table.insert?_eq_some new
      exact .inr ⟨absent, rfl, rows⟩
    · cases inserted
  · exact .inl rfl

theorem create_fresh (lawful : Lawful (.createTx sbx)) (absent : db.sandbox? id = none)
    (row : (Transactions.create sbx db).2.sandbox? id = some r) : Newborn r := by
  obtain same | ⟨-, -, rows⟩ := create_rows sbx db
  · rw [same, absent] at row
    cases row
  · rw [rows id] at row
    split at row
    · cases row
      exact ⟨lawful.1, lawful.2, rfl⟩
    · cases absent.symm.trans row

theorem create_grows (lawful : Lawful (.createTx sbx)) :
    Grows may db (Transactions.create sbx db).2 where
  kept id r row := by
    obtain same | ⟨absent, -, rows⟩ := create_rows sbx db
    · exact ⟨r, by rw [same]; exact row, .refl⟩
    · have other : id ≠ sbx.id := by
        rintro rfl
        cases absent.symm.trans row
      exact ⟨r, (rows id).trans ((if_neg other).trans row), .refl⟩
  fresh id r absent row := ⟨r, create_fresh lawful absent row, .refl⟩
  jobs j hj := by
    obtain same | ⟨-, jobs, -⟩ := create_rows sbx db
    · rw [same]
      exact hj
    · rw [jobs]
      exact List.mem_append_left _ hj

theorem delete_quiet (permitted : ∀ r, may id r .claim) :
    Quiet may db (Transactions.delete id db).2 := by
  have lives : Lives may db (updateStatus id .cleanupPending Status.claimable db).2 :=
    updateStatus_lives .claimed fun r _ => permitted r
  unfold Transactions.delete
  split
  · rename_i claimed
    rw [claimed] at lives
    exact (Lives.quiet lives).insertJobs _
  · exact .refl db
  · exact .refl db

theorem cleanup_quiet (permitted : ∀ r, may id r .claim) :
    Quiet may db (Transactions.cleanup id db).2 := by
  have lives : Lives may db (updateStatus id .cleanupPending Status.claimable db).2 :=
    updateStatus_lives .claimed fun r _ => permitted r
  unfold Transactions.cleanup
  split
  · rename_i claimed
    rw [claimed] at lives
    exact (Lives.quiet lives).insertJobs _
  · exact .refl db

def Claimed (db : Database) (id : SandboxID) : Prop :=
  ∃ r, db.sandbox? id = some r ∧ 5 ≤ rank r.status

theorem Claimed.grows (h : Claimed db id) (g : Grows may db db') : Claimed db' id := by
  obtain ⟨r, row, high⟩ := h
  obtain ⟨r', row', moved⟩ := g.kept id r row
  exact ⟨r', row', Nat.le_trans high moved.forward.le⟩

theorem mem_claimToCleanup {due : SandboxID → SandboxRow → Bool} :
    id ∈ (claimToCleanup due db).1 ↔ ∃ r, db.sandbox? id = some r ∧ due id r = true :=
  Table.mem_select ..

theorem claimToCleanup_claimed {due : SandboxID → SandboxRow → Bool}
    (h : id ∈ (claimToCleanup due db).1) :
    Claimed (claimToCleanup due db).2 id := by
  obtain ⟨r, row, claimed⟩ := mem_claimToCleanup.1 h
  refine ⟨{ r with status := .cleanupPending }, ?_, Nat.le_refl 5⟩
  rw [claimToCleanup, Database.sandbox?_rewrite, row, Option.map_some, if_pos claimed]

theorem Claimed.insertJobs (h : Claimed db id)
    (js : List JobArgs) : Claimed (db.insertJobs js) id := h

theorem Claimed.lives (h : Claimed db id)
    (g : Lives may db db') : Claimed db' id := h.grows (Lives.quiet g).grows

theorem claimLivenessExpired_claimed
    {ids : List SandboxID}
    (h : claimLivenessExpired now locked livenessTimeout workerLostTimeout db = (.ok ids, db'))
    (mem : id ∈ ids) : Claimed db' id := by
  unfold claimLivenessExpired at h
  split at h
  · cases h
  · cases h
    exact claimToCleanup_claimed mem

theorem claimStalledCreation_claimed {now timeout : Int} {ids : List SandboxID}
    (h : claimStalledCreation now locked timeout db = (.ok ids, db')) (mem : id ∈ ids) :
    Claimed db' id := by
  unfold claimStalledCreation at h
  split at h
  · cases h
  · cases h
    exact claimToCleanup_claimed mem

theorem reap_cases (permitted : ∀ k r, may k r .claim) (now : Int) (locked : SandboxID → Bool)
    (livenessTimeout workerLostTimeout createTimeout : Int) (db : Database) :
    (∃ err, Transactions.reap now locked livenessTimeout workerLostTimeout createTimeout db =
      (.error err, db)) ∨
    ∃ expired dead stalled db',
      Transactions.reap now locked livenessTimeout workerLostTimeout createTimeout db =
        (.ok ⟨expired, dead, stalled⟩, db'.insertJobs
          (expired.map (.cleanupSandbox · (some .stopped)) ++
            dead.map (.cleanupSandbox · (some .failed)) ++
            stalled.map (.cleanupSandbox · (some .failed)))) ∧
      Lives may db db' ∧ ∀ id ∈ expired ++ dead ++ stalled, Claimed db' id := by
  have first : Lives may db (claimTTLExpired now locked db).2 :=
    claimTTLExpired_lives permitted
  have second : Lives may (claimTTLExpired now locked db).2 (claimLivenessExpired now locked
      livenessTimeout workerLostTimeout (claimTTLExpired now locked db).2).2 :=
    claimLivenessExpired_lives permitted
  unfold Transactions.reap
  dsimp only
  split
  · exact .inl ⟨_, rfl⟩
  rename_i dead db₂ claimed
  rw [claimed] at second
  split
  · exact .inl ⟨_, rfl⟩
  rename_i stalled db₃ claimed'
  have third : Lives may db₂ db₃ ∧ ∀ id ∈ stalled, Claimed db₃ id := by
    split at claimed'
    · have lives : Lives may db₂ (claimStalledCreation now locked createTimeout db₂).2 :=
        claimStalledCreation_lives permitted
      rw [claimed'] at lives
      exact ⟨lives, fun id mem => claimStalledCreation_claimed claimed' mem⟩
    · cases claimed'
      exact ⟨.refl db₂, fun _ mem => nomatch mem⟩
  refine .inr ⟨_, dead, stalled, db₃, rfl, (first.trans second).trans third.1, fun id mem => ?_⟩
  simp only [List.mem_append] at mem
  rcases mem with (expired | gone) | late
  · exact (claimToCleanup_claimed expired).lives (second.trans third.1)
  · exact (claimLivenessExpired_claimed claimed gone).lives third.1
  · exact third.2 id late

theorem reap_quiet {now livenessTimeout workerLostTimeout createTimeout : Int}
    (permitted : ∀ k r, may k r .claim) :
    Quiet may db
    (Transactions.reap now locked livenessTimeout workerLostTimeout createTimeout db).2 := by
  obtain ⟨err, failed⟩ | ⟨expired, dead, stalled, db', done, lives, -⟩ :=
    reap_cases permitted now locked livenessTimeout workerLostTimeout createTimeout db
  · rw [failed]
    exact .refl db
  · rw [done]
    exact (Lives.quiet lives).insertJobs _

theorem reconciles_any {workerID : WorkerID} :
    Reconciles .any now workerID inv :=
  ⟨fun _ _ _ _ => trivial, fun _ _ _ _ => trivial, fun _ _ _ => trivial⟩

theorem reconcileInventory_result (now : Int) (workerID : WorkerID) (first : Bool)
    (inv : Inventory) (db : Database) :
    (∀ id ∈ (reconcileInventory now workerID first inv db).1.lost ++
      (reconcileInventory now workerID first inv db).1.dead,
      Claimed (reconcileInventory now workerID first inv db).2 id) ∧
    ∀ id ∈ (reconcileInventory now workerID first inv db).1.orphans, id ∈ inv.ids ∧
      ∀ r, (reconcileInventory now workerID first inv db).2.sandbox? id = some r →
        r.workerID = some workerID → r.status ∈ Status.terminal := by
  have lost : ∀ id ∈ (if first then claimLost workerID inv.ids db else ([], db)).1,
      Claimed (if first then claimLost workerID inv.ids db else ([], db)).2 id := by
    split
    · exact fun id mem => claimToCleanup_claimed mem
    · exact fun _ mem => nomatch mem
  unfold reconcileInventory
  dsimp only
  split
  · refine ⟨fun id mem => lost id (by simpa using mem), fun _ mem => nomatch mem⟩
  · refine ⟨fun id mem => ?_, fun id mem => ?_⟩
    · rcases List.mem_append.1 mem with early | late
      · exact (lost id early).lives (listed_lives reconciles_any)
      · exact claimToCleanup_claimed late
    · obtain ⟨listed, alien⟩ := List.mem_filter.1 mem
      refine ⟨listed, fun r row held => ?_⟩
      rw [row] at alien
      by_contra alive
      simp [held, alive] at alien

theorem update_quiet :
    Quiet may db (WorkerRepository.update now w db).2 := by
  unfold WorkerRepository.update
  split
  · split
    · exact .of_eq rfl rfl
    · exact .refl db
  · exact .refl db

theorem update_jobs :
    (WorkerRepository.update now w db).2.jobs = db.jobs := by
  unfold WorkerRepository.update
  split
  · split <;> rfl
  · rfl

theorem reconcileHeartbeat_cases
    (permitted : Reconciles may now w.id inv)
    (h : Transactions.reconcileHeartbeat now w inv db = some db') :
    ∃ (claimed orphans : List SandboxID) (db₃ : Database),
      db' = db₃.insertJobs (claimed.map (.cleanupSandbox · (some .failed)) ++
        orphans.map (.removeOrphan w.id)) ∧ Quiet may db db₃ ∧ db₃.jobs = db.jobs ∧
      (∀ id ∈ claimed, Claimed db₃ id) ∧ ∀ id ∈ orphans, id ∈ inv.ids ∧
        ∀ r, db₃.sandbox? id = some r → r.workerID = some w.id → r.status ∈ Status.terminal := by
  have updated : Quiet may db (WorkerRepository.update now w db).2 := update_quiet
  have jobs : (WorkerRepository.update now w db).2.jobs = db.jobs := update_jobs
  unfold Transactions.reconcileHeartbeat Transactions.reconciled at h
  split at h
  · cases h
  · rename_i db₁ found
    rw [found] at updated jobs
    generalize claim : WorkerRepository.claimInventory w.id w.fencingToken db₁ = marked at h
    obtain ⟨first, db₂⟩ := marked
    have lives : Lives may db₂ (reconcileInventory now w.id first inv db₂).2 :=
      reconcileInventory_lives permitted
    obtain ⟨claimed, orphans⟩ := reconcileInventory_result now w.id first inv db₂
    cases claim
    cases h
    refine ⟨_, _, _, rfl, updated.trans (Quiet.trans ?_ (Lives.quiet lives)), ?_, claimed, orphans⟩
    · exact .of_eq rfl rfl
    · exact lives.jobs.trans jobs

theorem reconcileHeartbeat_quiet
    (permitted : Reconciles may now w.id inv)
    (h : Transactions.reconcileHeartbeat now w inv db = some db') : Quiet may db db' := by
  obtain ⟨claimed, orphans, db₃, rfl, quiet, -⟩ := reconcileHeartbeat_cases permitted h
  exact quiet.insertJobs _

theorem register_quiet :
    Quiet may db (WorkerRepository.register now w db).2 := by
  unfold WorkerRepository.register
  dsimp only
  split
  · exact .refl db
  split <;> exact .of_eq rfl rfl

theorem createSandboxEvent_quiet {e : SandboxEvent} :
    Quiet may db (EventRepository.createSandboxEvent e db).2 := by
  unfold EventRepository.createSandboxEvent
  split
  · split
    · exact .of_eq rfl rfl
    · exact .refl db
  · exact .refl db

end Tables

inductive Grant (e : Env) (db : Database) : Call → Permit
  | updateStatus {id status allowedFrom r l} (h : Allowed status allowedFrom l)
      (row : db.sandbox? id = some r) : Grant e db (.updateStatus id status allowedFrom) id r l
  | confirmFenced {id workerID token status allowedFrom r} (held : r.workerID = some workerID) :
      Grant e db (.updateStatusFenced id workerID token status allowedFrom) id r .confirm
  | assign {id workerID r} (row : db.sandbox? id = some r) :
      Grant e db (.assignWorker id workerID) id r (.assign workerID e.now)
  | clear {id r} (row : db.sandbox? id = some r) : Grant e db (.clearWorker id) id r .clear
  | delete {id r} : Grant e db (.deleteTx id) id r .claim
  | cleanup {id r} : Grant e db (.cleanupTx id) id r .claim
  | reap {livenessTimeout workerLostTimeout createTimeout id r} :
      Grant e db (.reapTx livenessTimeout workerLostTimeout createTimeout) id r .claim
  | seen {w inv id r} (held : r.workerID = some w.id) (listed : id ∈ inv.live ++ inv.running) :
      Grant e db (.reconcileTx w inv) id r (.seen e.now)
  | confirm {w inv id r} (held : r.workerID = some w.id) (listed : id ∈ inv.running) :
      Grant e db (.reconcileTx w inv) id r .confirm
  | claim {w inv id r} (held : r.workerID = some w.id) :
      Grant e db (.reconcileTx w inv) id r .claim

section Calls
variable {db db' : Database} {i : Nat} {c : Call} {s : World} {sbx : Sandbox} {id : SandboxID}
  {r : SandboxRow} {livenessTimeout now workerLostTimeout : Int} {locked : SandboxID → Bool}
  {inv : Inventory} {w : Worker} {e : Env} {j : JobArgs}

theorem effect_quiet (lawful : Lawful c) (other : ∀ sbx, c ≠ .createTx sbx)
    (e : Env) : Quiet (Grant e s.db c) s.db (effect c e s).db := by
  cases c with
  | updateStatus id status allowedFrom =>
    obtain ⟨l, allowed⟩ := lawful
    exact Lives.quiet (updateStatus_lives allowed fun r row => .updateStatus allowed row)
  | updateStatusFenced id workerID token status allowedFrom =>
    obtain ⟨rfl, rfl⟩ := lawful
    exact Lives.quiet (updateStatusFenced_lives fun r _ held => .confirmFenced held)
  | assignWorker id workerID => exact Lives.quiet (assignWorker_lives fun r row => .assign row)
  | clearWorker id => exact Lives.quiet (clearWorker_lives fun r row => .clear row)
  | createTx sbx => exact absurd rfl (other sbx)
  | deleteTx id => exact delete_quiet fun r => .delete
  | cleanupTx id => exact cleanup_quiet fun r => .cleanup
  | reapTx livenessTimeout workerLostTimeout createTimeout => exact reap_quiet fun k r => .reap
  | register w =>
    have quiet : Quiet (Grant e s.db (.register w)) s.db
        (WorkerRepository.register e.now w s.db).2 := register_quiet
    simp only [effect, answer, statement, faulty, registerStep]
    split
    · rename_i found
      rw [found] at quiet
      exact quiet
    · exact .refl _
  | updateWorker w =>
    have quiet : Quiet (Grant e s.db (.updateWorker w)) s.db
        (WorkerRepository.update e.now w s.db).2 := update_quiet
    simp only [effect, answer, statement, faulty, updateWorkerStep]
    split
    · rename_i found
      rw [found] at quiet
      exact quiet
    · exact .refl _
  | reconcileTx w inv =>
    simp only [effect, answer, statement, faulty, reconcileStep]
    split
    · rename_i found
      exact reconcileHeartbeat_quiet
        ⟨fun _ _ => .seen, fun _ _ => .confirm, fun _ _ => .claim⟩ found
    · exact .refl _
  | markStaleInactive timeout => exact .of_eq rfl rfl
  | createSandboxEvent ev => exact createSandboxEvent_quiet
  | getSandbox | listWorkers | getWorker | whyRefused | timeNow | newUUID | draw | newClient
  | getWorkerInfo | sendCreate | sendRemove | await | awaitJob => exact .refl _

theorem effect_grows (lawful : Lawful c) (e : Env) :
    Grows (Grant e s.db c) s.db (effect c e s).db := by
  by_cases created : ∃ sbx, c = .createTx sbx
  · obtain ⟨sbx, rfl⟩ := created
    exact create_grows lawful
  · exact (effect_quiet lawful (fun sbx eq => created ⟨sbx, eq⟩) e).grows

theorem answer_fresh (lawful : Lawful c) (absent : s.db.sandbox? id = none)
    (row : (answer c e s).2.db.sandbox? id = some r) : Newborn r := by
  obtain same | done := answer_effect c e s
  · rw [same, absent] at row
    cases row
  rw [done] at row
  by_cases created : ∃ sbx, c = .createTx sbx
  · obtain ⟨sbx, rfl⟩ := created
    exact create_fresh lawful absent row
  · have quiet := effect_quiet (s := s) lawful (fun sbx eq => created ⟨sbx, eq⟩) e
    rw [quiet.absent id absent] at row
    cases row

theorem answer_grows (lawful : Lawful c) (e : Env) :
    Grows (Grant e s.db c) s.db (answer c e s).2.db := by
  obtain same | done := answer_effect c e s
  · rw [same]
    exact .refl _
  · rw [done]
    exact effect_grows lawful e

def Issued (c : Call) (db : Database) : JobArgs → Prop
  | .createSandbox id => ∃ r, db.sandbox? id = some r
  | .cleanupSandbox id target =>
    Target target ∧ (Claimed db id ∨ c = .cleanupTx id ∧ db.sandbox? id = none)
  | .removeOrphan workerID id => ∃ w inv, c = .reconcileTx w inv ∧ w.id = workerID ∧ id ∈ inv.ids ∧
      ∀ r, db.sandbox? id = some r → r.workerID = some workerID → r.status ∈ Status.terminal

theorem create_jobs
    (h : j ∈ (Transactions.create sbx db).2.jobs) :
    j ∈ db.jobs ∨ j = .createSandbox sbx.id ∧
      ∃ r, (Transactions.create sbx db).2.sandbox? sbx.id = some r := by
  obtain same | ⟨-, jobs, rows⟩ := create_rows sbx db
  · rw [same] at h
    exact .inl h
  · rw [jobs] at h
    rcases List.mem_append.1 h with old | one
    · exact .inl old
    · exact .inr ⟨List.mem_singleton.1 one, _, (rows sbx.id).trans (if_pos rfl)⟩

theorem updateStatus_claimed
    (row : db.sandbox? id = some r) :
    Claimed (updateStatus id .cleanupPending Status.claimable db).2 id := by
  have written : (updateStatus id .cleanupPending Status.claimable db).2.sandbox? id =
      some (if r.status ∈ Status.claimable then { r with status := .cleanupPending } else r) := by
    simp [updateStatus, row, Status.claimable]
  refine ⟨_, written, ?_⟩
  split
  · exact Nat.le_refl 5
  · rename_i past
    exact Nat.le_of_not_lt fun low => past (claimable_of_rank low)

theorem updateStatus_jobs {status : Status} {allowedFrom : List Status}
    : (updateStatus id status allowedFrom db).2.jobs = db.jobs := by
  unfold updateStatus
  split
  · rfl
  · dsimp only
    split <;> rfl

theorem updateStatus_some {status : Status} {allowedFrom : List Status}
    (h : updateStatus id status allowedFrom db = (.ok (some sbx), db')) :
    ∃ r, db.sandbox? id = some r ∧ r.status ∈ allowedFrom := by
  unfold updateStatus at h
  split at h
  · cases h
  · dsimp only at h
    split at h
    · rename_i r row
      split at h
      · rename_i allowed
        exact ⟨r, row, allowed⟩
      · cases h
    · cases h

theorem delete_jobs
    (h : j ∈ (Transactions.delete id db).2.jobs) :
    j ∈ db.jobs ∨ j = .cleanupSandbox id (some .stopped) ∧
      Claimed (Transactions.delete id db).2 id := by
  have jobs : (updateStatus id .cleanupPending Status.claimable db).2.jobs = db.jobs :=
    updateStatus_jobs
  unfold Transactions.delete at h ⊢
  split at h
  · rename_i sbx db' claimed
    obtain ⟨r, row, -⟩ := updateStatus_some claimed
    have done := updateStatus_claimed row
    rw [claimed] at done jobs
    rcases List.mem_append.1 h with old | one
    · exact .inl (jobs ▸ old)
    · exact .inr ⟨List.mem_singleton.1 one, done.insertJobs _⟩
  · exact .inl h
  · exact .inl h

theorem cleanup_jobs
    (h : j ∈ (Transactions.cleanup id db).2.jobs) :
    j ∈ db.jobs ∨ j = .cleanupSandbox id none ∧ (Claimed (Transactions.cleanup id db).2 id ∨
      (Transactions.cleanup id db).2.sandbox? id = none) := by
  have jobs : (updateStatus id .cleanupPending Status.claimable db).2.jobs = db.jobs :=
    updateStatus_jobs
  have lives : Lives .any db (updateStatus id .cleanupPending Status.claimable db).2 :=
    updateStatus_lives .claimed fun _ _ => trivial
  unfold Transactions.cleanup at h ⊢
  split at h
  · rename_i answer db' claimed
    rw [claimed] at jobs lives
    rcases List.mem_append.1 h with old | one
    · exact .inl (jobs ▸ old)
    · refine .inr ⟨List.mem_singleton.1 one, ?_⟩
      cases row : db.sandbox? id with
      | none => exact .inr (lives.absent id row)
      | some r =>
        have done := updateStatus_claimed row
        rw [claimed] at done
        exact .inl (done.insertJobs _)
  · exact .inl h

theorem reap_jobs {now livenessTimeout workerLostTimeout createTimeout : Int} (c : Call)
    (h : j ∈ (Transactions.reap now locked livenessTimeout workerLostTimeout createTimeout
      db).2.jobs) :
    j ∈ db.jobs ∨ Issued c (Transactions.reap now locked livenessTimeout workerLostTimeout
      createTimeout db).2 j := by
  have permitted (k : SandboxID) (r : SandboxRow) : Permit.any k r .claim := trivial
  obtain ⟨err, failed⟩ | ⟨expired, dead, stalled, db', done, lives, claimed⟩ :=
    reap_cases permitted now locked livenessTimeout workerLostTimeout createTimeout db
  · rw [failed] at h
    exact .inl h
  rw [done] at h ⊢
  simp only [List.mem_append] at claimed
  simp only [Database.insertJobs, List.mem_append, List.mem_map, lives.jobs] at h
  rcases h with old | (⟨id, mem, rfl⟩ | ⟨id, mem, rfl⟩) | ⟨id, mem, rfl⟩
  · exact .inl old
  · exact .inr ⟨.inr (.inl rfl), .inl (claimed id (.inl (.inl mem)))⟩
  · exact .inr ⟨.inr (.inr rfl), .inl (claimed id (.inl (.inr mem)))⟩
  · exact .inr ⟨.inr (.inr rfl), .inl (claimed id (.inr mem))⟩

theorem reconcileHeartbeat_jobs
    (h : Transactions.reconcileHeartbeat now w inv db = some db')
    (hj : j ∈ db'.jobs) : j ∈ db.jobs ∨ Issued (.reconcileTx w inv) db' j := by
  obtain ⟨ids, listed, db₃, rfl, -, jobs, claimed, orphans⟩ :=
    reconcileHeartbeat_cases reconciles_any h
  simp only [Database.insertJobs, List.mem_append, List.mem_map, jobs] at hj
  rcases hj with old | ⟨id, mem, rfl⟩ | ⟨id, mem, rfl⟩
  · exact .inl old
  · exact .inr ⟨.inr (.inr rfl), .inl (claimed id mem)⟩
  · exact .inr ⟨w, inv, rfl, rfl, orphans id mem⟩

theorem register_jobs :
    (WorkerRepository.register now w db).2.jobs = db.jobs := by
  unfold WorkerRepository.register
  dsimp only
  split
  · rfl
  split <;> rfl

theorem createSandboxEvent_jobs {e : SandboxEvent} :
    (EventRepository.createSandboxEvent e db).2.jobs = db.jobs := by
  unfold EventRepository.createSandboxEvent
  split
  · split <;> rfl
  · rfl

def inserts : Call → Bool
  | .createTx _ | .deleteTx _ | .cleanupTx _ | .reapTx .. | .reconcileTx .. => true
  | _ => false

theorem effect_same_jobs (lawful : Lawful c) (other : inserts c = false) :
    (effect c e s).db.jobs = s.db.jobs := by
  cases c with
  | updateStatus id status allowedFrom => exact updateStatus_jobs
  | updateStatusFenced id workerID token status allowedFrom =>
    obtain ⟨rfl, rfl⟩ := lawful
    rfl
  | assignWorker id workerID =>
    have lives : Lives .any s.db (assignWorker e.now id workerID s.db).2 :=
      assignWorker_lives fun _ _ => trivial
    exact lives.jobs
  | register w =>
    have jobs : (WorkerRepository.register e.now w s.db).2.jobs = s.db.jobs := register_jobs
    simp only [effect, answer, statement, faulty, registerStep]
    split
    · rename_i found
      rw [found] at jobs
      exact jobs
    · rfl
  | updateWorker w =>
    have jobs : (WorkerRepository.update e.now w s.db).2.jobs = s.db.jobs := update_jobs
    simp only [effect, answer, statement, faulty, updateWorkerStep]
    split
    · rename_i found
      rw [found] at jobs
      exact jobs
    · rfl
  | createSandboxEvent ev => exact createSandboxEvent_jobs
  | createTx | deleteTx | cleanupTx | reapTx | reconcileTx => cases other
  | _ => rfl

theorem effect_jobs (lawful : Lawful c)
    (h : j ∈ (effect c e s).db.jobs) : j ∈ s.db.jobs ∨ Issued c (effect c e s).db j := by
  cases c with
  | createTx sbx =>
    obtain old | ⟨rfl, row⟩ := create_jobs h
    · exact .inl old
    · exact .inr row
  | deleteTx id =>
    obtain old | ⟨rfl, claimed⟩ := delete_jobs h
    · exact .inl old
    · exact .inr ⟨.inr (.inl rfl), .inl claimed⟩
  | cleanupTx id =>
    obtain old | ⟨rfl, claimed⟩ := cleanup_jobs h
    · exact .inl old
    · exact .inr ⟨.inl rfl, claimed.imp_right fun absent => ⟨rfl, absent⟩⟩
  | reapTx livenessTimeout workerLostTimeout createTimeout => exact reap_jobs _ h
  | reconcileTx w inv =>
    simp only [effect, answer, statement, faulty, reconcileStep] at h ⊢
    split at h
    · rename_i found
      exact reconcileHeartbeat_jobs found h
    · exact .inl h
  | _ => exact .inl (effect_same_jobs lawful rfl ▸ h)

theorem answer_jobs (lawful : Lawful c)
    (h : j ∈ (answer c e s).2.db.jobs) : j ∈ s.db.jobs ∨ Issued c (answer c e s).2.db j := by
  obtain same | done := answer_effect c e s
  · rw [same] at h
    exact .inl h
  · rw [done] at h ⊢
    exact effect_jobs lawful h

def lawfulSpec : Spec Call Env Empty World where
  -- every thread keeps to the lawful calls, whatever it has read
  Inv s := Targets s.db
  Evolves s t := Grows .any s.db t.db
  Keeps _ _ _ := True
  Pre _ c _ := Lawful c
  Cond _ _ _ _ := True
  Out _ _ := True

theorem targets_answer (lawful : Lawful c)
    (targets : Targets s.db) : Targets (answer c e s).2.db := by
  intro id target mem
  obtain old | new := answer_jobs lawful mem
  · exact targets id target old
  · exact new.1

theorem lawfulSpec_sound : lawfulSpec.Sound exec where
  evolves_refl s := .refl s.db
  evolves_trans := Grows.trans
  keeps_refl _ _ := trivial
  keeps_trans _ _ := trivial
  step {i c e s a t} inv pre _ ran := by
    obtain rfl : t = (answer c e s).2 := congrArg Prod.snd (exec_eq_some ran)
    exact ⟨targets_answer pre inv, (answer_grows pre e).mono fun _ _ _ _ =>
      trivial, fun _ _ => trivial⟩

theorem start_eq {k : Kind} {s t : World} (h : system.start i k s = some t) :
    enabled k s.db = true ∧ t = s := by
  simp only [system] at h
  split at h
  · exact ⟨‹_›, (Option.some.inj h).symm⟩
  · cases h

theorem lawful_disciplined : system.Disciplined lawfulSpec fun _ _ _ _ => True where
  sound := lawfulSpec_sound
  start i k s t inv started := by
    obtain ⟨on, rfl⟩ := start_eq started
    exact ⟨inv, .refl t.db, fun _ _ => trivial,
      WP.of_asks lawfulSpec_sound (fun _ _ _ _ => trivial) (fun _ _ lawful _ _ => lawful)
        (fun _ _ _ _ _ => exec_answered) (body_lawful inv on) trivial⟩
  ext x := nomatch x

theorem lawful_initial : system.Safe lawfulSpec (fun _ _ _ _ => True) initial :=
  System.safe_init fun _ _ mem => nomatch mem

theorem lawful_reaches {s t : State} (safe : system.Safe lawfulSpec (fun _ _ _ _ => True) s)
    (h : system.Reaches s t) :
    system.Safe lawfulSpec (fun _ _ _ _ => True) t ∧ Grows .any s.shared.db t.shared.db :=
  System.safe_reaches lawful_disciplined (fun _ _ _ _ => trivial) (fun _ _ => trivial) safe h

theorem reached_lawful {s : State} (h : system.Reaches initial s) :
    system.Safe lawfulSpec (fun _ _ _ _ => True) s :=
  (lawful_reaches lawful_initial h).1

theorem step_lawful {s t : State} {a : Action Kind Env Empty}
    (safe : system.Safe lawfulSpec (fun _ _ _ _ => True) s) (h : system.step s a = some t) :
    t.shared = s.shared ∨ ∃ c e, Lawful c ∧ t.shared = (answer c e s.shared).2 := by
  obtain ⟨k, v, -, started, rfl⟩ | ⟨i, e, k, c, f, r, v, -, hi, ran, rfl⟩ | ⟨i, th, -, -, -, rfl⟩ |
    ⟨x, -⟩ := System.step_cases h
  · exact .inl (start_eq started).2
  · exact .inr ⟨c, e, System.safe_pre lawful_disciplined safe hi,
      congrArg Prod.snd (exec_eq_some (i := i) ran)⟩
  · exact .inl rfl
  · exact nomatch x

theorem reaches_induction {φ : World → Prop}
    (step : ∀ c e s, Lawful c → φ s → φ (answer c e s).2) (first : φ initial.shared) {s : State}
    (hs : system.Reaches initial s) : φ s.shared := by
  induction hs with
  | refl => exact first
  | @tail t u before last ih =>
    obtain ⟨a, -, moved⟩ := last
    obtain same | ⟨c, e, lawful, done⟩ := step_lawful (reached_lawful before) moved
    · exact same ▸ ih
    · exact done ▸ step c e _ lawful ih

theorem reaches_grows {s t : State} (hs : system.Reaches initial s) (h : system.Reaches s t) :
    Grows .any s.shared.db t.shared.db :=
  (lawful_reaches (reached_lawful hs) h).2

theorem reaches_born {s : State} (hs : system.Reaches initial s)
    (row : s.shared.db.sandbox? id = some r) : ∃ r₀, Newborn r₀ ∧ Steps (Permit.any id) r₀ r :=
  (reaches_grows .refl hs).fresh id r rfl row

end Calls

end Fire2.Orchestrator
