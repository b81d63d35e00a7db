import Fire2.Cluster
import Fire2.Workers

/-! What the rows of the sandboxes refer to, and what becomes of them: a sandbox
that is linked to a worker is linked to one in the table, which no call takes out
of it, and a request to create a sandbox is one that its worker's own checks let
through. -/

namespace Fire2.Placement
open Interleaving Lifecycle SandboxRepository Orchestrator

section Linked
variable {now : Int} {s t : World} {c : Call} {w : WorkerID}

theorem worker_stays (step : WorkerStep now s t c) (known : (s.db.worker? w).isSome = true) :
    (t.db.worker? w).isSome = true := by
  obtain ⟨r, row⟩ := Option.isSome_iff_exists.1 known
  obtain ⟨r', row', -⟩ := step.token_stays row
  exact Option.isSome_iff_exists.2 ⟨r', row'⟩

def ToKnown (db : Database) : Permit :=
  fun _ _ l => ∀ w now, l = .assign w now → (db.worker? w).isSome = true

theorem answer_toKnown (lawful : Lawful c) (e : Env) :
    Grows (ToKnown s.db) s.db (answer c e s).2.db := by
  by_cases assigns : ∃ id workerID, c = .assignWorker id workerID ∧ s.db.worker? workerID = none
  · -- the transaction refuses a worker it does not find
    obtain ⟨id, workerID, rfl, unknown⟩ := assigns
    have same : (answer (.assignWorker id workerID) e s).2 = s := by
      rcases answer_effect (.assignWorker id workerID) e s with same | done
      · exact same
      · have refused : (assignWorker e.now id workerID s.db).2 = s.db := by
          rw [assignWorker, unknown]
        rw [done]
        change { s with db := (assignWorker e.now id workerID s.db).2 } = s
        rw [refused]
    rw [same]
    exact .refl _
  · refine (answer_grows lawful e).mono fun id r l granted w at_ eq => ?_
    subst eq
    cases granted with
    | updateStatus h => cases h
    | assign =>
      refine Option.isSome_iff_ne_none.2 fun unknown => assigns ⟨_, _, rfl, unknown⟩

theorem Move.link {l : Label} {r r' : SandboxRow} (h : Move l r r')
    (linked : r'.workerID = some w) : r.workerID = some w ∨ ∃ now, l = .assign w now := by
  cases h with
  | assign w' now =>
    cases linked
    exact .inr ⟨now, rfl⟩
  | clear => cases linked
  | _ => exact .inl linked

theorem Steps.link {db : Database} {id : SandboxID} {r r' : SandboxRow}
    (h : Steps (ToKnown db id) r r') (linked : r'.workerID = some w) :
    r.workerID = some w ∨ (db.worker? w).isSome = true := by
  induction h with
  | refl => exact .inl linked
  | tail _ last ih =>
    obtain ⟨l, permitted, move⟩ := last
    rcases Move.link move linked with before | ⟨now, assigned⟩
    · exact ih before
    · exact .inr (permitted w now assigned)

def Linked (db : Database) : Prop :=
  ∀ id r w, db.sandbox? id = some r → r.workerID = some w → (db.worker? w).isSome = true

theorem answer_linked (lawful : Lawful c) (e : Env) (linked : Linked s.db) :
    Linked (answer c e s).2.db := by
  intro id r' w row' link
  refine worker_stays (answer_workers lawful e s) ?_
  have grows : Grows (ToKnown s.db) s.db (answer c e s).2.db := answer_toKnown lawful e
  cases row : s.db.sandbox? id with
  | none =>
    obtain ⟨r, born, steps⟩ := grows.fresh id r' row row'
    rcases Steps.link steps link with before | known
    · cases born.2.1.symm.trans before
    · exact known
  | some r =>
    obtain ⟨r'', row'', steps⟩ := grows.kept id r row
    cases row'.symm.trans row''
    rcases Steps.link steps link with before | known
    · exact linked id r w row before
    · exact known

theorem reaches_linked {s : State} (hs : system.Reaches initial s) : Linked s.shared.db :=
  reaches_induction (φ := fun s => Linked s.db)
    (fun _ e _ lawful linked => answer_linked lawful e linked) (fun _ _ _ row => by cases row) hs

end Linked

section Accepted
variable {c : Call} {s t : World} {e : Env} {i : Nat} {id : SandboxID} {isFinal : Bool}

def Accepted [Uuid] (sbx : Sandbox) : Prop :=
  Cluster.WorkerGRPCServer.refusal (.create (CreateSandboxWorker.createRequest sbx)) = none

theorem accepted_iff [Uuid] {sbx : Sandbox} : Accepted sbx ↔ Host.isSandboxID sbx.id = true ∧
    HTTPHandlers.checkSandboxSize sbx.vcpuCount sbx.memSizeMib = none := by
  simp only [Accepted, Cluster.WorkerGRPCServer.refusal, CreateSandboxWorker.createRequest,
    Option.or_eq_none_iff, SandboxMgr.checkSandboxID]
  by_cases valid : Host.isSandboxID sbx.id = true <;> simp [valid]

def drawsUUID [Uuid] (_ : Nat) (c : Call) (e : Env) (_ : World) : Bool :=
  -- the generator draws UUIDs in the form that is parsed
  match c with
  | .newUUID => Host.isSandboxID e.uuid
  | _ => true

def Accepting [Uuid] : Call → Prop
  | .createTx sbx => Accepted sbx
  | .sendCreate _ _ req => Cluster.WorkerGRPCServer.refusal (.create req) = none
  | _ => True

/-- The calls of a run, and that sandboxes are created, and their creation is
asked for, only if they are accepted. -/
def Sized [Uuid] (c : Call) : Prop := Lawful c ∧ Accepting c

def Valid [Uuid] : (c : Call) → c.Answer → Prop
  | .getSandbox _ => fun r => ∀ sbx, r = .ok sbx → Accepted sbx
  | .assignWorker .. => fun r => ∀ sbx, r = .ok (some sbx) → Accepted sbx
  | .newUUID => fun uuid => Host.isSandboxID uuid = true
  | _ => fun _ => True

abbrev Asks [Uuid] {α : Type} (p : Job α) (P : Call → Prop) : Prop :=
  p.Asks (fun c r => Answered c r ∧ Valid c r) P

theorem asks_ask [Uuid] {α : Type} {P : Call → Prop} {f : c.Answer → Job α} (hc : P c)
    (hf : ∀ r, Answered c r → Valid c r → Asks (f r) P) : Asks (ask c >>= f) P :=
  .call hc fun r h => hf r h.1 h.2

theorem Calls.asks [Uuid] {α : Type} {P Q : Call → Prop} {p : Job α} (h : Calls p P)
    (mono : ∀ c, P c → Q c) : Asks p Q :=
  (h.mono mono).weaken fun _ _ answered => answered.1

theorem checkSandboxSize_orDefault {vcpuCount memSizeMib : Int}
    (checked : HTTPHandlers.checkSandboxSize vcpuCount memSizeMib = none) :
    HTTPHandlers.checkSandboxSize (HTTPHandlers.orDefault vcpuCount sandboxVcpu)
      (HTTPHandlers.orDefault memSizeMib sandboxMemMiB) = none := by
  unfold HTTPHandlers.checkSandboxSize at checked ⊢
  split at checked
  · cases checked
  split at checked
  · cases checked
  rename_i vcpu mem
  have atMost {value bound : Int}
      (le : ¬ bound < value) : ¬ bound < HTTPHandlers.orDefault value bound := by
    unfold HTTPHandlers.orDefault
    split
    · exact Int.lt_irrefl bound
    · exact le
  rw [if_neg (atMost vcpu), if_neg (atMost mem)]

theorem createSandbox_sized [Uuid] {user : Option String} {body : Option CreateBody} :
    Asks (HTTPHandlers.createSandbox user body) Sized := by
  unfold HTTPHandlers.createSandbox
  split
  · exact .ret _
  · exact .ret _
  split
  · exact .ret _
  split
  · exact .ret _
  rename_i checked
  refine asks_ask ⟨trivial, trivial⟩ fun r _ _ => ?_
  obtain err | _ | _ := r
  · exact .ret _
  · exact .ret _
  refine asks_ask ⟨trivial, trivial⟩ fun nanos _ _ => asks_ask
      ⟨trivial, trivial⟩ fun uuid _ drawn =>
    asks_ask ⟨trivial, trivial⟩ fun clock _ _ => asks_ask ⟨⟨rfl, rfl⟩, ?_⟩ fun r _ _ => ?_
  · exact accepted_iff.2 ⟨drawn, checkSandboxSize_orDefault checked⟩
  cases r with
  | error err => exact .ret _
  | ok _ =>
    refine asks_ask ⟨trivial, trivial⟩ fun event _ _ => ?_
    cases event with
    | completed =>
      refine asks_ask ⟨trivial, trivial⟩ fun r _ _ => ?_
      cases r <;> exact .ret _
    | cancelled errors =>
      dsimp only
      split <;> exact .ret _
    | requestDone | closed | discarded => exact .ret _

theorem deleteSandbox_sized [Uuid] {user : Option String} :
    Asks (HTTPHandlers.deleteSandbox user id) Sized := by
  unfold HTTPHandlers.deleteSandbox
  split
  · exact .ret _
  split
  · exact .ret _
  refine asks_ask ⟨trivial, trivial⟩ fun r _ _ => ?_
  obtain err | sbx := r
  · dsimp only
    split <;> exact .ret _
  dsimp only
  split
  · unfold HTTPHandlers.deleteOwned
    split
    · exact .ret _
    refine asks_ask ⟨trivial, trivial⟩ fun r _ _ => ?_
    obtain err | _ | _ := r <;> exact .ret _
  · exact .ret _

theorem registerWorker_sized [Uuid] {req : WorkerHeartbeat} :
    Asks (EventGRPCServer.registerWorker req) Sized := by
  unfold EventGRPCServer.registerWorker
  split
  · exact .ret _
  refine asks_ask ⟨trivial, trivial⟩ fun clock _ _ => asks_ask ⟨trivial, trivial⟩ fun r _ _ => ?_
  cases r <;> exact .ret _

theorem PlainCall.sized [Uuid] (h : PlainCall id c) : Sized c := by
  refine ⟨h.create.lawful, ?_⟩
  cases c <;> first | exact h.elim | trivial

theorem stepStartSandbox_sized [Uuid] {sbx : Sandbox} (accepted : Accepted sbx) :
    Asks (CreateSandboxWorker.stepStartSandbox sbx isFinal) Sized := by
  have gaveUp {err : Err} : Asks (CreateSandboxWorker.maybeCleanup sbx.id isFinal err) Sized :=
    Calls.asks maybeCleanup_calls fun _ => PlainCall.sized
  unfold CreateSandboxWorker.stepStartSandbox
  split
  · exact gaveUp
  refine asks_ask ⟨trivial, trivial⟩ fun r _ _ => ?_
  obtain err | worker := r
  · exact gaveUp
  refine asks_ask ⟨trivial, trivial⟩ fun r _ _ => ?_
  obtain err | _ := r
  · exact gaveUp
  refine asks_ask ⟨trivial, accepted⟩ fun ref _ _ => asks_ask ⟨trivial, trivial⟩ fun r _ _ => ?_
  obtain err | _ := r
  · exact gaveUp
  refine asks_ask ⟨⟨_, .starting⟩, trivial⟩ fun r _ _ => ?_
  obtain err | _ := r
  · exact gaveUp
  · exact Calls.asks stepAcknowledge_calls fun _ => PlainCall.sized

theorem assignLoop_sized [Uuid] {next : Option Sandbox → Work}
    (h : ∀ a, (∀ sbx, a = some sbx → Accepted sbx) → Asks (next a) Sized) (n : Nat)
    (candidates : List WorkerCandidate) (droppedFull : Bool) :
    Asks (CreateSandboxWorker.assignLoop id isFinal next n candidates droppedFull) Sized := by
  induction n generalizing candidates droppedFull with
  | zero => exact Calls.asks noChoice_calls fun _ => PlainCall.sized
  | succ n ih =>
    refine asks_ask ⟨trivial, trivial⟩ fun draw _ _ => ?_
    split
    · exact Calls.asks noChoice_calls fun _ => PlainCall.sized
    · refine asks_ask ⟨trivial, trivial⟩ fun r _ valid => ?_
      obtain err | assigned := r
      · dsimp only
        split
        · exact ih _ _
        · exact Calls.asks maybeCleanup_calls fun _ => PlainCall.sized
      · exact h assigned fun sbx eq => valid sbx (congrArg Except.ok eq)

theorem stepAssign_sized [Uuid] {sbx : Sandbox} (accepted : Accepted sbx) :
    Asks (CreateSandboxWorker.stepAssign sbx isFinal) Sized := by
  unfold CreateSandboxWorker.stepAssign
  split
  · exact stepStartSandbox_sized accepted
  refine asks_ask ⟨trivial, trivial⟩ fun r _ _ => ?_
  obtain err | workers := r
  · exact Calls.asks maybeCleanup_calls fun _ => PlainCall.sized
  have calls : Calls (CreateSandboxWorker.buildCandidates workers) (PlainCall sbx.id) :=
    buildCandidates_calls workers
  have built : Asks (CreateSandboxWorker.buildCandidates workers) Sized := Calls.asks calls
    fun _ => PlainCall.sized
  refine built.bind fun candidates => assignLoop_sized (fun a valid => ?_) _ _ _
  split
  · exact Calls.asks movedUnder_calls fun _ => PlainCall.sized
  · rename_i assigned found
    exact stepStartSandbox_sized (valid assigned (Option.filter_eq_some_iff.1 found).1)

theorem createJob_sized [Uuid] : Asks (CreateSandboxWorker.work id isFinal) Sized := by
  refine asks_ask ⟨trivial, trivial⟩ fun r _ valid => ?_
  obtain err | sbx := r
  · exact .ret _
  dsimp only
  split
  · refine asks_ask ⟨⟨_, .scheduling⟩, trivial⟩ fun r _ _ => ?_
    obtain err | _ | _ := r
    · exact Calls.asks maybeCleanup_calls fun _ => PlainCall.sized
    · exact Calls.asks movedUnder_calls fun _ => PlainCall.sized
    refine asks_ask ⟨trivial, trivial⟩ fun r _ valid => ?_
    obtain err | sbx := r
    · exact Calls.asks maybeCleanup_calls fun _ => PlainCall.sized
    · exact stepAssign_sized (valid sbx rfl)
  · exact stepAssign_sized (valid sbx rfl)
  · exact stepStartSandbox_sized (valid sbx rfl)
  · exact Calls.asks stepAcknowledge_calls fun _ => PlainCall.sized
  all_goals exact .ret _

theorem body_sized [Uuid] {k : Kind} {db : Database} (targets : Targets db)
    (h : enabled k db = true) : Asks (body k) Sized := by
  cases k with
  | createSandbox user body => exact createSandbox_sized.bind fun _ => .ret _
  | deleteSandbox user id => exact deleteSandbox_sized.bind fun _ => .ret _
  | registerWorker req => exact registerWorker_sized.bind fun _ => .ret _
  | createJob id isFinal => exact createJob_sized.bind fun _ => .ret _
  | reapSandboxes livenessTimeout workerLostTimeout createTimeout | reapWorkers timeout =>
    refine asks_ask ⟨trivial, trivial⟩ fun r _ _ => ?_
    cases r <;> exact .ret _
  | cleanupJob id target isFinal =>
    have calls : Calls (CleanupSandboxWorker.work id target isFinal) (CleanupCall id) :=
      cleanupJob_calls (targets id target (of_decide_eq_true h))
    refine (Calls.asks calls fun c call => ⟨call.lawful, ?_⟩).bind fun _ => .ret _
    cases c <;> first | exact call.elim | trivial
  | removeOrphanJob workerID id =>
    refine (Calls.asks removeSandboxOnWorker_calls fun c call => ⟨call.lawful, ?_⟩).bind fun _ =>
      .ret _
    cases c <;> first | exact call.elim | trivial
  | reportHeartbeat req =>
    refine (Calls.asks reportWorkerHeartbeat_calls fun c call =>
      ⟨call.2.2.token.request.lawful, ?_⟩).bind fun _ => .ret _
    have token := call.2.2.token
    cases c <;> first | exact token.elim | trivial
  | ingestEvent req =>
    refine (Calls.asks ingestSandboxEvent_calls fun c call => ⟨call.handler.request.lawful,
      ?_⟩).bind fun _ => .ret _
    cases c <;> first | exact call.elim | trivial

def Fits [Uuid] (db : Database) : Prop :=
  ∀ id r, db.sandbox? id = some r → Accepted (scanSandbox id r)

theorem Steps.size {may : SandboxRow → Label → Prop} {r r' : SandboxRow} (h : Steps may r r') :
    r'.vcpuCount = r.vcpuCount ∧ r'.memSizeMib = r.memSizeMib := by
  induction h with
  | refl => exact ⟨rfl, rfl⟩
  | tail _ last ih =>
    obtain ⟨l, -, move⟩ := last
    cases move <;> exact ih

theorem create_fits [Uuid] {sbx : Sandbox} {db : Database} {r : SandboxRow}
    (accepted : Accepted sbx) (absent : db.sandbox? id = none)
    (row : (Transactions.create sbx db).2.sandbox? id = some r) : Accepted (scanSandbox id r) := by
  obtain same | ⟨-, -, rows⟩ := create_rows sbx db
  · rw [same, absent] at row
    cases row
  · rw [rows id] at row
    split at row
    · rename_i own
      cases row
      subst own
      exact accepted_iff.2 (accepted_iff.1 accepted)
    · cases absent.symm.trans row

theorem answer_fits [Uuid] (sized : Sized c) (e : Env) (fits : Fits s.db) :
    Fits (answer c e s).2.db := by
  intro id r' row'
  cases row : s.db.sandbox? id with
  | none =>
    obtain same | done := answer_effect c e s
    · rw [same, row] at row'
      cases row'
    rw [done] at row'
    by_cases created : ∃ sbx, c = .createTx sbx
    · obtain ⟨sbx, rfl⟩ := created
      exact create_fits sized.2 row row'
    · have quiet := effect_quiet (s := s) sized.1 (fun sbx eq => created ⟨sbx, eq⟩) e
      cases (quiet.absent id row).symm.trans row'
  | some r =>
    obtain ⟨r'', row'', steps⟩ := (answer_grows sized.1 e).kept id r row
    cases row'.symm.trans row''
    obtain ⟨vcpuCount, memSizeMib⟩ := Steps.size steps
    obtain ⟨valid, size⟩ := accepted_iff.1 (fits id r row)
    refine accepted_iff.2 ⟨valid, ?_⟩
    change HTTPHandlers.checkSandboxSize r'.vcpuCount r'.memSizeMib = none
    rw [vcpuCount, memSizeMib]
    exact size

def sizedSpec [Uuid] : Spec Call Env Empty World where
  Inv s := Targets s.db ∧ Fits s.db
  Evolves _ _ := True
  Keeps _ _ _ := True
  Pre _ c _ := Sized c
  Cond i c e s := drawsUUID i c e s = true
  Out _ _ := True

theorem exec_valid [Uuid] {a : c.Answer} (ran : exec i c e s = some (a, t))
    (draws : drawsUUID i c e s = true) (fits : Fits s.db) (fits' : Fits t.db) : Valid c a := by
  have done := exec_eq_some ran
  cases c with
  | getSandbox id =>
    rintro sbx rfl
    obtain ⟨-, r, row, rfl⟩ := getSandbox_ok done.symm
    exact fits id r row
  | assignWorker id w =>
    rintro sbx rfl
    obtain ⟨r, row, rfl⟩ := assignWorker_row done.symm
    exact fits' id r row
  | newUUID =>
    obtain rfl : a = e.uuid := congrArg Prod.fst done
    exact draws
  | _ => trivial

theorem sizedSpec_sound [Uuid] : sizedSpec.Sound exec where
  evolves_refl _ := trivial
  evolves_trans _ _ := trivial
  keeps_refl _ _ := trivial
  keeps_trans _ _ := trivial
  step {i c e s a t} inv pre _ ran := by
    obtain rfl : t = (answer c e s).2 := congrArg Prod.snd (exec_eq_some (i := i) ran)
    exact ⟨⟨targets_answer pre.1 inv.1, answer_fits pre e inv.2⟩, trivial, fun _ _ => trivial⟩

theorem sized_disciplined [Uuid] : system.Disciplined sizedSpec fun _ _ _ _ => True where
  sound := sizedSpec_sound
  start i k s t inv started := by
    obtain ⟨on, rfl⟩ := start_eq started
    refine ⟨inv, trivial, fun _ _ => trivial, ?_⟩
    refine WP.within (φ := fun _ => True) (fun _ _ _ _ => trivial) (fun _ _ sized _ _ => sized)
      (fun c e s a t sized inv _ draws ran => ?_) (body_sized inv.1 on) trivial
    have inv' := (sizedSpec_sound.step inv sized draws ran).1
    exact ⟨⟨exec_answered (i := i) ran, exec_valid (i := i) ran draws inv.2 inv'.2⟩, trivial⟩
  ext x := by cases x

/-- In every run in which UUIDs are drawn, each sandbox in the table is linked to
no worker or to one in the table, and every request to create a sandbox that is
about to be sent passes the checks of the worker it goes to. -/
theorem creations_accepted [Uuid] {s : State}
    (hs : system.ReachesWhen drawsUUID (fun _ _ => true) initial s) :
    (∀ id r w, s.shared.db.sandbox? id = some r → r.workerID = some w →
      (s.shared.db.worker? w).isSome = true) ∧
    ∀ i k w address req f, s.threads i = some ⟨k, .call (.sendCreate w address req) f⟩ →
      Cluster.WorkerGRPCServer.refusal (.create req) = none := by
  have first : sizedSpec.Inv initial.shared := by
    refine ⟨fun _ _ mem => ?_, fun _ _ row => ?_⟩
    · cases mem
    · cases row
  have run : system.ReachesIf sizedSpec.Cond sizedSpec.Out initial s :=
    System.ReachesIf.mono (fun _ _ _ _ draws => draws) (fun _ _ _ => trivial) hs
  have safe := (System.safe_reachesIf sized_disciplined (System.safe_init first) run).1
  refine ⟨reaches_linked hs.reaches, fun i k w address req f asks => ?_⟩
  exact (System.safe_pre sized_disciplined safe asks).2

def sending (s : State) (i : Nat) : Option CreateSandboxRequest :=
  match s.threads i with
  | some ⟨_, .call (.sendCreate _ _ req) _⟩ => some req
  | _ => none

theorem sending_eq_some {s : State} {req : CreateSandboxRequest} (h : sending s i = some req) :
    ∃ k w address f, s.threads i = some ⟨k, .call (.sendCreate w address req) f⟩ := by
  unfold sending at h
  split at h
  · rename_i k w address req' f found
    cases h
    exact ⟨k, w, address, f, found⟩
  · cases h

open Uuid.Standard in
theorem creations_accepted_first :
    ∃ s req, system.ReachesWhen drawsUUID (fun _ _ => true) initial s ∧
    sending s 2 = some req ∧ req.id = firstID ∧ Cluster.WorkerGRPCServer.refusal
    (.create req) = none := by
  have run : (system.runIf drawsUUID (fun _ _ => true) initial
      (firstCreated ++ .spawn (.createJob firstID false) :: List.replicate 11 (.call 2 {}))).map
        (fun s => (sending s 2).map fun req => req.id) = some (some firstID) := by
    decide +kernel
  obtain ⟨s, ran, sends⟩ := Option.map_eq_some_iff.1 run
  obtain ⟨req, sends, named⟩ := Option.map_eq_some_iff.1 sends
  have reached : system.ReachesWhen drawsUUID (fun _ _ => true) initial s :=
    System.reachesWhen_of_runIf ran
  obtain ⟨k, w, address, f, asks⟩ := sending_eq_some sends
  exact ⟨s, req, reached, sends, named, (creations_accepted reached).2 2 k w address req f asks⟩

end Accepted

end Fire2.Placement
