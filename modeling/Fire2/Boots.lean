import Fire2.Cluster

/-! When a worker boots a VM, seen from the orchestrator: before the sandbox is
running, and not once it has ended.

Neither holds of every run. Create answers nil for a sandbox that is in the map,
however far its boot has come, so a second attempt may be told OK while the boot
of the first is under way or about to fail. And a request to remove may overtake
the request to create: the worker answers NotFound, which ends the sandbox, and
boots it when the other request comes. -/

namespace Fire2.Cluster
open Interleaving

abbrev Prompt [Uuid] : State → State → Prop :=
  -- runs in which no sandbox is ordered again on a worker before it has booted
  Runs.ReachesWhen State.step (meets (fun _ _ _ _ => true) SandboxMgr.prompt)

abbrev Calm [Uuid] : State → State → Prop :=
  -- runs in which no sandbox is ordered on a worker after its removal was answered there, and
  -- no cleanup attempt reads what another has cleared without a confirmation
  Runs.ReachesWhen State.step
    (meets (fun i c e v => Removals.undisturbed i c e v.record) SandboxMgr.ordered)

section Running
variable {hosts : WorkerID → Table SandboxID SandboxMgr.Remnant} {s t : State} {id : SandboxID}

theorem prompt_meets (i : Nat) (c : SandboxMgr.Call) (e : SandboxMgr.Env) (v : SandboxMgr.Manager)
    (h : SandboxMgr.prompt i c e v = true) : SandboxMgr.Meets ⟨False, True, False⟩ i c e v :=
  ⟨False.elim, fun _ => h, False.elim⟩

theorem Backed.running {v : Creations.Log} (h : Creations.Backed v) {r : SandboxRow}
    (row : v.record.world.db.sandbox? id = some r) (up : r.status = .running) :
    ∃ workerID, r.workerID = some workerID ∧ (workerID, id) ∈ v.created := by
  obtain ⟨workerID, given, mem⟩ := h.up id r row (.inr up)
  have active : r.status ∈ Status.active := by
    rw [up]
    decide
  obtain ⟨k, held⟩ := Option.ne_none_iff_exists'.1 ((h.consistent.shape id r row).active active).1
  cases (h.held id r k row held).symm.trans given
  exact ⟨workerID, held, mem⟩

/-- As long as no sandbox is ordered again on a worker before it has booted, a
step of the orchestrator finds or leaves a sandbox running only once a VM was
booted for it on its worker. -/
theorem running_once_booted [Uuid] (run : Prompt (initial hosts) s)
    {a : Action Orchestrator.Kind Env Empty}
    (step : s.step (.orchestrator a) = some t) {r : SandboxRow}
    (row : t.orchestrator.shared.record.world.db.sandbox? id = some r) (up : r.status = .running) :
    ∃ workerID, r.workerID = some workerID ∧ id ∈ (s.workers workerID).shared.booted := by
  have met : meets (fun _ _ _ _ => true) SandboxMgr.prompt s (.orchestrator a) = true :=
    System.meets_iff.2 (System.meets_of_forall (fun _ _ _ _ => rfl) (fun _ _ => rfl) a)
  have after : Prompt (initial hosts) t := run.tail ⟨_, met, step⟩
  have backed := Creations.reaches_backed (reaches_orchestrator after).reaches
  obtain ⟨workerID, held, mem⟩ := Backed.running backed row up
  have told := (reaches_told (fun h => h) prompt_meets after).2
  refine ⟨workerID, held, ?_⟩
  have booted := told.created trivial workerID id mem
  cases step_acts step with
  | @call i _ _ c =>
    revert booted
    unfold State.post
    split <;> exact fun booted => booted
  | control => exact booted

end Running

section FirstBoot
open Orchestrator

def onWorker (as : List (Action SandboxMgr.Kind SandboxMgr.Env SandboxMgr.Event)) : List Event :=
  as.map (.worker "worker-1")

def onOrchestrator (as : List (Action Kind Env Empty)) : List Event := as.map .orchestrator

def firstInput : SandboxMgr.CreateInput := ⟨firstID, 1, 256⟩

/-- The worker serves, and an attempt of the create job has asked it for the first
sandbox. -/
def asked : List Event :=
  onWorker [.spawn .startup, .call 0 {}, .call 0 {}] ++
    onOrchestrator (firstCreated ++
      .spawn (.createJob firstID false) :: List.replicate 12 (.call 2 {}))

def takenUp : List Event :=
  .deliver 0 :: onWorker [.call 1 {}, .call 1 {},
    .spawn (.serve 0 (.command 1 (.create firstInput)))]

def answeredUp : List Event := takenUp ++ onWorker (List.replicate 14 (.call 2 {}) ++ [.call 1 {}])

def acknowledged : List Event := answeredUp ++ onOrchestrator (List.replicate 3 (.call 2 {}))

def link (s : State) : Option (Status × Option WorkerID) :=
  (s.orchestrator.shared.record.world.db.sandbox? firstID).map fun r => (r.status, r.workerID)

/-- The statuses a step of an attempt takes a sandbox from and to, with what has
booted on its worker before. -/
def moved [Uuid] (s : State) (i : Nat) : Option (Option (Status × Option WorkerID) ×
    Option (Status × Option WorkerID) × List SandboxID) :=
  (s.step (.orchestrator (.call i {}))).map fun t =>
    (link s, link t, (s.workers "worker-1").shared.booted)

theorem moved_eq_some [Uuid] {s : State} {i : Nat} {x y : Status × Option WorkerID}
    {booted : List SandboxID} (h : moved s i = some (some x, some y, booted)) :
    ∃ t r r', s.step (.orchestrator (.call i {})) = some t ∧
      s.orchestrator.shared.record.world.db.sandbox? firstID = some r ∧ (r.status, r.workerID) = x ∧
      t.orchestrator.shared.record.world.db.sandbox? firstID = some r' ∧
      (r'.status, r'.workerID) = y ∧
      (s.workers "worker-1").shared.booted = booted := by
  simp only [moved, Option.map_eq_some_iff, Prod.mk.injEq, link] at h
  obtain ⟨t, step, ⟨r, row, eq⟩, ⟨r', row', eq'⟩, up⟩ := h
  exact ⟨t, r, r', step, row, eq, row', eq', up⟩

open Uuid.Standard in
theorem running_once_booted_first : ∃ s t r workerID, Prompt (initial fun _ => .empty) s ∧
    s.step (.orchestrator (.call 2 {})) = some t ∧
    t.orchestrator.shared.record.world.db.sandbox? firstID = some r ∧ r.status = .running ∧
    r.workerID = some workerID ∧ firstID ∈ (s.workers workerID).shared.booted := by
  have run : (Runs.runWhen State.step (meets (fun _ _ _ _ => true) SandboxMgr.prompt)
      (initial fun _ => .empty) (asked ++ acknowledged)).bind (fun s => moved s 2) =
      some (some (.starting, some "worker-1"), some (.running, some "worker-1"), [firstID]) := by
    decide +kernel
  obtain ⟨s, hs, moves⟩ := Option.bind_eq_some_iff.1 run
  obtain ⟨t, -, r, step, -, -, row, up, -⟩ := moved_eq_some moves
  have reached := Runs.reachesWhen_of_run hs
  have up : r.status = .running := congrArg Prod.fst up
  obtain ⟨workerID, held, booted⟩ := running_once_booted reached step row up
  exact ⟨s, t, r, workerID, reached, step, row, up, held, booted⟩

/-- The first attempt gives up waiting while the VM boots. The second is told OK,
as the sandbox is in the map, up to its last statement. -/
def askedTwice : List Event :=
  asked ++ takenUp ++
    onOrchestrator ([.call 2 { rpc := some (.deadlineExceeded, "context deadline exceeded") },
    .spawn (.createJob firstID false)] ++ List.replicate 4 (.call 3 {})) ++
    .deliver 1 :: onWorker [.call 3 {}] ++ onOrchestrator (List.replicate 3 (.call 3 {}))

open Uuid.Standard in
theorem running_before_boot : ∃ s t r r', Runs.Reaches State.step (initial fun _ => .empty) s ∧
    s.step (.orchestrator (.call 3 {})) = some t ∧
    s.orchestrator.shared.record.world.db.sandbox? firstID = some r ∧ r.status = .starting ∧
    t.orchestrator.shared.record.world.db.sandbox? firstID = some r' ∧ r'.status = .running ∧
    r'.workerID = some "worker-1" ∧ (s.workers "worker-1").shared.booted = [] := by
  have run : (Runs.run State.step (initial fun _ => .empty) askedTwice).bind (fun s => moved s 3) =
      some (some (.starting, some "worker-1"), some (.running, some "worker-1"), []) := by
    decide +kernel
  obtain ⟨s, hs, moves⟩ := Option.bind_eq_some_iff.1 run
  obtain ⟨t, r, r', step, row, before, row', after, none⟩ := moved_eq_some moves
  exact ⟨s, t, r, r', Runs.reachesWhen_of_run hs, step, row, congrArg Prod.fst before, row',
    congrArg Prod.fst after, congrArg Prod.snd after, none⟩

end FirstBoot

def boots : SandboxMgr.VMOp → Bool
  | .newVM | .createVolume | .spawn | .waitRunning => true
  | .stop | .removeVolume | .removeDir => false

section Ended
variable {hosts : WorkerID → Table SandboxID SandboxMgr.Remnant} {s t : State} {id : SandboxID}

theorem ordered_meets (i : Nat) (c : SandboxMgr.Call) (e : SandboxMgr.Env) (v : SandboxMgr.Manager)
    (h : SandboxMgr.ordered i c e v = true) : SandboxMgr.Meets ⟨False, False, True⟩ i c e v :=
  ⟨False.elim, False.elim, fun _ => h⟩

theorem calm_undisturbed [Uuid] (h : Calm s t) : Removals.Undisturbed
    (System.viewed Creations.Log.record s.orchestrator)
    (System.viewed Creations.Log.record t.orchestrator) :=
  Creations.system_refines.reachesIf (reaches_orchestrator h)

theorem boot_assigned [Uuid] (run : Calm (initial hosts) s) {workerID : WorkerID} {i : Nat}
    {ref : SandboxMgr.Ref} {op : SandboxMgr.VMOp} {svc : SandboxMgr.Service}
    (boot : boots op = true) (acts : SandboxMgr.At (s.workers workerID) i (.vm ref op))
    (at_ref : (s.workers workerID).shared.heap ref = some svc) :
    s.orchestrator.shared.record.assigned svc.id = some workerID ∧
      svc.id ∉ (s.workers workerID).shared.gone := by
  have reached := reaches_worker run workerID
  have safe := worker_safe (fun h => h) ordered_meets reached
  obtain ⟨_, j, cmd, ⟨at', busy⟩, may⟩ := acts.may safe
  cases at_ref.symm.trans at'
  have create : cmd.isCreate = true := by
    cases op with
    | newVM | createVolume | spawn | waitRunning => exact may.1
    | stop | removeVolume | removeDir => cases boot
  obtain ⟨-, made⟩ := safe.inv.owned.made ref svc j cmd at_ref (.inr ⟨i, busy⟩)
  have creator := (made create).1
  refine ⟨?_, fun gone => ?_⟩
  · obtain ⟨input, p, named, thread⟩ := SandboxMgr.reaches_ordered reached.reaches ref
      svc j at_ref creator
    have linked := (reaches_told (fun h => h) ordered_meets run).1
    obtain ⟨req, mem, same⟩ := linked.ordered workerID j input p thread
    have backed := Creations.reaches_backed (reaches_orchestrator run).reaches
    rw [← named, ← same]
    exact backed.asked workerID req.id (linked.asked workerID req mem)
  · have none := safe.inv.spent trivial svc.id gone ref svc
      at_ref rfl (SandboxMgr.active_of_busy busy)
    cases none.symm.trans creator

/-- As long as no sandbox is ordered on a worker after its removal was answered
there, and no cleanup attempt reads what another has cleared without a
confirmation: once a sandbox is stopped, or is failed and its worker has
confirmed its removal, no worker boots a VM for it. -/
theorem no_boot_after_end [Uuid] (run : Calm (initial hosts) s) {r : SandboxRow}
    (row : s.orchestrator.shared.record.world.db.sandbox? id = some r)
    (ended : r.status = .stopped ∨ r.status = .failed ∧ ∃ workerID,
      s.orchestrator.shared.record.assigned id = some workerID ∧
        (workerID, id) ∈ s.orchestrator.shared.record.confirmed)
    (later : Calm s t) {workerID : WorkerID} {i : Nat} {ref : SandboxMgr.Ref} {op : SandboxMgr.VMOp}
    {svc : SandboxMgr.Service} (boot : boots op = true)
    (acts : SandboxMgr.At (t.workers workerID) i (.vm ref op))
    (at_ref : (t.workers workerID).shared.heap ref = some svc) : svc.id ≠ id := by
  rintro rfl
  obtain ⟨given, here⟩ := boot_assigned (run.trans later) boot acts at_ref
  obtain ⟨safe, extended⟩ := Removals.undisturbed_safe (calm_undisturbed run)
  have extended := extended (calm_undisturbed later)
  have terminal : r.status ∈ Status.terminal := by
    rcases ended with stopped | ⟨failed, -⟩
    · rw [stopped]
      decide
    · rw [failed]
      decide
  have same := extended.assigned svc.id (Removals.claimed_of_terminal row terminal)
  have given : s.orchestrator.shared.record.assigned svc.id = some workerID := same.symm.trans given
  have confirmed : (workerID, svc.id) ∈ s.orchestrator.shared.record.confirmed := by
    rcases ended with stopped | ⟨-, k, held, mem⟩
    · have removed := safe.inv.2.ended svc.id r row terminal (by rw [stopped]; decide)
      rw [Removals.removed, System.viewed, given] at removed
      exact of_decide_eq_true removed
    · cases given.symm.trans held
      exact mem
  have told := (reaches_told (fun h => h) ordered_meets (run.trans later)).2
  exact here (told.confirmed workerID svc.id (extended.confirmed _ confirmed))

end Ended

section LastBoot
open Orchestrator

def deleted : List Event :=
  onOrchestrator ([.spawn (.deleteSandbox (some "user-1") firstID), .call 3 {}, .call 3 {},
    .spawn (.cleanupJob firstID (some .stopped) false)] ++ List.replicate 4 (.call 4 {}))

def removedUp : List Event :=
  -- the worker removes the VM it has booted, and the cleanup job ends the sandbox
  asked ++ acknowledged ++ onOrchestrator [.call 2 {}] ++ deleted ++ .deliver 1 ::
    onWorker ([.call 3 {}, .call 3 {}, .spawn (.serve 0 (.command 3 .remove))] ++
      List.replicate 6 (.call 4 {}) ++ List.replicate 2 (.call 3 {})) ++
    onOrchestrator (List.replicate 3 (.call 4 {}))

def secondID : SandboxID := "22222222-2222-4222-8222-222222222222"

def orderedNext : List Event :=
  -- another sandbox is ordered and comes to boot on the same worker
  onOrchestrator ([.spawn (.createSandbox (some "user-1") (some firstOrder)),
    .call 5 {}, .call 5 {}, .call 5 { uuid := secondID }, .call 5 {}, .call 5 {},
    .spawn (.createJob secondID false)] ++
      List.replicate 12 (.call 6 {})) ++
    .deliver 2 :: onWorker [.call 5 {}, .call 5 {},
      .spawn (.serve 1 (.command 5 (.create ⟨secondID, 1, 256⟩))), .call 6 {}]

def operates (s : State) (i : Nat) : Option (SandboxMgr.Ref × SandboxMgr.VMOp × SandboxID) :=
  let worker := s.workers "worker-1"
  match SandboxMgr.pending worker i with
  | some (_, .vm ref op) =>
    if worker.shared.born i = worker.shared.process then
      (worker.shared.heap ref).map fun svc => (ref, op, svc.id)
    else none
  | _ => none

theorem operates_eq_some {s : State} {i : Nat} {ref : SandboxMgr.Ref}
    {op : SandboxMgr.VMOp} {id : SandboxID} (h : operates s i = some (ref, op, id)) :
    SandboxMgr.At (s.workers "worker-1") i (.vm ref op) ∧
      ∃ svc, (s.workers "worker-1").shared.heap ref = some svc ∧ svc.id = id := by
  simp only [operates] at h
  split at h
  · rename_i k r o asks
    obtain ⟨f, thread⟩ := SandboxMgr.pending_eq_some asks
    split at h
    · rename_i current
      obtain ⟨svc, at_ref, eq⟩ := Option.map_eq_some_iff.1 h
      cases eq
      exact ⟨⟨current, k, f, thread⟩, svc, at_ref, rfl⟩
    · cases h
  · cases h

open Uuid.Standard in
theorem no_boot_after_end_next : ∃ s t r svc, Calm (initial fun _ => .empty) s ∧
    s.orchestrator.shared.record.world.db.sandbox? firstID = some r ∧
    r.status = .stopped ∧ Calm s t ∧
    SandboxMgr.At (t.workers "worker-1") 6 (.vm 1 .newVM) ∧
    (t.workers "worker-1").shared.heap 1 = some svc ∧ svc.id ≠ firstID := by
  have run : ((Runs.runWhen State.step
      (meets (fun i c e v => Removals.undisturbed i c e v.record) SandboxMgr.ordered)
      (initial fun _ => .empty) removedUp).bind fun s => (Runs.runWhen State.step
        (meets (fun i c e v => Removals.undisturbed i c e v.record) SandboxMgr.ordered) s
        orderedNext).map fun t => (link s, operates t 6)) =
      some (some (.stopped, none), some (1, .newVM, secondID)) := by
    decide +kernel
  simp only [Option.bind_eq_some_iff, Option.map_eq_some_iff, Prod.mk.injEq, link] at run
  obtain ⟨s, hs, t, ht, ⟨r, row, stopped, -⟩, acts⟩ := run
  obtain ⟨acts, svc, at_ref, -⟩ := operates_eq_some acts
  have reached := Runs.reachesWhen_of_run hs
  have later := Runs.reachesWhen_of_run ht
  exact ⟨s, t, r, svc, reached, row, stopped, later, acts, at_ref,
    no_boot_after_end reached row (.inl stopped) later rfl acts at_ref⟩

/-- The request to create is still on its way when the worker answers that it has no
such sandbox, which ends it. -/
def overtaken : List Event :=
  asked ++ deleted ++ .deliver 1 :: onWorker [.call 1 {}] ++
    onOrchestrator [.call 4 { rpc := some (.notFound, "sandbox not found on worker: " ++ firstID) },
      .call 4 {}, .call 4 {}]

def arrivesLate : List Event :=
  .deliver 0 :: onWorker
    ([.call 2 {}, .call 2 {}, .spawn (.serve 0 (.command 2 (.create firstInput)))] ++
    List.replicate 4 (.call 3 {}))

open Uuid.Standard in
theorem booted_after_end : ∃ s t u r svc, Runs.Reaches State.step (initial fun _ => .empty) s ∧
    s.orchestrator.shared.record.world.db.sandbox? firstID = some r ∧ r.status = .stopped ∧
    ("worker-1", firstID) ∈ s.orchestrator.shared.record.confirmed ∧ Runs.Reaches State.step s t ∧
    SandboxMgr.At (t.workers "worker-1") 3 (.vm 0 .waitRunning) ∧
    (t.workers "worker-1").shared.heap 0 = some svc ∧ svc.id = firstID ∧
    t.step (.worker "worker-1" (.call 3 {})) = some u ∧
    (t.workers "worker-1").shared.booted = [] ∧
    (u.workers "worker-1").shared.booted = [firstID] := by
  have run : ((Runs.run State.step (initial fun _ => .empty) overtaken).bind fun s =>
      (Runs.run State.step s arrivesLate).bind fun t =>
        (t.step (.worker "worker-1" (.call 3 {}))).map fun u =>
          (link s, operates t 3 == some (0, .waitRunning, firstID) &&
            s.orchestrator.shared.record.confirmed == [("worker-1", firstID)] &&
            (t.workers "worker-1").shared.booted == [] &&
            (u.workers "worker-1").shared.booted == [firstID])) =
      some (some (.stopped, none), true) := by
    decide +kernel
  simp only [Option.bind_eq_some_iff, Option.map_eq_some_iff, Prod.mk.injEq,
    Bool.and_eq_true, beq_iff_eq, link] at run
  obtain ⟨s, hs, t, ht, u, hu, ⟨r, row, stopped, -⟩, ⟨⟨acts, told⟩, before⟩, after⟩ := run
  obtain ⟨acts, svc, at_ref, same⟩ := operates_eq_some acts
  exact ⟨s, t, u, r, svc, Runs.reachesWhen_of_run hs, row, stopped,
    told ▸ List.mem_singleton_self _, Runs.reachesWhen_of_run ht, acts, at_ref,
    same, hu, before, after⟩

end LastBoot

end Fire2.Cluster
