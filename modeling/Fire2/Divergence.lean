import Fire2.Cluster
import Fire2.Protocols
import Fire2.Reconciliation
import Fire2.River

/-! The database against the machines: what the two may disagree about, and how
the jobs of the orchestrator settle what has been claimed.

A machine is what `FakeVMs` keeps of the Manager's contract. No database call fails
while the jobs run, and a worker is reached all through them or not at all; the
attempts come in any order, and most of them may fail. -/

namespace Fire2.Divergence
open Interleaving SandboxRepository

/-- The VMs of one machine. A worker only ever takes up a sandbox ID. -/
structure Machine [Uuid] where
  vms : Table SandboxID SandboxState
  named : ∀ id, (vms.get? id).isSome = true → SandboxMgr.checkSandboxID id = none
  capacity : Int
  full : Bool
  running : Bool
  partitioned : Bool

namespace Machine

def reachable [Uuid] (m : Machine) : Bool := m.running && !m.partitioned

theorem named_set [Uuid] {vms : Table SandboxID SandboxState} {id : SandboxID}
    {state : SandboxState} (named : ∀ k, (vms.get? k).isSome = true →
      SandboxMgr.checkSandboxID k = none)
    (valid : SandboxMgr.checkSandboxID id = none) (k : SandboxID)
    (h : ((vms.set id state).get? k).isSome = true) : SandboxMgr.checkSandboxID k = none := by
  rw [Table.get?_set] at h
  split at h
  · rename_i same
    rw [same]
    exact valid
  · exact named k h

theorem named_erase [Uuid] {vms : Table SandboxID SandboxState} {id : SandboxID}
    (named : ∀ k, (vms.get? k).isSome = true → SandboxMgr.checkSandboxID k = none) (k : SandboxID)
    (h : ((vms.erase id).get? k).isSome = true) : SandboxMgr.checkSandboxID k = none := by
  rw [Table.get?_erase] at h
  split at h
  · cases h
  · exact named k h

def create [Uuid] (id : SandboxID) (valid : SandboxMgr.checkSandboxID id = none) (m : Machine) :
    Option Err × Machine :=
  -- a sandbox that is hosted already is left as it is, and takes no other slot
  if (m.vms.get? id).isSome then (none, m)
  else if m.full || (0 < m.capacity && m.capacity ≤ m.vms.rows.length) then
    (some (.sentinel .atCapacity), m)
  else (none, { m with vms := m.vms.set id .running, named := named_set m.named valid })

def remove [Uuid] (id : SandboxID) (m : Machine) : Option Err × Machine :=
  match m.vms.get? id with
  | none => (some (.tag (.sentinel .sandboxNotOnWorker) id), m)
  | some _ => (none, { m with vms := m.vms.erase id, named := named_erase m.named })

def serve [Uuid] (m : Machine) (r : Cluster.Request) : Option (Code × String) × Machine :=
  match accepted : Cluster.WorkerGRPCServer.refusal r with
  | some err => (some (.invalidArgument, err.text), m)
  | none =>
    let done : Option Err × Machine := match r, accepted with
      | .create req, accepted => m.create req.id (Option.or_eq_none_iff.1 accepted).1
      | .remove id, _ => m.remove id
    (done.1.map fun err => (Cluster.WorkerGRPCServer.sandboxError err, err.text), done.2)

end Machine

/-- The orchestrator's database and the machines of its workers; `sent` is the
request whose answer a program awaits. -/
structure Fleet [Uuid] where
  world : World
  machines : Table WorkerID Machine
  sent : Option Cluster.Message

namespace Fleet

def db [Uuid] (f : Fleet) : Database := f.world.db

def reachable [Uuid] (f : Fleet) (w : WorkerID) : Bool := (f.machines.get? w).any Machine.reachable

def vm? [Uuid] (f : Fleet) (w : WorkerID) (id : SandboxID) : Option SandboxState :=
  (f.machines.get? w).bind fun m => m.vms.get? id

def unreachable : Option (Code × String) := some (.unavailable, "connection refused")

def deliver [Uuid] (f : Fleet) : Option (Code × String) × Fleet :=
  match f.sent with
  | none => (none, f)
  | some m =>
    if f.reachable m.workerID then
      ((f.machines.get? m.workerID).bind fun machine => (machine.serve m.request).1,
        { f with machines := f.machines.update fun w machine =>
            if w = m.workerID then (machine.serve m.request).2 else machine })
    else (unreachable, f)

def exchange [Uuid] (f : Fleet) (c : Call) : Option (Code × String) × Fleet :=
  match Cluster.message c with
  | some m => (none, { f with sent := some m })
  | none =>
    match c with
    | .await _ => f.deliver
    | .getWorkerInfo workerID _ => (if f.reachable workerID then none else unreachable, f)
    | _ => (none, f)

def env (now : Int) (rpc : Option (Code × String)) : Env :=
  { now, clock := now * 1000, rpc, uuid := "00000000-0000-0000-0000-000000000000" }

def perform [Uuid] (now : Int) (c : Call) (f : Fleet) : c.Answer × Fleet :=
  let (rpc, g) := f.exchange c
  let (a, world) := answer c (env now rpc) f.world
  (a, { g with world })

def run [Uuid] {α : Type} (now : Int) : Job α → Fleet → α × Fleet
  | .ret a, f => (a, f)
  | .call c k, f => run now (k (perform now c f).1) (perform now c f).2

def step [Uuid] (now : Int) (k : Orchestrator.Kind) (f : Fleet) : Fleet :=
  (run now (Orchestrator.body k) f).2

end Fleet

section Running
variable [Uuid] {α β : Type} {now : Int} {f g : Fleet}

theorem run_bind (p : Job α) (k : α → Job β) :
    Fleet.run now (p >>= k) f = Fleet.run now (k (Fleet.run now p f).1) (Fleet.run now p f).2 := by
  induction p generalizing f with
  | ret a => rfl
  | call c k ih => exact ih _

@[simp] theorem run_ask (c : Call) (k : c.Answer → Job α) :
    Fleet.run now (ask c >>= k) f = Fleet.run now (k (f.perform now c).1) (f.perform now c).2 := rfl

omit [Uuid] in
theorem possible_env (now : Int) (rpc : Option (Code × String)) (c : Call) :
    (Fleet.env now rpc).possible c = true := by
  cases c with
  | newUUID =>
    have shaped : uuidShaped "00000000-0000-0000-0000-000000000000" = true := by decide +kernel
    exact shaped
  | draw =>
    have drawn : (0 : ℚ) ≤ 0 ∧ (0 : ℚ) < 1 := ⟨le_refl 0, zero_lt_one⟩
    exact decide_eq_true drawn
  | _ => rfl

theorem run_alone (now : Int) (i : Nat) (p : Job α) (f : Fleet) : ∃ es,
    p.alone exec i es f.world = some ((Fleet.run now p f).1, (Fleet.run now p f).2.world) := by
  induction p generalizing f with
  | ret a => exact ⟨[], rfl⟩
  | call c k ih =>
    obtain ⟨es, rest⟩ := ih (f.perform now c).1 (f.perform now c).2
    refine ⟨Fleet.env now (f.exchange c).1 :: es, ?_⟩
    have ran : exec i c (Fleet.env now (f.exchange c).1) f.world =
        some ((f.perform now c).1, (f.perform now c).2.world) := by
      rw [exec, if_pos (possible_env ..)]
      rfl
    simp only [Prog.alone, ran, Option.bind_some]
    exact rest

theorem step_reaches {s : Orchestrator.State} (now : Int) (k : Orchestrator.Kind)
    (same : s.shared = f.world) (enabled : Orchestrator.enabled k f.db = true) :
    ∃ t, Orchestrator.system.Reaches s t ∧ t.shared = (f.step now k).world := by
  obtain ⟨es, alone⟩ := run_alone now s.next (Orchestrator.body k) f
  have started : Orchestrator.system.start s.next k s.shared = some f.world := by
    rw [same]
    exact if_pos enabled
  exact System.spawn_alone_reaches started alone

end Running

inductive Gap where
  | noWorker (id : SandboxID) (status : Status)
  | notHosted (id : SandboxID) (status : Status) (w : WorkerID)
  | deadVM (id : SandboxID) (status : Status) (w : WorkerID)
  | unsettled (id : SandboxID) (status : Status)
  | unknownVM (w : WorkerID) (id : SandboxID)
  | elsewhere (w : WorkerID) (id : SandboxID) (status : Status) (workerOf : Option WorkerID)
  | noRow (w : WorkerID)
  | shownInactive (w : WorkerID) (status : WorkerStatus)
  | shownActive (w : WorkerID)
  deriving DecidableEq, Repr

namespace Fleet

def rowGap [Uuid] (f : Fleet) (id : SandboxID) (r : SandboxRow) : Option Gap :=
  match r.status with
  | .assigned | .starting | .running =>
    match r.workerID with
    | none => some (.noWorker id r.status)
    | some w =>
      match f.vm? w id with
      | none => some (.notHosted id r.status w)
      | some .dead => some (.deadVM id r.status w)
      | some _ => none
  | .pending | .scheduling | .cleanupPending => some (.unsettled id r.status)
  | _ => none

def vmGap [Uuid] (f : Fleet) (w : WorkerID) (id : SandboxID) : Option Gap :=
  match f.db.sandbox? id with
  | none => some (.unknownVM w id)
  | some r => if activeOn w r then none else some (.elsewhere w id r.status r.workerID)

def workerGap [Uuid] (f : Fleet) (w : WorkerID) (m : Machine) : Option Gap :=
  match f.db.worker? w with
  | none => some (.noRow w)
  | some row =>
    if m.reachable ∧ row.status ≠ .active then some (.shownInactive w row.status)
    else if ¬ m.running ∧ row.status = .active then some (.shownActive w)
    else none

def divergences [Uuid] (f : Fleet) : List Gap :=
  f.db.sandboxes.rows.filterMap (fun p => f.rowGap p.1 p.2) ++
    f.machines.rows.flatMap (fun p => p.2.vms.rows.filterMap fun q => f.vmGap p.1 q.1) ++
    f.machines.rows.filterMap fun p => f.workerGap p.1 p.2

def away [Uuid] (f : Fleet) : Gap → Bool
  | .unknownVM w _ | .elsewhere w _ _ _ => !f.reachable w
  | _ => false

end Fleet

structure Attempt where
  job : JobArgs
  isFinal : Bool
  deriving DecidableEq, Repr

def Attempt.kind (a : Attempt) : Orchestrator.Kind := River.attemptOf a.isFinal a.job

/-- What a program may touch that is about one sandbox: its row, and its VMs,
which only go away. -/
structure Touches [Uuid] (id : SandboxID) (f g : Fleet) : Prop where
  rows : ∀ k, k ≠ id → g.db.sandbox? k = f.db.sandbox? k
  vms : ∀ w k, k ≠ id → g.vm? w k = f.vm? w k
  gone : ∀ w, g.vm? w id = f.vm? w id ∨ g.vm? w id = none
  reachable : ∀ w, g.reachable w = f.reachable w
  workers : g.db.workers = f.db.workers

namespace Touches
variable [Uuid] {id : SandboxID} {f g h : Fleet}

theorem refl (id : SandboxID) (f : Fleet) : Touches id f f :=
  ⟨fun _ _ => rfl, fun _ _ _ => rfl, fun _ => .inl rfl, fun _ => rfl, rfl⟩

theorem trans (p : Touches id f g) (q : Touches id g h) : Touches id f h where
  rows k other := (q.rows k other).trans (p.rows k other)
  vms w k other := (q.vms w k other).trans (p.vms w k other)
  gone w := by
    rcases q.gone w with same | none
    · rw [same]
      exact p.gone w
    · exact .inr none
  reachable w := (q.reachable w).trans (p.reachable w)
  workers := q.workers.trans p.workers

end Touches

section Programs
variable [Uuid] {now : Int} {f : Fleet} {w : WorkerID} {id : SandboxID}

def withDB (f : Fleet) (db : Database) : Fleet := { f with world := { f.world with db } }

theorem touches_rewrite {p : SandboxID → SandboxRow → SandboxRow}
    (other : ∀ k r, k ≠ id → p k r = r) : Touches id f (withDB f (f.db.rewrite p)) where
  rows k differs := by
    change (f.db.rewrite p).sandbox? k = f.db.sandbox? k
    rw [Database.sandbox?_rewrite]
    cases f.db.sandbox? k with
    | none => rfl
    | some r => exact congrArg some (other k r differs)
  vms _ _ _ := rfl
  gone _ := .inl rfl
  reachable _ := rfl
  workers := rfl

theorem serve_remove (m : Machine) (id : SandboxID) :
    (m.serve (.remove id)).2.reachable = m.reachable ∧
    ∀ k, (m.serve (.remove id)).2.vms.get? k = if k = id then none else m.vms.get? k := by
  unfold Machine.serve
  split
  · rename_i err refused
    refine ⟨rfl, fun k => ?_⟩
    split
    · rename_i same
      rw [same]
      cases hosted : m.vms.get? id with
      | none => rfl
      | some state =>
        have valid := m.named id (by rw [hosted]; rfl)
        cases valid.symm.trans refused
    · rfl
  · dsimp only [Machine.remove]
    split
    · rename_i absent
      refine ⟨rfl, fun k => ?_⟩
      split
      · rename_i same
        rw [same, absent]
      · rfl
    · exact ⟨rfl, fun k => Table.get?_erase ..⟩

theorem deliver_remove (id : SandboxID) (reached : f.reachable w = true) :
    let g := ({ f with sent := some ⟨w, .remove id⟩ } : Fleet).deliver.2
    (∀ v, g.reachable v = f.reachable v) ∧ ∀ v k, g.vm? v k = if v = w ∧ k = id then none
        else f.vm? v k := by
  have sent : ({ f with sent := some ⟨w, .remove id⟩ } : Fleet).reachable w = true := reached
  simp only [Fleet.deliver, sent, if_true]
  refine ⟨fun v => ?_, fun v k => ?_⟩
  · simp only [Fleet.reachable, Table.get?_update]
    cases f.machines.get? v with
    | none => rfl
    | some m =>
      simp only [Option.map_some, Option.any_some]
      split
      · exact (serve_remove m id).1
      · rfl
  · simp only [Fleet.vm?, Table.get?_update]
    cases f.machines.get? v with
    | none => simp
    | some m =>
      simp only [Option.map_some, Option.bind_some]
      by_cases here : v = w
      · simp only [here, if_true, true_and]
        exact (serve_remove m id).2 k
      · simp only [here, if_false, false_and]

theorem deliver_unreachable (r : Cluster.Request) (lost : f.reachable w = false) :
    ({ f with sent := some ⟨w, r⟩ } : Fleet).deliver =
      (Fleet.unreachable, { f with sent := some ⟨w, r⟩ }) := by
  have sent : ({ f with sent := some ⟨w, r⟩ } : Fleet).reachable w = false := lost
  simp only [Fleet.deliver, sent, Bool.false_eq_true, if_false]

theorem removal_run : (Fleet.run now (removeSandboxOnWorker w id) f).2 =
    if (f.db.worker? w).isSome then
      { ({ f with sent := some ⟨w, .remove id⟩ } : Fleet).deliver.2 with world := f.world }
    else f := by
  have read : f.perform now (.getWorker w) = (WorkerRepository.get w f.db, f) := rfl
  unfold removeSandboxOnWorker
  rw [run_ask, read, WorkerRepository.get]
  cases f.db.worker? w with
  | none => rfl
  | some row =>
    dsimp only [Option.isSome_some]
    rw [if_pos rfl, run_ask]
    have dialled : f.perform now (.newClient (scanWorker w row).dialTarget) = (.ok (), f) := rfl
    rw [dialled]
    dsimp only
    rw [run_ask, run_ask]
    split
    · rfl
    · split <;> rfl

theorem removal_effect (now : Int) (f : Fleet) (w : WorkerID) (id : SandboxID) :
    let g := (Fleet.run now (removeSandboxOnWorker w id) f).2
    g.world = f.world ∧ Touches id f g ∧ (∀ v, v ≠ w → g.vm? v id = f.vm? v id) ∧
      (f.reachable w = true → (f.db.worker? w).isSome = true → g.vm? w id = none) := by
  dsimp only
  rw [removal_run]
  split
  · rename_i known
    by_cases reached : f.reachable w = true
    · obtain ⟨reachable, vms⟩ := deliver_remove id reached
      refine ⟨rfl, ⟨fun _ _ => rfl, fun v k other => ?_, fun v => ?_, reachable,
        rfl⟩, fun v other => ?_, fun _ _ => ?_⟩
      · exact (vms v k).trans (if_neg fun both => other both.2)
      · by_cases here : v = w
        · exact .inr ((vms v id).trans (if_pos ⟨here, rfl⟩))
        · exact .inl ((vms v id).trans (if_neg fun both => here both.1))
      · exact (vms v id).trans (if_neg fun both => other both.1)
      · exact (vms w id).trans (if_pos ⟨rfl, rfl⟩)
    · rw [deliver_unreachable _ (Bool.eq_false_iff.2 reached)]
      exact ⟨rfl, ⟨fun _ _ => rfl, fun _ _ _ => rfl, fun _ => .inl rfl, fun _ => rfl, rfl⟩,
        fun _ _ => rfl, fun reaches => absurd reaches reached⟩
  · rename_i unknown
    exact ⟨rfl, .refl id f, fun _ _ => rfl, fun _ known => absurd known unknown⟩

theorem finish_run (target : Status) : (Fleet.run now (CleanupSandboxWorker.finish id target) f).2 =
    withDB f (f.db.rewrite fun k r =>
      if k = id ∧ r.status ∈ CleanupSandboxWorker.allowedFrom then { r with status := target }
      else r) := by
  have wrote : (f.perform now (.updateStatus id target CleanupSandboxWorker.allowedFrom)).2 =
      withDB f (updateStatus id target CleanupSandboxWorker.allowedFrom f.db).2 := rfl
  have rows : (updateStatus id target CleanupSandboxWorker.allowedFrom f.db).2 =
      f.db.rewrite fun k r =>
      if k = id ∧ r.status ∈ CleanupSandboxWorker.allowedFrom then { r with status := target }
      else r := by
    unfold updateStatus
    rw [if_neg (by decide)]
    dsimp only
    split <;> rfl
  unfold CleanupSandboxWorker.finish
  rw [run_ask, ← rows, ← wrote]
  split <;> rfl

omit [Uuid] in
theorem mem_allowedFrom {status : Status} (h : status ∉ Status.terminal) :
    status ∈ CleanupSandboxWorker.allowedFrom := by
  cases status <;> simp_all [Status.terminal, CleanupSandboxWorker.allowedFrom]

structure Ends (id : SandboxID) (target : Status) (f g : Fleet) : Prop where
  touches : Touches id f g
  vms : ∀ w, g.vm? w id = f.vm? w id
  row : ∀ r, f.db.sandbox? id = some r → r.status ∉ Status.terminal →
    ∃ r', g.db.sandbox? id = some r' ∧ r'.status = target

theorem finish_ends (now : Int) (f : Fleet) (id : SandboxID) (target : Status) :
    Ends id target f (Fleet.run now (CleanupSandboxWorker.finish id target) f).2 := by
  rw [finish_run]
  refine ⟨touches_rewrite fun k r other => if_neg fun both => other both.1, fun _ => rfl,
    fun r row open_ => ?_⟩
  refine ⟨{ r with status := target }, ?_, rfl⟩
  change (f.db.rewrite _).sandbox? id = _
  rw [Database.sandbox?_rewrite, row, Option.map_some, if_pos ⟨rfl, mem_allowedFrom open_⟩]

theorem clear_ends (now : Int) (f : Fleet) (id : SandboxID) (target : Status) :
    Ends id target f (Fleet.run now (CleanupSandboxWorker.clear id target) f).2 := by
  have cleared : f.perform now (.clearWorker id) = (.ok (), withDB f (clearWorker id f.db)) := rfl
  unfold CleanupSandboxWorker.clear
  rw [run_ask, cleared]
  dsimp only
  have first : Touches id f (withDB f (clearWorker id f.db)) :=
    touches_rewrite fun k r other => if_neg fun both => other both.1
  obtain ⟨second, vms, ends⟩ := finish_ends now (withDB f (clearWorker id f.db)) id target
  refine ⟨first.trans second, fun w => vms w, fun r row open_ => ?_⟩
  refine ends (if id = id ∧ r.status = .cleanupPending then
    { r with workerID := none } else r) ?_ ?_
  · change (clearWorker id f.db).sandbox? id = _
    rw [clearWorker, Database.sandbox?_rewrite, row]
    rfl
  · split <;> exact open_

theorem step_eq {k : Orchestrator.Kind} {α : Type} {p : Job α} {g : α → Orchestrator.Outcome}
    (body : Orchestrator.body k = p >>= fun a => pure (g a)) :
    f.step now k = (Fleet.run now p f).2 := by
  unfold Fleet.step
  rw [body, run_bind]
  rfl

/-- What an attempt at the cleanup of a sandbox comes to: its last one leaves
nothing open, and an earlier one leaves the row unless it ends it. -/
structure Cleans (id : SandboxID) (target : Option Status) (isFinal : Bool)
    (f g : Fleet) : Prop where
  touches : Touches id f g
  others : ∀ w, (∀ r, f.db.sandbox? id = some r → r.workerID ≠ some w) → g.vm? w id = f.vm? w id
  row : g.db.sandbox? id = f.db.sandbox? id ∧
      (∀ r, f.db.sandbox? id = some r → isFinal = true → r.status ∈ Status.terminal) ∨
    ∃ r r', f.db.sandbox? id = some r ∧ g.db.sandbox? id = some r' ∧
      (r'.status = target.getD .failed ∨ r'.status = .failed) ∧
      ∀ w, r.workerID = some w → f.reachable w = true → (f.db.worker? w).isSome =
        true → g.vm? w id = none

theorem cleared_cleans {target : Option Status} {isFinal : Bool} {r : SandboxRow} {status : Status}
    (row : f.db.sandbox? id = some r) (open_ : r.status ∉ Status.terminal)
    (worker : r.workerID = some w) (sets : status = target.getD .failed ∨ status = .failed) :
    Cleans id target isFinal f (Fleet.run now (CleanupSandboxWorker.clear id status)
      (Fleet.run now (removeSandboxOnWorker w id) f).2).2 := by
  obtain ⟨world, touches, others, gone⟩ := removal_effect now f w id
  obtain ⟨touches', vms, ends⟩ :=
    clear_ends now (Fleet.run now (removeSandboxOnWorker w id) f).2 id status
  have kept : (Fleet.run now (removeSandboxOnWorker w id) f).2.db.sandbox? id = some r := by
    rw [Fleet.db, world]
    exact row
  obtain ⟨r', row', ended⟩ := ends r kept open_
  refine ⟨touches.trans touches', fun v other => (vms v).trans (others v ?_),
    .inr ⟨r, r', row, row', by rw [ended]; exact sets, fun v on reached known => ?_⟩⟩
  · rintro rfl
    exact other r row worker
  · obtain rfl : w = v := Option.some.inj (worker.symm.trans on)
    exact (vms w).trans (gone reached known)

theorem cleanup_effect (now : Int) (f : Fleet) (id : SandboxID)
    (target : Option Status) (isFinal : Bool) :
    Cleans id target isFinal f (f.step now (.cleanupJob id target isFinal)) := by
  have read : f.perform now (.getSandbox id) = (getByID id f.db, f) := rfl
  rw [step_eq (k := .cleanupJob id target isFinal)
    (p := CleanupSandboxWorker.work id target isFinal) (g := .job) rfl,
    CleanupSandboxWorker.work, run_ask, read, getByID]
  cases row : f.db.sandbox? id with
  | none =>
    exact ⟨.refl id f, fun _ _ => rfl, .inl ⟨rfl, fun r found => by cases row.symm.trans found⟩⟩
  | some r =>
    dsimp only
    split
    · rename_i ended
      refine ⟨.refl id f, fun _ _ => rfl, .inl ⟨rfl, fun r' found _ => ?_⟩⟩
      cases row.symm.trans found
      exact ended
    · rename_i open_
      cases worker : r.workerID with
      | none =>
        have unassigned : (scanSandbox id r).workerID = none := worker
        rw [unassigned]
        dsimp only
        obtain ⟨touches, vms, ends⟩ := finish_ends now f id (target.getD .failed)
        obtain ⟨r', row', status⟩ := ends r row open_
        refine ⟨touches, fun w _ => vms w, .inr ⟨r, r', row, row', .inl status, fun w on => ?_⟩⟩
        cases worker.symm.trans on
      | some w =>
        have assigned : (scanSandbox id r).workerID = some w := worker
        rw [assigned]
        dsimp only
        rw [run_bind]
        cases (Fleet.run now (removeSandboxOnWorker w id) f).1 with
        | none => exact cleared_cleans row open_ worker (.inl rfl)
        | some err =>
          dsimp only
          split
          · exact cleared_cleans row open_ worker (.inr rfl)
          · rename_i early
            obtain ⟨world, touches, others, -⟩ := removal_effect now f w id
            refine ⟨touches, fun v other => others v ?_,
              .inl ⟨?_, fun _ _ final => absurd final early⟩⟩
            · rintro rfl
              exact other r row worker
            · exact congrArg (fun world : World => world.db.sandbox? id) world

theorem orphan_effect (now : Int) (f : Fleet) (w : WorkerID) (id : SandboxID) :
    let g := f.step now (.removeOrphanJob w id)
    g.db.sandbox? id = f.db.sandbox? id ∧ Touches id f g ∧ (∀ v, v ≠ w → g.vm? v id = f.vm? v id) ∧
      (f.reachable w = true → (f.db.worker? w).isSome = true → g.vm? w id = none) := by
  dsimp only
  rw [step_eq (k := .removeOrphanJob w id) (p := removeSandboxOnWorker w id) (g := .job) rfl]
  obtain ⟨world, rest⟩ := removal_effect now f w id
  exact ⟨by rw [Fleet.db, world]; rfl, rest⟩

theorem serve_hosted {m : Machine} {req : CreateSandboxRequest}
    (hosted : (m.vms.get? req.id).isSome = true)
    (sized : HTTPHandlers.checkSandboxSize req.vcpuCount req.memSizeMib = none) :
    m.serve (.create req) = (none, m) := by
  have valid := m.named req.id hosted
  have accepted : Cluster.WorkerGRPCServer.refusal (.create req) = none := by
    simp only [Cluster.WorkerGRPCServer.refusal, valid, sized, Option.or_none]
  unfold Machine.serve
  split
  · rename_i refused
    cases accepted.symm.trans refused
  · simp only [Machine.create, hosted, if_true, Option.map_none]

theorem deliver_hosted (req : CreateSandboxRequest) (reached : f.reachable w = true)
    (hosted : (f.vm? w req.id).isSome = true)
    (sized : HTTPHandlers.checkSandboxSize req.vcpuCount req.memSizeMib = none) :
    ({ f with sent := some ⟨w, .create req⟩ } : Fleet).deliver =
      (none, { f with sent := some ⟨w, .create req⟩ }) := by
  have sent : ({ f with sent := some ⟨w, .create req⟩ } : Fleet).reachable w = true := reached
  obtain ⟨m, here, on⟩ : ∃ m, f.machines.get? w = some m ∧ (m.vms.get? req.id).isSome = true := by
    unfold Fleet.vm? at hosted
    cases here : f.machines.get? w with
    | none => rw [here] at hosted; cases hosted
    | some m => rw [here] at hosted; exact ⟨m, rfl, hosted⟩
  have same : (f.machines.update fun v machine => if v = w then
    (machine.serve (.create req)).2 else machine) =
      f.machines := by
    refine Table.update_eq_self _ _ fun v machine found => ?_
    split
    · rename_i eq
      cases here.symm.trans (eq ▸ found)
      rw [serve_hosted on sized]
    · rfl
  simp only [Fleet.deliver, sent, if_true, here, Option.bind_some, serve_hosted on sized, same]

theorem advance_run {from_ : Status} {r : SandboxRow} (now : Int) (status : Status)
    (row : f.db.sandbox? id = some r) (at_ : r.status = from_) :
    f.perform now (.updateStatus id status [from_]) =
      (.ok (some (scanSandbox id { r with status })),
      withDB f (f.db.rewrite fun k r => if k = id ∧ r.status ∈ [from_] then
        { r with status } else r)) := by
  have wrote : f.perform now (.updateStatus id status [from_]) =
      ((updateStatus id status [from_] f.db).1,
        withDB f (updateStatus id status [from_] f.db).2) := rfl
  have reads : r.status ∈ [from_] := by simp [at_]
  rw [wrote, updateStatus, if_neg (by simp)]
  simp only [row, reads, if_true]

structure Advances (id : SandboxID) (r : SandboxRow) (f g : Fleet) : Prop where
  touches : Touches id f g
  vms : ∀ w, g.vm? w id = f.vm? w id
  row : g.db.sandbox? id = some { r with status := .running }

theorem acknowledge_advances {r : SandboxRow} (now : Int) (isFinal : Bool)
    (row : f.db.sandbox? id = some r) (starting : r.status = .starting) :
    Advances id r f (Fleet.run now (CreateSandboxWorker.stepAcknowledge id isFinal) f).2 := by
  have read : f.perform now (.getSandbox id) = (.ok (scanSandbox id r), f) := by
    have read : f.perform now (.getSandbox id) = (getByID id f.db, f) := rfl
    rw [read, getByID, row]
  have open_ : CreateSandboxWorker.settled (scanSandbox id r) = none := by
    have status : (scanSandbox id r).status = .starting := starting
    simp only [CreateSandboxWorker.settled, status]
  unfold CreateSandboxWorker.stepAcknowledge
  rw [run_ask, read]
  dsimp only
  rw [open_]
  dsimp only
  rw [run_ask, advance_run now .running row starting]
  refine ⟨touches_rewrite fun k r other => if_neg fun both => other both.1, fun _ => rfl, ?_⟩
  change (f.db.rewrite _).sandbox? id = _
  rw [Database.sandbox?_rewrite, row, Option.map_some, if_pos ⟨rfl, by simp [starting]⟩]

/-- The row is one a create job may still be at work on: its worker can be
reached, and hosts the sandbox. -/
structure Hosted (f : Fleet) (id : SandboxID) (r : SandboxRow) (w : WorkerID) : Prop where
  on : activeOn w r = true
  reached : f.reachable w = true
  vm : (f.vm? w id).isSome = true
  known : (f.db.worker? w).isSome = true
  sized : HTTPHandlers.checkSandboxSize r.vcpuCount r.memSizeMib = none

theorem start_advances {r : SandboxRow} (now : Int) (isFinal : Bool)
    (row : f.db.sandbox? id = some r) (hosted : Hosted f id r w) (assigned : r.status = .assigned) :
    Advances id r f
    (Fleet.run now (CreateSandboxWorker.stepStartSandbox (scanSandbox id r) isFinal) f).2 := by
  have worker : (scanSandbox id r).workerID = some w := (of_decide_eq_true hosted.on).1
  obtain ⟨v, known⟩ := Option.isSome_iff_exists.1 hosted.known
  have read : f.perform now (.getWorker w) = (.ok (scanWorker w v), f) := by
    have read : f.perform now (.getWorker w) = (WorkerRepository.get w f.db, f) := rfl
    rw [read, WorkerRepository.get, known]
  have dialled : f.perform now (.newClient (scanWorker w v).dialTarget) = (.ok (), f) := rfl
  let req := CreateSandboxWorker.createRequest (scanSandbox id r)
  let g : Fleet := { f with sent := some ⟨w, .create req⟩ }
  have sent : f.perform now (.sendCreate w (scanWorker w v).dialTarget req) = (0, g) := rfl
  have answered : g.perform now (.await 0) = (.ok (), g) := by
    have answered : g.perform now (.await 0) =
        (rpcAnswer (Fleet.env now g.deliver.1) (), { g.deliver.2 with world := g.world }) := rfl
    rw [answered, deliver_hosted req hosted.reached hosted.vm hosted.sized]
    rfl
  unfold CreateSandboxWorker.stepStartSandbox
  rw [worker]
  dsimp only
  rw [run_ask, read]
  dsimp only
  rw [run_ask, dialled]
  dsimp only
  rw [run_ask, sent]
  dsimp only
  rw [run_ask, answered]
  dsimp only
  have named : (scanSandbox id r).id = id := rfl
  have started := advance_run (f := g) now .starting row assigned
  rw [run_ask, named, started]
  dsimp only
  let h := withDB g (g.db.rewrite fun k r =>
    if k = id ∧ r.status ∈ [Status.assigned] then { r with status := .starting } else r)
  have row' : h.db.sandbox? id = some { r with status := .starting } := by
    change (g.db.rewrite _).sandbox? id = _
    have same : g.db.sandbox? id = some r := row
    rw [Database.sandbox?_rewrite, same, Option.map_some, if_pos ⟨rfl, by simp [assigned]⟩]
  have sends : Touches id f g := ⟨fun _ _ => rfl, fun _ _ _ => rfl,
    fun _ => .inl rfl, fun _ => rfl, rfl⟩
  have moves : Touches id g h := touches_rewrite fun k r other => if_neg fun both => other both.1
  obtain ⟨touches, vms, ended⟩ := acknowledge_advances now isFinal row' rfl
  exact ⟨(sends.trans moves).trans touches, vms, ended⟩

theorem create_effect (now : Int) (id : SandboxID) (isFinal : Bool)
    (placed : ∀ r, f.db.sandbox? id = some r →
      r.status ∉ [Status.pending, .scheduling] ∧
      (r.status ∈ Status.active → ∃ w, Hosted f id r w)) :
    let g := f.step now (.createJob id isFinal)
    Touches id f g ∧ (∀ w, g.vm? w id = f.vm? w id) ∧ (g.db.sandbox? id = f.db.sandbox? id ∨
      ∃ r, f.db.sandbox? id = some r ∧ r.status ∈ Status.active ∧
        g.db.sandbox? id = some { r with status := .running }) := by
  have read : f.perform now (.getSandbox id) = (getByID id f.db, f) := rfl
  dsimp only
  rw [step_eq (k := .createJob id isFinal)
    (p := CreateSandboxWorker.work id isFinal) (g := .job) rfl,
    CreateSandboxWorker.work, run_ask, read, getByID]
  cases row : f.db.sandbox? id with
  | none => exact ⟨.refl id f, fun _ => rfl, .inl row⟩
  | some r =>
    obtain ⟨created, hosted⟩ := placed r row
    have same : (scanSandbox id r).status = r.status := rfl
    dsimp only
    rw [same]
    cases status : r.status with
    | pending => simp [status] at created
    | scheduling => simp [status] at created
    | assigned =>
      obtain ⟨w, hosted⟩ := hosted (by simp [status, Status.active])
      obtain ⟨touches, vms, ended⟩ := start_advances now isFinal row hosted status
      exact ⟨touches, vms, .inr ⟨r, rfl, by simp [status, Status.active], ended⟩⟩
    | starting =>
      obtain ⟨touches, vms, ended⟩ := acknowledge_advances now isFinal row status
      exact ⟨touches, vms, .inr ⟨r, rfl, by simp [status, Status.active], ended⟩⟩
    | running | stopped | failed | cleanupPending | cleanedUp =>
      exact ⟨.refl id f, fun _ => rfl, .inl row⟩

end Programs

def sandboxOf : JobArgs → SandboxID
  | .createSandbox id => id
  | .cleanupSandbox id _ => id
  | .removeOrphan _ id => id

/-- Whatever is still to be put right is left to one of the attempts to come, and
none of them is at odds with a row that is right. -/
structure Ready [Uuid] (todo : List Attempt) (f : Fleet) : Prop where
  rows : ∀ id r, f.db.sandbox? id = some r → r.status ∈ Status.terminal ∨
    (r.status = .cleanupPending ∧ ∃ target, ⟨.cleanupSandbox id target, true⟩ ∈ todo) ∨
    ∃ w, Hosted f id r w ∧ f.vm? w id ≠ some .dead
  vms : ∀ w id, f.reachable w = true → (f.vm? w id).isSome = true →
    attributed w f.db id = true ∨ ∃ isFinal, ⟨.removeOrphan w id, isFinal⟩ ∈ todo
  orphans : ∀ w id isFinal, ⟨.removeOrphan w id, isFinal⟩ ∈ todo →
    ∀ r, f.db.sandbox? id = some r → activeOn w r = false
  cleanups : ∀ id target isFinal, ⟨.cleanupSandbox id target, isFinal⟩ ∈ todo →
    target.getD .failed ∈ Status.terminal ∧ ∀ r, f.db.sandbox? id = some r →
    r.status ∉ Status.active
  known : ∀ w, f.reachable w = true → (f.db.worker? w).isSome = true

section Attempts
variable [Uuid] {now : Int} {f g : Fleet} {a : Attempt} {todo : List Attempt} {id : SandboxID}
  {r : SandboxRow} {w : WorkerID}

theorem Hosted.of_touches {k : SandboxID} {r' : SandboxRow} (h : Hosted f k r w)
    (touches : Touches id f g) (vm : g.vm? w k = f.vm? w k) (on : activeOn w r' = true)
    (size : r'.vcpuCount = r.vcpuCount ∧ r'.memSizeMib = r.memSizeMib) : Hosted g k r' w where
  on := on
  reached := (touches.reachable w).trans h.reached
  vm := by
    rw [vm]
    exact h.vm
  known := by
    rw [Database.worker?, touches.workers]
    exact h.known
  sized := by
    rw [size.1, size.2]
    exact h.sized

theorem Hosted.stays_alive {k : SandboxID} {r' : SandboxRow} (h : Hosted f k r w)
    (alive : f.vm? w k ≠ some .dead) (touches : Touches id f g) (vm : g.vm? w k = f.vm? w k)
    (on : activeOn w r' = true) (size : r'.vcpuCount = r.vcpuCount ∧ r'.memSizeMib = r.memSizeMib) :
    ∃ w, Hosted g k r' w ∧ g.vm? w k ≠ some .dead := by
  refine ⟨w, h.of_touches touches vm on size, ?_⟩
  rw [vm]
  exact alive

omit [Uuid] in
theorem attributed_congr {db db' : Database} (same : db'.sandbox? id = db.sandbox? id) :
    attributed w db' id = attributed w db id := by
  rw [attributed, attributed, same]

omit [Uuid] in
theorem mem_of_other {x : Attempt} (about : sandboxOf a.job = id) (other : sandboxOf x.job ≠ id)
    (mem : x ∈ a :: todo) : x ∈ todo := by
  rcases List.mem_cons.1 mem with rfl | mem
  · exact absurd about other
  · exact mem

theorem Ready.after (h : Ready (a :: todo) f) (id : SandboxID) (about : sandboxOf a.job = id)
    (touches : Touches id f g) (row : ∀ r', g.db.sandbox? id = some r' →
      r'.status ∈ Status.terminal ∨
      (r'.status = .cleanupPending ∧ ∃ target, ⟨.cleanupSandbox id target, true⟩ ∈ todo) ∨
      ∃ w, Hosted g id r' w ∧ g.vm? w id ≠ some .dead)
    (vm : ∀ w, g.reachable w = true → (g.vm? w id).isSome = true →
      attributed w g.db id = true ∨ ∃ isFinal, ⟨.removeOrphan w id, isFinal⟩ ∈ todo)
    (kept : ∀ r', g.db.sandbox? id = some r' → r'.status ∈ Status.active →
      ∃ r, f.db.sandbox? id = some r ∧ r.status ∈ Status.active ∧
      r.workerID = r'.workerID) : Ready todo g where
  rows k r' found := by
    by_cases same : k = id
    · subst same
      exact row r' found
    · rw [touches.rows k same] at found
      rcases h.rows k r' found with ended | ⟨pending, target, mem⟩ | ⟨w, hosted, alive⟩
      · exact .inl ended
      · exact .inr (.inl ⟨pending, target, mem_of_other about same mem⟩)
      · exact .inr
          (.inr (hosted.stays_alive alive touches (touches.vms w k same) hosted.on ⟨rfl, rfl⟩))
  vms w k reached hosted := by
    by_cases same : k = id
    · subst same
      exact vm w reached hosted
    · rw [touches.reachable] at reached
      rw [touches.vms w k same] at hosted
      rcases h.vms w k reached hosted with on | ⟨isFinal, mem⟩
      · exact .inl ((attributed_congr (touches.rows k same)).trans on)
      · exact .inr ⟨isFinal, mem_of_other about same mem⟩
  orphans w k isFinal mem r' found := by
    have before := h.orphans w k isFinal (List.mem_cons_of_mem _ mem)
    by_cases same : k = id
    · subst same
      refine Bool.eq_false_iff.2 fun on => ?_
      obtain ⟨here, active⟩ := of_decide_eq_true on
      obtain ⟨r, row, active, worker⟩ := kept r' found active
      cases (before r row).symm.trans (decide_eq_true ⟨worker.trans here, active⟩)
    · rw [touches.rows k same] at found
      exact before r' found
  cleanups k target isFinal mem := by
    obtain ⟨ends, idle⟩ := h.cleanups k target isFinal (List.mem_cons_of_mem _ mem)
    refine ⟨ends, fun r' found active => ?_⟩
    by_cases same : k = id
    · subst same
      obtain ⟨r, row, active, -⟩ := kept r' found active
      exact idle r row active
    · rw [touches.rows k same] at found
      exact idle r' found active
  known w reached := by
    rw [touches.reachable] at reached
    rw [Database.worker?, touches.workers]
    exact h.known w reached

omit [Uuid] in
theorem terminal_not_active {status : Status} (h : status ∈ Status.terminal) :
    status ∉ Status.active := by
  cases status <;> simp_all [Status.terminal, Status.active]

theorem vm_before (touches : Touches id f g) (hosted : (g.vm? w id).isSome = true) :
    g.vm? w id = f.vm? w id := by
  rcases touches.gone w with same | none
  · exact same
  · rw [none] at hosted
    cases hosted

omit [Uuid] in
theorem worker_of_attributed {db : Database} (on : attributed w db id = true)
    (row : db.sandbox? id = some r) : r.workerID = some w := by
  rw [attributed, row, Option.any_some] at on
  exact (of_decide_eq_true on).1

theorem Ready.cleanup {target : Option Status} {isFinal : Bool}
    (h : Ready (⟨.cleanupSandbox id target, isFinal⟩ :: todo) f) :
    Ready todo (f.step now (.cleanupJob id target isFinal)) := by
  obtain ⟨touches, others, ended⟩ := cleanup_effect now f id target isFinal
  obtain ⟨ends, idle⟩ := h.cleanups id target isFinal List.mem_cons_self
  have terminal {status : Status} (eq : status = target.getD .failed ∨ status = .failed) :
      status ∈ Status.terminal := by
    rcases eq with rfl | rfl
    · exact ends
    · decide
  refine h.after id rfl touches (fun r' found => ?_) (fun w reached hosted => ?_)
    fun r' found active => ?_
  · rcases ended with ⟨same, final⟩ | ⟨r, r'', -, row', status, -⟩
    · rw [same] at found
      rcases h.rows id r' found with ended | ⟨pending, target', mem⟩ | ⟨w, hosted, -⟩
      · exact .inl ended
      · -- the attempt was not the last, which is still to come
        rcases List.mem_cons.1 mem with here | later
        · cases here
          exact .inl (final r' found rfl)
        · exact .inr (.inl ⟨pending, target', later⟩)
      · exact absurd (of_decide_eq_true hosted.on).2 (idle r' found)
    · cases row'.symm.trans found
      exact .inl (terminal status)
  · rw [touches.reachable] at reached
    rcases h.vms w id reached (by rw [← vm_before touches hosted]; exact hosted)
      with on | ⟨isFinal', mem⟩
    · rcases ended with ⟨same, -⟩ | ⟨r, r', row, -, -, gone⟩
      · exact .inl ((attributed_congr same).trans on)
      · rw [gone w (worker_of_attributed on row) reached (h.known w reached)] at hosted
        cases hosted
    · exact .inr ⟨isFinal', (List.mem_cons.1 mem).resolve_left (by simp)⟩
  · rcases ended with ⟨same, -⟩ | ⟨r, r'', -, row', status, -⟩
    · rw [same] at found
      exact absurd active (idle r' found)
    · cases row'.symm.trans found
      exact absurd active (terminal_not_active (terminal status))

theorem Ready.orphan {isFinal : Bool} (h : Ready (⟨.removeOrphan w id, isFinal⟩ :: todo) f) :
    Ready todo (f.step now (.removeOrphanJob w id)) := by
  obtain ⟨same, touches, others, gone⟩ := orphan_effect now f w id
  have idle := h.orphans w id isFinal List.mem_cons_self
  refine h.after id rfl touches (fun r' found => ?_) (fun v reached hosted => ?_)
    fun r' found active => ?_
  · rw [same] at found
    rcases h.rows id r' found with ended | ⟨pending, target, mem⟩ | ⟨v, hosted, alive⟩
    · exact .inl ended
    · exact .inr (.inl ⟨pending, target, (List.mem_cons.1 mem).resolve_left (by simp)⟩)
    · have other : v ≠ w := by
        rintro rfl
        cases (idle r' found).symm.trans hosted.on
      exact .inr (.inr (hosted.stays_alive alive touches (others v other) hosted.on ⟨rfl, rfl⟩))
  · rw [touches.reachable] at reached
    rcases h.vms v id reached (by rw [← vm_before touches hosted]; exact hosted)
      with on | ⟨isFinal', mem⟩
    · exact .inl ((attributed_congr same).trans on)
    · rcases List.mem_cons.1 mem with here | later
      · cases here
        rw [gone reached (h.known _ reached)] at hosted
        cases hosted
      · exact .inr ⟨isFinal', later⟩
  · rw [same] at found
    exact ⟨r', found, active, rfl⟩

theorem Ready.placed (h : Ready todo f) (r : SandboxRow) (row : f.db.sandbox? id = some r) :
    r.status ∉ [Status.pending, .scheduling] ∧
    (r.status ∈ Status.active → ∃ w, Hosted f id r w) := by
  rcases h.rows id r row with ended | ⟨pending, -⟩ | ⟨w, hosted, -⟩
  · refine ⟨?_, fun active => absurd active (terminal_not_active ended)⟩
    cases status : r.status <;> simp_all [Status.terminal]
  · exact ⟨by simp [pending], fun active => by simp [pending, Status.active] at active⟩
  · have active := (of_decide_eq_true hosted.on).2
    refine ⟨?_, fun _ => ⟨w, hosted⟩⟩
    cases status : r.status <;> simp_all [Status.active]

theorem Ready.create {isFinal : Bool} (h : Ready (⟨.createSandbox id, isFinal⟩ :: todo) f) :
    Ready todo (f.step now (.createJob id isFinal)) := by
  obtain ⟨touches, vms, moved⟩ := create_effect now id isFinal h.placed
  refine h.after id rfl touches (fun r' found => ?_) (fun w reached hosted => ?_)
    fun r' found active => ?_
  · rcases moved with same | ⟨r, row, active, row'⟩
    · rw [same] at found
      rcases h.rows id r' found with ended | ⟨pending, target, mem⟩ | ⟨w, hosted, alive⟩
      · exact .inl ended
      · exact .inr (.inl ⟨pending, target, (List.mem_cons.1 mem).resolve_left (by simp)⟩)
      · exact .inr (.inr (hosted.stays_alive alive touches (vms w) hosted.on ⟨rfl, rfl⟩))
    · cases row'.symm.trans found
      rcases h.rows id r row with ended | ⟨pending, -⟩ | ⟨w, hosted, alive⟩
      · exact absurd active (terminal_not_active ended)
      · simp [pending, Status.active] at active
      · have on : activeOn w { r with status := .running } = true :=
          decide_eq_true ⟨(of_decide_eq_true hosted.on).1, by simp [Status.active]⟩
        exact .inr (.inr (hosted.stays_alive alive touches (vms w) on ⟨rfl, rfl⟩))
  · rw [touches.reachable] at reached
    rw [vms w] at hosted
    rcases h.vms w id reached hosted with on | ⟨isFinal', mem⟩
    · rcases moved with same | ⟨r, row, -, row'⟩
      · exact .inl ((attributed_congr same).trans on)
      · have here := worker_of_attributed on row
        refine .inl ?_
        rw [attributed, row', Option.any_some]
        exact decide_eq_true ⟨here, by simp [Status.terminal]⟩
    · exact .inr ⟨isFinal', (List.mem_cons.1 mem).resolve_left (by simp)⟩
  · rcases moved with same | ⟨r, row, active', row'⟩
    · exact ⟨r', same ▸ found, active, rfl⟩
    · cases row'.symm.trans found
      exact ⟨r, row, active', rfl⟩

theorem Ready.attempt (h : Ready (a :: todo) f) (now : Int) : Ready todo (f.step now a.kind) := by
  obtain ⟨job, isFinal⟩ := a
  cases job with
  | createSandbox id => exact h.create
  | cleanupSandbox id target => exact h.cleanup
  | removeOrphan w id => exact h.orphan

theorem Ready.keeps (h : Ready (a :: todo) f) (now : Int) (row : f.db.sandbox? id = some r)
    (on : activeOn w r = true) :
    (∃ r', (f.step now a.kind).db.sandbox? id = some r' ∧ activeOn w r' = true) ∧
      (f.step now a.kind).vm? w id = f.vm? w id := by
  obtain ⟨job, isFinal⟩ := a
  have apart {k : SandboxID} {g : Fleet} (touches : Touches k f g) (other : id ≠ k) :
      (∃ r', g.db.sandbox? id = some r' ∧ activeOn w r' = true) ∧ g.vm? w id = f.vm? w id :=
    ⟨⟨r, (touches.rows id other).trans row, on⟩, touches.vms w id other⟩
  cases job with
  | createSandbox k =>
    obtain ⟨touches, vms, moved⟩ := create_effect now k isFinal h.placed
    by_cases same : id = k
    · subst same
      refine ⟨?_, vms w⟩
      rcases moved with kept | ⟨r', row', -, moved⟩
      · exact ⟨r, kept.trans row, on⟩
      · cases row.symm.trans row'
        exact ⟨_, moved, decide_eq_true ⟨(of_decide_eq_true on).1, by simp [Status.active]⟩⟩
    · exact apart touches same
  | cleanupSandbox k target =>
    have effect := cleanup_effect now f k target isFinal
    by_cases same : id = k
    · subst same
      exact absurd (of_decide_eq_true on).2
        ((h.cleanups id target isFinal List.mem_cons_self).2 r row)
    · exact apart effect.touches same
  | removeOrphan v k =>
    obtain ⟨kept, touches, others, -⟩ := orphan_effect now f v k
    by_cases same : id = k
    · subst same
      refine ⟨⟨r, kept.trans row, on⟩, others w ?_⟩
      rintro rfl
      cases (h.orphans w id isFinal List.mem_cons_self r row).symm.trans on
    · exact apart touches same

def attempts (now : Int) (todo : List Attempt) (f : Fleet) : Fleet :=
  todo.foldl (fun f a => f.step now a.kind) f

theorem Ready.attempts (h : Ready todo f) : Ready [] (attempts now todo f) := by
  induction todo generalizing f with
  | nil => exact h
  | cons a todo ih => exact ih (h.attempt now)

theorem Ready.keeps_attempts (h : Ready todo f) (now : Int) (row : f.db.sandbox? id = some r)
    (on : activeOn w r = true) :
    (∃ r', (Divergence.attempts now todo f).db.sandbox? id = some r' ∧ activeOn w r' = true) ∧
      (Divergence.attempts now todo f).vm? w id = f.vm? w id := by
  induction todo generalizing f r with
  | nil => exact ⟨⟨r, row, on⟩, rfl⟩
  | cons a todo ih =>
    obtain ⟨⟨r', row', on'⟩, vm⟩ := h.keeps now row on
    obtain ⟨kept, vm'⟩ := ih (h.attempt now) row' on'
    exact ⟨kept, vm'.trans vm⟩

theorem Ready.settled (h : Ready [] f) {id : SandboxID} {r : SandboxRow}
    (row : f.db.sandbox? id = some r) : r.status ∈ Status.terminal ∨ ∃ w, Hosted f id r w ∧
    f.vm? w id ≠ some .dead := by
  rcases h.rows id r row with ended | ⟨-, target, mem⟩ | hosted
  · exact .inl ended
  · cases mem
  · exact .inr hosted

theorem Ready.rowGap (h : Ready [] f) (row : f.db.sandbox? id = some r) : f.rowGap id r = none := by
  unfold Fleet.rowGap
  rcases h.settled row with ended | ⟨w, hosted, alive⟩
  · cases status : r.status <;> simp_all [Status.terminal]
  · obtain ⟨worker, active⟩ := of_decide_eq_true hosted.on
    obtain ⟨state, vm⟩ := Option.isSome_iff_exists.1 hosted.vm
    rw [vm] at alive
    rw [worker]
    dsimp only
    rw [vm]
    cases status : r.status with
    | assigned | starting | running => cases state <;> simp at alive ⊢
    | _ => simp [status, Status.active] at active

theorem Ready.vmGap (h : Ready [] f) (reached : f.reachable w = true)
    (hosted : (f.vm? w id).isSome = true) : f.vmGap w id = none := by
  rcases h.vms w id reached hosted with on | ⟨isFinal, mem⟩
  · unfold Fleet.vmGap
    cases row : f.db.sandbox? id with
    | none => simp [attributed, row] at on
    | some r =>
      rw [attributed, row, Option.any_some] at on
      obtain ⟨here, open_⟩ := of_decide_eq_true on
      rcases h.settled row with ended | ⟨v, hosted, -⟩
      · exact absurd ended open_
      · have active : activeOn w r = true := decide_eq_true ⟨here, (of_decide_eq_true hosted.on).2⟩
        dsimp only
        rw [if_pos active]
  · cases mem

end Attempts

section Settling
variable [Uuid] {f g : Fleet} {w : WorkerID} {todo : List Attempt} {s : Orchestrator.State}

theorem mem_divergences {gap : Gap} (h : gap ∈ f.divergences) :
    (∃ id r, f.db.sandbox? id = some r ∧ f.rowGap id r = some gap) ∨
    (∃ w id, (f.vm? w id).isSome = true ∧ f.vmGap w id = some gap) ∨
    ∃ w m, f.machines.get? w = some m ∧ f.workerGap w m = some gap := by
  simp only [Fleet.divergences, List.mem_append, List.mem_filterMap, List.mem_flatMap] at h
  rcases h with (⟨p, mem, gap⟩ | ⟨p, mem, q, hosted, gap⟩) | ⟨p, mem, gap⟩
  · exact .inl ⟨p.1, p.2, (Table.get?_eq_some_iff _ _ _).2 mem, gap⟩
  · refine .inr (.inl ⟨p.1, q.1, ?_, gap⟩)
    rw [Fleet.vm?, (Table.get?_eq_some_iff _ _ _).2 mem, Option.bind_some,
      (Table.get?_eq_some_iff _ _ _).2 hosted]
    rfl
  · exact .inr (.inr ⟨p.1, p.2, (Table.get?_eq_some_iff _ _ _).2 mem, gap⟩)

theorem away_of_vmGap {id : SandboxID} {gap : Gap} (away : f.reachable w = false)
    (h : f.vmGap w id = some gap) : f.away gap = true := by
  unfold Fleet.vmGap at h
  split at h
  · cases h
    simp [Fleet.away, away]
  · split at h
    · cases h
    · cases h
      simp [Fleet.away, away]

theorem enabled_attempt {a : Attempt} (mem : a.job ∈ f.db.jobs) :
    Orchestrator.enabled a.kind f.db = true := by
  obtain ⟨job, isFinal⟩ := a
  cases job <;> exact decide_eq_true mem

theorem attempts_reaches (now : Int) (reached : Orchestrator.system.Reaches Orchestrator.initial s)
    (same : s.shared = f.world) (jobs : ∀ a ∈ todo, a.job ∈ f.db.jobs) :
    ∃ t, Orchestrator.system.Reaches s t ∧ t.shared = (attempts now todo f).world := by
  induction todo generalizing f s with
  | nil => exact ⟨s, .refl, same⟩
  | cons a todo ih =>
    obtain ⟨t, run, same'⟩ := step_reaches now a.kind same
      (enabled_attempt (jobs a List.mem_cons_self))
    have grows := (Orchestrator.reaches_grows reached run).jobs
    rw [same, same'] at grows
    obtain ⟨u, run', same''⟩ :=
      ih (reached.trans run) same' fun b mem => grows b.job (jobs b (List.mem_cons_of_mem _ mem))
    exact ⟨u, run.trans run', same''⟩

/-- Once whatever is wrong is left to a job, the attempts that the queue makes
settle it in whatever order they come: the disagreements that remain are about VMs
on machines that cannot be reached, or about a worker's own row. A sandbox that
runs where its row says is not touched, and the attempts are a run of the
orchestrator. -/
theorem jobs_settle (now : Int) (reached : Orchestrator.system.Reaches Orchestrator.initial s)
    (same : s.shared = f.world) (jobs : ∀ a ∈ todo, a.job ∈ f.db.jobs) (ready : Ready todo f) :
    let g := attempts now todo f
    (∀ gap ∈ g.divergences, g.away gap = true ∨ ∃ w m, g.machines.get? w = some m ∧
      g.workerGap w m = some gap) ∧
    (∀ id r w, f.db.sandbox? id = some r → activeOn w r = true →
      ∃ r', g.db.sandbox? id = some r' ∧ activeOn w r' = true ∧ g.vm? w id = f.vm? w id) ∧
    ∃ t, Orchestrator.system.Reaches s t ∧ t.shared = g.world := by
  intro g
  have settled : Ready [] g := ready.attempts
  refine ⟨fun gap mem => ?_, fun id r w row on => ?_, attempts_reaches now reached same jobs⟩
  · rcases mem_divergences mem with ⟨id, r, row, found⟩ | ⟨w, id, hosted, found⟩ | worker
    · cases (settled.rowGap row).symm.trans found
    · by_cases up : g.reachable w = true
      · cases (settled.vmGap up hosted).symm.trans found
      · exact .inl (away_of_vmGap (Bool.eq_false_iff.2 up) found)
    · exact .inr worker
  · obtain ⟨⟨r', row', on'⟩, vm⟩ := ready.keeps_attempts now row on
    exact ⟨r', row', on', vm⟩

end Settling

section Example
open Orchestrator Uuid.Standard

/- Two sandboxes run on one worker. The second is deleted, and the worker's
inventory lists a VM that nobody knows. -/

def secondID : SandboxID := "22222222-2222-4222-8222-222222222222"
def strayID : SandboxID := "33333333-3333-4333-8333-333333333333"

def roomyHello : WorkerHeartbeat := { firstHello with capacity := 2 }

def inventory : List InventoryEntry :=
  [⟨firstID, .running⟩, ⟨secondID, .running⟩, ⟨strayID, .running⟩]

def twoClaimed : List (Action Kind Env Empty) :=
  [.spawn (.registerWorker roomyHello), .call 0 {}, .call 0 {},
    .spawn (.createSandbox (some "user-1") (some firstOrder)), .call 1 {}, .call 1 {},
    .call 1 { uuid := firstID }, .call 1 {}, .call 1 {},
    .spawn (.createSandbox (some "user-1") (some firstOrder)), .call 2 {}, .call 2 {},
    .call 2 { uuid := secondID }, .call 2 {}, .call 2 {}, .spawn (.createJob firstID false)] ++
    List.replicate 16 (.call 3 {}) ++
    .spawn (.createJob secondID false) :: List.replicate 16 (.call 4 {}) ++
    [.spawn (.deleteSandbox (some "user-1") secondID), .call 5 {}, .call 5 {},
      .spawn (.reportHeartbeat
        { roomyHello with fencingToken := 1, inventoryComplete := true, sandboxes := inventory }),
      .call 6 {}, .call 6 {}]

theorem named_inventory : ∀ id state, (⟨inventory.map fun e => (e.sandboxID, e.state), by decide⟩ :
    Table SandboxID SandboxState).get? id = some state → SandboxMgr.checkSandboxID id = none := by
  decide +kernel

def firstMachine : Machine where
  vms := ⟨inventory.map fun e => (e.sandboxID, e.state), by decide⟩
  named id hosted := by
    obtain ⟨state, found⟩ := Option.isSome_iff_exists.1 hosted
    exact named_inventory id state found
  capacity := 2
  full := false
  running := true
  partitioned := false

def oneMachine (s : State) : Fleet := ⟨s.shared, ⟨[("worker-1", firstMachine)], by decide⟩, none⟩

def claimedJobs : List Attempt :=
  [⟨.createSandbox firstID, false⟩, ⟨.removeOrphan "worker-1" strayID, false⟩,
    ⟨.cleanupSandbox secondID (some .stopped), false⟩,
    ⟨.cleanupSandbox secondID (some .stopped), true⟩]

theorem machines_oneMachine (s : State) {w : WorkerID} {m : Machine}
    (here : (oneMachine s).machines.get? w = some m) : w = "worker-1" ∧ m = firstMachine := by
  have mem := (Table.get?_eq_some_iff _ _ _).1 here
  simpa [oneMachine] using mem

theorem mem_inventory {id : SandboxID} (hosted : (firstMachine.vms.get? id).isSome = true) :
    id = firstID ∨ id = secondID ∨ id = strayID := by
  have all : ∀ id state, firstMachine.vms.get? id = some state → id = firstID ∨
      id = secondID ∨ id = strayID := by
    decide +kernel
  obtain ⟨state, found⟩ := Option.isSome_iff_exists.1 hosted
  exact all id state found

theorem ready_oneMachine {s : State} (rows : ∀ id r, s.shared.db.sandboxes.get? id = some r →
      id = secondID ∧ r.status = .cleanupPending ∨ id = firstID ∧ activeOn "worker-1" r = true ∧
        HTTPHandlers.checkSandboxSize r.vcpuCount r.memSizeMib = none)
    (known : (s.shared.db.worker? "worker-1").isSome = true)
    (attributes : attributed "worker-1" s.shared.db firstID = true ∧
      attributed "worker-1" s.shared.db secondID = true) :
    Ready claimedJobs (oneMachine s) where
  rows id r row := by
    rcases rows id r row with ⟨rfl, pending⟩ | ⟨rfl, on, sized⟩
    · exact .inr (.inl ⟨pending, some .stopped, by decide⟩)
    · have vm : (oneMachine s).vm? "worker-1" firstID = some .running := rfl
      exact .inr (.inr ⟨"worker-1", ⟨on, rfl, rfl, known, sized⟩, by rw [vm]; decide⟩)
  vms w id reached hosted := by
    obtain ⟨m, here, -⟩ := (Option.any_eq_true _ _).1 reached
    obtain ⟨rfl, rfl⟩ := machines_oneMachine s here
    rcases mem_inventory hosted with rfl | rfl | rfl
    · exact .inl attributes.1
    · exact .inl attributes.2
    · exact .inr ⟨false, by decide⟩
  orphans w id isFinal mem r row := by
    have stray : id = strayID := by
      simp only [claimedJobs, List.mem_cons, Attempt.mk.injEq, reduceCtorEq,
        JobArgs.removeOrphan.injEq, false_and, false_or, List.not_mem_nil, or_false] at mem
      exact mem.1.2
    rcases rows id r row with ⟨second, -⟩ | ⟨first, -⟩
    · exact absurd (stray.symm.trans second) (by decide)
    · exact absurd (stray.symm.trans first) (by decide)
  cleanups id target isFinal mem := by
    have second : id = secondID ∧ target = some .stopped := by
      simp only [claimedJobs, List.mem_cons, Attempt.mk.injEq, reduceCtorEq,
        JobArgs.cleanupSandbox.injEq, false_and, false_or, List.not_mem_nil, or_false] at mem
      exact mem.elim (fun h => h.1) fun h => h.1
    obtain ⟨rfl, rfl⟩ := second
    refine ⟨by decide, fun r row => ?_⟩
    rcases rows secondID r row with ⟨-, pending⟩ | ⟨first, -⟩
    · rw [pending]
      decide
    · exact absurd first (by decide)
  known w reached := by
    obtain ⟨m, here, -⟩ := (Option.any_eq_true _ _).1 reached
    obtain ⟨rfl, -⟩ := machines_oneMachine s here
    exact known

theorem jobs_settle_oneMachine : ∃ s t, system.Reaches initial s ∧ system.Reaches s t ∧
    (oneMachine s).divergences = [.unsettled secondID .cleanupPending,
      .elsewhere "worker-1" secondID .cleanupPending (some "worker-1"),
      .unknownVM "worker-1" strayID] ∧
    let g := attempts 100 claimedJobs (oneMachine s)
    t.shared = g.world ∧
      (∀ gap ∈ g.divergences, g.away gap = true ∨ ∃ w m, g.machines.get? w = some m ∧
        g.workerGap w m = some gap) ∧
      ∃ r, g.db.sandbox? firstID = some r ∧ activeOn "worker-1" r = true ∧
        g.vm? "worker-1" firstID = some .running := by
  have run : (system.run initial twoClaimed).map (fun s => decide (
      (oneMachine s).divergences = [.unsettled secondID .cleanupPending,
        .elsewhere "worker-1" secondID .cleanupPending (some "worker-1"),
        .unknownVM "worker-1" strayID] ∧
      (∀ id r, s.shared.db.sandboxes.get? id = some r → id = secondID ∧
        r.status = .cleanupPending ∨ id = firstID ∧
        activeOn "worker-1" r = true ∧
        HTTPHandlers.checkSandboxSize r.vcpuCount r.memSizeMib = none) ∧
      (s.shared.db.worker? "worker-1").isSome = true ∧
      (attributed "worker-1" s.shared.db firstID = true ∧
        attributed "worker-1" s.shared.db secondID = true) ∧
      (∀ a ∈ claimedJobs, a.job ∈ s.shared.db.jobs) ∧
      (s.shared.db.sandbox? firstID).any (activeOn "worker-1") = true)) = some true := by
    decide +kernel
  obtain ⟨s, ran, all⟩ := Option.map_eq_some_iff.1 run
  obtain ⟨gaps, rows, known, attributes, jobs, first⟩ := of_decide_eq_true all
  obtain ⟨r, row, on⟩ := (Option.any_eq_true _ _).1 first
  have reached : system.Reaches initial s := System.reaches_of_run ran
  obtain ⟨settled, kept, t, run, same⟩ :=
    jobs_settle (f := oneMachine s) 100 reached rfl jobs (ready_oneMachine rows known attributes)
  obtain ⟨r', row', on', vm⟩ := kept firstID r "worker-1" row on
  exact ⟨s, t, reached, run, gaps, same, settled, r', row', on', vm⟩

end Example

end Fire2.Divergence
