import Fire2.CreateFlow
import Fire2.Removals

/-! Who RemoveSandbox is sent for. An orphan removal is decided when a worker
lists a sandbox that the database does not attribute to it, and sent by a job
any time later. The worker was asked to create what it lists, it was asked only
once the sandbox was assigned to it, and an assigned sandbox leaves its worker
only by being claimed: so what is removed was claimed before, for good. -/

namespace Fire2.Orphans
open Interleaving Lifecycle SandboxRepository Orchestrator Removals

/-- A worker lists only what it was asked to create: an ID comes to its Manager
by CreateSandbox or, after a restart, from the disk of the same host. -/
def listsAsked : Kind → Record → Bool
  | .reportHeartbeat req, s => req.sandboxes.all fun entry =>
      trimSpace entry.sandboxID = "" ||
        s.asked.contains (trimSpace req.workerID, trimSpace entry.sandboxID)
  | _, _ => true

theorem add_ids {inv : Inventory} {id k : SandboxID} {state : SandboxState}
    (h : k ∈ (EventGRPCServer.Inventory.add inv id state).ids) : k ∈ inv.ids ∨ k = id := by
  cases state <;> simp only [EventGRPCServer.Inventory.add, Inventory.ids, List.mem_append,
    List.mem_singleton] at h ⊢ <;> tauto

theorem inventory_ids {entries : List InventoryEntry} {k : SandboxID}
    (h : k ∈ (EventGRPCServer.inventoryFromEntries entries).ids) :
    ∃ entry ∈ entries, trimSpace entry.sandboxID = k ∧ k ≠ "" := by
  unfold EventGRPCServer.inventoryFromEntries at h
  -- over the entries left, from any inventory that was built so far
  generalize built : ((⟨[], [], [], []⟩, []) : Inventory × List SandboxID) = acc at h
  have fold : k ∈ acc.1.ids ∨ ∃ entry ∈ entries, trimSpace entry.sandboxID = k ∧ k ≠ "" := by
    clear built
    induction entries generalizing acc with
    | nil => exact .inl h
    | cons entry rest ih =>
      simp only [List.foldl_cons] at h
      obtain old | ⟨other, mem, eq⟩ := ih _ h
      · split at old
        · exact .inl old
        · rename_i fresh
          refine (add_ids old).imp_right fun eq => ⟨entry, List.mem_cons_self, eq.symm, ?_⟩
          rw [eq]
          exact fun blank => fresh (.inl blank)
      · exact .inr ⟨other, List.mem_cons_of_mem _ mem, eq⟩
  refine fold.resolve_left ?_
  simp [← built, Inventory.ids]

/-- What is to be removed as an orphan was claimed. -/
structure Traced (s : Record) : Prop extends Dispatched s where
  orphans : ∀ workerID id, JobArgs.removeOrphan workerID id ∈ s.world.db.jobs →
    Claimed s.world.db id

/-- A worker is asked to create what is assigned to it, to remove what was
claimed, and lists what it was asked to create. -/
def Spoken (s : Record) : Call → Prop
  | .sendCreate workerID _ req => s.assigned req.id = some workerID
  | .sendRemove _ _ id => Claimed s.world.db id
  | .reconcileTx w inv => ∀ id ∈ inv.ids, (w.id, id) ∈ s.asked
  | _ => True

def orphanSpec : Spec Call Env Empty Record where
  Inv := Traced
  Evolves := Extends
  Keeps _ _ _ := True
  Pre _ c s := Careful c s.world.db ∧ Spoken s c
  Cond _ _ _ _ := True
  Out _ _ := True

section Sound
variable {i : Nat} {c : Call} {e : Env} {s t : Record}

theorem tracked_claimed (h : Tracked s) {workerID : WorkerID} {id : SandboxID}
    (given : s.assigned id = some workerID) (alien : ∀ r, s.world.db.sandbox? id = some r →
      r.workerID = some workerID → r.status ∈ Status.terminal) : Claimed s.world.db id := by
  obtain ⟨r, row, held | ⟨high, -⟩⟩ := h.still id workerID given
  · exact claimed_of_terminal row (alien r row held)
  · exact ⟨r, row, high⟩

theorem traced_after {a : c.Answer} {w : World} (h : Traced s) (careful : Careful c s.world.db)
    (spoken : Spoken s c) (ran : answer c e s.world = (a, w)) :
    Traced (s.after i c a w) ∧ Extends s (s.after i c a w) := by
  have world : w = (answer c e s.world).2 := (congrArg Prod.snd ran).symm
  obtain ⟨dispatched, extended⟩ := after_dispatched (i := i) h.toDispatched careful
    (fun workerID address req eq => by subst eq; exact spoken) ran
  refine ⟨⟨dispatched, fun workerID id mem => ?_⟩, extended⟩
  have mem : JobArgs.removeOrphan workerID id ∈ (answer c e s.world).2.db.jobs := world ▸ mem
  obtain earlier | ⟨v, inv, rfl, rfl, listed, alien⟩ := answer_jobs careful.1 mem
  · exact (h.orphans workerID id earlier).grows extended.grows
  · have given := extended.kept id v.id (h.asked v.id id (spoken id listed))
    exact tracked_claimed dispatched.toTracked given (world ▸ alien)

theorem orphanSpec_sound : orphanSpec.Sound Removals.exec where
  evolves_refl := .refl
  evolves_trans := .trans
  keeps_refl _ _ := trivial
  keeps_trans _ _ := trivial
  step {i c e s a t} inv pre _ ran := by
    obtain ⟨traced, extended⟩ := traced_after (i := i) inv pre.1 pre.2 (exec_world ran)
    rw [← (exec_after ran).2] at traced extended
    exact ⟨traced, extended, fun _ _ => trivial⟩

end Sound

section Programs
variable {i : Nat} {id : SandboxID} {s : Record}

theorem answered (c : Call) (e : Env) (s : Record) (r : c.Answer) (t : Record)
    (ran : Removals.exec i c e s = some (r, t)) : Answered c r :=
  exec_answered (i := i) (exec_after ran).1

theorem Traced.assigned {t : Record} (h : Traced t) {r : SandboxRow} {workerID : WorkerID}
    (row : t.world.db.sandbox? id = some r) (held : r.workerID = some workerID) :
    t.assigned id = some workerID :=
  h.held id r workerID row held

def createFlow (i : Nat) (id : SandboxID) : Flow Removals.exec orphanSpec i id where
  There s := ∃ r, s.world.db.sandbox? id = some r
  Bound workerID s := s.assigned id = some workerID
  Sent _ _ _ := True
  Up _ _ := True
  sound := orphanSpec_sound
  answered := answered
  there_kept s t there evolved := evolved.there there
  bound_kept w s t bound evolved := evolved.kept id w bound
  up_kept _ _ _ _ _ := trivial
  sent_kept _ _ _ _ _ _ := trivial
  plain c s plain inv there := by
    refine ⟨careful_of_create plain.create there, ?_⟩
    cases c with
    | sendCreate => exact plain.elim
    | sendRemove => exact plain.elim
    | reconcileTx => exact plain.elim
    | _ => trivial
  send w address req s same inv there bound := by
    subst same
    have create : CreateCall req.id (.sendCreate w address req) := rfl
    exact ⟨careful_of_create create there, bound⟩
  start w s inv there _ _ := ⟨careful_of_create (c := .updateStatus id .starting [.assigned])
    ⟨rfl, by decide⟩ there, trivial⟩
  read e s sbx t w ran inv held := by
    obtain ⟨same, r, row, rfl⟩ := getSandbox_ok (exec_world ran)
    exact inv.assigned (same ▸ row) held
  assigned k e s sbx t w ran inv held := by
    obtain ⟨r, row, rfl⟩ := assignWorker_row (exec_world ran)
    exact inv.assigned row held
  sent _ _ _ _ _ _ _ _ _ _ _ _ := trivial
  up _ _ _ _ _ _ _ _ _ := trivial

theorem remove_wp {workerID : WorkerID} (claimed : Claimed s.world.db id) :
    WP Removals.exec orphanSpec i (fun _ t => Claimed t.world.db id)
      (removeSandboxOnWorker workerID id) s := by
  refine WP.of_asks orphanSpec_sound
    (fun s t claimed evolved => claimed.grows evolved.grows)
    (fun c s h _ claimed => ⟨careful_of_remove h _, ?_⟩) answered
    removeSandboxOnWorker_calls claimed
  cases c with
  | sendRemove => exact h.2 ▸ claimed
  | sendCreate => exact h.elim
  | reconcileTx => exact h.elim
  | _ => trivial

theorem cleanupJob_wp {target : Option Status} {isFinal : Bool} (known : Target target)
    (claimed : Claimed s.world.db id) :
    WP Removals.exec orphanSpec i (fun _ _ => True)
    (CleanupSandboxWorker.work id target isFinal) s := by
  refine WP.mono (fun _ _ _ => trivial) (WP.lift orphanSpec_sound Record.world
    (fun s inv => inv.consistent) (fun s t rely => ⟨rely.1.grows, trivial⟩)
    (fun c e s a t _ _ ran => ⟨e, trivial, (exec_after ran).1⟩)
    (φ := fun s => Claimed s.world.db id)
    (fun s t claimed evolved => claimed.grows evolved.grows)
    (fun c s h _ claimed careful => ⟨careful, ?_⟩) answered rfl (cleanupJob_calls known) claimed
    (Orchestrator.cleanupJob_wp known claimed))
  cases c with
  | sendRemove => exact (h : _ = id) ▸ claimed
  | sendCreate => exact h.elim
  | reconcileTx => exact h.elim
  | _ => trivial

end Programs

theorem spoken_of_handler {c : Call} (h : HandlerCall c) (s : Record) : Spoken s c := by
  cases c with
  | sendCreate | sendRemove | reconcileTx => exact h.elim
  | _ => trivial

theorem heartbeat_wp {i : Nat} {req : WorkerHeartbeat} {s : Record}
    (lists : listsAsked (.reportHeartbeat req) s = true) :
    WP Removals.exec orphanSpec i (fun _ _ => True) (body (.reportHeartbeat req)) s := by
  have calls : Calls (body (.reportHeartbeat req)) (HeartbeatCall req) :=
    (reportWorkerHeartbeat_calls.mono fun _ h => h.2.2).bind fun _ => .ret _
  refine WP.mono (fun _ _ _ => trivial) (WP.of_asks orphanSpec_sound
    (φ := fun s => listsAsked (.reportHeartbeat req) s = true) (fun s t lists evolved => ?_)
    (fun c s h _ lists => ⟨careful_of_request h.token.request _, ?_⟩) answered calls lists)
  · simp only [listsAsked, List.all_eq_true, Bool.or_eq_true, decide_eq_true_eq,
      List.contains_iff_mem] at lists ⊢
    exact fun entry mem => (lists entry mem).imp_right (evolved.asked _)
  · cases c with
    | reconcileTx w inv =>
      obtain ⟨⟨named, -⟩, rfl⟩ := h
      intro id listed
      obtain ⟨entry, mem, rfl, blank⟩ := inventory_ids listed
      simp only [listsAsked, List.all_eq_true, Bool.or_eq_true, decide_eq_true_eq,
      List.contains_iff_mem] at lists
      exact named ▸ (lists entry mem).resolve_left blank
    | sendCreate | sendRemove => exact h.elim
    | _ => trivial

theorem handler_wp {i : Nat} {k : Kind} {s : Record} (h : k.isHandler = true) :
    WP Removals.exec orphanSpec i (fun _ _ => True) (body k) s :=
  WP.of_asks orphanSpec_sound (fun _ _ _ _ => trivial)
    (fun _ s h _ _ => ⟨careful_of_request h.request _, spoken_of_handler h s⟩) answered
    (handler_calls h) trivial

theorem disciplined : (Removals.system listsAsked).Disciplined orphanSpec fun _ _ _ _ => True where
  sound := orphanSpec_sound
  start i k s t inv started := by
    simp only [Removals.system] at started
    split at started
    · rename_i may
      obtain ⟨on, lists⟩ := Bool.and_eq_true_iff.1 may
      cases started
      have inv' : orphanSpec.Inv { s with kinds := Function.update s.kinds i (some k) } :=
        ⟨⟨⟨inv.held, inv.still⟩, inv.consistent, inv.asked⟩, inv.orphans⟩
      refine ⟨inv', .of_kinds s _, fun _ _ => trivial, ?_⟩
      by_cases handler : k.isHandler = true
      · exact handler_wp handler
      cases k with
      | createJob id isFinal =>
        exact wp_job ((createFlow i id).work_wp (inv.consistent.jobs _ (of_decide_eq_true on)))
      | cleanupJob id target isFinal =>
        obtain ⟨known, claimed⟩ := inv.consistent.jobs _ (of_decide_eq_true on)
        exact wp_job (cleanupJob_wp known claimed)
      | removeOrphanJob workerID id =>
        exact wp_job (remove_wp (inv.orphans workerID id (of_decide_eq_true on)))
      | reportHeartbeat req => exact heartbeat_wp lists
      | _ => cases handler rfl
    · cases started
  ext x := nomatch x

theorem initial_traced : Traced Removals.initial.shared where
  toDispatched := initial_dispatched
  orphans _ _ mem := nomatch mem

theorem claimed_inactive {db : Database} {id : SandboxID} {workerID : WorkerID} {r : SandboxRow}
    (claimed : Claimed db id) (row : db.sandbox? id = some r) : activeOn workerID r = false := by
  obtain ⟨r', row', high⟩ := claimed
  cases row'.symm.trans row
  refine decide_eq_false fun active => ?_
  revert high
  have mem := active.2
  simp only [Status.active, List.mem_cons, List.not_mem_nil, or_false] at mem
  rcases mem with eq | eq | eq <;> rw [eq] <;> decide

/-- When RemoveSandbox is sent to a worker, the sandbox is not assigned, starting
or running there, and never will be again. -/
theorem removal_spares_active {s t : Removals.State}
    (hs : (Removals.system listsAsked).Reaches Removals.initial s) {i : Nat}
    {k : Kind} {workerID : WorkerID} {address : String} {id : SandboxID} {f : Nat → Job Outcome}
    (sends : s.threads i = some ⟨k, .call (.sendRemove workerID address id) f⟩)
    (later : (Removals.system listsAsked).Reaches s t) {r : SandboxRow}
    (row : t.shared.world.db.sandbox? id = some r) : activeOn workerID r = false := by
  have safe := (System.safe_reaches disciplined (fun _ _ _ _ => trivial) (fun _ _ => trivial)
    (System.safe_init initial_traced) hs).1
  have claimed : Claimed s.shared.world.db id := (System.safe_pre disciplined safe sends).2
  have follows := (System.safe_reaches disciplined (fun _ _ _ _ => trivial) (fun _ _ => trivial)
    safe later).2
  exact claimed_inactive (claimed.grows follows.grows) row

def removes (s : Removals.State) (i : Nat) : Option (WorkerID × SandboxID) :=
  match s.threads i with
  | some ⟨_, .call (.sendRemove workerID _ id) _⟩ => some (workerID, id)
  | _ => none

theorem removes_eq_some {s : Removals.State} {i : Nat} {workerID : WorkerID} {id : SandboxID}
    (h : removes s i = some (workerID, id)) :
    ∃ k address f, s.threads i = some ⟨k, .call (.sendRemove workerID address id) f⟩ := by
  unfold removes at h
  split at h
  · rename_i k w address x f found
    cases h
    exact ⟨k, address, f, found⟩
  · cases h

def lateList : WorkerHeartbeat :=
  { firstHello with
    fencingToken := 1, inventoryComplete := true, sandboxes := [⟨firstID, .running⟩] }

def orphanFound : List (Action Kind Env Empty) :=
  givenUpTwice ++ givesUp ++ [.call 4 {}, .spawn (.reportHeartbeat lateList),
    .call 5 {}, .call 5 {}, .spawn (.removeOrphanJob "worker-1" firstID), .call 6 {}, .call 6 {}]

theorem removal_spares_active_orphan :
    ∃ s r, (Removals.system listsAsked).Reaches Removals.initial s ∧
    removes s 6 = some ("worker-1", firstID) ∧ s.shared.world.db.sandbox? firstID = some r ∧
    r.status = .failed ∧ activeOn "worker-1" r = false := by
  have run : ((Removals.system listsAsked).run Removals.initial orphanFound).map
      (fun s => (removes s 6, link s)) =
      some (some ("worker-1", firstID), some (.failed, none)) := by
    decide +kernel
  simp only [Option.map_eq_some_iff, Prod.mk.injEq, link] at run
  obtain ⟨s, hs, sends, r, row, failed, -⟩ := run
  obtain ⟨k, address, f, at_call⟩ := removes_eq_some sends
  have reached := System.reaches_of_run hs
  exact ⟨s, r, reached, sends, row, failed, removal_spares_active reached at_call .refl row⟩

end Fire2.Orphans
