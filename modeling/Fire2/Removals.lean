import Fire2.Statuses

/-! The orchestrator with a record of what it said to the workers: who was asked
to create and to remove which sandbox, and which removals were confirmed.

A cleanup attempt that gives up clears the worker of its sandbox before it ends
it. Between the two statements the row looks like one that never had a worker,
and another attempt that reads it then ends the sandbox as stopped. -/

namespace Fire2.Removals
open Interleaving Lifecycle SandboxRepository Orchestrator

/-- `assigned` is the worker a sandbox has or had last. -/
structure Record where
  world : World
  kinds : Nat → Option Kind
  removing : Nat → Option (WorkerID × SandboxID)
  confirmed : List (WorkerID × SandboxID)
  asked : List (WorkerID × SandboxID)
  assigned : SandboxID → Option WorkerID

def confirms : (c : Call) → c.Answer → Bool
  -- OK and NotFound say that the worker does not have the sandbox
  | .await _ => fun r =>
    match r with
    | .ok _ => true
    | .error err => err.code = .notFound
  | _ => fun _ => false

def Record.after (s : Record) (i : Nat) (c : Call) (a : c.Answer) (world : World) : Record where
  world := world
  kinds := s.kinds
  removing :=
    match c with
    | .sendRemove workerID _ id => Function.update s.removing i (some (workerID, id))
    | .sendCreate .. => Function.update s.removing i none
    | _ => s.removing
  confirmed := if confirms c a then (s.removing i).toList ++ s.confirmed else s.confirmed
  asked :=
    match c with
    | .sendCreate workerID _ req => (workerID, req.id) :: s.asked
    | _ => s.asked
  assigned id := ((world.db.sandbox? id).bind fun r => r.workerID).or (s.assigned id)

def exec : Exec Call Env Record Call.Answer := fun i c e s =>
  (Fire2.exec i c e s.world).map fun r => (r.1, s.after i c r.1 r.2)

def system (allow : Kind → Record → Bool) :
    System Kind Call Env Empty Outcome Record Call.Answer where
  -- the orchestrator, where threads start only as `allow` has it
  exec := exec
  body := body
  start i k s :=
    if enabled k s.world.db && allow k s then
      some { s with kinds := Function.update s.kinds i (some k) }
    else none
  stoppable _ := true
  ext x := nomatch x

abbrev State := Config Kind Call Outcome Record Call.Answer

def initial : State :=
  System.init ⟨⟨.empty, []⟩, fun _ => none, fun _ => none, [], [], fun _ => none⟩

section Steps
variable {i : Nat} {c : Call} {e : Env} {a : c.Answer} {s t : Record}

theorem exec_after (h : exec i c e s = some (a, t)) :
    Fire2.exec i c e s.world = some (a, t.world) ∧ t = s.after i c a t.world := by
  obtain ⟨⟨a', w⟩, ran, eq⟩ := Option.map_eq_some_iff.1 h
  cases eq
  exact ⟨ran, rfl⟩

theorem exec_world (h : exec i c e s = some (a, t)) : answer c e s.world = (a, t.world) :=
  (exec_eq_some (i := i) (exec_after h).1).symm

theorem after_removing {w : World} {j : Nat} (other : j ≠ i) :
    (s.after i c a w).removing j = s.removing j := by
  cases c with
  | sendRemove | sendCreate => exact Function.update_of_ne other _ _
  | _ => rfl

theorem after_confirmed {w : World} {x : WorkerID × SandboxID} (mem : x ∈ s.confirmed) :
    x ∈ (s.after i c a w).confirmed := by
  unfold Record.after
  dsimp only
  split
  · exact List.mem_append_right _ mem
  · exact mem

theorem after_asked {w : World} {x : WorkerID × SandboxID} (mem : x ∈ s.asked) :
    x ∈ (s.after i c a w).asked := by
  cases c with
  | sendCreate => exact List.mem_cons_of_mem _ mem
  | _ => exact mem

theorem after_assigned {w : World} {id : SandboxID} {r : SandboxRow} {workerID : WorkerID}
    (row : w.db.sandbox? id = some r) (held : r.workerID = some workerID) :
    (s.after i c a w).assigned id = some workerID := by
  simp [Record.after, row, held]

end Steps

def removed (s : Record) (id : SandboxID) : Bool :=
  (s.assigned id).all fun workerID => (workerID, id) ∈ s.confirmed

/-- A cleanup attempt does not read a row that another one has cleared without a
confirmation. -/
def undisturbed : Nat → Call → Env → Record → Bool
  | i, .getSandbox id, _, s =>
    match s.kinds i, s.world.db.sandbox? id with
    | some (.cleanupJob ..), some r =>
      r.status ≠ .cleanupPending || r.workerID.isSome || removed s id
    | _, _ => true
  | _, _, _, _ => true

/-- The worker of every sandbox is the one the record has, until it is claimed. -/
structure Tracked (s : Record) : Prop where
  held : ∀ id r workerID, s.world.db.sandbox? id = some r → r.workerID = some workerID →
    s.assigned id = some workerID
  still : ∀ id workerID, s.assigned id = some workerID → ∃ r, s.world.db.sandbox? id = some r ∧
    (r.workerID = some workerID ∨ 5 ≤ rank r.status ∧ r.workerID = none)

/-- The row of every sandbox agrees with the record, and one that has ended
otherwise than failed was removed. -/
structure Recorded (s : Record) : Prop extends Tracked s where
  ended : ∀ id r, s.world.db.sandbox? id = some r → r.status ∈ Status.terminal →
    r.status ≠ .failed → removed s id = true

structure Extends (s t : Record) : Prop where
  grows : Grows released s.world.db t.world.db
  confirmed : ∀ x ∈ s.confirmed, x ∈ t.confirmed
  assigned : ∀ id, Claimed s.world.db id → t.assigned id = s.assigned id
  kept : ∀ id workerID, s.assigned id = some workerID → t.assigned id = some workerID
  asked : ∀ x ∈ s.asked, x ∈ t.asked

theorem Extends.refl (s : Record) : Extends s s :=
  ⟨.refl _, fun _ h => h, fun _ _ => rfl, fun _ _ h => h, fun _ h => h⟩

theorem Extends.trans {s t u : Record} (h : Extends s t) (k : Extends t u) : Extends s u where
  grows := h.grows.trans k.grows
  confirmed x mem := k.confirmed x (h.confirmed x mem)
  assigned id claimed := (k.assigned id (claimed.grows h.grows)).trans (h.assigned id claimed)
  kept id workerID given := k.kept id workerID (h.kept id workerID given)
  asked x mem := k.asked x (h.asked x mem)

theorem Extends.of_kinds (s : Record) (kinds : Nat → Option Kind) :
    Extends s { s with kinds } :=
  ⟨.refl _, fun _ h => h, fun _ _ => rfl, fun _ _ h => h, fun _ h => h⟩

theorem Extends.there {s t : Record} (h : Extends s t) {id : SandboxID}
    (there : ∃ r, s.world.db.sandbox? id = some r) : ∃ r, t.world.db.sandbox? id = some r := by
  obtain ⟨r, row⟩ := there
  obtain ⟨r', row', -⟩ := h.grows.kept id r row
  exact ⟨r', row'⟩

theorem Extends.removed {s t : Record} (h : Extends s t) {id : SandboxID}
    (claimed : Claimed s.world.db id) (done : removed s id = true) :
    Removals.removed t id = true := by
  unfold Removals.removed at done ⊢
  rw [h.assigned id claimed]
  cases worker : s.assigned id with
  | none => rfl
  | some workerID =>
    rw [worker] at done
    exact decide_eq_true (h.confirmed _ (of_decide_eq_true done))

def Settles (c : Call) (s : Record) : Prop :=
  ∀ id status allowedFrom, c = .updateStatus id status allowedFrom → status ∈ Status.terminal →
    status ≠ .failed → removed s id = true

def removalSpec : Spec Call Env Empty Record where
  Inv s := Consistent s.world.db ∧ Recorded s
  Evolves := Extends
  Keeps j s t := t.kinds j = s.kinds j ∧ t.removing j = s.removing j
  Pre _ c s := Careful c s.world.db ∧ Settles c s ∧
    ∀ id status allowedFrom, c = .updateStatus id status allowedFrom → status ∈ Status.terminal →
      Claimed s.world.db id
  Cond i c e s := undisturbed i c e s = true
  Out _ _ := True

section Sound
variable {i : Nat} {c : Call} {e : Env} {s : Record} {id : SandboxID} {r : SandboxRow} {w : World}

theorem steps_finish {may : SandboxRow → Label → Prop} {r r' : SandboxRow} (h : Steps may r r')
    (before : r.status ∉ Status.terminal) (after : r'.status ∈ Status.terminal) :
    ∃ q, may q (.finish r'.status) := by
  induction h with
  | refl => exact absurd after before
  | @tail q r' _ last ih =>
    obtain ⟨l, permitted, move⟩ := last
    by_cases ended : q.status ∈ Status.terminal
    · rw [move.forward.terminal ended]
      exact ih ended
    · cases move with
      | finish target => exact ⟨q, permitted⟩
      | schedule | assign | start | confirm | claim => simp [Status.terminal] at after
      | seen | clear => exact absurd after ended

theorem claimed_of_terminal {db : Database}
    (row : db.sandbox? id = some r) (ended : r.status ∈ Status.terminal) : Claimed db id :=
  ⟨r, row, by rw [rank_terminal.1 ended]; decide⟩

theorem grows_worker {db db' : Database} (consistent : Consistent db)
    (grows : Grows released db db') (row : db.sandbox? id = some r) :
    ∃ r', db'.sandbox? id = some r' ∧ Evolved r r' := by
  obtain ⟨r', row', steps⟩ := grows.kept id r row
  exact ⟨r', row', (steps.evolved (consistent.shape id r row).unassigned).2⟩

theorem after_extends {a : c.Answer} (tracked : Tracked s) (consistent : Consistent s.world.db)
    (grows : Grows released s.world.db w.db) : Extends s (s.after i c a w) := by
  refine ⟨grows, fun x => after_confirmed, fun id claimed => ?_, fun id workerID given => ?_,
    fun x => after_asked⟩
  · obtain ⟨r, row, high⟩ := claimed
    obtain ⟨r', row', evolved⟩ := grows_worker consistent grows row
    simp only [Record.after, row', Option.bind_some]
    cases worker : r'.workerID with
    | none => rfl
    | some workerID =>
      have held : r.workerID = some workerID := by
        rcases evolved.worker with same | ⟨-, low, -⟩ | ⟨gone, -⟩
        · exact same.symm.trans worker
        · omega
        · cases worker.symm.trans gone
      exact (tracked.held id r workerID row held).symm
  · obtain ⟨r, row, had⟩ := tracked.still id workerID given
    obtain ⟨r', row', evolved⟩ := grows_worker consistent grows row
    simp only [Record.after, row', Option.bind_some, given]
    cases worker : r'.workerID with
    | none => rfl
    | some other =>
      refine congrArg some ?_
      rcases had with held | ⟨high, cleared⟩
      · exact evolved.same_worker held worker
      · rcases evolved.worker with same | ⟨-, low, -⟩ | ⟨gone, -⟩
        · cases cleared.symm.trans (same.symm.trans worker)
        · omega
        · cases worker.symm.trans gone

theorem after_tracked {a : c.Answer} (tracked : Tracked s) (consistent : Consistent s.world.db)
    (grows : Grows released s.world.db w.db) : Tracked (s.after i c a w) := by
  have extended : Extends s (s.after i c a w) := after_extends tracked consistent grows
  refine ⟨fun id r workerID row held => after_assigned row held, fun id workerID given => ?_⟩
  cases before : s.assigned id with
  | none =>
    simp only [Record.after, before, Option.or_none, Option.bind_eq_some_iff] at given
    obtain ⟨r, row, held⟩ := given
    exact ⟨r, row, .inl held⟩
  | some old =>
    cases (extended.kept id old before).symm.trans given
    obtain ⟨r, row, had⟩ := tracked.still id workerID before
    obtain ⟨r', row', evolved⟩ := grows_worker consistent grows row
    refine ⟨r', row', ?_⟩
    have later := evolved.status.le
    rcases evolved.worker with same | ⟨free, low, -⟩ | ⟨gone, high⟩
    · rw [same]
      exact had.imp_right fun ⟨high, cleared⟩ => ⟨Nat.le_trans high later, cleared⟩
    · rcases had with held | ⟨high, -⟩
      · cases held.symm.trans free
      · omega
    · exact .inr ⟨high, gone⟩

/-- Whoever was asked to create a sandbox is its worker. -/
structure Dispatched (s : Record) : Prop extends Tracked s where
  consistent : Consistent s.world.db
  asked : ∀ workerID id, (workerID, id) ∈ s.asked → s.assigned id = some workerID

theorem after_dispatched {a : c.Answer} (h : Dispatched s) (careful : Careful c s.world.db)
    (sends : ∀ workerID address req, c = .sendCreate workerID address req →
      s.assigned req.id = some workerID) (ran : answer c e s.world = (a, w)) :
    Dispatched (s.after i c a w) ∧ Extends s (s.after i c a w) := by
  have world : w = (answer c e s.world).2 := (congrArg Prod.snd ran).symm
  have grows : Grows released s.world.db w.db := world ▸ careful.grows e
  have extended : Extends s (s.after i c a w) := after_extends h.toTracked h.consistent grows
  refine ⟨⟨after_tracked h.toTracked h.consistent grows,
    world ▸ consistent_answer h.consistent careful, fun workerID id mem => ?_⟩, extended⟩
  have old (mem : (workerID, id) ∈ s.asked) : (s.after i c a w).assigned id = some workerID :=
    extended.kept id workerID (h.asked workerID id mem)
  cases c with
  | sendCreate k address req =>
    rcases List.mem_cons.1 mem with eq | mem
    · obtain ⟨rfl, rfl⟩ := Prod.mk.inj eq
      exact extended.kept _ _ (sends _ address req rfl)
    · exact old mem
  | _ => exact old mem

theorem ends_removed (pre : removalSpec.Pre i c s) {r r' : SandboxRow}
    (row : s.world.db.sandbox? id = some r) (before : r.status ∉ Status.terminal)
    (row' : (answer c e s.world).2.db.sandbox? id = some r') (after : r'.status ∈ Status.terminal)
    (other : r'.status ≠ .failed) : Claimed s.world.db id ∧ removed s id = true := by
  obtain ⟨careful, settles, claimed⟩ := pre
  obtain ⟨_, found, steps⟩ := (answer_grows careful.1 e).kept id r row
  cases found.symm.trans row'
  obtain ⟨q, granted⟩ := steps_finish steps before after
  generalize label : Label.finish r'.status = l at granted
  cases granted with
  | updateStatus allowed _ =>
    subst label
    cases allowed
    exact ⟨claimed id _ _ rfl after, settles id _ _ rfl after other⟩
  | confirmFenced | assign | clear | delete | cleanup | reap | seen | confirm | claim => cases label

theorem after_recorded {a : c.Answer} (h : removalSpec.Inv s) (pre : removalSpec.Pre i c s)
    (ran : answer c e s.world = (a, w)) : Recorded (s.after i c a w) := by
  have careful := pre.1
  have world : w = (answer c e s.world).2 := (congrArg Prod.snd ran).symm
  have grows : Grows released s.world.db w.db := world ▸ careful.grows e
  have extended : Extends s (s.after i c a w) := after_extends h.2.toTracked h.1 grows
  refine ⟨after_tracked (i := i) (a := a) h.2.toTracked h.1 grows, fun id r' row' ended other => ?_⟩
  have row' : w.db.sandbox? id = some r' := row'
  cases row : s.world.db.sandbox? id with
  | none =>
    have born := answer_fresh careful.1 (e := e) row (world ▸ row')
    rw [born.1] at ended
    exact absurd ended (by decide)
  | some r =>
    by_cases before : r.status ∈ Status.terminal
    · obtain ⟨_, found, steps⟩ := grows.kept id r row
      cases found.symm.trans row'
      rw [steps.forward.terminal before] at other
      exact extended.removed (claimed_of_terminal row before) (h.2.ended id r row before other)
    · obtain ⟨claimed, done⟩ := ends_removed (e := e) pre row before (world ▸ row') ended other
      exact extended.removed claimed done

theorem removalSpec_sound : removalSpec.Sound exec where
  evolves_refl := .refl
  evolves_trans := .trans
  keeps_refl _ _ := ⟨rfl, rfl⟩
  keeps_trans h k := ⟨k.1.trans h.1, k.2.trans h.2⟩
  step {i c e s a t} inv pre _ ran := by
    have answered := exec_world ran
    have world : t.world = (answer c e s.world).2 := (congrArg Prod.snd answered).symm
    have consistent : Consistent t.world.db := world ▸ consistent_answer inv.1 pre.1
    have recorded := after_recorded inv pre answered
    have grows : Grows released s.world.db t.world.db := world ▸ pre.1.grows e
    have extended := after_extends (i := i) (a := a) inv.2.toTracked inv.1 grows
    rw [← (exec_after ran).2] at recorded extended
    refine ⟨⟨consistent, recorded⟩, extended, fun j other => ?_⟩
    rw [(exec_after ran).2]
    exact ⟨rfl, after_removing other⟩

end Sound

section Programs
variable {i : Nat} {id : SandboxID} {s : Record}

theorem wp_ask {α : Type} {Q : α → Record → Prop} {c : Call} {f : c.Answer → Job α}
    (h : ∀ t, removalSpec.Inv t → removalSpec.Rely i s t → removalSpec.Pre i c t ∧
      ∀ e a u, undisturbed i c e t = true → exec i c e t = some (a, u) → removalSpec.Inv u →
        Extends s u → WP exec removalSpec i Q (f a) u) :
    WP exec removalSpec i Q (ask c >>= f) s :=
  .step removalSpec_sound h

theorem pre_of_careful {c : Call} (careful : Careful c s.world.db)
    (other : ∀ id status allowedFrom, c = .updateStatus id status allowedFrom →
      status ∉ Status.terminal) : removalSpec.Pre i c s :=
  ⟨careful, fun id status allowedFrom eq ends => absurd ends (other id status allowedFrom eq),
    fun id status allowedFrom eq ends => absurd ends (other id status allowedFrom eq)⟩

theorem finish_wp {target : Status} (ht : target ∈ Status.terminal) (freed : Freed s.world.db id)
    (settled : target = .failed ∨ removed s id = true) :
    WP exec removalSpec i (fun _ _ => True) (CleanupSandboxWorker.finish id target) s := by
  have claimed : Claimed s.world.db id := by
    obtain ⟨r, row, high, -⟩ := freed
    exact ⟨r, row, high⟩
  refine wp_ask fun t inv rely => ⟨⟨⟨⟨_, .ended target ht⟩, ?_, nofun⟩, ?_, ?_⟩,
    fun e a u _ _ _ _ => ?_⟩
  · rintro k status allowedFrom ⟨⟩ - r row
    obtain ⟨r', row', -, free⟩ := freed.grows rely.1.grows
    cases row'.symm.trans row
    exact free
  · rintro k status allowedFrom ⟨⟩ - other
    exact rely.1.removed claimed (settled.resolve_left other)
  · rintro k status allowedFrom ⟨⟩ -
    exact claimed.grows rely.1.grows
  · cases a <;> exact .ret trivial

theorem clear_wp {target : Status} (ht : target ∈ Status.terminal) (claimed : Claimed s.world.db id)
    (settled : target = .failed ∨ removed s id = true) :
    WP exec removalSpec i (fun _ _ => True) (CleanupSandboxWorker.clear id target) s := by
  refine wp_ask fun t inv rely => ⟨pre_of_careful ⟨trivial, nofun, nofun⟩ nofun,
    fun e a u _ ran _ ext => ?_⟩
  cases a with
  | error err => exact .ret trivial
  | ok _ =>
    refine finish_wp ht ?_ (settled.imp_right (ext.removed claimed))
    have answered := exec_world ran
    simp only [answer, statement] at answered
    have done := congrArg (fun p => p.2.db) (faulty_ok answered)
    have done : clearWorker id t.world.db = u.world.db := done
    rw [← done]
    exact (claimed.grows rely.1.grows).freed inv.1

theorem remove_wp {workerID : WorkerID} (claimed : Claimed s.world.db id)
    (assigned : s.assigned id = some workerID) :
    WP exec removalSpec i (fun r t => Claimed t.world.db id ∧ (r = none → removed t id = true))
      (removeSandboxOnWorker workerID id) s := by
  have pre (c : Call) (h : RemoveCall workerID id c) (t : Record) : removalSpec.Pre i c t := by
    refine pre_of_careful (careful_of_remove h _) ?_
    rintro k status allowedFrom rfl
    exact h.elim
  have failed (err : Err) {t : Record} (ext : Extends s t) :
      WP exec removalSpec i (fun r t => Claimed t.world.db id ∧ (r = none → removed t id = true))
        (.ret (some err)) t := .ret ⟨claimed.grows ext.grows, nofun⟩
  refine wp_ask fun t _ _ => ⟨pre (.getWorker workerID) rfl t, fun e a u _ _ _ ext => ?_⟩
  obtain err | worker := a
  · exact failed _ ext
  refine wp_ask fun t _ rely => ⟨pre (.newClient _) trivial t, fun e a u _ _ _ ext' => ?_⟩
  obtain err | _ := a
  · exact failed _ (ext.trans ext')
  refine wp_ask fun t _ rely => ⟨pre (.sendRemove _ _ _) ⟨rfl, rfl⟩ t,
    fun e ref u _ ran _ ext'' => ?_⟩
  have waiting : u.removing i = some (workerID, id) := by
    rw [(exec_after ran).2]
    exact Function.update_self _ _ _
  have ext := (ext.trans ext').trans ext''
  refine wp_ask fun t _ rely => ⟨pre (.await _) trivial t, fun e a v _ ran _ ext' => ?_⟩
  have ext := ext.trans ext'
  have told (yes : confirms (.await ref) a = true) : removed v id = true := by
    have same : v.assigned id = some workerID := (ext.assigned id claimed).trans assigned
    have mem : (workerID, id) ∈ v.confirmed := by
      rw [(exec_after ran).2]
      simp [Record.after, yes, rely.2.2.trans waiting]
    unfold removed
    rw [same]
    exact decide_eq_true mem
  obtain err | _ := a
  · dsimp only
    split
    · rename_i gone
      exact .ret ⟨claimed.grows ext.grows, fun _ => told (decide_eq_true gone)⟩
    · exact failed _ ext
  · exact .ret ⟨claimed.grows ext.grows, fun _ => told rfl⟩

theorem cleanupJob_wp {target : Option Status} {isFinal : Bool} (known : Target target)
    (claimed : Claimed s.world.db id) (mine : s.kinds i = some (.cleanupJob id target isFinal)) :
    WP exec removalSpec i (fun _ _ => True) (CleanupSandboxWorker.work id target isFinal) s := by
  refine wp_ask fun t inv rely => ⟨pre_of_careful ⟨trivial, nofun, nofun⟩ nofun,
    fun e a u may ran inv' ext => ?_⟩
  cases a with
  | error err => exact .ret trivial
  | ok sbx =>
    obtain ⟨same, r, row, rfl⟩ := getSandbox_ok (exec_world ran)
    have row' : u.world.db.sandbox? id = some r := same ▸ row
    have still := claimed.grows ext.grows
    dsimp only
    split
    · exact .ret trivial
    rename_i open_
    split
    · rename_i none
      obtain ⟨_, found, high⟩ := still
      cases row'.symm.trans found
      refine finish_wp known.terminal ⟨r, row', high, none⟩ (.inr ?_)
      have pending : r.status = .cleanupPending := by
        cases status : r.status <;> simp_all [rank, Status.terminal, scanSandbox]
      have free : r.workerID = Option.none := none
      have read : removed t id = true := by
        simpa [undisturbed, rely.2.1.trans mine, row, pending, free] using may
      have unchanged : u.assigned id = t.assigned id ∧ u.confirmed = t.confirmed := by
        rw [(exec_after ran).2]
        simp [Record.after, confirms, row', free]
      unfold removed at read ⊢
      rw [unchanged.1, unchanged.2]
      exact read
    · rename_i workerID held
      refine (remove_wp still (inv'.2.held id r workerID row' held)).bind fun a v told => ?_
      split
      · exact clear_wp known.terminal told.1 (.inr (told.2 rfl))
      split
      · exact clear_wp (by decide) told.1 (.inl rfl)
      · exact .ret trivial

end Programs

theorem disciplined (allow : Kind → Record → Bool) :
    (system allow).Disciplined removalSpec fun _ _ _ _ => True where
  sound := removalSpec_sound
  start i k s t inv started := by
    simp only [system] at started
    split at started
    · rename_i may
      have on := (Bool.and_eq_true_iff.1 may).1
      cases started
      have inv' : removalSpec.Inv { s with kinds := Function.update s.kinds i (some k) } :=
        ⟨inv.1, ⟨inv.2.held, inv.2.still⟩, inv.2.ended⟩
      refine ⟨inv', .of_kinds s _,
        fun j other => ⟨Function.update_of_ne other _ _, rfl⟩, ?_⟩
      by_cases request : k.isRequest = true
      · refine WP.of_asks removalSpec_sound (fun _ _ _ _ => trivial) (fun c s h _ _ => ?_)
          (fun _ _ _ _ _ ran => exec_answered (i := i) (exec_after ran).1)
          (request_calls request) trivial
        refine pre_of_careful (careful_of_request h _) ?_
        rintro id status allowedFrom rfl
        exact h.elim
      cases k with
      | createJob id isFinal =>
        have there : ∃ r, s.world.db.sandbox? id = some r := inv.1.jobs _ (of_decide_eq_true on)
        refine wp_job (WP.mono (fun _ _ _ => trivial) (WP.of_asks removalSpec_sound
          (φ := fun s => ∃ r, s.world.db.sandbox? id = some r) (fun s t there ext => ?_)
          (fun c s h _ there => ?_) (fun _ _ _ _ _ ran => exec_answered (i := i) (exec_after ran).1)
          createJob_calls there))
        · obtain ⟨r, row⟩ := there
          obtain ⟨r', row', -⟩ := ext.grows.kept id r row
          exact ⟨r', row'⟩
        · refine pre_of_careful (careful_of_create h there) ?_
          rintro k status allowedFrom rfl ends
          have mem := h.2
          simp only [List.mem_cons, Prod.mk.injEq, List.not_mem_nil, or_false] at mem
          rcases mem with ⟨rfl, -⟩ | ⟨rfl, -⟩ | ⟨rfl, -⟩ <;> exact absurd ends (by decide)
      | cleanupJob id target isFinal =>
        obtain ⟨known, claimed⟩ := inv.1.jobs _ (of_decide_eq_true on)
        exact wp_job (cleanupJob_wp known claimed (Function.update_self _ _ _))
      | removeOrphanJob workerID id =>
        refine wp_job (WP.of_asks removalSpec_sound (fun _ _ _ _ => trivial) (fun c s h _ _ => ?_)
          (fun _ _ _ _ _ ran => exec_answered (i := i) (exec_after ran).1)
          removeSandboxOnWorker_calls trivial)
        refine pre_of_careful (careful_of_remove h _) ?_
        rintro id status allowedFrom rfl
        exact h.elim
      | _ => cases request rfl
    · cases started
  ext x := nomatch x

abbrev Undisturbed : State → State → Prop :=
  -- runs in which no cleanup attempt reads what another has cleared without a confirmation
  (system fun _ _ => true).ReachesWhen undisturbed fun _ _ => true

section Runs
variable {s t u : State} {id : SandboxID} {workerID : WorkerID}

theorem initial_dispatched : Dispatched initial.shared where
  held _ _ _ row := nomatch row
  still _ _ given := nomatch given
  consistent := consistent_initial
  asked _ _ mem := nomatch mem

theorem initial_inv : removalSpec.Inv initial.shared :=
  ⟨consistent_initial, initial_dispatched.toTracked, fun _ _ row => nomatch row⟩

theorem undisturbed_safe (h : Undisturbed initial s) :
    (system fun _ _ => true).Safe removalSpec (fun _ _ _ _ => True) s ∧
      ∀ {t : State}, Undisturbed s t → Extends s.shared t.shared := by
  have meets {s t : State} (h : Undisturbed s t) :
      (system fun _ _ => true).ReachesIf removalSpec.Cond removalSpec.Out s t :=
    System.ReachesIf.mono (fun _ _ _ _ met => met) (fun _ _ _ => trivial) h
  have safe := (System.safe_reachesIf (disciplined _) (System.safe_init initial_inv) (meets h)).1
  exact ⟨safe, fun later => (System.safe_reachesIf (disciplined _) safe (meets later)).2⟩

/-- As long as no cleanup attempt reads what another one has cleared, a sandbox
that had a worker comes to its end as failed, unless the worker has confirmed
its removal before. -/
theorem ended_after_removal {a : Action Kind Env Empty} {q r r' : SandboxRow}
    (hu : Undisturbed initial u) (had : u.shared.world.db.sandbox? id = some q)
    (worker : q.workerID = some workerID) (later : Undisturbed u s)
    (may : System.meets undisturbed (fun _ _ => true) s a = true)
    (h : (system fun _ _ => true).step s a = some t)
    (row : s.shared.world.db.sandbox? id = some r) (before : r.status ∉ Status.terminal)
    (row' : t.shared.world.db.sandbox? id = some r') (after : r'.status ∈ Status.terminal) :
    r'.status = .failed ∨ (workerID, id) ∈ s.shared.confirmed := by
  obtain ⟨safe, extended⟩ := undisturbed_safe hu
  have given := (extended later).kept id workerID (safe.inv.2.held id q workerID had worker)
  obtain ⟨safe, -⟩ := undisturbed_safe (hu.trans later)
  obtain ⟨k, v, rfl, started, rfl⟩ | ⟨i, e, k, c, f, a, v, rfl, thread, ran, rfl⟩ |
    ⟨i, th, -, -, -, rfl⟩ | ⟨x, -⟩ := System.step_cases h
  · have same : v.world = s.shared.world := by
      simp only [system] at started
      split at started <;> cases started
      rfl
    rw [same] at row'
    cases row.symm.trans row'
    exact absurd after before
  · have world : v.world = (answer c e s.shared.world).2 :=
      (congrArg Prod.snd (exec_world ran)).symm
    have row' : v.world.db.sandbox? id = some r' := row'
    rw [world] at row'
    refine or_iff_not_imp_left.2 fun other => ?_
    have pre := System.safe_pre (disciplined _) safe thread
    have done := (ends_removed pre row before row' after other).2
    rw [removed, given] at done
    exact of_decide_eq_true done
  · cases row.symm.trans row'
    exact absurd after before
  · exact nomatch x

end Runs

def givenUpTwice : List (Action Kind Env Empty) :=
  -- the last create attempt of a sandbox was given up twice: by the user's delete and by the
  -- attempt itself, so it has two cleanup jobs
  firstCreated ++ .spawn (.createJob firstID true) :: List.replicate 12 (.call 2 {}) ++
    [.spawn (.deleteSandbox (some "user-1") firstID), .call 3 {}, .call 3 {},
      .call 2 { rpc := some (.deadlineExceeded, "context deadline exceeded") }, .call 2 {}]

def givesUp : List (Action Kind Env Empty) :=
  -- the last attempt of the second job does not reach the worker, and clears it
  [.spawn (.cleanupJob firstID none true), .call 4 {}, .call 4 {}, .call 4 {}, .call 4 {},
    .call 4 { rpc := some (.unavailable, "connection refused") }, .call 4 {}]

def readsCleared : List (Action Kind Env Empty) :=
  [.spawn (.cleanupJob firstID (some .stopped) false), .call 5 {}]

def link (s : State) : Option (Status × Option WorkerID) :=
  (s.shared.world.db.sandbox? firstID).map fun r => (r.status, r.workerID)

theorem ended_after_removal_failed : ∃ u s t q r r', Undisturbed initial u ∧
    u.shared.world.db.sandbox? firstID = some q ∧ q.workerID = some "worker-1" ∧
    (system fun _ _ => true).step s (.call 4 {}) = some t ∧
    s.shared.world.db.sandbox? firstID = some r ∧ t.shared.world.db.sandbox? firstID = some r' ∧
    r.status = .cleanupPending ∧ r'.status = .failed := by
  -- the second job ends the sandbox as failed, as nobody has removed it
  have run : (((system fun _ _ => true).runIf undisturbed
    (fun _ _ => true) initial givenUpTwice).bind
      fun u => ((system fun _ _ => true).runIf undisturbed (fun _ _ => true) u givesUp).bind
      fun s =>
        ((system fun _ _ => true).step s (.call 4 {})).map fun t =>
          (System.meets undisturbed (fun _ _ => true) s (.call 4 {} : Action Kind Env Empty) &&
            s.shared.confirmed.isEmpty, [link u, link s, link t])) =
      some (true, [some (.cleanupPending, some "worker-1"), some (.cleanupPending, none),
        some (.failed, none)]) := by
    decide +kernel
  simp only [Option.bind_eq_some_iff, Option.map_eq_some_iff, Prod.mk.injEq, List.cons.injEq,
    Bool.and_eq_true, link] at run
  obtain ⟨u, hu, s, hs, t, step, ⟨may, none⟩, ⟨q, had, -, worker⟩, ⟨r, row, pending, -⟩,
    ⟨r', row', failed, -⟩, -⟩ := run
  have ended := ended_after_removal (System.reachesWhen_of_runIf hu) had worker
    (System.reachesWhen_of_runIf hs) may step row (by rw [pending]; decide) row'
    (by rw [failed]; decide)
  rw [List.isEmpty_iff.1 none] at ended
  exact ⟨u, s, t, q, r, r', System.reachesWhen_of_runIf hu, had, worker, step, row, row', pending,
    ended.resolve_right List.not_mem_nil⟩

theorem stopped_unconfirmed : ∃ u s q r, (system fun _ _ => true).Reaches initial u ∧
    u.shared.world.db.sandbox? firstID = some q ∧ q.workerID = some "worker-1" ∧
    (system fun _ _ => true).Reaches u s ∧ s.shared.world.db.sandbox? firstID = some r ∧
    r.status = .stopped ∧ s.shared.confirmed = [] := by
  -- the first job ends it as stopped, though the worker has confirmed nothing
  have run : (((system fun _ _ => true).run initial givenUpTwice).bind fun u =>
      ((system fun _ _ => true).run u (givesUp ++ readsCleared ++ [.call 5 {}])).map fun s =>
        (link u, link s, s.shared.confirmed)) =
      some (some (.cleanupPending, some "worker-1"), some (.stopped, none), []) := by
    decide +kernel
  simp only [Option.bind_eq_some_iff, Option.map_eq_some_iff, Prod.mk.injEq, link] at run
  obtain ⟨u, hu, s, hs, ⟨q, had, -, worker⟩, ⟨r, row, stopped, -⟩, none⟩ := run
  exact ⟨u, s, q, r, System.reaches_of_run hu, had, worker, System.reaches_of_run hs, row, stopped,
    none⟩

end Fire2.Removals
