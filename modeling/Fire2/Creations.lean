import Fire2.CreateFlow
import Fire2.Removals

/-! The orchestrator with a record of which creations were answered OK. A worker
is asked to create only what is assigned to it, and a sandbox is starting or
running only once its worker has answered such a request. -/

namespace Fire2.Creations
open Interleaving Lifecycle SandboxRepository Orchestrator Removals

/-- `creating` is what a thread has asked for last, if that was to create,
`created` what was answered OK. -/
structure Log where
  record : Record
  creating : Nat → Option (WorkerID × SandboxID)
  created : List (WorkerID × SandboxID)

def succeeds : (c : Call) → c.Answer → Bool
  | .await _ => fun r =>
    match r with
    | .ok _ => true
    | .error _ => false
  | _ => fun _ => false

def Log.after (s : Log) (i : Nat) (c : Call) (a : c.Answer) (record : Record) : Log where
  record := record
  creating :=
    match c with
    | .sendCreate workerID _ req => Function.update s.creating i (some (workerID, req.id))
    | .sendRemove .. => Function.update s.creating i none
    | _ => s.creating
  created := if succeeds c a then (s.creating i).toList ++ s.created else s.created

def exec : Exec Call Env Log Call.Answer := fun i c e s =>
  (Removals.exec i c e s.record).map fun r => (r.1, s.after i c r.1 r.2)

def system : System Kind Call Env Empty Outcome Log Call.Answer where
  exec := exec
  body := body
  start i k s := ((Removals.system fun _ _ => true).start i k s.record).map fun r =>
    { s with record := r }
  stoppable _ := true
  ext x := nomatch x

abbrev State := Config Kind Call Outcome Log Call.Answer

def initial : State := System.init ⟨Removals.initial.shared, fun _ => none, []⟩

theorem system_refines : System.Refines system (Removals.system fun _ _ => true) Log.record where
  body := rfl
  stoppable := rfl
  exec i c e s a t ran := by
    obtain ⟨r, done, eq⟩ := Option.map_eq_some_iff.1 ran
    cases eq
    exact done
  start i k s t started := by
    obtain ⟨r, done, rfl⟩ := Option.map_eq_some_iff.1 started
    exact done
  ext x := nomatch x

section Steps
variable {i : Nat} {c : Call} {e : Env} {a : c.Answer} {s t : Log}

theorem exec_log (h : exec i c e s = some (a, t)) :
    Removals.exec i c e s.record = some (a, t.record) ∧ t = s.after i c a t.record := by
  obtain ⟨⟨b, r⟩, ran, eq⟩ := Option.map_eq_some_iff.1 h
  cases eq
  exact ⟨ran, rfl⟩

theorem after_creating {r : Record} {j : Nat} (other : j ≠ i) :
    (s.after i c a r).creating j = s.creating j := by
  cases c with
  | sendRemove | sendCreate => exact Function.update_of_ne other _ _
  | _ => rfl

theorem after_created {r : Record} {x : WorkerID × SandboxID} (mem : x ∈ s.created) :
    x ∈ (s.after i c a r).created := by
  unfold Log.after
  dsimp only
  split
  · exact List.mem_append_right _ mem
  · exact mem

end Steps

def Created (s : Log) (id : SandboxID) : Prop :=
  ∃ workerID, s.record.assigned id = some workerID ∧ (workerID, id) ∈ s.created

/-- Whoever has a sandbox starting or running has answered. -/
structure Backed (s : Log) : Prop extends Dispatched s.record where
  up : ∀ id r, s.record.world.db.sandbox? id = some r → r.status = .starting ∨ r.status = .running →
    Created s id

structure Follows (s t : Log) : Prop where
  extended : Extends s.record t.record
  created : ∀ x ∈ s.created, x ∈ t.created

/-- A worker is asked to create what is assigned to it, and a sandbox moves to
starting once its worker has answered. -/
def Spoken (s : Log) : Call → Prop
  | .sendCreate workerID _ req => s.record.assigned req.id = some workerID
  | .updateStatus id status _ => status = .starting → Created s id
  | _ => True

def creationSpec : Spec Call Env Empty Log where
  Inv := Backed
  Evolves := Follows
  Keeps j s t := t.creating j = s.creating j
  Pre _ c s := Careful c s.record.world.db ∧ Spoken s c
  Cond _ _ _ _ := True
  Out _ _ := True

section Sound
variable {i : Nat} {c : Call} {e : Env} {s t : Log}

theorem Follows.kept {id : SandboxID} (h : Follows s t) (done : Created s id) : Created t id := by
  obtain ⟨workerID, given, mem⟩ := done
  exact ⟨workerID, h.extended.kept id workerID given, h.created _ mem⟩

theorem steps_start {may : SandboxRow → Label → Prop} {r r' : SandboxRow} (h : Steps may r r')
    (before : ¬ (r.status = .starting ∨ r.status = .running))
    (after : r'.status = .starting ∨ r'.status = .running) : ∃ q, may q .start := by
  induction h with
  | refl => exact absurd after before
  | @tail q r' _ last ih =>
    obtain ⟨l, permitted, move⟩ := last
    by_cases up : q.status = .starting ∨ q.status = .running
    · exact ih up
    · cases move with
      | start => exact ⟨q, permitted⟩
      | confirm low => exact absurd (.inl low) up
      | schedule | assign | claim => simp at after
      | seen | clear => exact absurd after up
      | finish target _ ends =>
        rcases after with rfl | rfl <;> simp [Status.terminal] at ends

theorem starts_created (lawful : Lawful c) (spoken : Spoken s c)
    {id : SandboxID} {r r' : SandboxRow} (row : s.record.world.db.sandbox? id = some r)
    (before : ¬ (r.status = .starting ∨ r.status = .running))
    (row' : (answer c e s.record.world).2.db.sandbox? id = some r')
    (after : r'.status = .starting ∨ r'.status = .running) : Created s id := by
  obtain ⟨_, found, steps⟩ := (answer_grows lawful e).kept id r row
  cases found.symm.trans row'
  obtain ⟨q, granted⟩ := steps_start steps before after
  generalize label : Label.start = l at granted
  cases granted with
  | updateStatus allowed _ =>
    subst label
    cases allowed
    exact spoken rfl
  | confirmFenced | assign | clear | delete | cleanup | reap | seen | confirm | claim => cases label

theorem backed_after (h : Backed s) (careful : Careful c s.record.world.db) (spoken : Spoken s c)
    {a : c.Answer} (ran : exec i c e s = some (a, t)) : Backed t ∧ Follows s t := by
  obtain ⟨ran, log⟩ := exec_log ran
  have answered := exec_world ran
  have world : t.record.world = (answer c e s.record.world).2 := (congrArg Prod.snd answered).symm
  obtain ⟨dispatched, extended⟩ := after_dispatched (i := i) h.toDispatched careful
    (fun workerID address req eq => by subst eq; exact spoken) answered
  rw [← (exec_after ran).2] at dispatched extended
  have follows : Follows s t := by
    refine ⟨extended, fun x mem => ?_⟩
    rw [log]
    exact after_created mem
  refine ⟨⟨dispatched, fun id r' row' up => ?_⟩, follows⟩
  rw [world] at row'
  cases row : s.record.world.db.sandbox? id with
  | none =>
    have born := answer_fresh careful.1 row row'
    rw [born.1] at up
    simp at up
  | some r =>
    by_cases before : r.status = .starting ∨ r.status = .running
    · exact follows.kept (h.up id r row before)
    · exact follows.kept (starts_created careful.1 spoken row before row' up)

theorem creationSpec_sound : creationSpec.Sound exec where
  evolves_refl s := ⟨.refl s.record, fun _ mem => mem⟩
  evolves_trans h k := ⟨h.extended.trans k.extended, fun x mem => k.created x (h.created x mem)⟩
  keeps_refl _ _ := rfl
  keeps_trans h k := k.trans h
  step {i c e s a t} inv pre _ ran := by
    obtain ⟨inv', follows⟩ := backed_after inv pre.1 pre.2 ran
    refine ⟨inv', follows, fun j other => ?_⟩
    show t.creating j = s.creating j
    rw [(exec_log ran).2]
    exact after_creating other

end Sound

section Programs
variable {i : Nat} {id : SandboxID} {s : Log}

theorem answered (c : Call) (e : Env) (s : Log) (r : c.Answer) (t : Log)
    (ran : exec i c e s = some (r, t)) : Answered c r :=
  exec_answered (i := i) (exec_after (exec_log ran).1).1

def createFlow (i : Nat) (id : SandboxID) : Flow exec creationSpec i id where
  There s := ∃ r, s.record.world.db.sandbox? id = some r
  Bound workerID s := s.record.assigned id = some workerID
  Sent workerID _ s := s.creating i = some (workerID, id)
  Up workerID s := (workerID, id) ∈ s.created
  sound := creationSpec_sound
  answered := answered
  there_kept s t there evolved := evolved.extended.there there
  bound_kept w s t bound evolved := evolved.extended.kept id w bound
  up_kept w s t up evolved := evolved.created _ up
  sent_kept w ref s t sent rely := rely.2.trans sent
  plain c s plain inv there := by
    refine ⟨careful_of_create plain.create there, ?_⟩
    cases c with
    | sendCreate => exact plain.elim
    | updateStatus k status allowedFrom =>
      rintro rfl
      exact absurd plain.2 (by simp)
    | _ => trivial
  send w address req s same inv there bound := by
    subst same
    have create : CreateCall req.id (.sendCreate w address req) := rfl
    exact ⟨careful_of_create create there, bound⟩
  start w s inv there bound up := by
    have create : CreateCall id (.updateStatus id .starting [.assigned]) := ⟨rfl, by decide⟩
    exact ⟨careful_of_create create there, fun _ => ⟨w, bound, up⟩⟩
  read e s sbx t w ran inv held := by
    obtain ⟨same, r, row, rfl⟩ := getSandbox_ok (exec_world (exec_log ran).1)
    exact inv.held id r w (same ▸ row) held
  assigned k e s sbx t w ran inv held := by
    obtain ⟨r, row, rfl⟩ := assignWorker_row (exec_world (exec_log ran).1)
    exact inv.held id r w row held
  sent w address req e s ref t same _ _ _ ran := by
    rw [(exec_log ran).2, ← same]
    exact Function.update_self _ _ _
  up w ref e s t _ sent _ ran := by
    rw [(exec_log ran).2]
    simp [Log.after, succeeds, sent]

theorem spoken_of_cleanup {c : Call} (h : CleanupCall id c) (s : Log) : Spoken s c := by
  cases c with
  | sendCreate => exact h.elim
  | updateStatus k status allowedFrom =>
    rintro rfl
    exact absurd h.2.1 (by decide)
  | _ => trivial

theorem spoken_of_request {c : Call} (h : RequestCall c) (s : Log) : Spoken s c := by
  cases c with
  | sendCreate | updateStatus => exact h.elim
  | _ => trivial

theorem cleanupJob_wp {target : Option Status} {isFinal : Bool} (known : Target target)
    (claimed : Claimed s.record.world.db id) :
    WP exec creationSpec i (fun _ _ => True) (CleanupSandboxWorker.work id target isFinal) s :=
  WP.mono (fun _ _ _ => trivial) (WP.lift creationSpec_sound (fun s : Log => s.record.world)
    (fun _ inv => inv.consistent) (fun _ _ rely => ⟨rely.1.extended.grows, trivial⟩)
    (fun _ e _ _ _ _ _ ran => ⟨e, trivial, (exec_after (exec_log ran).1).1⟩)
    (φ := fun _ => True) (fun _ _ _ _ => trivial)
    (fun _ s h _ _ careful => ⟨careful, spoken_of_cleanup h s⟩)
    answered rfl (cleanupJob_calls known) trivial (Orchestrator.cleanupJob_wp known claimed))

theorem removeOrphan_wp {workerID : WorkerID} :
    WP exec creationSpec i (fun _ _ => True) (removeSandboxOnWorker workerID id) s :=
  WP.of_asks creationSpec_sound (fun _ _ _ _ => trivial)
    (fun _ s h _ _ => ⟨careful_of_remove h _, spoken_of_cleanup h.cleanup s⟩) answered
    removeSandboxOnWorker_calls trivial

theorem request_wp {k : Kind} (h : k.isRequest = true) :
    WP exec creationSpec i (fun _ _ => True) (body k) s :=
  WP.of_asks creationSpec_sound (fun _ _ _ _ => trivial)
    (fun _ s h _ _ => ⟨careful_of_request h _, spoken_of_request h s⟩) answered
    (request_calls h) trivial

end Programs

theorem start_eq_some {i : Nat} {k : Kind} {s t : Log} (h : system.start i k s = some t) :
    enabled k s.record.world.db = true ∧ t = { s with
      record := { s.record with kinds := Function.update s.record.kinds i (some k) } } := by
  simp only [system, Removals.system, Bool.and_true, Option.map_eq_some_iff,
    Option.ite_none_right_eq_some] at h
  obtain ⟨r, ⟨on, eq⟩, rfl⟩ := h
  exact ⟨on, by rw [← Option.some.inj eq]⟩

theorem disciplined : system.Disciplined creationSpec fun _ _ _ _ => True where
  sound := creationSpec_sound
  start i k s t inv started := by
    obtain ⟨on, rfl⟩ := start_eq_some started
    refine ⟨⟨⟨⟨inv.held, inv.still⟩, inv.consistent, inv.asked⟩, inv.up⟩,
      ⟨.of_kinds s.record _, fun _ mem => mem⟩, fun _ _ => rfl, ?_⟩
    by_cases request : k.isRequest = true
    · exact request_wp request
    cases k with
    | createJob id isFinal =>
      exact wp_job ((createFlow i id).work_wp (inv.consistent.jobs _ (of_decide_eq_true on)))
    | cleanupJob id target isFinal =>
      obtain ⟨known, claimed⟩ := inv.consistent.jobs _ (of_decide_eq_true on)
      exact wp_job (cleanupJob_wp known claimed)
    | removeOrphanJob workerID id => exact wp_job removeOrphan_wp
    | _ => cases request rfl
  ext x := nomatch x

theorem initial_backed : Backed initial.shared where
  toDispatched := initial_dispatched
  up _ _ row := nomatch row

theorem reaches_backed {s : State} (h : system.Reaches initial s) : Backed s.shared :=
  (System.safe_reaches disciplined (fun _ _ _ _ => trivial) (fun _ _ => trivial)
    (System.safe_init initial_backed) h).1.inv

end Fire2.Creations
