import Fire2.ManagerSafety

/-! The calls each program of a worker makes, and what follows for where a
Service comes from: the Create that registered it, or Recover. -/

namespace Fire2.SandboxMgr
open Interleaving

abbrev Calls {α : Type} (p : M α) (P : Call → Prop) : Prop := p.Asks (fun _ _ => True) P

theorem calls_ask {α : Type} {P : Call → Prop} {c : Call} {f : c.Answer → M α} (hc : P c)
    (next : ∀ r, Calls (f r) P) : Calls (ask c >>= f) P :=
  .call hc fun r _ => next r

theorem calls_last {P : Call → Prop} {c : Call} (hc : P c) : Calls (ask c) P :=
  .call hc fun r _ => .ret r

def TellCall (ref : Ref) : Call → Prop
  | .fields k | .setField k _ | .report k _ => k = ref
  | .emit _ _ => True
  | _ => False

def PollCall (ref : Ref) : Call → Prop
  | .queryVM k => k = ref
  | c => TellCall ref c

def VMCall (ref : Ref) : Call → Prop
  | .fields k | .vm k _ => k = ref
  | _ => False

def HandleCall (ref : Ref) : Call → Prop
  | .vm k _ | .watch k => k = ref
  | c => PollCall ref c

def ServeCall (ref : Ref) : Wake → Call → Prop
  | .command sender cmd, .reply k s d _ _ => k = ref ∧ s = sender ∧ d = cmd
  | _, .resume k | _, .close k => k = ref
  | .command _ _, c => HandleCall ref c
  | .exited, .unwatch k => k = ref
  | _, c => PollCall ref c

def HandOver (cmd : Command) : Call → Prop
  | .offer _ d | .await _ d | .recheck _ d => d = cmd
  | _ => False

def KindCall : Kind → Call → Prop
  | .startup, .listDisk | .startup, .attach _ | .startup, .queryState _ | .startup, .adopt _ _
  | .startup, .reap _ _ | .startup, .serveRequests => True
  | .create input, .register x => x = input
  | .create input, .forget k _ => k = input.id
  | .create input, c => HandOver (.create input) c
  | .stop id, .lookup k => k = id
  | .stop _, c => HandOver .stop c
  | .remove id, .claim k | .remove id, .release k _ | .remove id, .reap k _ => k = id
  | .remove _, c => HandOver .remove c
  | .reconcileDisk, .listDisk | .reconcileDisk, .claimOrphans _ | .reconcileDisk, .reap _ _ => True
  | .reconcileDisk, .release _ confirmed => confirmed = false
  | .checkLiveness, .markDead | .checkLiveness, .emit _ _ => True
  | .serve ref wake, c => ServeCall ref wake c
  | _, _ => False

section Services
variable {ref : Ref} {state : SandboxState} {cmd : Command} {P : Call → Prop}
  {c : Call} {wake : Wake}

theorem do_calls : Calls (Service.do_ ref cmd) (HandOver cmd) := by
  refine calls_ask rfl fun taken => ?_
  split
  · refine calls_ask rfl fun r => ?_
    cases r with
    | some err => exact .ret _
    | none =>
      refine calls_ask rfl fun r => ?_
      cases r <;> exact .ret _
  · exact .ret _

theorem setState_calls : Calls (Service.setState ref state) (TellCall ref) := by
  refine calls_ask rfl fun fields => ?_
  split
  · exact .ret _
  · refine calls_ask rfl fun _ => calls_ask rfl fun told => ?_
    split
    · exact calls_last trivial
    · exact .ret _

theorem TellCall.poll (h : TellCall ref c) : PollCall ref c := by
  cases c with
  | queryVM => exact h.elim
  | _ => exact h

theorem poll_calls : Calls (Service.poll ref) (PollCall ref) := by
  refine calls_ask rfl fun fields => ?_
  split
  · exact .ret _
  · refine calls_ask rfl fun r => ?_
    obtain _ | _ | _ := r
    · exact .ret _
    · exact (setState_calls.mono fun _ => TellCall.poll).bind fun _ => .ret _
    · exact (setState_calls.mono fun _ => TellCall.poll).bind fun _ => .ret _

theorem PollCall.handle (h : PollCall ref c) : HandleCall ref c := by
  cases c with
  | vm | watch => exact h.elim
  | _ => exact h

theorem VMCall.handle (h : VMCall ref c) : HandleCall ref c := by
  cases c with
  | vm | fields => exact h
  | _ => exact h.elim

theorem vmCreate_calls : Calls (Service.vmCreate ref) (VMCall ref) := by
  refine calls_ask rfl fun r => ?_
  cases r with
  | ok =>
    refine calls_ask rfl fun r => ?_
    cases r with
    | ok => exact calls_last rfl
    | err | panicked => exact .ret _
  | err | panicked => exact .ret _

theorem vmCleanup_calls : Calls (Service.vmCleanup ref) (VMCall ref) := by
  refine calls_ask rfl fun r => ?_
  cases r with
  | ok =>
    refine calls_ask rfl fun r => ?_
    cases r <;> exact .ret _
  | err | panicked => exact .ret _

theorem remove_calls : Calls (Service.remove ref) (VMCall ref) := by
  refine calls_ask rfl fun fields => ?_
  split
  · exact .ret _
  refine calls_ask rfl fun stopped => ?_
  cases stopped with
  | panicked => exact .ret _
  | ok | err =>
    refine vmCleanup_calls.bind fun r => ?_
    cases r <;> exact .ret _

theorem create_calls : Calls (Service.create ref) (HandleCall ref) := by
  refine calls_ask rfl fun fields => ?_
  split
  · exact .ret _
  refine calls_ask rfl fun r => ?_
  cases r with
  | ok =>
    refine (vmCreate_calls.mono fun _ => VMCall.handle).bind fun r => ?_
    cases r with
    | ok =>
      refine calls_ask rfl fun _ => (poll_calls.mono fun _ => PollCall.handle).bind fun polled => ?_
      split <;> exact .ret _
    | err =>
      refine (remove_calls.mono fun _ => VMCall.handle).bind fun r => ?_
      cases r <;> exact .ret _
    | panicked => exact .ret _
  | err | panicked => exact .ret _

theorem stop_calls : Calls (Service.stop ref) (VMCall ref) := by
  refine calls_ask rfl fun fields => ?_
  split
  · exact .ret _
  refine calls_ask rfl fun r => ?_
  cases r <;> exact .ret _

theorem handle_calls : Calls (Service.handle ref cmd) (HandleCall ref) := by
  cases cmd with
  | create input => exact create_calls
  | stop => exact stop_calls.mono fun _ => VMCall.handle
  | remove => exact remove_calls.mono fun _ => VMCall.handle

theorem HandleCall.serve {sender : Nat} (h : HandleCall ref c) :
    ServeCall ref (.command sender cmd) c := by
  cases c with
  | reply | resume | close => exact h.elim
  | _ => exact h

theorem PollCall.serve (h : PollCall ref c) : ServeCall ref wake c := by
  cases wake with
  | command sender cmd => exact h.handle.serve
  | ctxDone | exited | tick =>
    cases c with
    | resume | close | unwatch => exact h.elim
    | _ => exact h

theorem close_calls : Calls (ask (.close ref)) (ServeCall ref wake) := by
  cases wake <;> exact calls_last rfl

theorem resume_calls : Calls (ask (.resume ref)) (ServeCall ref wake) := by
  cases wake <;> exact calls_last rfl

theorem die_calls : Calls (Service.die ref) (ServeCall ref wake) :=
  (setState_calls.mono fun _ h => h.poll.serve).bind fun _ => close_calls

theorem answer_calls {sender : Nat} {err : Option Err} :
    Calls (Service.answer ref sender cmd err) (ServeCall ref (.command sender cmd)) := by
  refine calls_ask ⟨rfl, rfl, rfl⟩ fun _ => ?_
  split
  · exact close_calls
  · exact resume_calls

theorem pass_calls : Calls (Service.pass ref wake) (ServeCall ref wake) := by
  cases wake with
  | ctxDone => exact close_calls
  | command sender cmd =>
    refine (handle_calls.mono fun _ => HandleCall.serve).bind fun r => ?_
    cases r with
    | ok => exact answer_calls
    | err => exact answer_calls
    | panicked => exact die_calls
  | exited =>
    exact calls_ask rfl fun _ => (setState_calls.mono fun _ h => h.poll.serve).bind
      fun _ => resume_calls
  | tick =>
    refine (poll_calls.mono fun _ => PollCall.serve).bind fun polled => ?_
    split
    · exact resume_calls
    · exact die_calls

end Services

section Managers
variable {id : SandboxID} {ids : List SandboxID} {P : Call → Prop}

theorem reap_calls [Uuid] (h : ∀ op, P (.reap id op)) : Calls (reap id) P := by
  unfold reap
  split
  · exact .ret _
  refine calls_ask (h .kill) fun r => ?_
  cases r with
  | error => exact .ret _
  | ok =>
    refine calls_ask (h .removeVolume) fun r => ?_
    cases r with
    | error => exact .ret _
    | ok =>
      refine calls_ask (h .removeDir) fun r => ?_
      cases r <;> exact .ret _

theorem managerCreate_calls [Uuid] {input : CreateInput} :
    Calls (Manager.create input) (KindCall (.create input)) := by
  unfold Manager.create
  split
  · exact .ret _
  refine calls_ask rfl fun r => ?_
  cases r with
  | tracked | busy | full => exact .ret _
  | fresh ref =>
    have hands (c : Call) (h : HandOver (.create input) c) : KindCall (.create input) c := by
      cases c with
      | register | forget => exact h.elim
      | _ => exact h
    refine (do_calls.mono hands).bind fun r => ?_
    cases r with
    | none => exact .ret _
    | some err => exact calls_ask rfl fun _ => .ret _

theorem managerStop_calls : Calls (Manager.stop id) (KindCall (.stop id)) := by
  refine calls_ask rfl fun r => ?_
  cases r with
  | none => exact .ret _
  | some ref =>
    have hands (c : Call) (h : HandOver .stop c) : KindCall (.stop id) c := by
      cases c with
      | lookup => exact h.elim
      | _ => exact h
    refine (do_calls.mono hands).bind fun r => ?_
    cases r with
    | none => exact .ret _
    | some err =>
      dsimp only
      split <;> exact .ret _

theorem managerRemove_calls [Uuid] : Calls (Manager.remove id) (KindCall (.remove id)) := by
  have hands (c : Call) (h : HandOver .remove c) : KindCall (.remove id) c := by
    cases c with
    | claim | release | reap => exact h.elim
    | _ => exact h
  have tearDown {ref : Ref} : Calls (Manager.tearDown id ref) (KindCall (.remove id)) := by
    refine (do_calls.mono hands).bind fun r => ?_
    cases r with
    | none => exact .ret _
    | some err =>
      dsimp only
      split
      · exact reap_calls fun _ => rfl
      · exact .ret _
  unfold Manager.remove
  split
  · exact .ret _
  refine calls_ask rfl fun r => ?_
  cases r with
  | busy | absent => exact .ret _
  | held ref => exact tearDown.bind fun err => calls_ask rfl fun _ => .ret _

theorem adoptListed_calls [Uuid] : Calls (Manager.adoptListed ids) (KindCall .startup) := by
  induction ids with
  | nil => exact .ret _
  | cons id ids ih =>
    refine calls_ask trivial fun r => ?_
    cases r with
    | error => exact (reap_calls fun _ => trivial).bind fun _ => ih
    | ok =>
      refine calls_ask trivial fun r => ?_
      cases r <;> exact calls_ask trivial fun _ => ih

theorem startup_calls [Uuid] : Calls Manager.startup (KindCall .startup) := by
  have recover : Calls Manager.recover (KindCall .startup) := by
    refine calls_ask trivial fun r => ?_
    cases r with
    | error => exact .ret _
    | ok => exact adoptListed_calls.bind fun _ => .ret _
  exact recover.bind fun _ => calls_ask trivial fun _ => .ret _

theorem reapClaimed_calls [Uuid] (reaped : ∀ id ∈ ids, ∀ op, P (.reap id op))
    (released : ∀ id, P (.release id false)) : Calls (Manager.reapClaimed ids) P := by
  induction ids with
  | nil => exact .ret _
  | cons id ids ih =>
    refine (reap_calls (reaped id List.mem_cons_self)).bind fun _ => calls_ask
      (released id) fun _ => ?_
    exact ih fun k mem => reaped k (List.mem_cons_of_mem id mem)

theorem reconcileDisk_calls [Uuid] : Calls Manager.reconcileDisk (KindCall .reconcileDisk) := by
  refine calls_ask trivial fun r => ?_
  cases r with
  | error => exact .ret _
  | ok => exact calls_ask trivial fun _ => reapClaimed_calls (fun _ _ _ => trivial) fun _ => rfl

theorem checkLiveness_calls : Calls Manager.checkLiveness (KindCall .checkLiveness) := by
  have emitDead (ids : List SandboxID) : Calls (Manager.emitDead ids)
      (KindCall .checkLiveness) := by
    induction ids with
    | nil => exact .ret _
    | cons id ids ih => exact calls_ask trivial fun _ => ih
  exact calls_ask trivial fun dead => emitDead dead

theorem body_calls [Uuid] (k : Kind) : Calls (body k) (KindCall k) := by
  cases k with
  | startup => exact startup_calls
  | create input => exact managerCreate_calls
  | stop id => exact managerStop_calls
  | remove id => exact managerRemove_calls
  | reconcileDisk => exact reconcileDisk_calls.bind fun _ => .ret _
  | checkLiveness => exact checkLiveness_calls.bind fun _ => .ret _
  | serve ref wake => exact pass_calls.bind fun _ => .ret _

end Managers

theorem At.kind [Uuid] {s : State} {host : Table SandboxID Remnant}
    (h : system.Reaches (System.init (booting host)) s)
    {i : Nat} {k : Kind} {c : Call} {f : c.Answer → M (Option Err)}
    (thread : s.threads i = some ⟨k, .call c f⟩) : KindCall k c :=
  (System.asking_reaches (fun _ _ _ _ _ _ _ => trivial) body_calls h).call thread

section Creators
variable {i : Nat} {e : Env} {s t : Manager} {c : Call} {ref : Ref} {svc : Service}

theorem Effect.origin (h : Effect i e s c t) (at_ref : t.heap ref = some svc) :
    (∃ old, s.heap ref = some old ∧ (old.id = svc.id ∧ old.creator = svc.creator) ∧
      ∀ j cmd, svc.Takes j cmd → old.Takes j cmd ∨ ∃ k d, c = .offer k d) ∨
    svc.phase = .idle ∧ ((∃ state, c = .adopt svc.id state ∧ svc.creator = none) ∨
      ∃ input, c = .register input ∧ input.id = svc.id ∧ svc.creator = some i) := by
  have old (here : s.heap ref = some svc) : ∃ old, s.heap ref = some old ∧
      (old.id = svc.id ∧ old.creator = svc.creator) ∧
        ∀ j cmd, svc.Takes j cmd → old.Takes j cmd ∨ ∃ k d, c = .offer k d :=
    ⟨svc, here, ⟨rfl, rfl⟩, fun _ _ takes => .inl takes⟩
  -- a heap that differs at one place
  have at_update {k : Ref} {new : Service}
    (here : Function.update s.heap k (some new) ref = some svc) :
      ref = k ∧ svc = new ∨ s.heap ref = some svc := by
    by_cases same : ref = k
    · rw [same, Function.update_self] at here
      exact .inl ⟨same, (Option.some.inj here).symm⟩
    · rw [Function.update_of_ne same] at here
      exact .inr here
  cases h with
  | register input =>
    unfold Manager.register at at_ref
    split at at_ref
    · exact .inl (old at_ref)
    split at at_ref
    · exact .inl (old at_ref)
    split at at_ref
    · exact .inl (old at_ref)
    · obtain ⟨-, rfl⟩ | here := at_update at_ref
      · exact .inr ⟨rfl, .inr ⟨input, rfl, rfl, rfl⟩⟩
      · exact .inl (old here)
  | forget id k =>
    unfold Manager.forget at at_ref
    split at at_ref
    · split at at_ref <;> exact .inl (old at_ref)
    · exact .inl (old at_ref)
  | claim id =>
    unfold Manager.claim at at_ref
    split at at_ref
    · exact .inl (old at_ref)
    split at at_ref <;> exact .inl (old at_ref)
  | claimOrphans ids =>
    rw [claimOrphans_frame] at at_ref
    exact .inl (old at_ref)
  | adopt id state =>
    obtain ⟨-, rfl⟩ | here := at_update at_ref
    · exact .inr ⟨rfl, .inl ⟨state, rfl, rfl⟩⟩
    · exact .inl (old here)
  | report k state id =>
    unfold Manager.report at at_ref
    split at at_ref
    · split at at_ref <;> exact .inl (old at_ref)
    · exact .inl (old at_ref)
  | emit id state =>
    unfold Manager.emit at at_ref
    split at at_ref <;> exact .inl (old at_ref)
  | service at_k same takes =>
    obtain ⟨rfl, rfl⟩ | here := at_update at_ref
    · exact .inl ⟨_, at_k, ⟨same.1.symm, same.2.symm⟩, takes⟩
    · exact .inl (old here)
  | vm op at_k booted =>
    obtain ⟨rfl, rfl⟩ | here := at_update at_ref
    · exact .inl ⟨_, at_k, ⟨rfl, rfl⟩, fun _ _ takes => .inl takes⟩
    · exact .inl (old here)
  | release | markDead | serveRequests | reap | read => exact .inl (old at_ref)

theorem begin_origin {k : Kind} (h : begin i k s = some t) (at_ref : t.heap ref = some svc) :
    ∃ old, s.heap ref = some old ∧ (old.id = svc.id ∧ old.creator = svc.creator) ∧
      ∀ j cmd, svc.Takes j cmd → old.Takes j cmd := by
  cases k with
  | serve k wake =>
    simp only [begin, Option.bind_eq_some_iff, Option.ite_none_right_eq_some] at h
    obtain ⟨x, at_k, ready, eq⟩ := h
    cases eq
    by_cases same : ref = k
    · subst same
      simp only [Manager.setService, Function.update_self, Option.some.injEq] at at_ref
      subst at_ref
      refine ⟨x, at_k, ⟨rfl, rfl⟩, fun j cmd takes => ?_⟩
      obtain offered | ⟨_, busy⟩ := takes
      · cases offered
      · cases busy
        exact .inl (of_decide_eq_true ready)
    · exact ⟨svc, (Function.update_of_ne same _ _).symm.trans at_ref, ⟨rfl, rfl⟩,
        fun _ _ takes => takes⟩
  | startup | create _ | stop _ | remove _ | reconcileDisk | checkLiveness =>
    simp only [begin, Option.ite_none_right_eq_some] at h
    obtain ⟨-, eq⟩ := h
    cases eq
    exact ⟨svc, at_ref, ⟨rfl, rfl⟩, fun _ _ takes => takes⟩

theorem happen_origin {x : Event} (at_ref : (happen x s).heap ref = some svc) :
    s.heap ref = some svc := by
  cases x with
  | restart => cases at_ref
  | vmExit _ | cancel | setCapacity _ | takeEvent => exact at_ref

end Creators

def Ordered (s : State) : Prop :=
  -- every Service that was not adopted is there for a call of Create
  ∀ ref svc j, s.shared.heap ref = some svc → svc.creator = some j →
    ∃ input p, input.id = svc.id ∧ s.threads j = some ⟨.create input, p⟩

theorem ordered_step [Uuid] {host : Table SandboxID Remnant} {s t : State}
    (reached : system.Reaches (System.init (booting host)) s) (hs : Ordered s)
    {a : Action Kind Env Event} (h : system.step s a = some t) : Ordered t := by
  intro ref svc j at_ref made
  have kept {old : Service} (here : s.shared.heap ref = some old) (same : old.id = svc.id)
      (creator : old.creator = svc.creator) :
      ∃ input p, input.id = svc.id ∧ t.threads j = some ⟨.create input, p⟩ := by
    obtain ⟨input, p, named, thread⟩ := hs ref old j here (creator.trans made)
    obtain ⟨q, still⟩ := System.thread_kept (fun _ => rfl)
      (System.started_of_thread reached thread) h thread
    exact ⟨input, q, named.trans same, still⟩
  obtain ⟨k, v, rfl, started, rfl⟩ | ⟨i, e, k, c, f, r, v, rfl, thread, ran, rfl⟩ |
    ⟨i, th, -, -, stopped, -⟩ | ⟨x, v, rfl, happened, rfl⟩ := System.step_cases h
  · obtain ⟨old, here, ⟨same, creator⟩, -⟩ := begin_origin started at_ref
    exact kept here same creator
  · obtain ⟨old, here, ⟨same, creator⟩, -⟩ | ⟨-, ⟨state, -, none⟩ | ⟨input, rfl, named, mine⟩⟩ :=
      (perform_effect (exec_eq_some ran).2).origin at_ref
    · exact kept here same creator
    · cases none.symm.trans made
    · cases mine.symm.trans made
      have kind : KindCall k (.register input) := At.kind reached thread
      cases k with
      | create x =>
        obtain rfl : input = x := kind
        exact ⟨input, f r, named, Function.update_self _ _ _⟩
      | startup | stop | remove | reconcileDisk | checkLiveness => exact kind.elim
      | serve k wake => cases wake <;> exact kind.elim
  · cases stopped
  · cases happened
    exact kept (happen_origin at_ref) rfl rfl

theorem reaches_ordered [Uuid] {host : Table SandboxID Remnant} {s : State}
    (h : system.Reaches (System.init (booting host)) s) : Ordered s := by
  induction h with
  | refl => exact fun _ _ _ at_ref => nomatch at_ref
  | tail before last ih =>
    obtain ⟨a, -, step⟩ := last
    exact ordered_step before ih step

end Fire2.SandboxMgr
