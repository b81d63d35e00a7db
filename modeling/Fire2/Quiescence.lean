import Fire2.Protocols
import Fire2.ManagerCalls

/-! A worker gets done with what it has taken on.

A call of the Manager waits in two places only: for the goroutine of a Service to
receive its command, and for the reply. A Service that does not receive is in a
pass of its loop, and a pass waits for nobody. So whatever the VMs, the shims and
the disk answer, every call under way can be brought to its end without a new
request, an exit or a signal coming to help. -/

namespace Fire2.SandboxMgr
open Interleaving

/-- Where a thread has come to: a call of the Manager is on its own, waits for a
reply, or looks once more after it found done closed; a pass of a Service runs,
with its command answered or not, is about to close done, or is at its end. -/
inductive Place where
  | free
  | waiting (ref : Ref) (cmd : Command)
  | leftOver (ref : Ref) (cmd : Command)
  | passing (answered : Bool)
  | leaving
  | ended
  deriving DecidableEq, Repr

def RequestCall : Call → Prop
  -- what a call of the Manager does but for the wait in do
  | .register _ | .forget _ _ | .lookup _ | .claim _ | .release _ _ | .claimOrphans _ | .adopt _ _
  | .markDead | .emit _ _ | .serveRequests | .offer _ _ | .listDisk | .attach _ | .queryState _
  | .reap _ _ => True
  | _ => False

def requesting : Protocol Call Call.Answer Place where
  may
    | .free, c => RequestCall c
    | .waiting ref cmd, .await k d => k = ref ∧ d = cmd
    | .leftOver ref cmd, .recheck k d => k = ref ∧ d = cmd
    | _, _ => False
  next
    | .free, .offer ref cmd => fun taken => if taken then .waiting ref cmd else .free
    | .waiting ref cmd, .await _ _ => fun answer => if answer.isSome then .free
    else .leftOver ref cmd
    | .leftOver _ _, .recheck _ _ => fun _ => .free
    | q, _ => fun _ => q

def PassCall (ref : Ref) : Call → Prop
  | .unwatch k => k = ref
  | c => HandleCall ref c

def serving (ref : Ref) (wake : Wake) : Protocol Call Call.Answer Place where
  -- a pass resumes the loop only once its command has been answered
  may
    | .passing _, .reply k j cmd _ _ => k = ref ∧ wake = .command j cmd
    | .passing answered, .resume k => k = ref ∧ ∀ j cmd, wake = .command j cmd → answered = true
    | .passing _, .close k | .leaving, .close k => k = ref
    | .passing _, c => PassCall ref c
    | _, _ => False
  next
    | .passing _, .reply _ _ _ _ exit => fun _ => if exit then .leaving else .passing true
    | .passing _, .resume _ | .passing _, .close _ | .leaving, .close _ => fun _ => .ended
    | q, _ => fun _ => q

def Kind.serves : Kind → Option (Ref × Wake)
  | .serve ref wake => some (ref, wake)
  | _ => none

def protocol (k : Kind) : Protocol Call Call.Answer Place :=
  match k.serves with
  | some (ref, wake) => serving ref wake
  | none => requesting

def firstPlace (k : Kind) : Place :=
  match k.serves with
  | some _ => .passing false
  | none => .free

def LastPlace (q : Place) : Prop := q = .free ∨ q = .ended

/-- What a call of the Manager finds: a command that was received is with the
goroutine or answered, unless the goroutine is gone. -/
def RequestLink (i : Nat) (q : Place) (s : Manager) : Prop :=
  match q with
  | .free => True
  | .waiting ref cmd => ∃ svc, s.heap ref = some svc ∧
      (svc.Takes i cmd ∨ svc.replies (i, cmd) ≠ none ∨ svc.active = false)
  | .leftOver ref _ => ∃ svc, s.heap ref = some svc
  | _ => False

def ServeLink (i : Nat) (ref : Ref) (wake : Wake) (q : Place) (s : Manager) : Prop :=
  match q with
  | .passing answered => ∃ svc, s.Serving i ref svc wake ∧
      (answered = true → ∀ j cmd, wake = .command j cmd → svc.replies (j, cmd) ≠ none)
  | .leaving => s.Idle ref
  | .ended => True
  | _ => False

def Link (i : Nat) (k : Kind) (q : Place) (s : Manager) : Prop :=
  s.born i = s.process →
    match k.serves with
    | some (ref, wake) => ServeLink i ref wake q s
    | none => RequestLink i q s

section Programs
variable {ref : Ref} {wake : Wake} {answered : Bool}

theorem do_obeys {cmd : Command} : (Service.do_ ref cmd).Obeys requesting (· = .free) .free := by
  refine .call trivial fun taken => ?_
  cases taken with
  | false => exact .ret _ rfl
  | true =>
    refine .call ⟨rfl, rfl⟩ fun answer => ?_
    cases answer with
    | some err => exact .ret _ rfl
    | none =>
      refine .call ⟨rfl, rfl⟩ fun answer => ?_
      cases answer <;> exact .ret _ rfl

theorem request_obeys {α : Type} {P : Call → Prop} {p : M α} (hp : Calls p P)
    (plain : ∀ c, P c → RequestCall c ∧ ∀ ref cmd, c ≠ .offer ref cmd) :
    p.Obeys requesting (· = .free) .free := by
  refine .of_asks hp (fun _ _ => trivial) fun c hc => ?_
  obtain ⟨request, other⟩ := plain c hc
  refine ⟨request, fun r => ?_⟩
  cases c with
  | offer ref cmd => exact absurd rfl (other ref cmd)
  | _ => rfl

theorem reap_obeys [Uuid] {id : SandboxID} : (reap id).Obeys requesting (· = .free) .free := by
  refine request_obeys (P := fun c => ∃ op, c = .reap id op)
    (reap_calls fun op => ⟨op, rfl⟩) fun c hc => ?_
  obtain ⟨op, rfl⟩ := hc
  exact ⟨trivial, fun _ _ eq => by cases eq⟩

theorem managerCreate_obeys [Uuid] {input : CreateInput} :
    (Manager.create input).Obeys requesting (· = .free) .free := by
  unfold Manager.create
  split
  · exact .ret _ rfl
  refine .call trivial fun r => ?_
  cases r with
  | tracked | busy | full => exact .ret _ rfl
  | fresh ref =>
    refine do_obeys.bind fun err q eq => ?_
    subst eq
    cases err with
    | none => exact .ret _ rfl
    | some err => exact .call trivial fun _ => .ret _ rfl

theorem managerStop_obeys {id : SandboxID} :
    (Manager.stop id).Obeys requesting (· = .free) .free := by
  refine .call trivial fun r => ?_
  cases r with
  | none => exact .ret _ rfl
  | some ref =>
    refine do_obeys.bind fun err q eq => ?_
    subst eq
    cases err with
    | none => exact .ret _ rfl
    | some err =>
      dsimp only
      split <;> exact .ret _ rfl

theorem managerRemove_obeys [Uuid] {id : SandboxID} :
    (Manager.remove id).Obeys requesting (· = .free) .free := by
  unfold Manager.remove
  split
  · exact .ret _ rfl
  refine .call trivial fun r => ?_
  cases r with
  | busy | absent => exact .ret _ rfl
  | held ref =>
    have tearDown : (Manager.tearDown id ref).Obeys requesting (· = .free) .free := by
      refine do_obeys.bind fun err q eq => ?_
      subst eq
      cases err with
      | none => exact .ret _ rfl
      | some err =>
        dsimp only
        split
        · exact reap_obeys
        · exact .ret _ rfl
    refine tearDown.bind fun err q eq => ?_
    subst eq
    exact .call trivial fun _ => .ret _ rfl

theorem pass_stays {c : Call} (h : PassCall ref c) :
    (serving ref wake).may (.passing answered) c ∧
      ∀ r, (serving ref wake).next (.passing answered) c r = .passing answered := by
  cases c with
  | reply | resume | close => exact h.elim
  | _ => exact ⟨h, fun _ => rfl⟩

theorem HandleCall.pass {c : Call} (h : HandleCall ref c) : PassCall ref c := by
  cases c with
  | unwatch => exact h.elim
  | _ => exact h

theorem handling_obeys {α : Type} {p : M α} (hp : Calls p (HandleCall ref)) :
    p.Obeys (serving ref wake) (· = .passing answered) (.passing answered) :=
  .of_asks hp (fun _ _ => trivial) fun _ hc => pass_stays hc.pass

theorem die_obeys : (Service.die ref).Obeys (serving ref wake) (· = .ended)
    (.passing answered) := by
  refine (handling_obeys (setState_calls.mono fun _ h => h.poll.handle)).bind fun _ q eq => ?_
  subst eq
  exact .perform rfl fun _ => rfl

theorem answer_obeys {j : Nat} {cmd : Command} {err : Option Err} :
    (Service.answer ref j cmd err).Obeys (serving ref (.command j cmd)) (· = .ended)
    (.passing answered) := by
  refine .call ⟨rfl, rfl⟩ fun _ => ?_
  change Prog.Obeys _ _ (if Service.exits cmd err then Place.leaving else Place.passing true) _
  split
  · exact .perform rfl fun _ => rfl
  · exact .perform ⟨rfl, fun _ _ _ => rfl⟩ fun _ => rfl

theorem pass_obeys : (Service.pass ref wake).Obeys (serving ref wake) (· = .ended)
    (.passing false) := by
  cases wake with
  | ctxDone => exact .perform rfl fun _ => rfl
  | command j cmd =>
    refine (handling_obeys handle_calls).bind fun r q eq => ?_
    subst eq
    cases r with
    | ok => exact answer_obeys
    | err => exact answer_obeys
    | panicked => exact die_obeys
  | exited =>
    refine .call rfl fun _ => ?_
    refine (handling_obeys (setState_calls.mono fun _ h => h.poll.handle)).bind fun _ q eq => ?_
    subst eq
    exact .perform ⟨rfl, fun _ _ eq => by cases eq⟩ fun _ => rfl
  | tick =>
    refine (handling_obeys (poll_calls.mono fun _ h => h.handle)).bind fun polled q eq => ?_
    subst eq
    cases polled with
    | true => exact .perform ⟨rfl, fun _ _ eq => by cases eq⟩ fun _ => rfl
    | false => exact die_obeys

theorem body_obeys [Uuid] (k : Kind) : (body k).Obeys (protocol k) LastPlace (firstPlace k) := by
  have free {p : M (Option Err)} (h : p.Obeys requesting (· = .free) .free) :
      p.Obeys requesting LastPlace .free := h.mono fun _ => .inl
  cases k with
  | startup =>
    refine free (request_obeys startup_calls fun c hc => ?_)
    cases c with
    | listDisk | attach | queryState | adopt | reap | serveRequests =>
      exact ⟨trivial, fun _ _ eq => by cases eq⟩
    | _ => exact hc.elim
  | create input => exact free managerCreate_obeys
  | stop id => exact free managerStop_obeys
  | remove id => exact free managerRemove_obeys
  | reconcileDisk =>
    refine (request_obeys reconcileDisk_calls fun c hc => ?_).bind fun _ q eq => .ret _ (.inl eq)
    cases c with
    | listDisk | claimOrphans | reap | release => exact ⟨trivial, fun _ _ eq => by cases eq⟩
    | _ => exact hc.elim
  | checkLiveness =>
    refine (request_obeys checkLiveness_calls fun c hc => ?_).bind fun _ q eq => .ret _ (.inl eq)
    cases c with
    | markDead | emit => exact ⟨trivial, fun _ _ eq => by cases eq⟩
    | _ => exact hc.elim
  | serve ref wake => exact pass_obeys.bind fun _ q eq => .ret _ (.inr eq)

end Programs

def Call.Turns (ref : Ref) : Call → Prop
  | .reply k _ _ _ _ | .resume k | .close k => k = ref
  | _ => False

inductive Turn (i : Nat) (ref : Ref) (svc svc' : Service) : Call → Prop
  | same {c : Call} (aside : ¬ c.Turns ref) (phase : svc'.phase = svc.phase)
    (replies : svc'.replies = svc.replies) :
      Turn i ref svc svc' c
  | offered (cmd : Command) (idle : svc.phase = .idle) (phase : svc'.phase = .offered i cmd)
      (replies : svc'.replies = svc.replies) : Turn i ref svc svc' (.offer ref cmd)
  | replied (j : Nat) (cmd : Command) (err : Option Err) (exit : Bool)
      (phase : svc'.phase = if exit then .exiting else svc.phase)
      (replies : svc'.replies = Function.update svc.replies (j, cmd) (some err)) :
      Turn i ref svc svc' (.reply ref j cmd err exit)
  | resumed (phase : svc'.phase = .idle) (replies : svc'.replies = svc.replies) :
    Turn i ref svc svc' (.resume ref)
  | closed (phase : svc'.phase = .closed) (replies : svc'.replies = svc.replies) :
    Turn i ref svc svc' (.close ref)

/-- What became of the Service a reference stands for, in a step: a new one is
idle. -/
def Became (P : Service → Service → Prop) (ref : Ref) (s t : Manager) : Prop :=
  (∃ svc svc', s.heap ref = some svc ∧ t.heap ref = some svc' ∧ P svc svc') ∨
    s.heap ref = none ∧ ∀ svc', t.heap ref = some svc' → svc'.phase = .idle

section Turns
variable {i : Nat} {e : Env} {s t : Manager} {c : Call} {ref : Ref} {P : Service → Service → Prop}

theorem Became.of_heap (refl : ∀ svc, P svc svc) (same : t.heap ref = s.heap ref) :
    Became P ref s t := by
  cases known : s.heap ref with
  | none => exact .inr ⟨known, fun svc' at_ref => by cases (same.trans known).symm.trans at_ref⟩
  | some svc => exact .inl ⟨svc, svc, known, same.trans known, refl svc⟩

theorem Became.of_update {k : Ref} {svc svc' : Service}
    (refl : k ≠ ref → ∀ svc, P svc svc) (at_k : s.heap k = some svc)
    (heap : t.heap = Function.update s.heap k (some svc')) (changed : k = ref → P svc svc') :
    Became P ref s t := by
  by_cases same : k = ref
  · subst same
    exact .inl ⟨svc, svc', at_k, heap ▸ Function.update_self _ _ _, changed rfl⟩
  · exact .of_heap (refl same) (heap ▸ Function.update_of_ne (Ne.symm same) _ _)

theorem Became.of_new {svc : Service} (refl : ∀ svc, P svc svc)
    (free : s.heap s.next = none) (heap : t.heap = Function.update s.heap s.next (some svc))
    (idle : svc.phase = .idle) : Became P ref s t := by
  by_cases same : ref = s.next
  · subst same
    refine .inr ⟨free, fun svc' at_ref => ?_⟩
    rw [heap, Function.update_self] at at_ref
    cases at_ref
    exact idle
  · exact .of_heap refl (heap ▸ Function.update_of_ne same _ _)

theorem perform_turn [Uuid] {a : c.Answer} (free : s.heap s.next = none)
    (h : perform i c e s = some (a, t)) (ref : Ref) :
    Became (fun svc svc' => Turn i ref svc svc' c) ref s t := by
  have heap (aside : ¬ c.Turns ref) (same : t.heap ref = s.heap ref) :
      Became (fun svc svc' => Turn i ref svc svc' c) ref s t := .of_heap
      (fun _ => .same aside rfl rfl) same
  have new {svc : Service} (aside : ¬ c.Turns ref)
    (heap : t.heap = Function.update s.heap s.next (some svc))
      (idle : svc.phase = .idle) : Became (fun svc svc' => Turn i ref svc svc' c) ref s t :=
    .of_new (fun _ => .same aside rfl rfl) free heap idle
  have onService {k : Ref} {f : Service → Option Service} {a : Unit}
    (ran : onService s k f = some (a, t))
      (aside : k ≠ ref → ¬ c.Turns ref) (turn : ∀ svc svc', f svc = some svc' → k = ref →
        Turn i ref svc svc' c) :
      Became (fun svc svc' => Turn i ref svc svc' c) ref s t := by
    obtain ⟨svc, svc', at_k, made, rfl⟩ := onService_eq_some ran
    exact .of_update (fun other _ => .same (aside other) rfl rfl) at_k rfl (turn svc svc' made)
  have read {α β : Type} {x : Option α} {f : α → β} {a : β} (aside : ¬ c.Turns ref)
      (ran : x.map (fun r => (f r, s)) = some (a, t)) : Became
      (fun svc svc' => Turn i ref svc svc' c) ref s t := by
    obtain ⟨_, -, eq⟩ := Option.map_eq_some_iff.1 ran
    cases eq
    exact heap aside rfl
  cases c with
  | register input =>
    obtain rfl := answered (Option.some.inj h)
    have registered : (s.register i input).2.heap = s.heap ∨ (s.register i input).2.heap =
        Function.update s.heap s.next (some (newService input.id (some i))) := by
      unfold Manager.register
      split
      · exact .inl rfl
      split
      · exact .inl rfl
      split
      · exact .inl rfl
      · exact .inr rfl
    obtain same | fresh := registered
    · exact heap (fun x => x) (congrFun same ref)
    · exact new (fun x => x) fresh rfl
  | adopt id state =>
    cases h
    exact new (fun x => x) rfl rfl
  | claim id =>
    obtain rfl := answered (Option.some.inj h)
    refine heap (fun x => x) ?_
    unfold Manager.claim
    split
    · rfl
    split <;> rfl
  | claimOrphans ids =>
    obtain rfl := answered (Option.some.inj h)
    exact heap (fun x => x) (by rw [claimOrphans_frame])
  | forget id k =>
    cases h
    refine heap (fun x => x) ?_
    unfold Manager.forget
    split
    · split <;> rfl
    · rfl
  | report k state =>
    obtain ⟨svc, -, eq⟩ := Option.map_eq_some_iff.1 h
    obtain rfl := answered eq
    refine heap (fun x => x) ?_
    unfold Manager.report
    split
    · split <;> rfl
    · rfl
  | emit id state =>
    cases h
    refine heap (fun x => x) ?_
    unfold Manager.emit
    split <;> rfl
  | offer k cmd =>
    obtain ⟨svc, at_k, h⟩ := Option.bind_eq_some_iff.1 h
    split at h <;> cases h
    · rename_i idle
      refine .of_update (fun _ _ => .same (fun x => x) rfl rfl) at_k rfl fun same => ?_
      subst same
      exact .offered cmd idle rfl rfl
    · exact heap (fun x => x) rfl
  | await k cmd =>
    obtain ⟨svc, -, h⟩ := Option.bind_eq_some_iff.1 h
    split at h
    · split at h <;> cases h
      exact heap (fun x => x) rfl
    · exact read (fun x => x) h
  | reply k j cmd err exit =>
    refine onService h (fun other => other) fun svc svc' eq same => ?_
    cases eq
    subst same
    exact .replied j cmd err exit rfl rfl
  | resume k =>
    refine onService h (fun other => other) fun svc svc' eq same => ?_
    cases eq
    subst same
    exact .resumed rfl rfl
  | close k =>
    refine onService h (fun other => other) fun svc svc' eq same => ?_
    cases eq
    subst same
    exact .closed rfl rfl
  | setField | watch | unwatch =>
    refine onService h (fun _ x => x) fun svc svc' eq _ => ?_
    cases eq
    exact .same (fun x => x) rfl rfl
  | vm k op =>
    obtain ⟨svc, at_k, eq⟩ := Option.map_eq_some_iff.1 h
    cases eq
    exact .of_update (fun _ _ => .same (fun x => x) rfl rfl) at_k rfl fun _ => .same
      (fun x => x) rfl rfl
  | attach id =>
    simp only [perform] at h
    split at h
    · exact read (fun x => x) h
    · cases h
  | reap id op =>
    obtain ⟨_, -, eq⟩ := Option.map_eq_some_iff.1 h
    cases eq
    exact heap (fun x => x) rfl
  | release | markDead | serveRequests | lookup =>
    cases h
    exact heap (fun x => x) rfl
  | fields | recheck | queryVM | listDisk | queryState => exact read (fun x => x) h

theorem begin_turn {k : Kind} (h : begin i k s = some t) (ref : Ref) :
    Became (fun svc svc' => svc' = svc ∨ ∃ wake, k = .serve ref wake ∧ svc.ready s wake = true ∧
      svc' = { svc with phase := .busy i wake }) ref s t := by
  cases k with
  | serve k wake =>
    simp only [begin, Option.bind_eq_some_iff, Option.ite_none_right_eq_some] at h
    obtain ⟨svc, at_k, ready, eq⟩ := h
    cases eq
    refine .of_update (fun _ _ => .inl rfl) at_k rfl fun same => .inr ⟨wake, ?_, ready, rfl⟩
    rw [same]
  | startup | create _ | stop _ | remove _ | reconcileDisk | checkLiveness =>
    simp only [begin, Option.ite_none_right_eq_some] at h
    obtain ⟨-, eq⟩ := h
    cases eq
    exact .of_heap (fun _ => .inl rfl) rfl

end Turns

section Links
variable {i j : Nat} {e : Env} {s t : Manager} {c : Call} {ref : Ref} {wake : Wake} {q : Place}

theorem Owned.unused (h : Owned s) : s.heap s.next = none := by
  cases known : s.heap s.next with
  | none => rfl
  | some svc => exact absurd (h.bound _ svc known) (Nat.lt_irrefl _)

theorem request_own [Uuid] {r : c.Answer} (ran : perform i c e s = some (r, t))
    (may : requesting.may q c) (link : RequestLink i q s) :
    RequestLink i (requesting.next q c r) t := by
  cases q with
  | free =>
    cases c with
    | offer ref cmd =>
      cases r with
      | false => trivial
      | true =>
        obtain ⟨svc, -, h⟩ := Option.bind_eq_some_iff.1 ran
        split at h <;> cases h
        exact ⟨_, Function.update_self _ _ _, .inl (.inl rfl)⟩
    | await | recheck | reply | resume | close | fields | setField | watch | unwatch | vm
        | queryVM | report =>
      exact may.elim
    | _ => trivial
  | waiting ref cmd =>
    cases c with
    | await k d =>
      obtain ⟨rfl, rfl⟩ := may
      cases r with
      | some err => trivial
      | none =>
        obtain ⟨svc, at_ref, h⟩ := Option.bind_eq_some_iff.1 ran
        refine ⟨svc, ?_⟩
        split at h
        · split at h <;> cases h
          exact at_ref
        · obtain ⟨_, -, eq⟩ := Option.map_eq_some_iff.1 h
          cases eq
    | _ => exact may.elim
  | leftOver ref cmd =>
    cases c with
    | recheck => trivial
    | _ => exact may.elim
  | passing | leaving | ended => exact link.elim

theorem serve_own {r : c.Answer}
    (turn : ∀ ref, Became (fun svc svc' => Turn i ref svc svc' c) ref s t)
    (may : (serving ref wake).may q c) (link : ServeLink i ref wake q s) :
    ServeLink i ref wake ((serving ref wake).next q c r) t := by
  cases q with
  | free | waiting | leftOver => exact link.elim
  | ended => exact may.elim
  | leaving =>
    cases c with
    | close => trivial
    | _ => exact may.elim
  | passing answered =>
    obtain ⟨svc, ⟨at_ref, busy⟩, replied⟩ := link
    obtain ⟨old, svc', at_old, at_ref', turn⟩ | ⟨none, -⟩ := turn ref
    · cases at_old.symm.trans at_ref
      cases turn with
      | same aside phase replies =>
        have stays : ServeLink i ref wake (.passing answered) t :=
          ⟨svc', ⟨at_ref', phase.trans busy⟩, fun x j cmd eq => replies ▸ replied x j cmd eq⟩
        cases c with
        | reply => exact absurd may.1 aside
        | resume | close => trivial
        | _ => exact stays
      | offered cmd => exact may.elim
      | replied j cmd err exit phase replies =>
        obtain ⟨-, rfl⟩ := may
        cases exit with
        | true => exact ⟨svc', at_ref', by simp [Service.active, phase]⟩
        | false =>
          refine ⟨svc', ⟨at_ref', phase.trans busy⟩, fun _ j' cmd' eq => ?_⟩
          cases eq
          simp [replies]
      | resumed | closed => trivial
    · cases none.symm.trans at_ref

theorem Idle.moves (moves : Moves s t) (idle : s.Idle ref) : t.Idle ref := by
  obtain ⟨svc, at_ref, done⟩ := idle
  obtain ⟨svc', at_ref', -, -, done'⟩ := moves.heap ref svc at_ref
  exact ⟨svc', at_ref', done' done⟩

theorem serve_other (moves : Moves s t) (leaves : Leaves j s t) (link : ServeLink j ref wake q s) :
    ServeLink j ref wake q t := by
  cases q with
  | free | waiting | leftOver => exact link.elim
  | ended => trivial
  | leaving => exact Idle.moves moves link
  | passing answered =>
    obtain ⟨svc, ⟨at_ref, busy⟩, replied⟩ := link
    exact ⟨svc, ⟨(leaves.serving ref svc wake at_ref busy).1, busy⟩, replied⟩

theorem Takes.of_phase {svc svc' : Service} {cmd : Command} (phase : svc'.phase = svc.phase)
    (h : svc.Takes j cmd) : svc'.Takes j cmd := by
  simpa only [Service.Takes, phase] using h

theorem Turn.received {svc svc' : Service} {cmd : Command} (turn : Turn i ref svc svc' c)
    (resumed : c = .resume ref → svc.Takes j cmd → svc.replies (j, cmd) ≠ none)
    (stays : svc.active = false → svc'.active = false)
    (h : svc.Takes j cmd ∨ svc.replies (j, cmd) ≠ none ∨ svc.active = false) :
    svc'.Takes j cmd ∨ svc'.replies (j, cmd) ≠ none ∨ svc'.active = false := by
  have kept (replies : svc.replies (j, cmd) ≠ none → svc'.replies (j, cmd) ≠ none)
      (takes : svc.Takes j cmd → svc'.Takes j cmd ∨ svc'.replies (j, cmd) ≠ none ∨
        svc'.active = false) :
      svc'.Takes j cmd ∨ svc'.replies (j, cmd) ≠ none ∨ svc'.active = false := by
    obtain taken | known | done := h
    · exact takes taken
    · exact .inr (.inl (replies known))
    · exact .inr (.inr (stays done))
  cases turn with
  | same _ phase replies =>
    exact kept (fun known => replies ▸ known) fun taken => .inl (Takes.of_phase phase taken)
  | offered d idle _ replies =>
    refine kept (fun known => replies ▸ known) fun taken => ?_
    obtain offered | ⟨n, busy⟩ := taken
    · cases idle.symm.trans offered
    · cases idle.symm.trans busy
  | replied j' d err exit phase replies =>
    refine kept (fun known => ?_) fun taken => ?_
    · rw [replies]
      by_cases same : (j, cmd) = (j', d)
      · rw [same, Function.update_self]
        exact Option.some_ne_none err
      · rwa [Function.update_of_ne same]
    · cases exit with
      | true => exact .inr (.inr (by simp [Service.active, phase]))
      | false => exact .inl (Takes.of_phase phase taken)
  | resumed _ replies =>
    exact kept (fun known => replies ▸ known) fun taken => .inr (.inl (replies ▸ resumed rfl taken))
  | closed phase => exact .inr (.inr (by simp [Service.active, phase]))

theorem resumed_answered {k : Kind} {svc : Service} {cmd : Command}
    (may : (protocol k).may q (.resume ref))
    (link : Link i k q s) (current : s.born i = s.process) (at_ref : s.heap ref = some svc)
    (taken : svc.Takes j cmd) : svc.replies (j, cmd) ≠ none := by
  have link := link current
  unfold protocol at may
  cases kind : k.serves with
  | none =>
    rw [kind] at may
    cases q <;> exact may.elim
  | some x =>
    obtain ⟨k', wake⟩ := x
    rw [kind] at may link
    cases q with
    | passing answered =>
      obtain ⟨rfl, replied⟩ := may
      obtain ⟨svc', ⟨at_ref', busy⟩, known⟩ := link
      cases at_ref'.symm.trans at_ref
      obtain offered | ⟨n, busy'⟩ := taken
      · cases busy.symm.trans offered
      · cases busy.symm.trans busy'
        exact known (replied j cmd rfl) j cmd rfl
    | _ => exact may.elim

theorem request_other (moves : Moves s t) (link : RequestLink j q s)
    (turn : ∀ ref svc cmd, s.heap ref = some svc →
      (svc.Takes j cmd ∨ svc.replies (j, cmd) ≠ none ∨ svc.active = false) →
      ∃ svc', t.heap ref = some svc' ∧ (svc'.Takes j cmd ∨ svc'.replies (j, cmd) ≠ none ∨
        svc'.active = false)) :
    RequestLink j q t := by
  cases q with
  | free => trivial
  | waiting ref cmd =>
    obtain ⟨svc, at_ref, h⟩ := link
    exact turn ref svc cmd at_ref h
  | leftOver ref cmd =>
    obtain ⟨svc, at_ref⟩ := link
    obtain ⟨svc', at_ref', -⟩ := moves.heap ref svc at_ref
    exact ⟨svc', at_ref'⟩
  | passing | leaving | ended => exact link.elim

theorem link_other {k : Kind} (moves : Moves s t) (leaves : Leaves j s t)
    (process : t.process = s.process) (born : t.born j = s.born j)
    (turn : ∀ ref svc cmd, s.heap ref = some svc →
      (svc.Takes j cmd ∨ svc.replies (j, cmd) ≠ none ∨ svc.active = false) →
      ∃ svc', t.heap ref = some svc' ∧ (svc'.Takes j cmd ∨ svc'.replies (j, cmd) ≠ none ∨
        svc'.active = false))
    (link : Link j k q s) : Link j k q t := by
  intro current
  have link := link (born.symm.trans (current.trans process))
  cases kind : k.serves with
  | none =>
    rw [kind] at link
    exact request_other moves link turn
  | some x =>
    rw [kind] at link
    exact serve_other moves leaves link

theorem linking [Uuid] :
    System.Linking protocol LastPlace firstPlace Link system (spec unassuming) where
  body := body_obeys
  start {i k s t} sane started := by
    have started : begin i k s = some t := started
    intro current
    cases k with
    | serve ref wake =>
      obtain ⟨svc, serving, -⟩ := (begin_fits sane started).2
      exact ⟨svc, serving, fun eq => by cases eq⟩
    | _ => trivial
  aside {i k s t j k' q} sane started evolves other keeps link := by
    have started : begin i k s = some t := started
    obtain ⟨fits, -⟩ := begin_fits sane started
    have same : s.process = t.process := fits.process.symm
    refine link_other (evolves.moves same) (keeps.leaves same) fits.process keeps.born
      (fun ref svc cmd at_ref h => ?_) link
    obtain ⟨old, svc', at_old, at_ref', turn⟩ | ⟨none, -⟩ := begin_turn started ref
    · cases at_old.symm.trans at_ref
      refine ⟨svc', at_ref', ?_⟩
      obtain rfl | ⟨wake, -, ready, rfl⟩ := turn
      · exact h
      refine h.imp (fun taken => ?_) (Or.imp_right fun done => ?_)
      · obtain offered | ⟨n, busy⟩ := taken
        · cases wake <;> simp [Service.ready, offered] at ready
          obtain ⟨rfl, rfl⟩ := ready
          exact .inr ⟨i, rfl⟩
        · cases wake <;> simp [Service.ready, busy] at ready
      · cases wake <;> simp_all [Service.ready, Service.active]
    · cases none.symm.trans at_ref
  own {i k q c e s r t} sane pre link may ran _ := by
    obtain ⟨current, ran⟩ := exec_eq_some ran
    have link := link current
    have turn := perform_turn sane.owned.unused ran
    intro _
    unfold protocol at may ⊢
    cases kind : k.serves with
    | none =>
      rw [kind] at link may
      exact request_own ran may link
    | some x =>
      rw [kind] at link may
      exact serve_own turn may link
  other {i k q c e s r t j k' q'} sane pre link may ran _ other _ link' := by
    obtain ⟨current, ran⟩ := exec_eq_some ran
    have fits := perform_fits sane (pre current) (unassuming_meets i c e s) ran
    refine link_other fits.moves (fits.leaves j other) fits.process (congrFun fits.born j)
      (fun ref svc cmd at_ref h => ?_) link'
    obtain ⟨old, svc', at_old, at_ref', turn⟩ | ⟨none, -⟩ := perform_turn sane.owned.unused ran ref
    · cases at_old.symm.trans at_ref
      refine ⟨svc', at_ref', turn.received (fun eq taken => ?_) (fun done => ?_) h⟩
      · subst eq
        exact resumed_answered may link current at_ref taken
      · obtain ⟨x, at_x, -, -, done'⟩ := fits.moves.heap ref svc at_ref
        cases at_x.symm.trans at_ref'
        exact done' done
    · cases none.symm.trans at_ref
  ext {x s t j k q} sane happened link := by
    have happened : some (happen x s) = some t := happened
    cases happened
    obtain ⟨-, evolves, keeps⟩ := happen_keeps x sane
    cases x with
    | restart =>
      intro current
      exact absurd (sane.owned.born j) (Nat.not_le_of_lt (current ▸ Nat.lt_succ_self s.process))
    | vmExit _ | cancel | setCapacity _ | takeEvent =>
      exact link_other (evolves.moves rfl) ((keeps j).leaves rfl) rfl rfl
        (fun _ svc _ at_ref h => ⟨svc, at_ref, h⟩) link

end Links

/-- A Service that is not in its select is in the hands of a thread that has calls
left to make. -/
structure Driven (s : State) : Prop where
  busy : ∀ ref svc n wake, s.shared.heap ref = some svc → svc.phase = .busy n wake →
    s.shared.born n = s.shared.process ∧ ∃ c f, s.threads n = some ⟨.serve ref wake, .call c f⟩
  exiting : ∀ ref svc, s.shared.heap ref = some svc → svc.phase = .exiting →
    ∃ n wake f, s.shared.born n = s.shared.process ∧ s.threads n = some ⟨.serve ref wake,
      .call (.close ref) f⟩

section Progress
variable {host : Table SandboxID Remnant} {s t : State}

theorem reached_linked [Uuid] (h : system.Reaches (System.init (booting host)) s) :
    system.Safe (spec unassuming) (Answers unassuming) s ∧
    System.Linked protocol LastPlace Link s :=
  System.linked_reaches linking (disciplined unassuming) unassuming_meets (fun _ _ => trivial)
    (booting_sane False.elim) h

theorem pass_place {i : Nat} {ref : Ref} {wake : Wake} {c : Call} {f : c.Answer → M (Option Err)}
    (linked : System.Linked protocol LastPlace Link s)
    (current : s.shared.born i = s.shared.process)
    (thread : s.threads i = some ⟨.serve ref wake, .call c f⟩) :
    ∃ q, (serving ref wake).may q c ∧ ServeLink i ref wake q s.shared ∧
      ∀ r, (f r).Obeys (serving ref wake) LastPlace ((serving ref wake).next q c r) := by
  obtain ⟨q, obeys, link⟩ := linked i _ _ thread
  obtain ⟨may, next⟩ := obeys.next
  exact ⟨q, may, link current, next⟩

theorem passing_more (answered : Bool) : ¬ LastPlace (.passing answered) := by simp [LastPlace]

theorem leaving_more : ¬ LastPlace .leaving := by simp [LastPlace]

theorem pass_goes_on {i : Nat} {ref : Ref} {wake : Wake} {c : Call}
    {f : c.Answer → M (Option Err)} {r : c.Answer}
    (linked : System.Linked protocol LastPlace Link s)
    (current : s.shared.born i = s.shared.process)
    (thread : s.threads i = some ⟨.serve ref wake, .call c f⟩) (resume : c ≠ .resume ref)
    (close : c ≠ .close ref) :
    ∃ c' f', f r = .call c' f' ∧ ∀ j cmd err, c = .reply ref j cmd err true → c' = .close ref := by
  obtain ⟨q, may, link, next⟩ := pass_place linked current thread
  cases q with
  | free | waiting | leftOver => exact link.elim
  | ended => exact may.elim
  | leaving =>
    cases c with
    | close k => exact absurd (congrArg Call.close may) close
    | _ => exact may.elim
  | passing answered =>
    cases c with
    | resume k => exact absurd (congrArg Call.resume may.1) resume
    | close k => exact absurd (congrArg Call.close may) close
    | reply k j cmd err exit =>
      cases exit with
      | true =>
        obtain ⟨c', f', eq, may'⟩ := (next r).goes_on leaving_more
        refine ⟨c', f', eq, fun _ _ _ _ => ?_⟩
        cases c' with
        | close k' => exact congrArg Call.close may'
        | _ => exact may'.elim
      | false =>
        obtain ⟨c', f', eq, -⟩ := (next r).goes_on (passing_more true)
        exact ⟨c', f', eq, fun _ _ _ eq => by cases eq⟩
    | _ =>
      obtain ⟨c', f', eq, -⟩ := (next r).goes_on (passing_more answered)
      exact ⟨c', f', eq, fun _ _ _ eq => by cases eq⟩

theorem driven_of_empty (empty : ∀ ref, s.shared.heap ref = none) : Driven s := by
  refine ⟨fun ref svc n wake at_ref => ?_, fun ref svc at_ref => ?_⟩
  · cases (empty ref).symm.trans at_ref
  · cases (empty ref).symm.trans at_ref

theorem driven_call [Uuid] (reached : system.Reaches (System.init (booting host)) s)
    (driven : Driven s) {i : Nat} {e : Env} {k : Kind} {c : Call} {f : c.Answer → M (Option Err)}
    {r : c.Answer} {v : Manager} (thread : s.threads i = some ⟨k, .call c f⟩)
    (ran : exec i c e s.shared = some (r, v)) :
    Driven ⟨v, s.next, Function.update s.threads i (some ⟨k, f r⟩)⟩ := by
  obtain ⟨safe, linked⟩ := reached_linked reached
  obtain ⟨current, ran⟩ := exec_eq_some ran
  have may : may unassuming i s.shared c := System.safe_pre
    (disciplined unassuming) safe thread current
  have fits := perform_fits safe.inv may (unassuming_meets i c e s.shared) ran
  have turn := perform_turn safe.inv.owned.unused ran
  -- the thread that has the Service has not moved, or has moved on
  have kept {n : Nat} {ref : Ref} {wake : Wake} {c' : Call} {f' : c'.Answer → M (Option Err)}
      (born : s.shared.born n = s.shared.process)
      (at_n : s.threads n = some ⟨.serve ref wake, .call c' f'⟩)
      (resume : c ≠ .resume ref) (close : c ≠ .close ref) :
      v.born n = v.process ∧ ∃ c'' f'', Function.update s.threads i (some ⟨k, f r⟩) n =
        some ⟨.serve ref wake, .call c'' f''⟩ := by
    refine ⟨by rw [fits.born, fits.process, born], ?_⟩
    by_cases same : n = i
    · subst same
      cases thread.symm.trans at_n
      obtain ⟨c'', f'', eq, -⟩ := pass_goes_on (r := r) linked born thread resume close
      exact ⟨c'', f'', by rw [Function.update_self, eq]⟩
    · exact ⟨c', f', by rw [Function.update_of_ne same, at_n]⟩
  refine ⟨fun ref svc' n wake at_ref' busy' => ?_, fun ref svc' at_ref' exiting' => ?_⟩
  · obtain ⟨svc, x, at_ref, at_x, turn⟩ | ⟨-, idle⟩ := turn ref
    · cases at_x.symm.trans at_ref'
      cases turn with
      | same aside phase =>
        obtain ⟨born, c', f', at_n⟩ := driven.busy ref svc n wake at_ref (phase.symm.trans busy')
        exact kept born at_n (fun eq => aside (eq ▸ rfl)) fun eq => aside (eq ▸ rfl)
      | replied j cmd err exit phase =>
        cases exit with
        | true => cases phase.symm.trans busy'
        | false =>
          obtain ⟨born, c', f', at_n⟩ := driven.busy ref svc n wake at_ref (phase.symm.trans busy')
          exact kept born at_n (fun eq => by cases eq) fun eq => by cases eq
      | offered _ _ phase | resumed phase | closed phase => cases phase.symm.trans busy'
    · cases (idle svc' at_ref').symm.trans busy'
  · obtain ⟨svc, x, at_ref, at_x, turn⟩ | ⟨-, idle⟩ := turn ref
    · cases at_x.symm.trans at_ref'
      cases turn with
      | same aside phase =>
        obtain ⟨n, wake, f', born, at_n⟩ := driven.exiting ref svc at_ref
          (phase.symm.trans exiting')
        refine ⟨n, wake, f', by rw [fits.born, fits.process, born], ?_⟩
        by_cases same : n = i
        · subst same
          cases thread.symm.trans at_n
          exact absurd rfl aside
        · exact (Function.update_of_ne same _ _).trans at_n
      | replied j cmd err exit phase =>
        obtain ⟨-, old, ⟨at_old, busy⟩, -⟩ := may
        cases at_old.symm.trans at_ref
        cases exit with
        | true =>
          obtain ⟨-, c', f', at_i⟩ := driven.busy ref svc i _ at_ref busy
          cases thread.symm.trans at_i
          obtain ⟨c'', f'', eq, last⟩ := pass_goes_on (r := r) linked current thread
            (fun eq => by cases eq) fun eq => by cases eq
          obtain rfl := last j cmd err rfl
          refine ⟨i, .command j cmd, f'', by rw [fits.born, fits.process, current], ?_⟩
          rw [← eq]
          exact Function.update_self _ _ _
        | false => cases busy.symm.trans (phase.symm.trans exiting')
      | offered _ _ phase | resumed phase | closed phase => cases phase.symm.trans exiting'
    · cases (idle svc' at_ref').symm.trans exiting'

theorem driven_spawn [Uuid] (reached : system.Reaches (System.init (booting host)) s)
    (driven : Driven s) {k : Kind} {v : Manager} (started : begin s.next k s.shared = some v) :
    Driven ⟨v, s.next + 1, Function.update s.threads s.next (some ⟨k, body k⟩)⟩ := by
  obtain ⟨safe, -⟩ := reached_linked reached
  obtain ⟨fits, -⟩ := begin_fits safe.inv started
  have process : v.process = s.shared.process := fits.process
  have births : v.born = Function.update s.shared.born s.next s.shared.process := fits.born
  have born (n : Nat) (th : Thread Kind Call (Option Err) Call.Answer)
    (at_n : s.threads n = some th) :
      v.born n = s.shared.born n ∧ Function.update s.threads s.next
      (some ⟨k, body k⟩) n = some th := by
    have older := Nat.ne_of_lt (System.started_of_thread reached at_n)
    rw [births, Function.update_of_ne older, Function.update_of_ne older]
    exact ⟨rfl, at_n⟩
  refine ⟨fun ref svc' n wake at_ref' busy' => ?_, fun ref svc' at_ref' exiting' => ?_⟩
  · obtain ⟨svc, x, at_ref, at_x, turn⟩ | ⟨-, idle⟩ := begin_turn started ref
    · cases at_x.symm.trans at_ref'
      obtain rfl | ⟨wake', rfl, -, rfl⟩ := turn
      · obtain ⟨current, c, f, at_n⟩ := driven.busy ref _ n wake at_ref busy'
        obtain ⟨same, at_n'⟩ := born n _ at_n
        exact ⟨by rw [same, process, current], c, f, at_n'⟩
      · cases busy'
        obtain ⟨c, f, eq, -⟩ := (body_obeys (.serve ref wake)).goes_on (passing_more false)
        refine ⟨?_, c, f, ?_⟩
        · rw [births, process]
          exact Function.update_self _ _ _
        · rw [← eq]
          exact Function.update_self _ _ _
    · cases (idle svc' at_ref').symm.trans busy'
  · obtain ⟨svc, x, at_ref, at_x, turn⟩ | ⟨-, idle⟩ := begin_turn started ref
    · cases at_x.symm.trans at_ref'
      obtain rfl | ⟨wake', rfl, -, rfl⟩ := turn
      · obtain ⟨n, wake, f, current, at_n⟩ := driven.exiting ref _ at_ref exiting'
        obtain ⟨same, at_n'⟩ := born n _ at_n
        exact ⟨n, wake, f, by rw [same, process, current], at_n'⟩
      · cases exiting'
    · cases (idle svc' at_ref').symm.trans exiting'

theorem reached_driven [Uuid] (h : system.Reaches (System.init (booting host)) s) : Driven s := by
  induction h with
  | refl => exact driven_of_empty fun _ => rfl
  | tail reached last driven =>
    obtain ⟨a, -, step⟩ := last
    obtain ⟨k, v, rfl, started, rfl⟩ | ⟨i, e, k, c, f, r, v, rfl, thread, ran, rfl⟩ |
      ⟨i, th, -, -, stopped, -⟩ | ⟨x, v, rfl, happened, rfl⟩ := System.step_cases step
    · exact driven_spawn reached driven started
    · exact driven_call reached driven thread ran
    · cases stopped
    · have happened : some (happen x _) = some v := happened
      cases happened
      cases x with
      | restart => exact driven_of_empty fun _ => rfl
      | vmExit _ | cancel | setCapacity _ | takeEvent => exact ⟨driven.busy, driven.exiting⟩

end Progress

abbrev Oracle := Nat → Call → Manager → Env

/-- An operation outside of a Service does not panic, which would end the process,
and only a shim that is there is attached to. -/
def Oracle.Returns (o : Oracle) : Prop :=
  ∀ (i : Nat) (c : Call) (s : Manager), match c with
    | .listDisk | .queryState _ | .reap _ _ => (o i c s).fault ≠ .panic
    | .attach id => (o i c s).fault ≠ .panic ∧ ((s.remnant id).vm = true ∨ (o i c s).fault ≠ .none)
    | _ => True

/-- What a worker does of itself: the calls under way go on, each answered as it
may be, and a goroutine goes on to handle the command it has received. -/
def Onward (o : Oracle) (s : State) : Action Kind Env Event → Prop
  | .spawn (.serve _ (.command _ _)) => True
  | .call i e =>
    ∀ k c f, s.threads i = some ⟨k, .call c f⟩ → ∃ done, e = { o i c s.shared with done }
  | _ => False

def Current (i : Nat) (s : Manager) : Prop := s.born i = s.process

section Calls
variable [Uuid] {i : Nat} {c : Call} {e : Env} {s : Manager} {q : Place} {ref : Ref} {wake : Wake}

theorem exec_of_perform {x : c.Answer × Manager} (current : Current i s)
    (h : perform i c e s = some x) : exec i c e s = some x := by
  simp only [exec, if_pos (show s.born i = s.process from current), h]

theorem serve_able (may : (serving ref wake).may q c)
    (link : ServeLink i ref wake q s) (e : Env) : ∃ x, perform i c e s = some x := by
  have able {svc : Service} (at_ref : s.heap ref = some svc)
      (on : PassCall ref c ∨ c.Turns ref) : ∃ x, perform i c e s = some x := by
    cases c with
    | fields | setField | report | queryVM | vm | watch | unwatch =>
      obtain rfl := on.resolve_right id
      simp [perform, onService, at_ref]
    | reply | resume | close =>
      obtain rfl := on.resolve_left id
      simp [perform, onService, at_ref]
    | emit => simp [perform]
    | _ => exact (on.elim id id).elim
  cases q with
  | free | waiting | leftOver => exact link.elim
  | ended => exact may.elim
  | leaving =>
    obtain ⟨svc, at_ref, -⟩ := link
    cases c with
    | close => exact able at_ref (.inr may)
    | _ => exact may.elim
  | passing answered =>
    obtain ⟨svc, ⟨at_ref, -⟩, -⟩ := link
    cases c with
    | reply | resume => exact able at_ref (.inr may.1)
    | close => exact able at_ref (.inr may)
    | _ => exact able at_ref (.inl may)

theorem request_able {o : Oracle} (returns : o.Returns) (request : RequestCall c)
    (other : ∀ ref cmd, c ≠ .offer ref cmd) : ∃ x, perform i c (o i c s) s = some x := by
  have result {α : Type} (a : α) (e : Env) (fine : e.fault ≠ .panic) : ∃ x,
      e.result a = some x := by
    unfold Env.result
    cases known : e.fault with
    | none => exact ⟨_, rfl⟩
    | err text => exact ⟨_, rfl⟩
    | panic => exact absurd known fine
  cases c with
  | offer ref cmd => exact absurd rfl (other ref cmd)
  | listDisk =>
    obtain ⟨x, eq⟩ := result s.dirs _ (returns i .listDisk s)
    exact ⟨(x, s), by rw [perform, eq]; rfl⟩
  | queryState id =>
    obtain ⟨x, eq⟩ := result (o i (.queryState id) s).state _ (returns i (.queryState id) s)
    exact ⟨(x, s), by rw [perform, eq]; rfl⟩
  | attach id =>
    obtain ⟨fine, there⟩ := returns i (.attach id) s
    obtain ⟨x, eq⟩ := result () _ fine
    exact ⟨(x, s), by rw [perform, if_pos (by simpa using there), eq]; rfl⟩
  | reap id op =>
    obtain ⟨x, eq⟩ := result () _ (returns i (.reap id op) s)
    exact ⟨(x, _), by rw [perform, eq]; rfl⟩
  | register | forget | lookup | claim | release | claimOrphans | adopt | markDead
      | emit | serveRequests =>
    exact ⟨_, rfl⟩
  | _ => exact request.elim

end Calls

/-- A run of the worker on its own after which a Service is in its select or gone,
and the calls of the Manager are where they were. -/
structure Settles [Uuid] (o : Oracle) (s t : State) (ref : Ref) : Prop where
  run : system.ReachesBy (Onward o) s t
  process : t.shared.process = s.shared.process
  settled : ∃ svc, t.shared.heap ref = some svc ∧ (svc.phase = .idle ∨ svc.phase = .closed)
  requests : ∀ i k p, k.serves = none → s.threads i = some ⟨k, p⟩ →
    t.threads i = some ⟨k, p⟩ ∧ t.shared.born i = s.shared.born i
  fewer : ∀ j, System.Unfinished Current t j → System.Unfinished Current s j

section Settling
variable [Uuid] {host : Table SandboxID Remnant} {o : Oracle} {s t : State} {i : Nat} {ref : Ref}

theorem onward_call {k : Kind} {c : Call} {f : c.Answer → M (Option Err)} {e : Env}
    {x : c.Answer × Manager} (reached : system.Reaches (System.init (booting host)) s)
    (thread : s.threads i = some ⟨k, .call c f⟩)
    (current : Current i s.shared) (ran : perform i c e s.shared = some x)
    (answered : ∃ done, e = { o i c s.shared with done }) :
    Onward o s (.call i e) ∧ system.exec i c e s.shared = some x ∧ x.2.born = s.shared.born ∧
      x.2.process = s.shared.process ∧ system.Reaches (System.init (booting host))
        ⟨x.2, s.next, Function.update s.threads i (some ⟨k, f x.1⟩)⟩ := by
  obtain ⟨safe, -⟩ := reached_linked reached
  have may : may unassuming i s.shared c := System.safe_pre
    (disciplined unassuming) safe thread current
  have fits := perform_fits safe.inv may (unassuming_meets i c e s.shared) ran
  have ran := exec_of_perform current ran
  refine ⟨fun k' c' f' at_i => ?_, ran, fits.born, fits.process,
    reached.trans (System.Reaches.single (System.step_call thread ran))⟩
  cases thread.symm.trans at_i
  exact answered

theorem settle_pass (reached : system.Reaches (System.init (booting host)) s)
    {wake : Wake} {c : Call} {f : c.Answer → M (Option Err)} (current : Current i s.shared)
    (thread : s.threads i = some ⟨.serve ref wake, .call c f⟩) :
    ∃ t, Settles o s t ref ∧ ¬ System.Unfinished Current t i ∧ t.shared.born = s.shared.born ∧
      ∀ j, j ≠ i → t.threads j = s.threads j := by
  have able (x : State) (c : Call) (f : c.Answer → M (Option Err))
      (hx : system.Reaches (System.init (booting host)) x ∧ x.shared.born = s.shared.born ∧
        x.shared.process = s.shared.process)
      (thread : x.threads i = some ⟨.serve ref wake, .call c f⟩) : ∃ e r v, Onward o x (.call i e) ∧
      system.exec i c e x.shared = some (r, v) ∧ system.Reaches (System.init (booting host))
        ⟨v, x.next, Function.update x.threads i (some ⟨.serve ref wake, f r⟩)⟩ ∧
        v.born = s.shared.born ∧
        v.process = s.shared.process := by
    obtain ⟨reached, born, process⟩ := hx
    have current : Current i x.shared := by rw [Current, born, process, current]
    obtain ⟨-, linked⟩ := reached_linked reached
    obtain ⟨q, may, link, -⟩ := pass_place linked current thread
    obtain ⟨⟨r, v⟩, ran⟩ := serve_able may link (o i c x.shared)
    obtain ⟨onward, ran, born', process', reached'⟩ := onward_call
      (o := o) reached thread current ran ⟨_, rfl⟩
    exact ⟨_, r, v, onward, ran, reached', born'.trans born, process'.trans process⟩
  obtain ⟨t, u, c', f', e, r, a, run, ⟨reached', born, process⟩, ⟨-, born', process'⟩,
    at_t, onward, step, ran, last, done, -, others⟩ := System.drive able ⟨reached, rfl, rfl⟩ thread
  have current' : Current i t.shared := by rw [Current, born, process, current]
  -- the last call of a pass sends the goroutine back to its select, or ends it
  have settled : ∃ svc, u.shared.heap ref = some svc ∧
      (svc.phase = .idle ∨ svc.phase = .closed) := by
    have ran : perform i c' e t.shared = some (r, u.shared) := (exec_eq_some ran).2
    by_cases resume : c' = .resume ref
    · subst resume
      obtain ⟨svc, svc', -, made, eq⟩ := onService_eq_some ran
      cases made
      rw [eq]
      exact ⟨_, Function.update_self _ _ _, .inl rfl⟩
    by_cases close : c' = .close ref
    · subst close
      obtain ⟨svc, svc', -, made, eq⟩ := onService_eq_some ran
      cases made
      rw [eq]
      exact ⟨_, Function.update_self _ _ _, .inr rfl⟩
    obtain ⟨c'', f'', eq, -⟩ := pass_goes_on (r := r)
      (reached_linked reached').2 current' at_t resume close
    cases last.symm.trans eq
  have gone : ¬ System.Unfinished Current u i := by
    rintro ⟨-, k, c, f, at_u⟩
    cases done.symm.trans at_u
  refine ⟨u, ⟨run.tail ⟨_, onward, step⟩, process', settled, fun j k p kind at_j => ?_,
    fun j more => ?_⟩, gone, born', others⟩
  · have other : j ≠ i := by
      rintro rfl
      cases thread.symm.trans at_j
      cases kind
    exact ⟨(others j other).trans at_j, congrFun born' j⟩
  · by_cases same : j = i
    · exact absurd (same ▸ more) gone
    · obtain ⟨current, k, c, f, at_j⟩ := more
      refine ⟨?_, k, c, f, (others j same).symm.trans at_j⟩
      rwa [Current, born', process'] at current

theorem settle (reached : system.Reaches (System.init (booting host)) s) {svc : Service}
    (at_ref : s.shared.heap ref = some svc) : ∃ t, Settles o s t ref := by
  have driven := reached_driven reached
  cases phase : svc.phase with
  | idle =>
    exact ⟨s, .refl, rfl, ⟨svc, at_ref, .inl phase⟩, fun _ _ _ _ at_i =>
      ⟨at_i, rfl⟩, fun _ more => more⟩
  | closed =>
    exact ⟨s, .refl, rfl, ⟨svc, at_ref, .inr phase⟩, fun _ _ _ _ at_i =>
      ⟨at_i, rfl⟩, fun _ more => more⟩
  | busy n wake =>
    obtain ⟨current, c, f, thread⟩ := driven.busy ref svc n wake at_ref phase
    obtain ⟨t, settles, -⟩ := settle_pass (o := o) reached current thread
    exact ⟨t, settles⟩
  | exiting =>
    obtain ⟨n, wake, f, current, thread⟩ := driven.exiting ref svc at_ref phase
    obtain ⟨t, settles, -⟩ := settle_pass (o := o) reached current thread
    exact ⟨t, settles⟩
  | offered j cmd =>
    -- the goroutine has received the command and goes on to handle it
    let k : Kind := .serve ref (.command j cmd)
    obtain ⟨v, started⟩ : ∃ v, begin s.next k s.shared = some v := by
      simp [k, begin, at_ref, Service.ready, phase]
    have spawn : system.step s (.spawn k) =
        some ⟨v, s.next + 1, Function.update s.threads s.next (some ⟨k, body k⟩)⟩ := by
      change (begin s.next k s.shared).map _ = _
      rw [started]
      rfl
    obtain ⟨fits, -⟩ := begin_fits (reached_linked reached).1.inv started
    have births : v.born = Function.update s.shared.born s.next s.shared.process := fits.born
    have process : v.process = s.shared.process := fits.process
    obtain ⟨c, f, eq, -⟩ := (body_obeys k).goes_on (passing_more false)
    obtain ⟨t, settles, gone, born', others⟩ := settle_pass (o := o) (i := s.next)
      (reached.trans (System.Reaches.single spawn)) (show v.born s.next = v.process by
        rw [births, process, Function.update_self])
      (by rw [← eq]; exact Function.update_self _ _ _)
    refine ⟨t, .head ⟨.spawn k, trivial, spawn⟩ settles.run,
      settles.process.trans process, settles.settled, fun i k' p kind at_i => ?_, fun j more => ?_⟩
    · have older := Nat.ne_of_lt (System.started_of_thread reached at_i)
      refine ⟨(others i older).trans ((Function.update_of_ne older _ _).trans at_i), ?_⟩
      rw [born']
      exact (congrFun births i).trans (Function.update_of_ne older _ _)
    · have other : j ≠ s.next := by
        rintro rfl
        exact gone more
      obtain ⟨current, k', c, f, at_j⟩ := settles.fewer j more
      refine ⟨?_, k', c, f, (Function.update_of_ne other _ _).symm.trans at_j⟩
      have current : v.born j = v.process := current
      rwa [births, process, Function.update_of_ne other] at current

theorem waiting_replied (reached : system.Reaches (System.init (booting host)) s)
    {k : Kind} {cmd : Command} {f : Option (Option Err) → M (Option Err)} {svc : Service}
    (current : Current i s.shared) (request : k.serves = none)
    (thread : s.threads i = some ⟨k, .call (.await ref cmd) f⟩)
    (at_ref : s.shared.heap ref = some svc) (idle : svc.phase = .idle) :
    ∃ err, svc.replies (i, cmd) = some err := by
  obtain ⟨q, obeys, link⟩ := (reached_linked reached).2 i k _ thread
  obtain ⟨may, -⟩ := obeys.next
  have link := link current
  unfold protocol at may
  rw [request] at may link
  cases q with
  | waiting k' d =>
    obtain ⟨rfl, rfl⟩ := may
    obtain ⟨x, at_x, taken | replied | done⟩ := link
    · cases at_x.symm.trans at_ref
      obtain offered | ⟨n, busy⟩ := taken
      · cases idle.symm.trans offered
      · cases idle.symm.trans busy
    · cases at_x.symm.trans at_ref
      exact Option.ne_none_iff_exists'.1 replied
    · cases at_x.symm.trans at_ref
      simp [Service.active, idle] at done
  | _ => exact may.elim

theorem advance (returns : o.Returns) {n : Nat} (s : State) (i : Nat) (k : Kind) (c : Call)
    (f : c.Answer → M (Option Err))
    (hs : system.Reaches (System.init (booting host)) s ∧ s.shared.process = n)
    (current : Current i s.shared) (thread : s.threads i = some ⟨k, .call c f⟩) :
    ∃ t r, system.ReachesBy (Onward o) s t ∧ (system.Reaches (System.init (booting host)) t ∧
      t.shared.process = n) ∧
      t.threads i = some ⟨k, f r⟩ ∧ ∀ j, System.Unfinished Current t j →
      System.Unfinished Current s j := by
  obtain ⟨reached, process⟩ := hs
  -- the call is made where it stands
  have make {s : State} (reached : system.Reaches (System.init (booting host)) s)
    (process : s.shared.process = n)
      (current : Current i s.shared) (thread : s.threads i = some ⟨k, .call c f⟩) (done : Bool)
      {x : c.Answer × Manager} (ran : perform i c { o i c s.shared with done } s.shared = some x) :
      ∃ t r, system.ReachesBy (Onward o) s t ∧
        (system.Reaches (System.init (booting host)) t ∧ t.shared.process = n) ∧
        t.threads i = some ⟨k, f r⟩ ∧ ∀ j, System.Unfinished Current t j →
        System.Unfinished Current s j := by
    obtain ⟨onward, ran, born, same, reached'⟩ := onward_call
      (o := o) reached thread current ran ⟨done, rfl⟩
    refine ⟨_, x.1, .single onward (System.step_call thread ran), ⟨reached', same.trans process⟩,
      Function.update_self _ _ _, fun j more => ?_⟩
    obtain ⟨here, k', c', f', at_j⟩ := more
    rw [Current, born, same] at here
    by_cases eq : j = i
    · exact ⟨here, k, c, f, eq ▸ thread⟩
    · exact ⟨here, k', c', f', (Function.update_of_ne eq _ _).symm.trans at_j⟩
  -- or once the Service it is about has settled
  have after {ref : Ref} {svc : Service} (request : k.serves = none)
    (at_ref : s.shared.heap ref = some svc)
      (able : ∀ t svc, system.Reaches (System.init (booting host)) t → Current i t.shared →
        t.threads i = some ⟨k, .call c f⟩ → t.shared.heap ref = some svc →
        (svc.phase = .idle ∨ svc.phase = .closed) →
        ∃ done x, perform i c { o i c t.shared with done } t.shared = some x) :
      ∃ t r, system.ReachesBy (Onward o) s t ∧
        (system.Reaches (System.init (booting host)) t ∧ t.shared.process = n) ∧
        t.threads i = some ⟨k, f r⟩ ∧ ∀ j, System.Unfinished Current t j →
        System.Unfinished Current s j := by
    obtain ⟨t, settles⟩ := settle (o := o) reached at_ref
    obtain ⟨svc', at_ref', phase⟩ := settles.settled
    obtain ⟨thread', born⟩ := settles.requests i k _ request thread
    have reached' := reached.trans settles.run.reaches
    have current' : Current i t.shared := by rw [Current, born, settles.process, current]
    obtain ⟨done, x, ran⟩ := able t svc' reached' current' thread' at_ref' phase
    obtain ⟨u, r, run, hu, moved, fewer⟩ := make reached' (settles.process.trans process)
      current' thread' done ran
    exact ⟨u, r, settles.run.trans run, hu, moved, fun j more => settles.fewer j (fewer j more)⟩
  obtain ⟨safe, linked⟩ := reached_linked reached
  obtain ⟨q, obeys, link⟩ := linked i k _ thread
  obtain ⟨may, -⟩ := obeys.next
  have link := link current
  unfold protocol at may
  cases kind : k.serves with
  | some x =>
    rw [kind] at may link
    obtain ⟨x, ran⟩ := serve_able may link (o i c s.shared)
    exact make reached process current thread (o i c s.shared).done ran
  | none =>
    rw [kind] at may link
    cases q with
    | passing | leaving | ended => exact link.elim
    | free =>
      by_cases offers : ∃ ref cmd, c = .offer ref cmd
      · obtain ⟨ref, cmd, rfl⟩ := offers
        obtain ⟨-, svc, at_ref, -⟩ := System.safe_pre (disciplined unassuming) safe thread current
        refine after kind at_ref fun t svc _ _ _ at_ref phase => ⟨false, ?_⟩
        obtain idle | closed := phase
        · exact ⟨_, by simp [perform, at_ref, idle]; rfl⟩
        · exact ⟨_, by simp [perform, at_ref, closed]; rfl⟩
      · obtain ⟨x, ran⟩ := request_able (i := i) (s := s.shared) returns may fun ref cmd eq =>
          offers ⟨ref, cmd, eq⟩
        exact make reached process current thread (o i c s.shared).done ran
    | waiting ref cmd =>
      cases c with
      | await k' d =>
        obtain ⟨rfl, rfl⟩ := may
        obtain ⟨svc, at_ref, -⟩ := link
        refine after kind at_ref fun t svc reached' current' thread' at_ref' phase => ?_
        obtain idle | closed := phase
        · obtain ⟨err, replied⟩ := waiting_replied reached' current' kind thread' at_ref' idle
          exact ⟨false, (some err, t.shared), by simp [perform, at_ref', replied]⟩
        · exact ⟨true, (none, t.shared), by simp [perform, at_ref', closed]⟩
      | _ => exact may.elim
    | leftOver ref cmd =>
      cases c with
      | recheck k' d =>
        obtain ⟨rfl, rfl⟩ := may
        obtain ⟨svc, at_ref⟩ := link
        exact make reached process current thread false (x := (svc.replies (i, d), s.shared))
          (by simp [perform, at_ref])
      | _ => exact may.elim

end Settling

/-- Nothing a worker has taken on is stuck: from every state it can come to, it can
bring all calls under way to their ends by itself, whatever the operations they make
answer. -/
theorem quiesces [Uuid] {host : Table SandboxID Remnant} {o : Oracle} {s : State}
    (returns : o.Returns) (reached : system.Reaches (System.init (booting host)) s) :
    ∃ t, system.ReachesBy (Onward o) s t ∧ t.shared.process = s.shared.process ∧
      ∀ i k p, t.threads i = some ⟨k, p⟩ → t.shared.born i = t.shared.process →
      ∃ a, p = .ret a := by
  obtain ⟨t, run, ⟨-, process⟩, done⟩ := System.finish (L := Current)
    (advance returns) s.next ⟨reached, rfl⟩ fun i more => by
      obtain ⟨-, k, c, f, thread⟩ := more
      exact System.started_of_thread reached thread
  refine ⟨t, run, process, fun i k p thread current => ?_⟩
  cases p with
  | ret a => exact ⟨a, rfl⟩
  | call c f => exact absurd ⟨current, k, c, f, thread⟩ (done i)

section Panics

def failing : Oracle := fun _ c _ =>
  match c with
  -- every operation on a VM panics, and no shim answers
  | .vm _ _ => { fault := .panic, took := true }
  | .attach _ => { fault := .err "connection refused" }
  | _ => {}

def crowded : List (Action Kind Env Event) := ordered1 ++ [.spawn (.remove Host.someID), .call 3 {}]

open Uuid.Standard in
theorem quiesces_failing : ∃ s t, system.Reaches (System.init (booting .empty)) s ∧
    pending s 1 = some (.create someInput, .await 0 (.create someInput)) ∧
    pending s 3 = some (.remove Host.someID, .offer 0 .remove) ∧
    (system.step s (.call 3 {})).isNone = true ∧
    system.ReachesBy (Onward failing) s t ∧
    ∀ i k p, t.threads i = some ⟨k, p⟩ → t.shared.born i = t.shared.process → ∃ a, p = .ret a := by
  -- nobody is stuck even where the goroutine panics with one call waiting for its reply and
  -- another for it to receive
  have run : (system.run (System.init (booting .empty)) crowded).map
      (fun s => (pending s 1, pending s 3, (system.step s (.call 3 {})).isNone)) =
      some (some (.create someInput, .await 0 (.create someInput)),
        some (.remove Host.someID, .offer 0 .remove), true) := by
    decide +kernel
  simp only [Option.map_eq_some_iff, Prod.mk.injEq] at run
  obtain ⟨s, hs, waits, offers, blocked⟩ := run
  have returns : failing.Returns := fun _ c _ => by cases c <;> simp [failing]
  have reached := System.reaches_of_run hs
  obtain ⟨t, onward, -, done⟩ := quiesces returns reached
  exact ⟨s, t, reached, waits, offers, blocked, onward, done⟩

end Panics

end Fire2.SandboxMgr
