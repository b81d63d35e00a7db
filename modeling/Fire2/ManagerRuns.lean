import Fire2.ManagerSteps

/-! The programs of a worker only make the calls they may.

The goroutine of a Service knows the VM it has and what the host has of its
sandbox (`Acts`), up to the VM's own exit. Who has handed a command to a Service
knows what that Service has answered (`Replied`). Who reaps an ID knows that
nobody else touches it (`Sole`). -/

namespace Fire2.SandboxMgr
open Interleaving

section Rules
variable [Uuid] {A : Assume} {i : Nat} {s : Manager} {c : Call} {α : Type}

structure Between (i : Nat) (s t : Manager) : Prop where
  moves : Moves s t
  leaves : Leaves i s t
  booted : ∀ id ∈ s.booted, id ∈ t.booted
  current : t.born i = t.process

theorem between_of_rely {t : Manager} (current : s.born i = s.process)
    (rely : (spec A).Rely i s t) (still : t.born i = t.process) : Between i s t := by
  obtain ⟨evolves, keeps⟩ := rely
  have same : s.process = t.process := current.symm.trans (keeps.born.symm.trans still)
  exact ⟨evolves.moves same, keeps.leaves same, evolves.booted, still⟩

theorem ask_bind {Q : α → Manager → Prop} {f : c.Answer → M α}
    (current : s.born i = s.process) (next : ∀ t, Sane A t → Between i s t → may A i t c ∧
      ∀ e a u, Meets A i c e t →
      perform i c e t = some (a, u) → Fits A i t u → u.born i = u.process →
      WP exec (spec A) i Q (f a) u) : WP exec (spec A) i Q (ask c >>= f) s := by
  refine .call (fun t sane rely still => (next t sane (between_of_rely current rely still)).1) ?_
  intro t e a u sane rely meets ran _
  obtain ⟨still, ran⟩ := exec_eq_some ran
  obtain ⟨ok, next⟩ := next t sane (between_of_rely current rely still)
  have fits := perform_fits sane ok meets ran
  refine next e a u meets ran fits ?_
  rw [fits.born, fits.process]
  exact still

theorem ask_wp {Q : c.Answer → Manager → Prop} (current : s.born i = s.process)
    (next : ∀ t, Sane A t → Between i s t → may A i t c ∧ ∀ e a u, Meets A i c e t →
      perform i c e t = some (a, u) → Fits A i t u → u.born i = u.process → Q a u) :
    WP exec (spec A) i Q (ask c) s :=
  ask_bind current fun t sane between =>
    ⟨(next t sane between).1, fun e a u meets ran fits current =>
      .ret ((next t sane between).2 e a u meets ran fits current)⟩

end Rules

theorem WP.booted [Uuid] {A : Assume} {i : Nat} {s : Manager} {id : SandboxID} {α : Type} {p : M α}
    {Q : α → Manager → Prop} (up : id ∈ s.booted) (h : WP exec (spec A) i Q p s) :
    WP exec (spec A) i (fun a t => Q a t ∧ id ∈ t.booted) p s :=
  h.keep (spec_sound A) (fun _ _ mem evolves => evolves.booted id mem) up

/-- What thread `i` knows while it runs a pass of a Service: the wake it runs for,
the VM of the Service, and what the host has of its sandbox. -/
structure Acts [Uuid] (A : Assume) (i : Nat) (ref : Ref) (id : SandboxID) (wake : Wake)
    (φ : Option VM → Remnant → Prop) (s : Manager) : Prop where
  current : s.born i = s.process
  sane : Sane A s
  serving : ∃ svc, s.Serving i ref svc wake ∧ svc.id = id ∧ φ svc.vm (s.remnant id)

def Stable (φ : Option VM → Remnant → Prop) : Prop := ∀ vm r r', φ vm r → Stays r r' → φ vm r'

def Wake.creates : Wake → Bool
  | .command _ cmd => cmd.isCreate
  | _ => false

section Services
variable {A : Assume} {i : Nat} {ref : Ref} {id : SandboxID} {wake : Wake} {s t : Manager}
  {φ ψ : Option VM → Remnant → Prop} {state : SandboxState}

theorem Acts.mono [Uuid] (h : Acts A i ref id wake φ s) (le : ∀ vm r, φ vm r → ψ vm r) :
    Acts A i ref id wake ψ s := by
  obtain ⟨current, sane, svc, serving, same, known⟩ := h
  exact ⟨current, sane, svc, serving, same, le _ _ known⟩

theorem Acts.between [Uuid] (h : Acts A i ref id wake φ s) (stable : Stable φ) (sane : Sane A t)
    (between : Between i s t) : Acts A i ref id wake φ t := by
  obtain ⟨-, -, svc, ⟨at_ref, busy⟩, rfl, known⟩ := h
  obtain ⟨at', stays⟩ := between.leaves.serving ref svc wake at_ref busy
  exact ⟨between.current, sane, svc, ⟨at', busy⟩, rfl, stable _ _ _ known stays⟩

theorem Acts.account [Uuid] (h : Acts A i ref id wake φ s) :
    Acts A i ref id wake (fun vm r => φ vm r ∧ (A.clean → Accounts vm r)) s := by
  obtain ⟨current, sane, svc, ⟨at_ref, busy⟩, rfl, known⟩ := h
  refine ⟨current, sane, svc, ⟨at_ref, busy⟩, rfl, known, fun clean => ?_⟩
  exact (sane.clean clean).account ref svc at_ref
    (sane.owned.held ref svc at_ref (active_of_busy busy))

theorem Stable.and (h : Stable φ) (k : Stable ψ) : Stable fun vm r => φ vm r ∧ ψ vm r :=
  fun vm r r' known stays => ⟨h vm r r' known.1 stays, k vm r r' known.2 stays⟩

theorem stable_vm (p : Option VM → Prop) : Stable fun vm _ => p vm := fun _ _ _ known _ => known

theorem acts_wp [Uuid] {c : Call} {Q : c.Answer → Manager → Prop} (h : Acts A i ref id wake φ s)
    (stable : Stable φ) (ok : ∀ t, Acts A i ref id wake φ t → may A i t c)
    (next : ∀ t e a u, Acts A i ref id wake φ t → Meets A i c e t → perform i c e t = some (a, u) →
      Fits A i t u → u.born i = u.process → Q a u) : WP exec (spec A) i Q (ask c) s := by
  refine ask_wp h.current fun t sane between => ?_
  have known := h.between stable sane between
  exact ⟨ok t known, fun e a u meets ran fits current => next t e a u known meets ran fits current⟩

theorem fields_wp [Uuid] (h : Acts A i ref id wake φ s) (stable : Stable φ) :
    WP exec (spec A) i (fun a t => Acts A i ref id wake (fun vm r => φ vm r ∧ a.vm = vm) t)
      (ask (.fields ref)) s := by
  refine acts_wp h stable (fun _ _ => trivial) fun t e a u known _ ran _ _ => ?_
  obtain ⟨current, sane, svc, ⟨at_ref, busy⟩, same, known⟩ := known
  obtain ⟨_, at', eq⟩ := Option.map_eq_some_iff.1 ran
  cases at'.symm.trans at_ref
  cases eq
  exact ⟨current, sane, svc, ⟨at_ref, busy⟩, same, known, rfl⟩

def Call.quiet (ref : Ref) : Call → Bool
  | .setField r _ | .watch r | .unwatch r => r = ref
  | .report .. | .emit .. => true
  | _ => false

theorem quiet_wp [Uuid] {c : Call} (quiet : c.quiet ref = true) (h : Acts A i ref id wake φ s)
    (stable : Stable φ) : WP exec (spec A) i (fun _ t => Acts A i ref id wake φ t) (ask c) s := by
  -- a write to a field leaves the Service to the same thread, with the same VM
  have field {t u : Manager} {f : Service → Service} (known : Acts A i ref id wake φ t)
      (fits : Fits A i t u) (current : u.born i = u.process)
      (ran : onService t ref (fun svc => some (f svc)) = some ((), u))
      (same : ∀ svc, (f svc).phase = svc.phase ∧ (f svc).id = svc.id ∧ (f svc).vm = svc.vm) :
      Acts A i ref id wake φ u := by
    obtain ⟨-, -, svc, ⟨at_ref, busy⟩, id', known⟩ := known
    obtain ⟨_, _, at', eq, rfl⟩ := onService_eq_some ran
    cases at'.symm.trans at_ref
    cases eq
    refine ⟨current, fits.sane, f svc, ⟨Function.update_self _ _ _, (same svc).1.trans busy⟩,
      (same svc).2.1.trans id', ?_⟩
    rw [(same svc).2.2]
    exact known
  have serves (t : Manager) (known : Acts A i ref id wake φ t) : ∃ svc wake,
      t.Serving i ref svc wake := by
    obtain ⟨-, -, svc, serving, -⟩ := known
    exact ⟨svc, wake, serving⟩
  cases c with
  | setField r state | watch r | unwatch r =>
    obtain rfl : r = ref := by simpa [Call.quiet] using quiet
    exact acts_wp h stable serves fun t e a u known _ ran fits current =>
      field known fits current ran fun _ => ⟨rfl, rfl, rfl⟩
  | report r state =>
    refine acts_wp h stable (fun _ _ => trivial) fun t e a u known _ ran fits current => ?_
    obtain ⟨-, -, svc, ⟨at_ref, busy⟩, id', known⟩ := known
    obtain ⟨x, -, eq⟩ := Option.map_eq_some_iff.1 ran
    obtain rfl := answered eq
    refine ⟨current, fits.sane, svc, ⟨?_, busy⟩, id', ?_⟩
    · rw [report_heap]
      exact at_ref
    · rw [report_remnant]
      exact known
  | emit k state =>
    refine acts_wp h stable (fun _ _ => trivial) fun t e a u known _ ran fits current => ?_
    obtain ⟨-, -, svc, ⟨at_ref, busy⟩, id', known⟩ := known
    cases ran
    refine ⟨current, fits.sane, svc, ⟨?_, busy⟩, id', ?_⟩
    · rw [emit_heap]
      exact at_ref
    · rw [emit_remnant]
      exact known
  | _ => cases quiet

theorem queryVM_wp [Uuid] (h : Acts A i ref id wake φ s) (stable : Stable φ) :
    WP exec (spec A) i (fun a t => Acts A i ref id wake φ t ∧
      (A.clean → wake.creates = true → a ≠ none)) (ask (.queryVM ref)) s := by
  refine acts_wp (c := .queryVM ref) h stable (fun _ _ => trivial)
    fun t e a u known meets ran _ _ => ?_
  obtain ⟨svc, ⟨at_ref, busy⟩, -⟩ := known.serving
  obtain ⟨_, -, eq⟩ := Option.map_eq_some_iff.1 ran
  cases eq
  refine ⟨known, fun clean creates => ?_⟩
  cases wake with
  | command j cmd =>
    have met := meets.clean clean
    simp only [tidy, handling_of_busy at_ref busy, Option.all_some,
      Wake.creates.eq_1 j cmd ▸ creates, Bool.not_true, Bool.false_or, decide_eq_true_eq] at met
    cases fault : e.fault with
    | panic => exact absurd fault met
    | none => simp [Env.result, fault]
    | err text => simp [Env.result, fault]
  | ctxDone => cases creates
  | exited => cases creates
  | tick => cases creates

theorem setState_wp [Uuid] (h : Acts A i ref id wake φ s) (stable : Stable φ) :
    WP exec (spec A) i (fun _ t => Acts A i ref id wake φ t) (Service.setState ref state) s := by
  refine (fields_wp h stable).bind fun fields t known => ?_
  have known := known.mono fun _ _ x => x.1
  split
  · exact .ret known
  refine (quiet_wp (c := .setField ref state) (by simp [Call.quiet]) known stable).bind
    fun _ t known => ?_
  refine (quiet_wp (c := .report ref state) rfl known stable).bind fun reported t known => ?_
  split
  · exact quiet_wp (c := .emit _ state) rfl known stable
  · exact .ret known

theorem poll_wp [Uuid] (h : Acts A i ref id wake φ s) (stable : Stable φ) :
    WP exec (spec A) i (fun a t => Acts A i ref id wake φ t ∧
      (A.clean → wake.creates = true → a = true)) (Service.poll ref) s := by
  refine (fields_wp h stable).bind fun fields t known => ?_
  have known := known.mono fun _ _ x => x.1
  split
  · exact .ret ⟨known, fun _ _ => rfl⟩
  refine (queryVM_wp known stable).bind fun a t known => ?_
  match a, known with
  | none, ⟨known, quiet⟩ =>
    exact .ret ⟨known, fun clean creates => absurd rfl (quiet clean creates)⟩
  | some (.ok state), ⟨known, _⟩ =>
    exact (setState_wp known stable).bind fun _ t known => .ret ⟨known, fun _ _ => rfl⟩
  | some (.error _), ⟨known, _⟩ =>
    exact (setState_wp known stable).bind fun _ t known => .ret ⟨known, fun _ _ => rfl⟩

section Operations
variable {j : Nat} {cmd : Command}

theorem vm_wp [Uuid] (op : VMOp) {ψ : Ran → Option VM → Remnant → Prop}
    (h : Acts A i ref id (.command j cmd) φ s) (stable : Stable φ)
    (ok : ∀ vm r, φ vm r → op.may A vm r cmd)
    (post : ∀ e vm r, φ vm r → (A.clean → Accounts vm r ∧ r.Marked) →
      (A.clean → op.tidy cmd e = true) → ψ (op.ran e vm) (op.apply e vm r).1 (op.apply e vm r).2) :
    WP exec (spec A) i (fun a t => Acts A i ref id (.command j cmd) (ψ a) t ∧
      (op = .waitRunning → a = .ok → id ∈ t.booted)) (ask (.vm ref op)) s := by
  refine acts_wp (c := .vm ref op) h stable (fun t known => ?_)
    fun t e a u known meets ran fits current => ?_
  · obtain ⟨-, -, svc, serving, rfl, known⟩ := known
    exact ⟨svc, j, cmd, serving, ok _ _ known⟩
  obtain ⟨-, sane, svc, ⟨at_ref, busy⟩, rfl, known, account⟩ := known.account
  obtain ⟨_, at', eq⟩ := Option.map_eq_some_iff.1 ran
  cases at'.symm.trans at_ref
  obtain ⟨rfl, after⟩ := Prod.mk.inj eq
  have host : u.host = t.host.set svc.id (op.apply e svc.vm (t.remnant svc.id)).2 := by rw [← after]
  have here : u.heap ref = some { svc with vm := (op.apply e svc.vm (t.remnant svc.id)).1 } := by
    rw [← after]
    exact Function.update_self _ _ _
  refine ⟨⟨current, fits.sane, _, ⟨here, busy⟩, rfl, ?_⟩, fun wait done => ?_⟩
  · rw [remnant_set _ svc.id host, if_pos rfl]
    refine post e svc.vm _ known (fun clean => ⟨account clean, (sane.clean clean).marked _⟩)
      fun clean => ?_
    simpa [tidy, handling_of_busy at_ref busy] using meets.clean clean
  · subst wait
    have none : e.fault = .none := by
      cases fault : e.fault with
      | none => rfl
      | err text | panic => simp [VMOp.ran, Env.ran, fault] at done
    rw [← after]
    simp [none]

def anything (_ : Option VM) (_ : Remnant) : Prop := True

theorem anything_stable : Stable anything := fun _ _ _ known _ => known

theorem ran_ok {e : Env} (h : e.fault = .none) : e.ran = .ok := by
  simp [Env.ran, h]

theorem Remnant.removeVolume_clears {e : Env} {r : Remnant} (done : e.fault = .none)
    (marked : r.Marked) : (r.removeVolume e).volume = false := by
  simp [removeVolume, Remnant.volume, Env.effective, done, marked.unleaked]

theorem Remnant.removeDir_clears {e : Env} {r : Remnant} (done : e.fault = .none)
    (volume : r.volume = false) (vm : r.vm = false) :
    { r with dir := r.dir && !e.effective } = ⟨false, false, false, false⟩ := by
  simp only [Remnant.volume, Bool.or_eq_false_iff] at volume
  simp [Env.effective, done, volume.1, volume.2, vm]

theorem vmCleanup_wp [Uuid]
    (h : Acts A i ref id (.command j cmd) (fun _ r => A.clean → r.vm = false) s) :
    WP exec (spec A) i (fun a t => Acts A i ref id (.command j cmd)
      (fun _ r => A.clean → a = .ok ∧ r = ⟨false, false, false, false⟩) t)
      (Service.vmCleanup ref) s := by
  have stopped : Stable fun _ r => A.clean → r.vm = false := fun _ _ _ known stays clean => by
    simpa [known clean] using stays.vm
  have removed : Stable fun _ r => A.clean → r.volume = false ∧ r.vm = false :=
    fun _ _ _ known stays clean => by
      simpa [(known clean).2, (known clean).1 ▸ stays.volume] using stays.vm
  refine (vm_wp .removeVolume (ψ := fun a _ r => A.clean → a = .ok ∧ r.volume = false ∧
    r.vm = false) h stopped (fun _ _ _ => trivial) fun e vm r known left tidy clean =>
    ?_).bind fun a t known => ?_
  · have none : e.fault = .none := by simpa [VMOp.tidy] using tidy clean
    exact ⟨ran_ok none, Remnant.removeVolume_clears none (left clean).2, known clean⟩
  obtain ⟨known, -⟩ := known
  cases a with
  | err e | panicked => exact .ret (known.mono fun _ _ x clean => by cases (x clean).1)
  | ok =>
    refine (vm_wp .removeDir (ψ := fun a _ r => A.clean → a = .ok ∧
      r = ⟨false, false, false, false⟩) (known.mono fun _ _ x clean => (x clean).2) removed
      (fun _ _ known => known) fun e vm r known _ tidy clean => ?_).bind fun a t known => ?_
    · have none : e.fault = .none := by simpa [VMOp.tidy] using tidy clean
      obtain ⟨volume, vm⟩ := known clean
      exact ⟨ran_ok none, Remnant.removeDir_clears none volume vm⟩
    · obtain ⟨known, -⟩ := known
      cases a with
      | err e => exact .ret (known.mono fun _ _ x clean => by cases (x clean).1)
      | panicked => exact .ret known
      | ok => exact .ret known

theorem remove_wp [Uuid] (ends : cmd ≠ .stop) (h : Acts A i ref id (.command j cmd) φ s)
    (stable : Stable φ) : WP exec (spec A) i (fun a t => Acts A i ref id (.command j cmd)
      (fun _ r => A.clean → a = .ok ∧ r = ⟨false, false, false, false⟩) t)
      (Service.remove ref) s := by
  refine (fields_wp h stable).bind fun fields t known => ?_
  split
  · rename_i none
    refine .ret (known.account.mono fun vm r x clean => ⟨rfl, ?_⟩)
    have account := x.2 clean
    rw [← x.1.2, none] at account
    exact account
  rename_i some
  refine (vm_wp .stop (ψ := fun a _ r => A.clean → a = .ok ∧ r.vm = false)
    (known.mono fun _ _ x => x.2 ▸ some) (stable_vm _) (fun _ _ _ => trivial)
    fun e vm r made account tidy clean => ?_).bind fun stopped t known => ?_
  · have none : e.fault = .none := by simpa [VMOp.tidy, ends] using tidy clean
    obtain ⟨v, rfl⟩ := Option.ne_none_iff_exists'.1 made
    have account := (account clean).1
    cases spawned : v.spawned with
    | true => simp [VMOp.ran, VMOp.apply, Env.effective, ran_ok none, none, spawned]
    | false => simp [VMOp.ran, VMOp.apply, spawned, account spawned]
  obtain ⟨known, -⟩ := known
  have clean_up : WP exec (spec A) i (fun a t => Acts A i ref id (.command j cmd)
      (fun _ r => A.clean → a = .ok ∧ r = ⟨false, false, false, false⟩) t)
      (Service.vmCleanup ref) t :=
    vmCleanup_wp (known.mono fun _ _ x clean => (x clean).2)
  cases stopped with
  | panicked => exact .ret (known.mono fun _ _ x clean => by cases (x clean).1)
  | ok =>
    refine clean_up.bind fun a t known => ?_
    cases a with
    | ok => exact .ret known
    | err e | panicked => exact .ret (known.mono fun _ _ x clean => by cases (x clean).1)
  | err err =>
    have dirty : ¬ A.clean := fun clean => by
      obtain ⟨svc, -, -, x⟩ := known.serving
      cases (x clean).1
    refine clean_up.bind fun a t known => ?_
    cases a <;> exact .ret (known.mono fun _ _ _ clean => absurd clean dirty)

def Made (A : Assume) (vm : Option VM) (r : Remnant) : Prop := vm ≠ none ∧ (A.clean → r.dir = true)

theorem made_stable : Stable (Made A) :=
  fun _ _ _ known stays => ⟨known.1, fun clean => stays.dir.trans (known.2 clean)⟩

theorem build_wp [Uuid] (op : VMOp) (which : op = .createVolume ∨ op = .spawn ∨ op = .waitRunning)
    (create : cmd.isCreate = true) (h : Acts A i ref id (.command j cmd) (Made A) s) :
    WP exec (spec A) i (fun a t => Acts A i ref id (.command j cmd)
      (fun vm r => Made A vm r ∧ (A.clean → a ≠ .panicked)) t ∧
      (op = .waitRunning → a = .ok → id ∈ t.booted)) (ask (.vm ref op)) s := by
  refine vm_wp op (ψ := fun a vm r => Made A vm r ∧ (A.clean → a ≠ .panicked)) h made_stable
    (fun vm r made => ?_) fun e vm r made _ tidy => ⟨⟨?_, fun clean => ?_⟩, fun clean => ?_⟩
  · rcases which with rfl | rfl | rfl <;> exact ⟨create, made⟩
  · rcases which with rfl | rfl | rfl
    · exact made.1
    · simp only [VMOp.apply]
      split
      · intro eq
        cases eq
      · exact made.1
    · exact made.1
  · rcases which with rfl | rfl | rfl <;> exact made.2 clean
  · have calm : e.fault ≠ .panic := by
      rcases which with rfl | rfl | rfl
      · simp only [VMOp.tidy, Bool.and_eq_true, decide_eq_true_eq] at tidy
        exact (tidy clean).1
      · simp only [VMOp.tidy, Bool.and_eq_true, decide_eq_true_eq] at tidy
        exact (tidy clean).1
      · simpa [VMOp.tidy] using tidy clean
    have ran : op.ran e vm = e.ran := by
      rcases which with rfl | rfl | rfl <;> simp [VMOp.ran]
    rw [ran]
    cases fault : e.fault with
    | panic => exact absurd fault calm
    | none => simp [Env.ran, fault]
    | err text => simp [Env.ran, fault]

theorem vmCreate_wp [Uuid] (create : cmd.isCreate = true)
    (h : Acts A i ref id (.command j cmd) (Made A) s) :
    WP exec (spec A) i (fun a t => Acts A i ref id (.command j cmd)
      (fun vm r => Made A vm r ∧ (A.clean → a ≠ .panicked)) t ∧ (a = .ok → id ∈ t.booted))
      (Service.vmCreate ref) s := by
  refine (build_wp .createVolume (.inl rfl) create h).bind fun a t known => ?_
  obtain ⟨known, -⟩ := known
  cases a with
  | err e => exact .ret ⟨known, nofun⟩
  | panicked => exact .ret ⟨known, nofun⟩
  | ok =>
    refine (build_wp .spawn (.inr (.inl rfl)) create (known.mono fun _ _ x => x.1)).bind
      fun a t known => ?_
    obtain ⟨known, -⟩ := known
    cases a with
    | err e => exact .ret ⟨known, nofun⟩
    | panicked => exact .ret ⟨known, nofun⟩
    | ok =>
      refine (build_wp .waitRunning (.inr (.inr rfl)) create (known.mono fun _ _ x => x.1)).mono
        fun a t known => ⟨known.1, known.2 rfl⟩

/-- What a pass knows once its command is handled: a create that succeeded has
booted, and in a tidy run one that failed, as well as a remove, has left
nothing. -/
structure Handled [Uuid] (A : Assume) (i : Nat) (ref : Ref) (id : SandboxID) (j : Nat)
    (cmd : Command) (a : Ran) (t : Manager) : Prop where
  acts : Acts A i ref id (.command j cmd) (fun _ r => A.clean →
    cmd.isCreate = true ∧ a ≠ .ok ∨ cmd = .remove → r = ⟨false, false, false, false⟩) t
  booted : cmd.isCreate = true → a = .ok → id ∈ t.booted
  calm : A.clean → cmd.isCreate = true → a ≠ .panicked

theorem create_ends (create : cmd.isCreate = true) : cmd ≠ .stop := by
  rintro rfl
  cases create

theorem create_wp [Uuid] (create : cmd.isCreate = true)
    (h : Acts A i ref id (.command j cmd) (fun vm _ => vm = none) s) :
    WP exec (spec A) i (Handled A i ref id j cmd) (Service.create ref) s := by
  have removes : cmd ≠ .remove := by
    rintro rfl
    cases create
  refine (fields_wp h (stable_vm _)).bind fun fields t known => ?_
  split
  · rename_i some
    obtain ⟨svc, -, -, none, same⟩ := known.serving
    exact absurd (same.trans none) some
  refine (vm_wp .newVM (ψ := fun a vm r =>
      (a = .ok → Made A vm r) ∧ (a ≠ .ok → vm = none) ∧ (A.clean → a ≠ .panicked))
    (known.mono fun _ _ x => x.1) (stable_vm _) (fun _ _ none => ⟨create, none⟩)
    fun e vm r none _ tidy => ?_).bind fun a t known => ?_
  · cases fault : e.fault with
    | none => simp [VMOp.ran, VMOp.apply, Env.ran, fault, Made]
    | err text => simp [VMOp.ran, VMOp.apply, Env.ran, fault, none]
    | panic => simp [VMOp.ran, VMOp.apply, Env.ran, fault, none, VMOp.tidy] at tidy ⊢; exact tidy
  obtain ⟨known, -⟩ := known
  -- a newVM that returns no VM has left the host as it was
  have unmade {a : Ran} (known : Acts A i ref id (.command j cmd) (fun vm r =>
      (a = .ok → Made A vm r) ∧ (a ≠ .ok → vm = none) ∧ (A.clean → a ≠ .panicked)) t)
      (failed : a ≠ .ok) : Handled A i ref id j cmd a t := by
    obtain ⟨svc, -, -, -, -, calm⟩ := known.serving
    refine ⟨known.account.mono fun vm r x clean _ => ?_, fun _ eq => absurd eq failed,
      fun clean _ => calm clean⟩
    have account := x.2 clean
    rw [x.1.2.1 failed] at account
    exact account
  cases a with
  | err e | panicked => exact .ret (unmade known (by simp))
  | ok =>
    refine (vmCreate_wp create (known.mono fun _ _ x => x.1 rfl)).bind fun a t known => ?_
    obtain ⟨known, up⟩ := known
    cases a with
    | panicked =>
      have dirty : ¬ A.clean := fun clean => by
        obtain ⟨svc, -, -, -, calm⟩ := known.serving
        exact calm clean rfl
      exact .ret ⟨known.mono fun _ _ _ clean =>
        absurd clean dirty, by simp, fun clean => absurd clean dirty⟩
    | err err =>
      refine (remove_wp (create_ends create) (known.mono fun _ _ x => x.1) made_stable).bind
        fun a t known => ?_
      have bare : Acts A i ref id (.command j cmd) (fun _ r => A.clean →
          cmd.isCreate = true ∧ Ran.err err ≠ .ok ∨ cmd = .remove →
          r = ⟨false, false, false, false⟩) t :=
        known.mono fun _ _ x clean _ => (x clean).2
      cases a with
      | panicked =>
        have dirty : ¬ A.clean := fun clean => by
          obtain ⟨svc, -, -, x⟩ := known.serving
          cases (x clean).1
        exact .ret ⟨known.mono fun _ _ _ clean => absurd clean dirty, by simp,
          fun clean => absurd clean dirty⟩
      | ok | err e => exact .ret ⟨bare, by simp, by simp⟩
    | ok =>
      have kept : Stable fun vm r => Made A vm r ∧ (A.clean → Ran.ok ≠ .panicked) :=
        made_stable.and fun _ _ _ calm _ => calm
      refine (WP.booted (up rfl)
        (quiet_wp (c := .watch ref) (by simp [Call.quiet]) known kept)).bind fun _ t known => ?_
      refine (WP.booted known.2 (poll_wp known.1 kept)).bind fun calm t known => ?_
      obtain ⟨⟨known, quiet⟩, up⟩ := known
      cases calm with
      | true =>
        refine .ret ⟨known.mono fun _ _ _ _ failed => ?_, fun _ _ => up, by simp⟩
        rcases failed with ⟨-, failed⟩ | removed
        · exact absurd rfl failed
        · exact absurd removed removes
      | false =>
        have dirty : ¬ A.clean := fun clean => by cases quiet clean create
        exact .ret ⟨known.mono fun _ _ _ clean => absurd clean dirty, by simp,
          fun clean => absurd clean dirty⟩

theorem stop_wp [Uuid] (h : Acts A i ref id (.command j .stop) φ s) (stable : Stable φ) :
    WP exec (spec A) i (Handled A i ref id j .stop) (Service.stop ref) s := by
  have any {a : Ran} {t : Manager} {φ : Option VM → Remnant → Prop}
      (known : Acts A i ref id (.command j .stop) φ t) : Handled A i ref id j .stop a t :=
    ⟨known.mono fun _ _ _ _ ended => by simp [Command.isCreate] at ended, nofun, nofun⟩
  refine (fields_wp h stable).bind fun fields t known => ?_
  split
  · exact .ret (any known)
  refine (vm_wp .stop (ψ := fun _ => anything) (known.mono fun _ _ x => x.1) stable
    (fun _ _ _ => trivial) fun _ _ _ _ _ _ => trivial).bind fun a t known => ?_
  cases a <;> exact .ret (any known.1)

theorem handle_wp [Uuid] (h : Acts A i ref id (.command j cmd)
    (fun vm _ => cmd.isCreate = true → vm = none) s) :
    WP exec (spec A) i (Handled A i ref id j cmd) (Service.handle ref cmd) s := by
  cases cmd with
  | create input => exact create_wp rfl (h.mono fun _ _ x => x rfl)
  | stop => exact stop_wp h (stable_vm _)
  | remove =>
    have ends : Command.remove ≠ .stop := nofun
    refine (remove_wp ends h (stable_vm _)).mono fun a t known => ⟨?_, nofun, nofun⟩
    exact known.mono fun _ _ x clean _ => (x clean).2

theorem die_wp [Uuid] {wake : Wake} (h : Acts A i ref id wake φ s) (stable : Stable φ)
    (calm : A.clean → wake.creates = false) :
    WP exec (spec A) i (fun _ _ => True) (Service.die ref) s := by
  refine (setState_wp h stable).bind fun _ t known => ?_
  refine acts_wp (c := .close ref) known stable (fun t known => ?_) fun _ _ _ _ _ _ _ _ _ => trivial
  obtain ⟨svc, ⟨at_ref, busy⟩, -⟩ := known.serving
  exact ⟨svc, at_ref, .inr ⟨wake, busy, fun clean j cmd eq => by subst eq; exact calm clean⟩⟩

theorem answer_wp [Uuid] {a : Ran} {err : Option Err} (h : Handled A i ref id j cmd a s)
    (same : a = .ok ↔ err = none) :
    WP exec (spec A) i (fun _ _ => True) (Service.answer ref j cmd err) s := by
  have bare : Stable fun _ r => A.clean →
      cmd.isCreate = true ∧ a ≠ .ok ∨ cmd = .remove → r = ⟨false, false, false, false⟩ :=
    fun _ _ _ known stays clean ended => stays.shrinks.bare (known clean ended)
  refine ask_bind h.acts.current fun t sane between => ?_
  obtain ⟨-, -, svc, ⟨at_ref, busy⟩, rfl, known⟩ := h.acts.between bare sane between
  refine ⟨⟨rfl, svc, ⟨at_ref, busy⟩, fun create none => ?_, fun clean ended => ?_⟩,
    fun e x u _ ran fits current => ?_⟩
  · exact between.booted _ (h.booted create (same.2 none))
  · exact known clean (ended.imp_left fun failed => ⟨failed.1, fun ok => failed.2 (same.1 ok)⟩)
  obtain ⟨_, _, at', eq, after⟩ := onService_eq_some ran
  cases at'.symm.trans at_ref
  cases eq
  have here : u.heap ref = some { svc with
      replies := Function.update svc.replies (j, cmd) (some err)
      phase := if Service.exits cmd err then .exiting else svc.phase } := by
    rw [after]
    exact Function.update_self _ _ _
  cases exits : Service.exits cmd err with
  | true =>
    simp only [exits, if_true] at here ⊢
    refine ask_wp (c := .close ref) current fun t _ between => ⟨?_, fun _ _ _ _ _ _ _ => trivial⟩
    obtain ⟨svc', at', -, -, idle⟩ := between.moves.heap ref _ here
    exact ⟨svc', at', .inl (idle rfl)⟩
  | false =>
    simp only [exits, Bool.false_eq_true, if_false] at here ⊢
    refine ask_wp (c := .resume ref) current fun t _ between => ⟨?_, fun _ _ _ _ _ _ _ => trivial⟩
    obtain ⟨at', -⟩ := between.leaves.serving ref _ _ here busy
    refine ⟨_, _, ⟨at', busy⟩, fun _ j' cmd' eq _ => ?_⟩
    cases eq
    exact ⟨err, Function.update_self _ _ _⟩

theorem pass_wp [Uuid] {wake : Wake} (h : Acts A i ref id wake
      (fun vm _ => ∀ j cmd, wake = .command j cmd → cmd.isCreate = true → vm = none) s) :
    WP exec (spec A) i (fun _ _ => True) (Service.pass ref wake) s := by
  -- a pass that is not for a command may end as it likes
  have resume {s : Manager} {φ : Option VM → Remnant → Prop} (other : wake.creates = false)
      (h : Acts A i ref id wake φ s) (stable : Stable φ) :
      WP exec (spec A) i (fun _ _ => True) (ask (.resume ref)) s := by
    refine acts_wp (c := .resume ref) h stable (fun t known => ?_) fun _ _ _ _ _ _ _ _ _ => trivial
    obtain ⟨svc, serving, -⟩ := known.serving
    refine ⟨svc, wake, serving, fun _ j cmd eq create => ?_⟩
    subst eq
    cases other.symm.trans create
  cases wake with
  | ctxDone =>
    refine acts_wp (c := .close ref) h (stable_vm _)
      (fun t known => ?_) fun _ _ _ _ _ _ _ _ _ => trivial
    obtain ⟨svc, ⟨at_ref, busy⟩, -⟩ := known.serving
    exact ⟨svc, at_ref, .inr ⟨_, busy, nofun⟩⟩
  | command j cmd =>
    refine (handle_wp (h.mono fun _ _ x => x j cmd rfl)).bind fun a t known => ?_
    cases a with
    | ok => exact answer_wp known ⟨fun _ => rfl, fun _ => rfl⟩
    | err err => exact answer_wp known ⟨nofun, nofun⟩
    | panicked =>
      refine die_wp (known.acts.mono fun _ _ _ => (trivial : anything _ _))
        anything_stable fun clean => ?_
      cases create : cmd.isCreate with
      | false => exact create
      | true => exact absurd rfl (known.calm clean create)
  | exited =>
    refine (quiet_wp (c := .unwatch ref) (by simp [Call.quiet]) h (stable_vm _)).bind
      fun _ t known => ?_
    refine (setState_wp known (stable_vm _)).bind fun _ t known => ?_
    exact resume rfl known (stable_vm _)
  | tick =>
    refine (poll_wp h (stable_vm _)).bind fun calm t known => ?_
    cases calm with
    | true => exact resume rfl known.1 (stable_vm _)
    | false => exact die_wp known.1 (stable_vm _) fun _ => rfl

end Operations

end Services

section Callers
variable [Uuid] {A : Assume} {i : Nat} {ref : Ref} {id : SandboxID} {cmd : Command} {s t : Manager}

/-- Thread `i` has a Service to hand a command to; `begun` is what it has seen of
the creates it took, if it is the thread that registered it. Who hands over a
remove has the ID in deleting. -/
structure Hands (A : Assume) (i : Nat) (ref : Ref) (id : SandboxID) (cmd : Command)
    (begun : Option Command) (s : Manager) : Prop where
  current : s.born i = s.process
  sane : Sane A s
  serving : s.stage = .serving
  deleting : cmd = .remove → s.deleting.get? id = some ⟨i, some ref⟩
  there : ∃ svc, s.heap ref = some svc ∧ svc.id = id ∧
    (cmd.isCreate = true → svc.creator = some i ∧ svc.begun = begun)

theorem Hands.between {begun : Option Command}
    (h : Hands A i ref id cmd begun s) (sane : Sane A t)
    (between : Between i s t) : Hands A i ref id cmd begun t := by
  obtain ⟨-, -, serving, deleting, svc, at_ref, rfl, made⟩ := h
  obtain ⟨svc', at', same, -⟩ := between.moves.heap ref svc at_ref
  refine ⟨between.current, sane, between.moves.stage serving,
    fun remove => between.leaves.deleting _ _ (deleting remove) rfl, svc', at',
    same, fun create => ?_⟩
  obtain ⟨svc'', at'', made', begun'⟩ := between.leaves.creator ref svc at_ref (made create).1
  cases at'.symm.trans at''
  exact ⟨made', begun'.trans (made create).2⟩

/-- How a command ended: with a reply, or without one because the goroutine is
gone. In a tidy run a create that got no reply has left nothing. -/
structure Replied (A : Assume) (i : Nat) (ref : Ref) (id : SandboxID)
    (cmd : Command) (a : Option Err) (s : Manager) : Prop where
  current : s.born i = s.process
  sane : Sane A s
  serving : s.stage = .serving
  deleting : cmd = .remove → s.deleting.get? id = some ⟨i, some ref⟩
  there : ∃ svc, s.heap ref = some svc ∧ svc.id = id ∧ (svc.replies (i, cmd) = some a ∨
    a = some (.sentinel .serviceExited) ∧ svc.active = false ∧
      (A.clean → cmd.isCreate = true → s.Held id ref → s.Bare id))

theorem do_wp (h : Hands A i ref id cmd none s) :
    WP exec (spec A) i (Replied A i ref id cmd) (Service.do_ ref cmd) s := by
  refine ask_bind h.current fun t sane between => ?_
  obtain ⟨-, -, serving, deleting, svc, at_ref, rfl, made⟩ := h.between sane between
  refine ⟨⟨serving, svc, at_ref, made⟩, fun e taken u _ ran fits current => ?_⟩
  obtain ⟨_, at', ran⟩ := Option.bind_eq_some_iff.1 ran
  cases at'.symm.trans at_ref
  cases phase : svc.phase with
  | idle =>
    simp only [phase] at ran
    cases ran
    have handed : Hands A i ref svc.id cmd (some cmd) (t.setService ref { svc with
        phase := .offered i cmd, begun := if cmd.isCreate then some cmd else svc.begun }) :=
      ⟨current, fits.sane, serving, deleting, _, Function.update_self _ _ _, rfl,
        fun create => ⟨(made create).1, if_pos create⟩⟩
    refine ask_bind (c := .await ref cmd) handed.current fun t sane between =>
      ⟨trivial, fun e a u _ ran fits current => ?_⟩
    have handed := handed.between sane between
    obtain ⟨svc', at_ref', same, made'⟩ := handed.there
    obtain ⟨_, at', ran⟩ := Option.bind_eq_some_iff.1 ran
    cases at'.symm.trans at_ref'
    split at ran
    · split at ran
      · rename_i closed
        cases ran
        refine ask_bind (c := .recheck ref cmd) handed.current fun t' sane' between' =>
          ⟨trivial, fun e a u _ ran fits current => ?_⟩
        obtain ⟨_, -, serving', deleting', svc'', at_ref'', same', made''⟩ :=
          handed.between sane' between'
        obtain ⟨_, at', ran⟩ := Option.map_eq_some_iff.1 ran
        cases at'.symm.trans at_ref''
        obtain ⟨rfl, rfl⟩ := Prod.mk.inj ran
        cases replied : svc''.replies (i, cmd) with
        | some err =>
          exact .ret ⟨current, sane', serving', deleting', svc'', at_ref'', same', .inl replied⟩
        | none =>
          have idle : svc''.active = false := by
            obtain ⟨_, at'', -, -, idle⟩ := between'.moves.heap ref svc' at_ref'
            cases at''.symm.trans at_ref''
            exact idle (by simp [Service.active, closed])
          refine .ret ⟨current, sane', serving', deleting', svc'', at_ref'', same',
            .inr ⟨rfl, idle, fun clean create => ?_⟩⟩
          obtain ⟨creator, begun⟩ := made'' create
          rcases (sane'.clean clean).taken ref svc'' i cmd at_ref'' creator begun create with
            (taken | ⟨k, taken⟩) | ⟨err, done⟩
          · simp [Service.active, taken] at idle
          · simp [Service.active, taken] at idle
          · cases replied.symm.trans done
      · cases ran
    · obtain ⟨err, replied, eq⟩ := Option.map_eq_some_iff.1 ran
      obtain ⟨rfl, rfl⟩ := Prod.mk.inj eq
      exact .ret ⟨current, sane, handed.serving, handed.deleting, svc', at_ref', same, .inl replied⟩
  | closed =>
    simp only [phase] at ran
    cases ran
    refine .ret ⟨current, sane, serving, deleting, svc, at_ref, rfl,
      .inr ⟨rfl, by simp [Service.active, phase], fun clean create held => ?_⟩⟩
    have none : svc.vm = none := by
      by_contra made'
      exact sane.owned.used ref svc at_ref made' (by simp [(made create).1]) (made create).2
    have account := (sane.clean clean).account ref svc at_ref held
    rw [none] at account
    exact account
  | offered j cmd' => simp [phase] at ran
  | busy j wake => simp [phase] at ran
  | exiting => simp [phase] at ran

theorem Replied.idle {a : Option Err} (h : Replied A i ref id cmd a s)
    (exits : Service.exits cmd a = true) : s.Idle ref := by
  obtain ⟨svc, at_ref, -, replied | ⟨-, idle, -⟩⟩ := h.there
  · exact ⟨svc, at_ref, h.sane.owned.settled ref svc i cmd a at_ref replied exits⟩
  · exact ⟨svc, at_ref, idle⟩

theorem managerCreate_wp {input : CreateInput} (current : s.born i = s.process)
    (serving : s.stage = .serving) :
    WP exec (spec A) i (fun a t => a = none → A.booted → input.id ∈ t.booted)
    (Manager.create input) s := by
  unfold Manager.create checkSandboxID
  by_cases valid : Host.isSandboxID input.id = true
  case neg => simpa [valid] using WP.ret nofun
  simp only [valid, if_true]
  refine ask_bind (c := .register input) current fun t sane between => ?_
  have serving := between.moves.stage serving
  refine ⟨⟨serving, valid⟩, fun e a u meets ran fits current => ?_⟩
  have ran : t.register i input = (a, u) := Option.some.inj ran
  unfold Manager.register at ran
  split at ran
  · rename_i tracked
    cases ran
    refine .ret fun _ booted => ?_
    simpa [prompt, tracked] using meets.booted booted
  split at ran
  · cases ran
    exact .ret nofun
  split at ran
  · cases ran
    exact .ret nofun
  cases ran
  have hands : Hands A i t.next input.id (.create input) none { t with
      services := t.services.set input.id ⟨t.next, .starting⟩
      heap := Function.update t.heap t.next (some (newService input.id (some i)))
      next := t.next + 1 } :=
    ⟨current, fits.sane, serving, nofun, _, Function.update_self _ _ _, rfl, fun _ => ⟨rfl, rfl⟩⟩
  refine (do_wp hands).bind fun a t' known => ?_
  cases a with
  | none =>
    refine .ret fun _ _ => ?_
    obtain ⟨svc, at_ref, same, replied | ⟨exited, -⟩⟩ := known.there
    · exact same ▸ known.sane.owned.booted t.next svc i input at_ref replied
    · cases exited
  | some err =>
    have idle := known.idle rfl
    refine ask_bind (c := .forget input.id t.next) known.current fun t'' sane'' between'' => ?_
    refine ⟨?_, fun _ _ _ _ _ _ _ => .ret nofun⟩
    obtain ⟨svc, at_ref, done⟩ := idle
    obtain ⟨svc', at', same', -, done'⟩ := between''.moves.heap t.next svc at_ref
    refine ⟨between''.moves.stage known.serving, svc', at', done' done, fun clean held => ?_⟩
    obtain ⟨_, at_ref', same, ended⟩ := known.there
    cases at_ref'.symm.trans at_ref
    -- what a Service that is done has left cannot grow while it is held
    obtain ⟨was, shrinks⟩ := between''.moves.left t.next svc at_ref done (same ▸ held)
    rw [same] at was shrinks
    refine shrinks.bare ?_
    rcases ended with replied | ⟨-, -, bare⟩
    · exact same ▸ (known.sane.clean clean).failed t.next svc i input err at_ref
        replied (same ▸ was)
    · exact bare clean rfl was

theorem managerStop_wp (current : s.born i = s.process) (serving : s.stage = .serving) :
    WP exec (spec A) i (fun _ _ => True) (Manager.stop id) s := by
  refine ask_bind (c := .lookup id) current fun t sane between =>
    ⟨trivial, fun e a u _ ran fits current => ?_⟩
  cases ran
  cases found : t.services.get? id with
  | none => exact .ret trivial
  | some entry =>
    have tracked : t.svcOf id = some entry.svc := by simp [Manager.svcOf, found]
    obtain ⟨-, svc, at_ref, same⟩ := sane.owned.tracked id entry.svc tracked
    have hands : Hands A i entry.svc id .stop none t :=
      ⟨current, sane,
        between.moves.stage serving, by simp, svc, at_ref, same, fun create => by cases create⟩
    refine (do_wp hands).bind fun a t' known => ?_
    cases a with
    | none => exact .ret trivial
    | some err =>
      dsimp only
      split <;> exact .ret trivial

end Callers

/-- What a thread knows that nobody else touches the ID for, and that its own
reap of the ID leaves. -/
structure Sole [Uuid] (A : Assume) (i : Nat) (id : SandboxID) (K : Manager → Prop) : Prop where
  kept : ∀ s t, K s → Sane A t → Between i s t → K t
  own : ∀ s (op : ReapOp) e, K s → K { s with host := s.host.set id (op.apply e (s.remnant id)) }
  mine : ∀ s, K s → s.Deletes i id ∨ s.Recovers i id

/-- A reap under way, and what is known in a tidy run of what it has left. -/
structure Reaps [Uuid] (A : Assume) (i : Nat) (id : SandboxID) (K : Manager → Prop)
    (φ : Remnant → Prop) (s : Manager) : Prop where
  current : s.born i = s.process
  sane : Sane A s
  known : K s
  left : A.clean → φ (s.remnant id)

section Reaping
variable [Uuid] {A : Assume} {i : Nat} {ref : Ref} {id : SandboxID} {s t : Manager}
  {K : Manager → Prop}
  {φ ψ : Remnant → Prop}

theorem Reaps.mono (h : Reaps A i id K φ s) (le : ∀ r, A.clean → φ r → ψ r) :
    Reaps A i id K ψ s :=
  ⟨h.current, h.sane, h.known, fun clean => le _ clean (h.left clean)⟩

theorem Sole.shrinks (h : Sole A i id K) (known : K s) (between : Between i s t) :
    Shrinks (s.remnant id) (t.remnant id) := by
  rcases h.mine s known with deletes | ⟨recovering, -⟩
  · exact (between.leaves.reaping id deletes).2
  · exact (between.leaves.recovering recovering).2.2.2 id

theorem reapOp_wp (op : ReapOp) (sole : Sole A i id K) (h : Reaps A i id K φ s)
    (shrinks : ∀ r r', φ r → Shrinks r r' → φ r')
    (ok : op = .removeDir → ∀ r, φ r → r.volume = false ∧ r.vm = false)
    (post : ∀ e r, φ r → r.Marked → e.fault = .none → e.lingers = false → ψ (op.apply e r)) :
    WP exec (spec A) i (fun a t => Reaps A i id K (fun r => a = .ok () ∧ ψ r) t)
    (ask (.reap id op)) s := by
  refine ask_wp (c := .reap id op) h.current fun t sane between => ?_
  have known := sole.kept s t h.known sane between
  have left (clean : A.clean) : φ (t.remnant id) :=
    shrinks _ _ (h.left clean) (sole.shrinks h.known between)
  refine ⟨⟨sole.mine t known, fun clean last => ok last _ (left clean)⟩,
    fun e a u meets ran fits current => ?_⟩
  obtain ⟨answer, result, eq⟩ := Option.map_eq_some_iff.1 ran
  obtain ⟨rfl, after⟩ := Prod.mk.inj eq
  refine ⟨current, fits.sane, after ▸ sole.own t op e known, fun clean => ?_⟩
  have met := meets.clean clean
  simp only [tidy, Bool.and_eq_true, decide_eq_true_eq, Bool.not_eq_true'] at met
  have host : u.host = t.host.set id (op.apply e (t.remnant id)) := by rw [← after]
  rw [remnant_set _ id host, if_pos rfl]
  refine ⟨?_, post e _ (left clean) ((sane.clean clean).marked id) met.1 met.2⟩
  simpa [Env.result, met.1] using result.symm

theorem reap_wp (sole : Sole A i id K) (h : Reaps A i id K (fun _ => True) s) :
    WP exec (spec A) i (fun _ t => Reaps A i id K
      (fun r => Host.isSandboxID id = true → r = ⟨false, false, false, false⟩) t) (reap id) s := by
  unfold reap
  by_cases valid : Host.isSandboxID id = true
  case neg =>
    simp only [valid, Bool.not_false, if_true]
    exact .ret (h.mono fun _ _ _ valid' => by cases valid')
  simp only [valid, Bool.not_true, Bool.false_eq_true, if_false]
  -- in a tidy run no operation of a reap fails
  have failed {err : Err} {ψ ψ' : Remnant → Prop} {t : Manager}
      (h : Reaps A i id K (fun r => Except.error err = .ok () ∧ ψ r) t) : Reaps A i id K ψ' t :=
    h.mono fun _ _ x => by cases x.1
  refine (reapOp_wp .kill sole h (ψ := fun r => r.vm = false) (fun _ _ _ _ => trivial) (by simp)
    fun e r _ _ none lingers => by simp [ReapOp.apply, Env.effective, none, lingers]).bind
    fun a t known => ?_
  cases a with
  | error err => exact .ret (failed known)
  | ok =>
    refine (reapOp_wp .removeVolume sole (known.mono fun _ _ x => x.2)
      (ψ := fun r => r.volume = false ∧ r.vm = false)
      (fun r r' dead shrinks => by simpa [dead] using shrinks.vm) (by simp)
      fun e r dead marked none _ => ⟨Remnant.removeVolume_clears none marked, dead⟩).bind
      fun a t known => ?_
    cases a with
    | error err => exact .ret (failed known)
    | ok =>
      refine (reapOp_wp .removeDir sole (known.mono fun _ _ x => x.2)
        (ψ := fun r => r = ⟨false, false, false, false⟩)
        (fun r r' gone shrinks =>
          ⟨by simpa [gone.1] using shrinks.volume, by simpa [gone.2] using shrinks.vm⟩)
        (fun _ _ gone => gone)
        fun e r gone _ none _ => Remnant.removeDir_clears none gone.1 gone.2).bind
        fun a t known => ?_
      cases a with
      | error err => exact .ret (failed known)
      | ok => exact .ret (known.mono fun _ _ x _ => x.2)

theorem deletes_sole : Sole A i id fun s => s.Deletes i id where
  kept _ _ mine _ between := (between.leaves.reaping id mine).1
  own _ _ _ mine := mine
  mine _ mine := .inl mine

theorem tearDown_wp (h : Hands A i ref id .remove none s) :
    WP exec (spec A) i (fun _ t => Reaps A i id (fun s => s.Deletes i id)
      (fun r => Host.isSandboxID id = true → r = ⟨false, false, false, false⟩) t)
      (Manager.tearDown id ref) s := by
  refine (do_wp h).bind fun a t known => ?_
  have deleting := known.deleting rfl
  have exits : Service.exits .remove a = true := rfl
  have deletes : t.Deletes i id := by
    refine ⟨_, deleting, rfl, fun ref' took => ?_⟩
    cases took
    exact known.idle exits
  have held : t.Held id ref := .inr ⟨_, deleting, rfl⟩
  -- a reply was given once nothing was left
  have replied {err : Option Err} {svc : Service} (at_ref : t.heap ref = some svc)
    (same : svc.id = id)
      (reply : svc.replies (i, .remove) = some err) : Reaps A i id (fun s => s.Deletes i id)
      (fun r => Host.isSandboxID id = true → r = ⟨false, false, false, false⟩) t := by
    refine ⟨known.current, known.sane, deletes, fun clean _ => ?_⟩
    subst same
    exact (known.sane.clean clean).removed ref svc i err at_ref reply held
  obtain ⟨svc, at_ref, same, reply | ⟨rfl, -⟩⟩ := known.there
  · cases a with
    | none => exact .ret (replied at_ref same reply)
    | some err =>
      dsimp only
      split
      · exact reap_wp deletes_sole ⟨known.current, known.sane, deletes, fun _ => trivial⟩
      · exact .ret (replied at_ref same reply)
  · exact reap_wp deletes_sole ⟨known.current, known.sane, deletes, fun _ => trivial⟩

theorem managerRemove_wp (current : s.born i = s.process) (serving : s.stage = .serving) :
    WP exec (spec A) i (fun a t => Manager.confirms a = true → id ∈ t.gone ∧ (A.clean → t.Bare id))
      (Manager.remove id) s := by
  unfold Manager.remove checkSandboxID
  by_cases valid : Host.isSandboxID id = true
  case neg =>
    simp only [valid, Bool.false_eq_true, if_false]
    exact .ret fun confirms => by cases confirms
  simp only [valid, if_true]
  refine ask_bind (c := .claim id) current fun t sane between => ?_
  have serving := between.moves.stage serving
  refine ⟨serving, fun e a u _ ran fits current => ?_⟩
  have ran : t.claim i id = (a, u) := Option.some.inj ran
  unfold Manager.claim at ran
  split at ran
  · cases ran
    exact .ret fun confirms => by cases confirms
  rename_i undeleted
  split at ran
  · rename_i absent
    cases ran
    refine .ret fun _ => ⟨List.mem_cons_self, fun clean => ?_⟩
    exact (sane.clean clean).untracked serving id valid (svcOf_eq_none.2 absent)
      (by simpa [Manager.deletes] using undeleted)
  · rename_i entry found
    cases ran
    have tracked : t.svcOf id = some entry.svc := by simp [Manager.svcOf, found]
    obtain ⟨-, svc, at_ref, same⟩ := sane.owned.tracked id entry.svc tracked
    have hands : Hands A i entry.svc id .remove none { t with
        services := t.services.erase id
        deleting := t.deleting.set id ⟨i, some entry.svc⟩ } :=
      ⟨current, fits.sane, serving,
        fun _ => by simp, svc, at_ref, same, fun create => by cases create⟩
    refine (tearDown_wp hands).bind fun err t known => ?_
    refine ask_bind (c := .release id (Manager.confirms err)) known.current
      fun t' sane' between' => ?_
    obtain ⟨deletes, shrinks⟩ := between'.leaves.reaping id known.known
    have bare (clean : A.clean) : t'.Bare id := shrinks.bare (known.left clean valid)
    refine ⟨⟨deletes, fun clean _ => bare clean⟩, fun e a u _ ran fits _ => ?_⟩
    cases ran
    exact .ret fun confirms => ⟨by simp [confirms], bare⟩

end Reaping

section Audits
variable {A : Assume} {i : Nat} {s t : Manager} {id : SandboxID} {ids : List SandboxID}

theorem claimOrphans_claims (ids : List SandboxID) (s : Manager) :
    (s.claimOrphans i ids).1.Nodup ∧
    (∀ id ∈ (s.claimOrphans i ids).1, s.deleting.get? id = none ∧
      (s.claimOrphans i ids).2.deleting.get? id = some ⟨i, none⟩) ∧
    ∀ id d, s.deleting.get? id = some d → (s.claimOrphans i ids).2.deleting.get? id = some d := by
  induction ids generalizing s with
  | nil => exact ⟨List.nodup_nil, nofun, fun _ _ found => found⟩
  | cons id ids ih =>
    unfold Manager.claimOrphans
    split
    · exact ih s
    rename_i free
    simp only [Manager.tracks, Manager.deletes, Bool.or_eq_true, not_or, Bool.not_eq_true,
      Option.isSome_eq_false_iff, Option.isNone_iff_eq_none] at free
    obtain ⟨nodup, claimed, kept⟩ := ih { s with deleting := s.deleting.set id ⟨i, none⟩ }
    have apart {k : SandboxID} (mem : k ∈ (Manager.claimOrphans i ids
        { s with deleting := s.deleting.set id ⟨i, none⟩ }).1) : k ≠ id := by
      rintro rfl
      simpa using (claimed k mem).1
    refine ⟨List.nodup_cons.2 ⟨fun mem => apart mem rfl, nodup⟩, fun k mem => ?_,
      fun k d found => ?_⟩
    · rcases List.mem_cons.1 mem with rfl | mem
      · exact ⟨free.2, kept k _ (by simp)⟩
      · refine ⟨?_, (claimed k mem).2⟩
        simpa [apart mem] using (claimed k mem).1
    · have other : k ≠ id := by
        rintro rfl
        cases free.2.symm.trans found
      exact kept k d (by simpa [other] using found)

theorem claimed_sole [Uuid] (mem : id ∈ ids) : Sole A i id fun s => ∀ id ∈ ids, s.Deletes i id where
  kept _ _ mine _ between k mem := (between.leaves.reaping k (mine k mem)).1
  own _ _ _ mine := mine
  mine _ mine := .inl (mine id mem)

theorem reapClaimed_wp [Uuid] (nodup : ids.Nodup) (current : s.born i = s.process) (sane : Sane A s)
    (mine : ∀ id ∈ ids, s.Deletes i id) :
    WP exec (spec A) i (fun _ _ => True) (Manager.reapClaimed ids) s := by
  induction ids generalizing s with
  | nil => exact .ret trivial
  | cons id ids ih =>
    obtain ⟨fresh, nodup⟩ := List.nodup_cons.1 nodup
    refine (reap_wp (claimed_sole List.mem_cons_self) ⟨current, sane, mine, fun _ => trivial⟩).bind
      fun _ t known => ?_
    refine ask_bind (c := .release id false) known.current fun t' sane' between => ?_
    obtain ⟨deletes, shrinks⟩ := between.leaves.reaping id (known.known id List.mem_cons_self)
    refine ⟨⟨deletes, fun clean valid => shrinks.bare (known.left clean valid)⟩,
      fun e a u _ ran fits current => ?_⟩
    cases ran
    refine ih nodup current fits.sane fun k mem => ?_
    have apart : k ≠ id := fun eq => fresh (eq ▸ mem)
    obtain ⟨d, found, owner, idle⟩ :=
      (between.leaves.reaping k (known.known k (List.mem_cons_of_mem id mem))).1
    exact ⟨d, by simpa [apart] using found, owner, idle⟩

theorem reconcileDisk_wp [Uuid] (current : s.born i = s.process) (serving : s.stage = .serving) :
    WP exec (spec A) i (fun _ _ => True) Manager.reconcileDisk s := by
  refine ask_bind (c := .listDisk) current fun t sane between =>
    ⟨trivial, fun e a u _ ran fits current => ?_⟩
  have serving := fits.moves.stage (between.moves.stage serving)
  cases a with
  | error err => exact .ret trivial
  | ok ids =>
    refine ask_bind (c := .claimOrphans ids) current fun t sane between => ?_
    refine ⟨between.moves.stage serving, fun e orphans u _ ran fits current => ?_⟩
    have ran : t.claimOrphans i ids = (orphans, u) := Option.some.inj ran
    obtain ⟨nodup, claimed, -⟩ := claimOrphans_claims (i := i) ids t
    rw [ran] at nodup claimed
    refine reapClaimed_wp nodup current fits.sane fun id mem => ?_
    exact ⟨_, (claimed id mem).2, rfl, nofun⟩

theorem checkLiveness_wp [Uuid] (current : s.born i = s.process) :
    WP exec (spec A) i (fun _ _ => True) Manager.checkLiveness s := by
  have emit (dead : List SandboxID) {s : Manager} (current : s.born i = s.process) :
      WP exec (spec A) i (fun _ _ => True) (Manager.emitDead dead) s := by
    induction dead generalizing s with
    | nil => exact .ret trivial
    | cons id ids ih =>
      exact ask_bind (c := .emit id .dead) current fun _ _ _ =>
        ⟨trivial, fun _ _ _ _ _ _ current => ih current⟩
  exact ask_bind (c := .markDead) current fun _ _ _ =>
    ⟨trivial, fun _ dead _ _ _ _ current => emit dead current⟩

/-- What Recover has still to go through, and what it has seen to. -/
structure Listed [Uuid] (A : Assume) (i : Nat) (ids : List SandboxID) (s : Manager) : Prop where
  recovering : s.stage = .recovering i
  free : ∀ id ∈ ids, s.svcOf id = none ∧ ∀ ref svc, s.heap ref = some svc → svc.id ≠ id
  seen : A.clean → ∀ id, Host.isSandboxID id = true → s.svcOf id = none → id ∈ ids ∨ s.Bare id

theorem Listed.between [Uuid] (h : Listed A i ids s) (between : Between i s t) :
    Listed A i ids t := by
  obtain ⟨stage, svcs, old, shrinks⟩ := between.leaves.recovering h.recovering
  refine ⟨stage, fun id mem => ⟨(svcs id).trans (h.free id mem).1, fun ref svc at_ref => ?_⟩,
    fun clean id valid free => ?_⟩
  · obtain ⟨svc', at', same⟩ := old ref svc at_ref
    exact same ▸ (h.free id mem).2 ref svc' at'
  · exact (h.seen clean id valid ((svcs id).symm.trans free)).imp_right (shrinks id).bare

theorem listed_sole [Uuid] (mem : id ∈ ids) : Sole A i id (Listed A i ids) where
  kept _ _ h _ between := h.between between
  own s op e h := by
    refine ⟨h.recovering, h.free, fun clean k valid free =>
      (h.seen clean k valid free).imp_right fun bare => ?_⟩
    unfold Manager.Bare
    rw [remnant_set (op.apply e (s.remnant id)) k rfl]
    split
    · rename_i eq
      exact op.shrinks.bare (eq ▸ bare)
    · exact bare
  mine _ h := .inr ⟨h.recovering, h.free id mem⟩

theorem adopt_listed [Uuid] {state : SandboxState} (nodup : (id :: ids).Nodup)
    (h : Listed A i (id :: ids) s) : Listed A i ids (s.adopt id state) := by
  have svcs (k : SandboxID) : (s.adopt id state).svcOf k = if k = id then some s.next
      else s.svcOf k := by
    by_cases same : k = id <;> simp [Manager.svcOf, Manager.adopt, same]
  have apart {k : SandboxID} (mem : k ∈ ids) : k ≠ id := fun eq =>
    (List.nodup_cons.1 nodup).1 (eq ▸ mem)
  refine ⟨h.recovering, fun k mem => ?_, fun clean k valid free => ?_⟩
  · obtain ⟨free, none⟩ := h.free k (List.mem_cons_of_mem id mem)
    refine ⟨(svcs k).trans ((if_neg (apart mem)).trans free), fun ref svc at_ref => ?_⟩
    simp only [Manager.adopt] at at_ref
    by_cases new : ref = s.next
    · rw [new, Function.update_self] at at_ref
      cases at_ref
      exact fun eq => apart mem eq.symm
    · rw [Function.update_of_ne new] at at_ref
      exact none ref svc at_ref
  · rw [svcs] at free
    split at free
    · cases free
    · rename_i other
      rcases h.seen clean k valid free with mem | bare
      · exact .inl ((List.mem_cons.1 mem).resolve_left other)
      · exact .inr bare

theorem adoptListed_wp [Uuid] (nodup : ids.Nodup) (current : s.born i = s.process) (sane : Sane A s)
    (h : Listed A i ids s) :
    WP exec (spec A) i (fun _ t => t.born i = t.process ∧ Sane A t ∧ Listed A i [] t)
      (Manager.adoptListed ids) s := by
  induction ids generalizing s with
  | nil => exact .ret ⟨current, sane, h⟩
  | cons id ids ih =>
    have rest := (List.nodup_cons.1 nodup).2
    -- an ID whose VM is taken over
    have adopt {s : Manager} (state : SandboxState) (current : s.born i = s.process)
        (h : Listed A i (id :: ids) s) :
        WP exec (spec A) i (fun _ t => t.born i = t.process ∧ Sane A t ∧ Listed A i [] t)
          (ask (.adopt id state) >>= fun _ => Manager.adoptListed ids) s := by
      refine ask_bind (c := .adopt id state) current fun t sane between => ?_
      have h := h.between between
      refine ⟨⟨h.recovering, h.free id List.mem_cons_self⟩, fun e a u _ ran fits current => ?_⟩
      cases ran
      exact ih rest current fits.sane (adopt_listed nodup h)
    refine ask_bind (c := .attach id) current fun t sane between =>
      ⟨trivial, fun e a u _ ran fits current => ?_⟩
    have same : u = t := by
      simp only [perform] at ran
      split at ran
      · obtain ⟨_, -, eq⟩ := Option.map_eq_some_iff.1 ran
        exact (Prod.mk.inj eq).2.symm
      · cases ran
    subst same
    have h := h.between between
    cases a with
    | error err =>
      refine (reap_wp (listed_sole List.mem_cons_self) ⟨current, sane, h, fun _ => trivial⟩).bind
        fun _ t known => ?_
      refine ih rest known.current known.sane ⟨known.known.recovering,
        fun k mem => known.known.free k (List.mem_cons_of_mem id mem), fun clean k valid free => ?_⟩
      rcases known.known.seen clean k valid free with mem | bare
      · rcases List.mem_cons.1 mem with rfl | mem
        · exact .inr (known.left clean valid)
        · exact .inl mem
      · exact .inr bare
    | ok =>
      refine ask_bind (c := .queryState id) current fun t sane between =>
        ⟨trivial, fun e a u _ ran fits current => ?_⟩
      obtain ⟨_, -, eq⟩ := Option.map_eq_some_iff.1 ran
      obtain ⟨-, rfl⟩ := Prod.mk.inj eq
      have h := h.between between
      cases a with
      | error err => exact adopt .unknown current h
      | ok state => exact adopt state current h

theorem recover_wp [Uuid] (current : s.born i = s.process) (h : Begun i s .startup) :
    WP exec (spec A) i (fun _ t => t.born i = t.process ∧ Sane A t ∧ t.stage = .recovering i ∧
      (A.clean → ∀ id, Host.isSandboxID id = true → t.svcOf id = none → t.Bare id))
      Manager.recover s := by
  obtain ⟨recovering, none, free⟩ := h
  refine ask_bind (c := .listDisk) current fun t sane between =>
    ⟨trivial, fun e a u meets ran fits current => ?_⟩
  obtain ⟨stage, svcs, old, -⟩ := between.leaves.recovering recovering
  obtain ⟨answer, result, eq⟩ := Option.map_eq_some_iff.1 ran
  obtain ⟨rfl, rfl⟩ := Prod.mk.inj eq
  cases answer with
  | error err =>
    refine .ret ⟨current, sane, stage, fun clean => ?_⟩
    have fault : e.fault = .none := by simpa [tidy, stage] using meets.clean clean
    simp [Env.result, fault] at result
  | ok ids =>
    have listed : ids = t.dirs := by
      cases fault : e.fault with
      | none => simpa [Env.result, fault] using result.symm
      | err text | panic => simp [Env.result, fault] at result
    subst listed
    refine (adoptListed_wp (Table.nodup_select _ _) current sane
      ⟨stage, fun id _ => ⟨(svcs id).trans (free id),
      fun ref svc at_ref => ?_⟩, fun clean id valid _ => ?_⟩).bind fun _ t known => ?_
    · obtain ⟨svc', at', -⟩ := old ref svc at_ref
      cases (none ref).symm.trans at'
    · -- what is not listed has no directory, so there is nothing of it
      by_cases dir : (t.remnant id).dir = true
      · refine .inl ((Table.mem_select _ _ _).2 ?_)
        unfold Manager.remnant at dir
        cases found : t.host.get? id with
        | none => simp [found] at dir
        | some r => exact ⟨r, rfl, by simpa [found, valid] using dir⟩
      · have marked := (sane.clean clean).marked id
        refine .inr ?_
        unfold Manager.Bare
        generalize t.remnant id = r at dir marked
        obtain ⟨dir', device, leaked, vm⟩ := r
        obtain ⟨unleaked, needs⟩ := marked
        simp only [Bool.not_eq_true] at dir unleaked
        subst dir unleaked
        cases device <;> cases vm <;> simp at needs ⊢
    · obtain ⟨current, sane, listed⟩ := known
      refine .ret ⟨current, sane, listed.recovering, fun clean id valid free => ?_⟩
      exact (listed.seen clean id valid free).resolve_left (by simp)

theorem startup_wp [Uuid] (current : s.born i = s.process) (h : Begun i s .startup) :
    WP exec (spec A) i (fun _ _ => True) Manager.startup s := by
  refine (recover_wp current h).bind fun err t known => ?_
  obtain ⟨current, -, recovering, bare⟩ := known
  refine ask_bind (c := .serveRequests) current fun t' sane between => ?_
  obtain ⟨stage, svcs, -, shrinks⟩ := between.leaves.recovering recovering
  refine ⟨⟨stage, fun clean id valid free => ?_⟩, fun _ _ _ _ _ _ _ => .ret trivial⟩
  exact (shrinks id).bare (bare clean id valid ((svcs id).symm.trans free))

def Answers (A : Assume) (_ : Nat) (k : Kind) (a : Option Err) (t : Manager) : Prop :=
  match k with
  | .create input => a = none → A.booted → input.id ∈ t.booted
  | .remove id => Manager.confirms a = true → id ∈ t.gone ∧ (A.clean → t.Bare id)
  | _ => True

theorem body_wp [Uuid] {k : Kind} (current : s.born i = s.process)
    (sane : Sane A s) (h : Begun i s k) : WP exec (spec A) i (Answers A i k) (body k) s := by
  cases k with
  | startup => exact startup_wp current h
  | create input => exact managerCreate_wp current h
  | stop id => exact managerStop_wp current h
  | remove id => exact managerRemove_wp current h
  | reconcileDisk => exact (reconcileDisk_wp current h).bind fun _ _ _ => .ret trivial
  | checkLiveness => exact (checkLiveness_wp current).bind fun _ _ _ => .ret trivial
  | serve ref wake =>
    obtain ⟨svc, serving, unmade⟩ := h
    exact (pass_wp ⟨current, sane, svc, serving, rfl, unmade⟩).bind fun _ _ _ => .ret trivial

theorem disciplined [Uuid] (A : Assume) : system.Disciplined (spec A) (Answers A) where
  sound := spec_sound A
  start i k s t sane started := by
    obtain ⟨fits, begun⟩ := begin_fits sane started
    have current : t.born i = t.process := by
      rw [fits.born, fits.process]
      exact Function.update_self _ _ _
    refine ⟨fits.sane, born_evolves.trans fits.evolves, fun j other =>
      (born_keeps other).trans (fits.keeps other), body_wp current fits.sane begun⟩
  ext x s t sane _ happened := by
    cases happened
    exact happen_keeps x sane

end Audits
end Fire2.SandboxMgr
