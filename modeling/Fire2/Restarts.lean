import Fire2.ManagerCalls
import Fire2.Orchestrator
import Fire2.Reconciliation

/-! What a worker process makes of the VMs that live when it starts.

Recover takes over every sandbox on disk whose shim lives, and the worker serves
from then on: its heartbeats list the sandbox and its audits pass it over, as
long as nobody asks to remove it. If Recover cannot list the disk, the process
serves all the same with an empty map. -/

namespace Fire2.SandboxMgr
open Interleaving

def sparing [Uuid] (id : SandboxID) : System Kind Call Env Event (Option Err) Manager Call.Answer :=
  { system with start := fun i k s => if k = .remove id then none else begin i k s }

def recoverable (id : SandboxID) (_ : Nat) (c : Call) (e : Env) (s : Manager) : Bool :=
  -- Recover gets to see the disk, and attaches to the sandbox's shim if it lives
  match c with
  | .listDisk => s.stage = .serving || e.fault = .none
  | .attach k => k ≠ id || !(s.remnant id).vm || e.fault = .none
  | _ => true

def outlives (id : SandboxID) (x : Event) (s : Manager) : Bool :=
  -- the process does not end, and the shim lives until it is taken over
  match x with
  | .restart => false
  | .vmExit k => k ≠ id || s.tracks id
  | _ => true

/-- The sandbox lives until it is in the map, where it is once the process serves.
Nobody has a command before. -/
structure Kept (id : SandboxID) (s : Manager) : Prop where
  served : s.stage = .serving → s.tracks id = true
  fresh : s.stage = .fresh → s.tracks id = false
  live : s.stage ≠ .serving → s.tracks id = false → (s.remnant id).dir = true ∧
    (s.remnant id).vm = true
  quiet : s.stage ≠ .serving → ∀ ref svc j cmd, s.heap ref = some svc → ¬ svc.Takes j cmd

structure Carries (id : SandboxID) (s t : Manager) : Prop where
  stage : s.stage = .serving → t.stage = .serving
  tracked : s.tracks id = true → t.tracks id = true

structure Awaits (id : SandboxID) (i : Nat) (s t : Manager) : Prop where
  process : t.process = s.process
  born : t.born i = s.born i
  recovering : s.stage = .recovering i → t.stage = .recovering i ∧ t.tracks id = s.tracks id

def spares (id : SandboxID) (i : Nat) (s : Manager) : Call → Prop
  | .serveRequests => s.stage = .recovering i ∧ s.tracks id = true
  | .adopt _ _ => s.stage = .recovering i
  | .reap k _ | .claim k | .forget k _ => k ≠ id
  | .register _ | .offer _ _ | .vm _ _ => s.stage = .serving
  | _ => True

def restartSpec (id : SandboxID) : Spec Call Env Event Manager where
  Inv := Kept id
  Evolves := Carries id
  Keeps := Awaits id
  Pre i c s := s.born i = s.process → spares id i s c
  Cond i c e s := recoverable id i c e s = true
  Out x s := outlives id x s = true

section Sound
variable {id : SandboxID} {i : Nat} {e : Env} {s t : Manager} {c : Call}

structure Spared (id : SandboxID) (s : Manager) (c : Call) (t : Manager) : Prop where
  process : t.process = s.process
  born : t.born = s.born
  stage : t.stage = s.stage ∨ c = .serveRequests ∧ t.stage = .serving
  tracks : t.tracks id = s.tracks id ∨
    t.tracks id = true ∧ (s.stage = .serving ∨ ∃ state, c = .adopt id state)
  remnant : s.stage ≠ .serving → t.remnant id = s.remnant id
  takes : s.stage ≠ .serving → ∀ ref svc j cmd, t.heap ref = some svc → svc.Takes j cmd →
    ∃ old, s.heap ref = some old ∧ old.Takes j cmd

theorem Spared.refl (id : SandboxID) (s : Manager) (c : Call) : Spared id s c s :=
  ⟨rfl, rfl, .inl rfl, .inl rfl, fun _ => rfl, fun _ _ svc _ _ here takes => ⟨svc, here, takes⟩⟩

theorem Spared.maps {services : Table SandboxID Entry} {deleting : Table SandboxID Deletion}
    {gone : List SandboxID} (same : (services.get? id).isSome = (s.services.get? id).isSome) :
    Spared id s c { s with services, deleting, gone } :=
  ⟨rfl, rfl, .inl rfl, .inl same, fun _ => rfl, fun _ _ svc _ _ here takes => ⟨svc, here, takes⟩⟩

theorem Effect.spared (h : Effect i e s c t) (ok : spares id i s c) : Spared id s c t := by
  cases h with
  | register input =>
    unfold Manager.register
    split
    · exact .refl id s _
    split
    · exact .refl id s _
    split
    · exact .refl id s _
    · refine ⟨rfl, rfl, .inl rfl, ?_, fun early => absurd ok early, fun early => absurd ok early⟩
      by_cases same : id = input.id
      · exact .inr ⟨by simp [Manager.tracks, same], .inl ok⟩
      · exact .inl (by simp [Manager.tracks, same])
  | forget k ref =>
    have other : id ≠ k := Ne.symm ok
    unfold Manager.forget
    split
    · split
      · exact .maps (by simp [other])
      · exact .refl id s _
    · exact .refl id s _
  | claim k =>
    have other : id ≠ k := Ne.symm ok
    unfold Manager.claim
    split
    · exact .refl id s _
    split
    · exact .maps rfl
    · exact .maps (by simp [other])
  | release k confirmed => exact .maps rfl
  | claimOrphans ids =>
    rw [claimOrphans_frame]
    exact .maps rfl
  | adopt k state =>
    refine ⟨rfl, rfl, .inl rfl, ?_, fun _ => rfl, fun _ ref svc j cmd here takes => ?_⟩
    · by_cases same : id = k
      · subst same
        exact .inr ⟨by simp [Manager.tracks, Manager.adopt], .inr ⟨state, rfl⟩⟩
      · exact .inl (by simp [Manager.tracks, Manager.adopt, same])
    · by_cases new : ref = s.next
      · simp only [Manager.adopt, new, Function.update_self, Option.some.injEq] at here
        subst here
        simp [Service.Takes, newService] at takes
      · exact ⟨svc, (Function.update_of_ne new _ _).symm.trans here, takes⟩
  | report ref state k =>
    unfold Manager.report
    split
    · rename_i entry found
      split
      · refine .maps ?_
        by_cases same : id = k
        · simp [same, found]
        · simp [same]
      · exact .refl id s _
    · exact .refl id s _
  | markDead => exact .maps (by simp)
  | emit k state =>
    unfold Manager.emit
    split
    · exact ⟨rfl, rfl, .inl rfl, .inl rfl, fun _ => rfl,
        fun _ _ svc _ _ here takes => ⟨svc, here, takes⟩⟩
    · exact .refl id s _
  | serveRequests =>
    exact ⟨rfl, rfl, .inr ⟨rfl, rfl⟩, .inl rfl, fun _ => rfl,
      fun _ _ svc _ _ here takes => ⟨svc, here, takes⟩⟩
  | @service _ ref old new at_ref _ takes =>
    refine ⟨rfl, rfl, .inl rfl, .inl rfl, fun _ => rfl, fun early k svc j cmd here taken => ?_⟩
    by_cases same : k = ref
    · subst same
      simp only [Manager.setService, Function.update_self, Option.some.injEq] at here
      subst here
      obtain was | ⟨_, _, rfl⟩ := takes j cmd taken
      · exact ⟨old, at_ref, was⟩
      · exact absurd ok early
    · exact ⟨svc, (Function.update_of_ne same _ _).symm.trans here, taken⟩
  | vm op at_ref booted =>
    exact ⟨rfl, rfl, .inl rfl, .inl rfl, fun early => absurd ok early, fun early => absurd ok early⟩
  | reap k op =>
    have other : id ≠ k := Ne.symm ok
    exact ⟨rfl, rfl, .inl rfl, .inl rfl, fun _ => by simp [Manager.remnant, other],
      fun _ _ svc _ _ here takes => ⟨svc, here, takes⟩⟩
  | read => exact .refl id s _

theorem Spared.stage_mono (h : Spared id s c t) (serving : s.stage = .serving) :
    t.stage = .serving := by
  rcases h.stage with same | ⟨-, done⟩
  · exact same.trans serving
  · exact done

theorem Spared.tracked (h : Spared id s c t) (tracked : s.tracks id = true) :
    t.tracks id = true := by
  rcases h.tracks with same | ⟨done, -⟩
  · exact same.trans tracked
  · exact done

theorem Spared.kept (h : Spared id s c t) (kept : Kept id s)
    (ok : spares id i s c) : Kept id t := by
  have early (later : t.stage ≠ .serving) : s.stage ≠ .serving := fun serving => later
    (h.stage_mono serving)
  refine ⟨fun serving => h.tracked ?_, fun fresh => ?_, fun later free => ?_,
    fun later ref svc j cmd here takes => ?_⟩
  · rcases h.stage with same | ⟨rfl, -⟩
    · exact kept.served (same.symm.trans serving)
    · exact ok.2
  · have before : s.stage = .fresh := by
      rcases h.stage with same | ⟨-, done⟩
      · exact same.symm.trans fresh
      · cases done.symm.trans fresh
    rcases h.tracks with same | ⟨-, serving | ⟨state, rfl⟩⟩
    · exact same.trans (kept.fresh before)
    · cases serving.symm.trans before
    · cases (show s.stage = .recovering i from ok).symm.trans before
  · have before : s.tracks id = false := by
      by_contra tracked
      rw [h.tracked (by simpa using tracked)] at free
      cases free
    rw [h.remnant (early later)]
    exact kept.live (early later) before
  · obtain ⟨old, at_ref, was⟩ := h.takes (early later) ref svc j cmd here takes
    exact kept.quiet (early later) ref old j cmd at_ref was

theorem Spared.awaits (h : Spared id s c t) (ok : spares id i s c) {j : Nat} (other : j ≠ i) :
    Awaits id j s t := by
  refine ⟨h.process, congrFun h.born j, fun recovering => ⟨?_, ?_⟩⟩
  · rcases h.stage with same | ⟨rfl, -⟩
    · exact same.trans recovering
    · have mine : Stage.recovering j = .recovering i := recovering.symm.trans ok.1
      cases mine
      exact absurd rfl other
  · rcases h.tracks with same | ⟨-, serving | ⟨state, rfl⟩⟩
    · exact same
    · cases serving.symm.trans recovering
    · have mine : Stage.recovering j = .recovering i := recovering.symm.trans ok
      cases mine
      exact absurd rfl other

theorem restartSpec_sound [Uuid] (id : SandboxID) : (restartSpec id).Sound exec where
  evolves_refl _ := ⟨fun h => h, fun h => h⟩
  evolves_trans h k := ⟨fun x => k.stage (h.stage x), fun x => k.tracked (h.tracked x)⟩
  keeps_refl _ _ := ⟨rfl, rfl, fun h => ⟨h, rfl⟩⟩
  keeps_trans h k := by
    refine ⟨k.process.trans h.process, k.born.trans h.born, fun recovering => ?_⟩
    obtain ⟨stage, tracks⟩ := h.recovering recovering
    exact ⟨(k.recovering stage).1, (k.recovering stage).2.trans tracks⟩
  step {i c e s a t} inv pre _ ran := by
    obtain ⟨current, ran⟩ := exec_eq_some ran
    have spared := (perform_effect ran).spared (pre current)
    exact ⟨spared.kept inv (pre current), ⟨spared.stage_mono, spared.tracked⟩,
      fun j other => spared.awaits (pre current) other⟩

end Sound

/-- Thread `i` recovers, and the sandbox is in the map or not yet. -/
structure Holding (id : SandboxID) (i : Nat) (taken : Bool) (s : Manager) : Prop where
  current : s.born i = s.process
  recovering : s.stage = .recovering i
  tracks : s.tracks id = taken

section Recovering
variable {id k : SandboxID} {ids : List SandboxID} {i : Nat} {e : Env} {s t : Manager} {c : Call}
  {taken : Bool} {α : Type}

theorem Holding.rely (h : Holding id i taken s) (rely : (restartSpec id).Rely i s t) :
    Holding id i taken t := by
  obtain ⟨-, process, born, recovering⟩ := rely
  obtain ⟨stage, tracks⟩ := recovering h.recovering
  exact ⟨born.trans (h.current.trans process.symm), stage, tracks.trans h.tracks⟩

theorem Holding.early (h : Holding id i taken s) : s.stage ≠ .serving := by
  rw [h.recovering]
  nofun

theorem Holding.own [Uuid] {a : c.Answer} (h : Holding id i taken s) (ok : spares id i s c)
    (ran : perform i c e s = some (a, t)) (serve : c ≠ .serveRequests)
    (adopt : ∀ state, c ≠ .adopt id state) : Holding id i taken t := by
  have spared := (perform_effect ran).spared ok
  refine ⟨?_, (spared.stage.resolve_right fun x => serve x.1).trans h.recovering,
    (spared.tracks.resolve_right ?_).trans h.tracks⟩
  · rw [spared.born, spared.process]
    exact h.current
  · rintro ⟨-, serving | ⟨state, rfl⟩⟩
    · exact h.early serving
    · exact adopt state rfl

theorem holding_ask [Uuid] {Q : α → Manager → Prop} {f : c.Answer → M α} (h : Holding id i taken s)
    (ok : ∀ t, Holding id i taken t → spares id i t c)
    (next : ∀ t e a u, Kept id t → Holding id i taken t → recoverable id i c e t = true →
      perform i c e t = some (a, u) → WP exec (restartSpec id) i Q (f a) u) :
    WP exec (restartSpec id) i Q (ask c >>= f) s :=
  .call (fun t _ rely _ => ok t (h.rely rely)) fun t e a u kept rely met ran _ =>
    next t e a u kept (h.rely rely) met (exec_eq_some ran).2

theorem reap_holding [Uuid] (h : Holding id i taken s) (other : k ≠ id) :
    WP exec (restartSpec id) i (fun _ t => Holding id i taken t) (reap k) s := by
  refine WP.within (P := fun c => ∃ op, c = .reap k op)
    (fun s t here rely => Holding.rely here rely) ?_ ?_ (reap_calls fun op => ⟨op, rfl⟩) h
  · rintro c s ⟨op, rfl⟩ _ _ _
    exact other
  · rintro c e s r t ⟨op, rfl⟩ _ here _ ran
    exact ⟨trivial, Holding.own (c := .reap k op) here other (exec_eq_some ran).2
      (fun eq => nomatch eq) fun _ eq => nomatch eq⟩

theorem adopt_holding [Uuid] {state : SandboxState} {Q : Unit → Manager → Prop}
    (h : Holding id i taken s) (next : ∀ t, Holding id i (taken || k = id) t →
      WP exec (restartSpec id) i Q (Manager.adoptListed ids) t) :
    WP exec (restartSpec id) i Q (ask (.adopt k state) >>= fun _ => Manager.adoptListed ids) s := by
  refine holding_ask h (fun t here => here.recovering) fun t e a u _ here _ ran => next u ?_
  by_cases same : k = id
  · subst same
    cases ran
    exact ⟨here.current, here.recovering, by simp [Manager.tracks, Manager.adopt]⟩
  · have left := Holding.own (c := .adopt k state) here here.recovering ran (by simp)
      fun x eq => same (Call.adopt.inj eq).1
    simpa [same] using left

theorem attach_live [Uuid] {a : Except Err Unit} (kept : Kept id s) (h : Holding id i false s)
    (met : recoverable id i (.attach id) e s = true)
    (ran : perform i (.attach id) e s = some (a, t)) : a = .ok () := by
  have alive := (kept.live h.early h.tracks).2
  have fault : e.fault = .none := by simpa [recoverable, alive] using met
  simp only [perform, alive, Bool.true_or, if_true, Env.result, fault,
    Option.map_some, Option.some.injEq, Prod.mk.injEq] at ran
  exact ran.1.symm

theorem adoptListed_holding [Uuid] (nodup : ids.Nodup) (h : Holding id i taken s)
    (listed : taken = true ↔ id ∉ ids) :
    WP exec (restartSpec id) i (fun _ t => Holding id i true t) (Manager.adoptListed ids) s := by
  induction ids generalizing s taken with
  | nil =>
    obtain rfl := listed.2 List.not_mem_nil
    exact .ret h
  | cons k ids ih =>
    obtain ⟨unique, rest⟩ := List.nodup_cons.1 nodup
    have adopt {t : Manager} {state : SandboxState} (here : Holding id i taken t) :
        WP exec (restartSpec id) i (fun _ t => Holding id i true t)
          (ask (.adopt k state) >>= fun _ => Manager.adoptListed ids) t := by
      refine adopt_holding here fun t here => ih rest here ?_
      by_cases same : k = id
      · subst same
        simpa using unique
      · simpa [same, Ne.symm same] using listed
    refine holding_ask h (fun _ _ => trivial) fun t e a u kept here met ran => ?_
    have left : Holding id i taken u :=
      Holding.own (c := .attach k) here trivial ran (fun eq => nomatch eq) fun _ eq => nomatch eq
    cases a with
    | error err =>
      have other : k ≠ id := by
        rintro rfl
        obtain rfl : taken = false := by simpa using listed
        cases attach_live kept here met ran
      refine (reap_holding left other).bind fun _ v here => ih rest here ?_
      simpa [Ne.symm other] using listed
    | ok =>
      refine holding_ask left (fun _ _ => trivial) fun t e a u _ here _ ran => ?_
      have left : Holding id i taken u :=
        Holding.own (c := .queryState k) here trivial ran (fun eq => nomatch eq)
          fun _ eq => nomatch eq
      cases a with
      | error err => exact adopt left
      | ok state => exact adopt left

theorem startup_holding [Uuid] (valid : Host.isSandboxID id = true) (h : Holding id i false s) :
    WP exec (restartSpec id) i (fun _ _ => True) Manager.startup s := by
  have recover : WP exec (restartSpec id) i (fun _ t => Holding id i true t) Manager.recover s := by
    refine holding_ask h (fun _ _ => trivial) fun t e a u kept here met ran => ?_
    have left : Holding id i false u :=
      Holding.own (c := .listDisk) here trivial ran (fun eq => nomatch eq) fun _ eq => nomatch eq
    have fault : e.fault = .none := by simpa [recoverable, here.recovering] using met
    simp only [perform, Env.result, fault, Option.map_some, Option.some.injEq, Prod.mk.injEq] at ran
    obtain ⟨rfl, rfl⟩ := ran
    have nodup : t.dirs.Nodup := Table.nodup_select _ _
    refine (adoptListed_holding nodup left ?_).bind fun _ v here => .ret here
    have dir := (kept.live here.early here.tracks).1
    have mem : id ∈ t.dirs := by
      refine (Table.mem_select _ _ _).2 ?_
      unfold Manager.remnant at dir
      cases found : t.host.get? id with
      | none => simp [found] at dir
      | some r => exact ⟨r, rfl, by simpa [found, valid] using dir⟩
    simpa using mem
  refine recover.bind fun err t here => ?_
  exact holding_ask here (fun _ here => ⟨here.recovering, here.tracks⟩)
    fun _ _ _ _ _ _ _ _ => .ret trivial

end Recovering

section Serving
variable {id k : SandboxID} {ids : List SandboxID} {i : Nat} {e : Env} {s t : Manager}
  {c : Call} {ref : Ref} {cmd : Command} {α : Type}

theorem spares_of_handOver (h : HandOver cmd c) (serving : s.stage = .serving) :
    spares id i s c := by
  cases c with
  | offer => exact serving
  | await | recheck => trivial
  | _ => exact h.elim

theorem spares_of_poll (h : PollCall ref c) : spares id i s c := by
  cases c with
  | fields | setField | report | queryVM | emit => trivial
  | _ => exact h.elim

theorem spares_of_serve {wake : Wake} (h : ServeCall ref wake c)
    (serving : ∀ j cmd, wake = .command j cmd → s.stage = .serving) : spares id i s c := by
  cases wake with
  | command j cmd =>
    cases c with
    | vm => exact serving j cmd rfl
    | reply | resume | close | watch => trivial
    | _ => exact spares_of_poll (show PollCall ref _ from h)
  | ctxDone | exited | tick =>
    cases c with
    | resume | close | unwatch => trivial
    | _ => exact spares_of_poll (show PollCall ref _ from h)

theorem spares_of_remove (other : k ≠ id) (h : KindCall (.remove k) c)
    (serving : s.stage = .serving) : spares id i s c := by
  cases c with
  | claim x | reap x op =>
    obtain rfl : x = k := h
    exact other
  | release => trivial
  | _ => exact spares_of_handOver (show HandOver .remove _ from h) serving

theorem serving_wp [Uuid] {P : Call → Prop} {p : M α} (calls : Calls p P)
    (serving : s.stage = .serving) (ok : ∀ c s, P c → s.stage = .serving → spares id i s c) :
    WP exec (restartSpec id) i (fun _ _ => True) p s :=
  WP.mono (fun _ _ _ => trivial)
    (WP.of_asks (restartSpec_sound id) (φ := fun s => s.stage = .serving)
    (fun _ _ serving moved => moved.stage serving) (fun c s h _ serving _ => ok c s h serving)
    (fun _ _ _ _ _ _ => trivial) calls serving)

theorem serving_ask [Uuid] {Q : α → Manager → Prop} {f : c.Answer → M α}
    (serving : s.stage = .serving) (ok : ∀ t, t.stage = .serving → spares id i t c)
    (next : ∀ t e a u, Kept id t → t.stage = .serving → perform i c e t = some (a, u) →
      u.stage = .serving →
      WP exec (restartSpec id) i Q (f a) u) : WP exec (restartSpec id) i Q (ask c >>= f) s := by
  refine .step (restartSpec_sound id) fun t kept rely => ⟨fun _ => ok t (rely.1.stage serving), ?_⟩
  exact fun e a u _ ran _ moved =>
    next t e a u kept (rely.1.stage serving) (exec_eq_some ran).2 (moved.stage serving)

theorem create_serving [Uuid] {input : CreateInput} (serving : s.stage = .serving) :
    WP exec (restartSpec id) i (fun _ _ => True) (Manager.create input) s := by
  unfold Manager.create
  split
  · exact .ret trivial
  refine serving_ask serving (fun _ serving => serving) fun t e a u kept serving ran serving' => ?_
  cases a with
  | tracked | busy | full => exact .ret trivial
  | fresh ref =>
    have other : input.id ≠ id := by
      rintro rfl
      have tracked := kept.served serving
      simp [perform, Manager.register, tracked] at ran
    refine serving_wp (P := fun c => HandOver (.create input) c ∨
      c = .forget input.id ref) ?_ serving' ?_
    · refine (do_calls.mono fun _ => .inl).bind fun r => ?_
      cases r with
      | none => exact .ret _
      | some err => exact calls_ask (.inr rfl) fun _ => .ret _
    · rintro c s (hands | rfl) serving
      · exact spares_of_handOver hands serving
      · exact other

theorem claimOrphans_untracked (mem : id ∈ (s.claimOrphans i ids).1) : s.tracks id = false := by
  induction ids generalizing s with
  | nil => cases mem
  | cons k ids ih =>
    unfold Manager.claimOrphans at mem
    split at mem
    · exact ih mem
    · rename_i free
      rcases List.mem_cons.1 mem with rfl | mem
      · simp only [Bool.or_eq_true, not_or, Bool.not_eq_true] at free
        exact free.1
      · exact ih (s := { s with deleting := s.deleting.set k ⟨i, none⟩ }) mem

theorem reconcileDisk_serving [Uuid] (serving : s.stage = .serving) :
    WP exec (restartSpec id) i (fun _ _ => True) Manager.reconcileDisk s := by
  refine serving_ask serving (fun _ _ => trivial) fun t e a u _ _ _ serving => ?_
  cases a with
  | error err => exact .ret trivial
  | ok ids =>
    refine serving_ask serving (fun _ _ => trivial)
      fun t e orphans u kept serving ran serving' => ?_
    have claimed : (t.claimOrphans i ids).1 = orphans := congrArg Prod.fst (Option.some.inj ran)
    have spared (k : SandboxID) (mem : k ∈ orphans) : k ≠ id := by
      rintro rfl
      cases (claimOrphans_untracked (claimed ▸ mem)).symm.trans (kept.served serving)
    refine serving_wp (P := fun c => (∃ k op, k ≠ id ∧ c = .reap k op) ∨ ∃ k, c = .release k false)
      (reapClaimed_calls (fun k mem op => .inl ⟨k, op, spared k mem, rfl⟩) fun k => .inr
        ⟨k, rfl⟩) serving' ?_
    rintro c s (⟨k, op, other, rfl⟩ | ⟨k, rfl⟩) _
    · exact other
    · trivial

theorem request_spares [Uuid] {k : Kind} (other : k ≠ .remove id) (early : k ≠ .startup)
    (pass : ∀ ref wake, k ≠ .serve ref wake) (serving : s.stage = .serving) :
    WP exec (restartSpec id) i (fun _ _ => True) (body k) s := by
  cases k with
  | startup => exact absurd rfl early
  | serve ref wake => exact absurd rfl (pass ref wake)
  | create input => exact create_serving serving
  | stop k =>
    refine serving_wp (body_calls (.stop k)) serving fun c s h serving => ?_
    cases c with
    | lookup => trivial
    | _ => exact spares_of_handOver (show HandOver .stop _ from h) serving
  | remove k =>
    have apart : k ≠ id := fun eq => other (congrArg Kind.remove eq)
    exact serving_wp (body_calls (.remove k)) serving fun c s h serving =>
      spares_of_remove apart h serving
  | reconcileDisk => exact (reconcileDisk_serving serving).bind fun _ _ _ => .ret trivial
  | checkLiveness =>
    refine serving_wp (body_calls .checkLiveness) serving fun c s h _ => ?_
    cases c with
    | markDead | emit => trivial
    | _ => exact h.elim

theorem pass_spares [Uuid] {wake : Wake} (serving : ∀ j cmd, wake = .command j cmd →
    s.stage = .serving) : WP exec (restartSpec id) i (fun _ _ => True) (body (.serve ref wake)) s :=
  WP.mono (fun _ _ _ => trivial) (WP.of_asks (restartSpec_sound id)
    (φ := fun s => ∀ j cmd, wake = .command j cmd → s.stage = .serving)
    (fun _ _ serving moved j cmd eq => moved.stage (serving j cmd eq))
    (fun _ _ h _ serving _ => spares_of_serve h serving) (fun _ _ _ _ _ _ => trivial)
    (body_calls (.serve ref wake)) serving)

theorem begin_spares [Uuid] (valid : Host.isSandboxID id = true) {k : Kind} (other : k ≠ .remove id)
    (kept : Kept id s) (h : begin i k s = some t) : Kept id t ∧ Carries id s t ∧
      (∀ j, j ≠ i → Awaits id j s t) ∧ WP exec (restartSpec id) i (fun _ _ => True) (body k) t := by
  have request (serving : s.stage = .serving)
    (eq : t = { s with born := Function.update s.born i s.process }) :
      Kept id t ∧ Carries id s t ∧ ∀ j, j ≠ i → Awaits id j s t := by
    subst eq
    exact ⟨⟨kept.served, kept.fresh, kept.live, kept.quiet⟩, ⟨fun h => h, fun h => h⟩,
      fun j apart => ⟨rfl, Function.update_of_ne apart _ _, fun h => ⟨h, rfl⟩⟩⟩
  cases k with
  | startup =>
    simp only [begin, Option.ite_none_right_eq_some] at h
    obtain ⟨fresh, eq⟩ := h
    cases eq
    have early : s.stage ≠ .serving := by
      rw [fresh]
      intro eq
      cases eq
    refine ⟨⟨by simp, by simp, fun _ => kept.live early, fun _ => kept.quiet early⟩,
      ⟨fun serving => absurd serving early, fun h => h⟩, fun j apart =>
      ⟨rfl, Function.update_of_ne apart _ _, ?_⟩,
      startup_holding valid ⟨Function.update_self _ _ _, rfl, kept.fresh fresh⟩⟩
    intro recovering
    cases recovering.symm.trans fresh
  | serve ref wake =>
    simp only [begin, Option.bind_eq_some_iff, Option.ite_none_right_eq_some] at h
    obtain ⟨svc, at_ref, ready, eq⟩ := h
    cases eq
    have before (j : Nat) (cmd : Command) (eq : wake = .command j cmd) : svc.Takes j cmd := by
      subst eq
      exact .inl (of_decide_eq_true ready)
    refine ⟨⟨kept.served, kept.fresh, kept.live, fun early k x j cmd here takes => ?_⟩,
      ⟨fun h => h, fun h => h⟩, fun j apart => ⟨rfl, Function.update_of_ne apart _ _,
        fun h => ⟨h, rfl⟩⟩, pass_spares fun j cmd eq => ?_⟩
    · by_cases same : k = ref
      · subst same
        simp only [Manager.setService, Function.update_self, Option.some.injEq] at here
        subst here
        simp only [Service.Takes, reduceCtorEq, Phase.busy.injEq, false_or] at takes
        obtain ⟨_, -, eq⟩ := takes
        exact kept.quiet early k svc j cmd at_ref (before j cmd eq)
      · exact kept.quiet early k x j cmd ((Function.update_of_ne same _ _).symm.trans here) takes
    · by_contra early
      exact kept.quiet early ref svc j cmd at_ref (before j cmd eq)
  | create | stop | remove | reconcileDisk | checkLiveness =>
    simp only [begin, Option.ite_none_right_eq_some] at h
    obtain ⟨serving, eq⟩ := h
    obtain ⟨kept', carries, awaits⟩ := request serving (Option.some.inj eq).symm
    exact ⟨kept', carries, awaits, request_spares other (by simp) (by simp) (carries.stage serving)⟩

theorem happen_spares {x : Event} (kept : Kept id s) (met : outlives id x s = true) :
    Kept id (happen x s) ∧ Carries id s (happen x s) ∧ ∀ j, Awaits id j s (happen x s) := by
  cases x with
  | restart => cases met
  | vmExit k =>
    refine ⟨⟨kept.served, kept.fresh, fun early after => ?_, kept.quiet⟩, ⟨fun h => h, fun h => h⟩,
      fun j => ⟨rfl, rfl, fun h => ⟨h, rfl⟩⟩⟩
    have free : s.tracks id = false := after
    have other : id ≠ k := by
      rintro rfl
      simp [outlives, free] at met
    simpa [happen, Manager.remnant, other] using kept.live early free
  | cancel | setCapacity _ | takeEvent =>
    exact ⟨⟨kept.served, kept.fresh, kept.live, kept.quiet⟩, ⟨fun h => h, fun h => h⟩,
      fun j => ⟨rfl, rfl, fun h => ⟨h, rfl⟩⟩⟩

theorem sparing_disciplined [Uuid] (valid : Host.isSandboxID id = true) :
    (sparing id).Disciplined (restartSpec id) fun _ _ _ _ => True where
  sound := restartSpec_sound id
  start i k s t kept started := by
    simp only [sparing, Option.ite_none_left_eq_some] at started
    exact begin_spares valid started.1 kept started.2
  ext x s t kept met happened := by
    cases happened
    exact happen_spares kept met

end Serving

def entries (s : Manager) : List InventoryEntry := s.snapshot.map fun p => ⟨p.1, p.2⟩

section Restarted
variable {id : SandboxID} {s t u : State}

theorem isSpace_isHex : ∀ c ∈ "0123456789abcdefABCDEF".toList, isSpace c = false := by
  simp [isSpace]

theorem trimSpace_sandboxID [Uuid] (valid : Host.isSandboxID id = true) : trimSpace id = id := by
  refine trimSpace_plain fun c mem => ?_
  obtain rfl | hex := Host.sandboxID_char valid mem
  · decide
  · exact isSpace_isHex c (of_decide_eq_true hex)

theorem tracked_listed [Uuid] (valid : Host.isSandboxID id = true) {s : Manager}
    (tracked : s.tracks id = true) :
    id ∈ (EventGRPCServer.inventoryFromEntries (entries s)).ids := by
  obtain ⟨entry, found⟩ := Option.isSome_iff_exists.1 tracked
  refine ((EventGRPCServer.inventoryFromEntries_classified _).ids id).2 ⟨?_, ⟨id, entry.state⟩, ?_,
    trimSpace_sandboxID valid⟩
  · rintro rfl
    exact absurd (Host.isSandboxID_grouped valid).1 (by decide)
  · have row := (Table.get?_eq_some_iff _ _ _).1 found
    exact List.mem_map_of_mem (List.mem_map_of_mem row)

theorem ended_wp [Uuid] {s : Manager} {i : Nat} (ended : s.born i ≠ s.process)
    (p : M (Option Err)) : WP exec (restartSpec id) i (fun _ _ => True) p s := by
  cases p with
  | ret a => exact .ret trivial
  | call c f =>
    have still {t : Manager} (rely : (restartSpec id).Rely i s t) : t.born i ≠ t.process := by
      rw [rely.2.born, rely.2.process]
      exact ended
    exact .call (fun t _ rely current => absurd current (still rely)) fun t e a u _ rely _ ran _ =>
      absurd (exec_eq_some ran).1 (still rely)

theorem restart_safe [Uuid] {host : Table SandboxID Remnant}
    (before : system.Reaches (System.init (booting host)) u)
    (starts : system.step u (.ext .restart) = some s) (dir : (s.shared.remnant id).dir = true)
    (alive : (s.shared.remnant id).vm = true) :
    (sparing id).Safe (restartSpec id) (fun _ _ _ _ => True) s := by
  have safe := (System.safe_reaches (disciplined unassuming) unassuming_meets (fun _ _ => trivial)
    (System.safe_init (booting_sane False.elim)) before).1
  cases starts
  refine ⟨⟨nofun, fun _ => rfl, fun _ _ => ⟨dir, alive⟩, fun _ _ _ _ _ here => nomatch here⟩,
    fun i k c f _ => ended_wp ?_ _⟩
  have old := safe.inv.owned.born i
  exact Nat.ne_of_lt (Nat.lt_succ_of_le old)

/-- As long as Recover can list the disk and the sandbox's shim lives until it is
taken over: a sandbox on disk whose shim lives when a worker process starts is
in no inventory of that process's heartbeats missing, so the orchestrator does
not take it for lost, and no audit reaps it, unless it is asked to remove it. -/
theorem restart_keeps_living [Uuid] {host : Table SandboxID Remnant}
    (before : system.Reaches (System.init (booting host)) u)
    (starts : system.step u (.ext .restart) = some s) (valid : Host.isSandboxID id = true)
    (dir : (s.shared.remnant id).dir = true) (alive : (s.shared.remnant id).vm = true)
    (run : (sparing id).ReachesWhen (recoverable id) (outlives id) s t) :
    (t.shared.stage = .serving → ∀ now workerID first db,
      id ∉ (SandboxRepository.reconcileInventory now
      workerID first (EventGRPCServer.inventoryFromEntries (entries t.shared)) db).1.lost) ∧
    ∀ i op, ¬ At t i (.reap id op) := by
  have safe := (System.safe_reachesIf (sparing_disciplined valid)
    (restart_safe before starts dir alive) run).1
  refine ⟨fun serving now workerID first db mem => ?_, fun i op acts => ?_⟩
  · exact SandboxRepository.lost_unlisted mem (tracked_listed valid (safe.inv.served serving))
  · obtain ⟨current, k, f, thread⟩ := acts
    exact System.safe_pre (sparing_disciplined valid) safe thread current rfl

end Restarted

section Examples
open Orchestrator (firstID firstHello firstCreated firstStarted)

def oneLive : Table SandboxID Remnant :=
  ⟨[(firstID, ⟨true, true, false, true⟩)], List.nodup_singleton _⟩

def takenOver : List (Action Kind Env Event) :=
  -- Recover takes the sandbox over and the worker serves; then it audits its disk
  .spawn .startup :: List.replicate 5 (.call 0 {}) ++
    [.spawn .reconcileDisk, .call 1 {}, .call 1 {}]

open Uuid.Standard in
theorem restart_keeps_living_audited : ∃ s t, system.step (System.init (booting oneLive))
    (.ext .restart) = some s ∧
    (sparing firstID).ReachesWhen (recoverable firstID) (outlives firstID) s t ∧
    t.shared.stage = .serving ∧
    (∀ now workerID first db, firstID ∉ (SandboxRepository.reconcileInventory now workerID first
      (EventGRPCServer.inventoryFromEntries (entries t.shared)) db).1.lost) ∧
    ∀ i op, ¬ At t i (.reap firstID op) := by
  have run : ((system.step (System.init (booting oneLive)) (.ext .restart)).bind fun s =>
      ((sparing firstID).runIf (recoverable firstID) (outlives firstID) s takenOver).map fun t =>
        (s.shared.remnant firstID, t.shared.stage)) =
            some (⟨true, true, false, true⟩, .serving) := by
    decide +kernel
  simp only [Option.bind_eq_some_iff, Option.map_eq_some_iff, Prod.mk.injEq] at run
  obtain ⟨s, hs, t, ht, left, serving⟩ := run
  have reached := System.reachesWhen_of_runIf ht
  have kept := restart_keeps_living .refl hs (by decide +kernel) (congrArg Remnant.dir left)
    (congrArg Remnant.vm left) reached
  exact ⟨s, t, hs, reached, serving, kept.1 serving, kept.2⟩

def unlisted : List (Action Kind Env Event) :=
  -- Recover cannot list the disk, and the worker serves all the same
  [.spawn .startup, .call 0 { fault := .err "input/output error" }, .call 0 {}]

def registeredAnew : List (Action Orchestrator.Kind Fire2.Env Empty) :=
  -- the sandbox runs, and its worker registers anew
  firstCreated ++ firstStarted ++ [.spawn (.registerWorker firstHello), .call 3 {},
    .call 3 { now := 10 }]

open Uuid.Standard in
theorem living_lost_and_reaped : ∃ s t u o r,
    system.step (System.init (booting oneLive)) (.ext .restart) = some s ∧ system.Reaches s t ∧
    t.shared.stage = .serving ∧ Orchestrator.system.Reaches Orchestrator.initial o ∧
    o.shared.db.sandbox? firstID = some r ∧ (r.status, r.workerID) = (.running, some "worker-1") ∧
    (WorkerRepository.claimInventory "worker-1" 2 o.shared.db).1 = true ∧
    firstID ∈ (SandboxRepository.reconcileInventory 20 "worker-1" true
      (EventGRPCServer.inventoryFromEntries (entries t.shared)) o.shared.db).1.lost ∧
    system.Reaches t u ∧ At u 1 (.reap firstID .kill) ∧ (u.shared.remnant firstID).vm = true := by
  have started : ((system.step (System.init (booting oneLive)) (.ext .restart)).bind fun s =>
      (system.run s unlisted).bind fun t =>
        (system.run t [.spawn .reconcileDisk, .call 1 {}, .call 1 {}]).map fun u =>
          (t.shared.stage, entries t.shared, pending u 1,
            (u.shared.remnant firstID).vm && decide (u.shared.born 1 = u.shared.process))) =
      some (.serving, [], some (.reconcileDisk, .reap firstID .kill), true) := by
    decide +kernel
  have recorded : (Orchestrator.system.run Orchestrator.initial registeredAnew).bind (fun o =>
      (o.shared.db.sandbox? firstID).map fun r => ((r.status, r.workerID),
        (WorkerRepository.claimInventory "worker-1" 2 o.shared.db).1,
        (SandboxRepository.reconcileInventory 20 "worker-1" true
          (EventGRPCServer.inventoryFromEntries []) o.shared.db).1.lost)) =
      some ((.running, some "worker-1"), true, [firstID]) := by
    decide +kernel
  simp only [Option.bind_eq_some_iff, Option.map_eq_some_iff, Prod.mk.injEq, Bool.and_eq_true,
    decide_eq_true_eq] at started recorded
  obtain ⟨s, hs, t, ht, u, hu, serving, empty, asks, alive, current⟩ := started
  obtain ⟨o, ho, r, row, status, first, lost⟩ := recorded
  obtain ⟨f, thread⟩ := pending_eq_some asks
  refine ⟨s, t, u, o, r, hs, System.reaches_of_run ht, serving, System.reaches_of_run ho, row,
    Prod.ext status.1 status.2, first, ?_, System.reaches_of_run hu, ⟨current, _, f, thread⟩, alive⟩
  rw [empty, lost]
  exact List.mem_singleton_self _

end Examples

end Fire2.SandboxMgr
