import Fire2.ManagerRuns

/-! What holds of a worker in every run: who owns a sandbox there, and what the
answer of a removal proves. -/

namespace Fire2.SandboxMgr
open Interleaving

def unassuming : Assume := ⟨False, False, False⟩

theorem unassuming_meets (i : Nat) (c : Call) (e : Env) (s : Manager) : Meets unassuming i c e s :=
  ⟨False.elim, False.elim, False.elim⟩

theorem booting_sane [Uuid] {A : Assume} {host : Table SandboxID Remnant}
    (marked : A.clean → ∀ id, ((booting host).remnant id).Marked) : Sane A (booting host) := by
  have none {P : Prop} {ref : Ref} {svc : Service}
    (h : (booting host).heap ref = some svc) : P := nomatch h
  refine ⟨⟨nofun, fun _ _ h => none h, fun _ _ _ _ _ h => none h, fun _ _ _ _ h => none h,
    fun _ _ h => none h, fun _ _ _ _ h => none h, fun _ _ h => none h, fun _ _ => rfl,
    fun _ => ⟨fun _ => rfl, fun _ => rfl⟩, fun _ => Nat.le_refl 0⟩,
    fun clean => ⟨marked clean, fun _ _ h => none h, fun _ _ _ _ _ h => none h,
      fun _ _ _ _ h => none h, fun _ _ _ _ h => none h, nofun⟩, nofun⟩

section Exclusive
variable {i : Nat} {s t : Manager} {c : Call} {e : Env} {id : SandboxID}

theorem claimOrphans_deleting (ids : List SandboxID) (s : Manager) (id : SandboxID) :
    (s.claimOrphans i ids).2.deleting.get? id = s.deleting.get? id ∨ s.deleting.get? id = none ∧
      (s.claimOrphans i ids).2.deleting.get? id = some ⟨i, none⟩ := by
  induction ids generalizing s with
  | nil => exact .inl rfl
  | cons k ids ih =>
    unfold Manager.claimOrphans
    split
    · exact ih s
    rename_i free
    simp only [Manager.tracks, Manager.deletes, Bool.or_eq_true, not_or, Bool.not_eq_true,
      Option.isSome_eq_false_iff, Option.isNone_iff_eq_none] at free
    have rest := ih { s with deleting := s.deleting.set k ⟨i, none⟩ }
    by_cases same : id = k
    · subst same
      simp only [Table.get?_set, if_true] at rest
      exact .inr ⟨free.2, rest.resolve_right fun x => (by cases x.1)⟩
    · simpa [same] using rest

theorem perform_deleting [Uuid] {a : c.Answer}
    (h : perform i c e s = some (a, t)) (id : SandboxID) : t.deleting.get? id = s.deleting.get? id ∨
    (∃ confirmed, c = .release id confirmed) ∧ t.deleting.get? id = none ∨
    s.deleting.get? id = none ∧ ∃ svc, t.deleting.get? id = some ⟨i, svc⟩ := by
  cases perform_effect h with
  | register input =>
    refine .inl ?_
    unfold Manager.register
    split
    · rfl
    split
    · rfl
    split <;> rfl
  | forget k ref =>
    refine .inl ?_
    unfold Manager.forget
    split
    · split <;> rfl
    · rfl
  | claim k =>
    unfold Manager.claim
    split
    · exact .inl rfl
    rename_i undeleted
    split
    · exact .inl rfl
    by_cases eq : id = k
    · subst eq
      exact .inr (.inr ⟨by simpa [Manager.deletes] using undeleted, _,
        (Table.get?_set _ _ _ _).trans (if_pos rfl)⟩)
    · exact .inl (by simp [eq])
  | release k confirmed =>
    by_cases eq : id = k
    · subst eq
      exact .inr (.inl ⟨⟨confirmed, rfl⟩, by simp⟩)
    · exact .inl (by simp [eq])
  | claimOrphans ids =>
    exact (claimOrphans_deleting ids s id).imp_right fun claimed => .inr
      ⟨claimed.1, none, claimed.2⟩
  | report ref state k =>
    refine .inl ?_
    unfold Manager.report
    split
    · split <;> rfl
    · rfl
  | emit k state =>
    refine .inl ?_
    unfold Manager.emit
    split <;> rfl
  | adopt | markDead | serveRequests | service | vm | reap | read => exact .inl rfl

end Exclusive

def At (s : State) (i : Nat) (c : Call) : Prop :=
  s.shared.born i = s.shared.process ∧ ∃ k f, s.threads i = some ⟨k, .call c f⟩

section Runs
variable [Uuid] {A : Assume} {s t : State} {i j : Nat} {id : SandboxID} {ref ref' : Ref}
  {svc svc' : Service}

theorem At.may (safe : system.Safe (spec A) (Answers A) s) {c : Call} (h : At s i c) :
    may A i s.shared c := by
  obtain ⟨current, k, f, thread⟩ := h
  exact System.safe_pre (disciplined A) safe thread current

theorem At.serves (safe : system.Safe (spec A) (Answers A) s) {op : VMOp}
    (h : At s i (.vm ref op)) : ∃ svc wake, s.shared.Serving i ref svc wake := by
  obtain ⟨svc, k, cmd, serving, -⟩ := h.may safe
  exact ⟨svc, _, serving⟩

theorem At.reaped (safe : system.Safe (spec A) (Answers A) s) {op : ReapOp}
    (h : At s i (.reap svc.id op)) (at_ref : s.shared.heap ref = some svc) :
    svc.active = false := by
  obtain ⟨deletes | ⟨-, -, none⟩, -⟩ := h.may safe
  · exact safe.inv.owned.deletes_idle deletes at_ref
  · exact absurd rfl (none ref svc at_ref)

theorem deleting_step (safe : system.Safe (spec A) (Answers A) s) {a : Action Kind Env Event}
    (h : system.step s a = some t) (id : SandboxID) :
    t.shared.deleting.get? id = s.shared.deleting.get? id ∨ a = .ext .restart ∨
    (∃ e d confirmed, a = .call d.owner e ∧ s.shared.deleting.get? id = some d ∧
      At s d.owner (.release id confirmed) ∧ t.shared.deleting.get? id = none) ∨
    ∃ e d, a = .call d.owner e ∧ s.shared.deleting.get? id = none ∧
    t.shared.deleting.get? id = some d := by
  obtain ⟨k, v, rfl, started, rfl⟩ | ⟨i, e, k, c, f, r, v, rfl, thread, ran, rfl⟩ |
    ⟨i, th, -, -, stopped, -⟩ | ⟨x, v, rfl, happened, rfl⟩ := System.step_cases h
  · refine .inl ?_
    have started : begin s.next k s.shared = some v := started
    cases k with
    | serve ref wake =>
      simp only [begin, Option.bind_eq_some_iff, Option.ite_none_right_eq_some] at started
      obtain ⟨svc, -, -, eq⟩ := started
      cases eq
      rfl
    | startup | create _ | stop _ | remove _ | reconcileDisk | checkLiveness =>
      simp only [begin, Option.ite_none_right_eq_some] at started
      obtain ⟨-, eq⟩ := started
      cases eq
      rfl
  · obtain ⟨current, ran⟩ := exec_eq_some ran
    rcases perform_deleting ran id with same | ⟨⟨confirmed, rfl⟩, dropped⟩ | ⟨free, svc, added⟩
    · exact .inl same
    · have at_release : At s i (.release id confirmed) := ⟨current, k, f, thread⟩
      obtain ⟨⟨d, found, rfl, -⟩, -⟩ := at_release.may safe
      exact .inr (.inr (.inl ⟨e, d, confirmed, rfl, found, at_release, dropped⟩))
    · exact .inr (.inr (.inr ⟨e, ⟨i, svc⟩, rfl, free, added⟩))
  · cases stopped
  · cases happened
    cases x with
    | restart => exact .inr (.inl rfl)
    | vmExit _ | cancel | setCapacity _ | takeEvent => exact .inl rfl

/-- In every run of a worker, an ID is in one of its two maps at most. An entry of
deleting belongs to the call that added it, and only that call drops it, unless
the process ends. While a reap of an ID is under way no Service of it makes a
VM operation or will in this process, and two VM operations under way at a time
for one sandbox are of one Service and one thread. -/
theorem exclusive_ownership {host : Table SandboxID Remnant} {s : State}
    (h : system.Reaches (System.init (booting host)) s) :
    (∀ id, s.shared.tracks id = true → s.shared.deletes id = false) ∧
    (∀ a t id, system.step s a = some t →
      t.shared.deleting.get? id = s.shared.deleting.get? id ∨ a = .ext .restart ∨
      (∃ e d confirmed, a = .call d.owner e ∧ s.shared.deleting.get? id = some d ∧
        At s d.owner (.release id confirmed) ∧ t.shared.deleting.get? id = none) ∨
      ∃ e d, a = .call d.owner e ∧ s.shared.deleting.get? id = none ∧
        t.shared.deleting.get? id = some d) ∧
    (∀ i op ref svc, s.shared.heap ref = some svc → At s i (.reap svc.id op) →
      ∀ t, system.Reaches s t → t.shared.process = s.shared.process →
        ∀ j op', ¬ At t j (.vm ref op')) ∧
    ∀ i j ref ref' svc svc' op op', s.shared.heap ref = some svc → s.shared.heap ref' = some svc' →
      svc.id = svc'.id → At s i (.vm ref op) → At s j (.vm ref' op') → ref = ref' ∧ i = j := by
  have reaches {u v : State} (safe : system.Safe (spec unassuming) (Answers unassuming) u)
      (run : system.Reaches u v) : system.Safe (spec unassuming) (Answers unassuming) v ∧
      Evolves u.shared v.shared :=
    System.safe_reaches (disciplined unassuming) unassuming_meets (fun _ _ => trivial) safe run
  have safe := (reaches (System.safe_init (booting_sane False.elim)) h).1
  have owned := safe.inv.owned
  refine ⟨fun id tracked => ?_, fun a t id step => deleting_step safe step id,
    fun i op ref svc at_ref reaps t run same j op' acts => ?_,
    fun i j ref ref' svc svc' op op' at_ref at_ref' same acts acts' => ?_⟩
  · obtain ⟨entry, found⟩ := Option.isSome_iff_exists.1 tracked
    have free := (owned.tracked id entry.svc (by simp [Manager.svcOf, found])).1
    simp [Manager.deletes, free]
  · have idle := reaps.reaped safe at_ref
    obtain ⟨safe', evolves⟩ := reaches safe run
    obtain ⟨svc', at', -, -, idle'⟩ := (evolves.moves same.symm).heap ref svc at_ref
    obtain ⟨_, wake, at_ref', busy⟩ := acts.serves safe'
    cases at'.symm.trans at_ref'
    cases (idle' idle).symm.trans (active_of_busy busy)
  · obtain ⟨_, wake, at1, busy⟩ := acts.serves safe
    obtain ⟨_, wake', at2, busy'⟩ := acts'.serves safe
    cases at1.symm.trans at_ref
    cases at2.symm.trans at_ref'
    have held := owned.held ref svc at_ref (active_of_busy busy)
    have held' := owned.held ref' svc' at_ref' (active_of_busy busy')
    obtain rfl := owned.held_unique (same ▸ held) held'
    cases at_ref.symm.trans at_ref'
    exact ⟨rfl, (busy_unique busy' busy).1⟩

end Runs

section Examples

def pending (s : State) (i : Nat) : Option (Kind × Call) :=
  match s.threads i with
  | some ⟨k, .call c _⟩ => some (k, c)
  | _ => none

theorem pending_eq_some {s : State} {i : Nat} {k : Kind} {c : Call}
    (h : pending s i = some (k, c)) : ∃ f, s.threads i = some ⟨k, .call c f⟩ := by
  unfold pending at h
  split at h
  · rename_i k' c' f found
    cases h
    exact ⟨f, found⟩
  · cases h

def someInput : CreateInput := ⟨Host.someID, 1, 256⟩

def ordered1 : List (Action Kind Env Event) :=
  -- the worker has started, and a Create has handed its command over
  [.spawn .startup, .call 0 {}, .call 0 {}, .spawn (.create someInput), .call 1 {}, .call 1 {},
    .spawn (.serve 0 (.command 1 (.create someInput)))]

def panicked : List (Action Kind Env Event) :=
  -- newVM panics after it has made the directory; the audit finds it
  ordered1 ++ [.call 2 {}, .call 2 { fault := .panic, took := true }] ++
    List.replicate 5 (.call 2 {}) ++ [.call 1 { done := true }, .call 1 {}, .call 1 {},
      .spawn .reconcileDisk, .call 3 {}, .call 3 {}]

open Uuid.Standard in
theorem exclusive_ownership_panicked : ∃ s svc, system.Reaches (System.init (booting .empty)) s ∧
    s.shared.heap 0 = some svc ∧ svc.id = Host.someID ∧ At s 3 (.reap Host.someID .kill) ∧
    ∀ t, system.Reaches s t → t.shared.process = s.shared.process → ∀ j op,
    ¬ At t j (.vm 0 op) := by
  -- the audit reaps what a Service has left that will never act again
  have run : (system.run (System.init (booting .empty)) panicked).map
      (fun s => (pending s 3, s.shared.born 3 == s.shared.process,
        (s.shared.heap 0).map Service.id)) =
      some (some (.reconcileDisk, .reap Host.someID .kill), true, some Host.someID) := by
    decide +kernel
  simp only [Option.map_eq_some_iff, Prod.mk.injEq, beq_iff_eq] at run
  obtain ⟨s, hs, reaps, current, svc, at_ref, same⟩ := run
  have reached := System.reaches_of_run hs
  have reaps : At s 3 (.reap Host.someID .kill) := ⟨current, _, pending_eq_some reaps⟩
  refine ⟨s, svc, reached, at_ref, same, reaps, ?_⟩
  exact (exclusive_ownership reached).2.2.1 3 .kill 0 svc at_ref (same ▸ reaps)

end Examples

/-- In a run in which nothing is left behind, whoever is answered that a sandbox
is gone is answered so when the host has nothing of it. -/
theorem removal_proves_absence [Uuid] {host : Table SandboxID Remnant}
    (marked : ∀ id, ((booting host).remnant id).Marked) {s t : State}
    (run : system.ReachesWhen tidy (fun _ _ => true) (System.init (booting host)) s) {i : Nat}
    {e : Env} {id : SandboxID} {c : Call} {f : c.Answer → M (Option Err)} {a : Option Err}
    (asks : s.threads i = some ⟨.remove id, .call c f⟩) (tidied : tidy i c e s.shared = true)
    (step : system.step s (.call i e) = some t) (returns : t.threads i = some ⟨.remove id, .ret a⟩)
    (confirms : Manager.confirms a = true) :
    t.shared.remnant id = ⟨false, false, false, false⟩ := by
  have met {i : Nat} {c : Call} {e : Env} {v : Manager} (h : tidy i c e v = true) :
      Meets ⟨True, False, False⟩ i c e v := ⟨fun _ => h, False.elim, False.elim⟩
  have safe := (System.safe_reachesIf (disciplined ⟨True, False, False⟩)
    (System.safe_init (booting_sane fun _ => marked))
    (run.mono (fun _ _ _ _ h => met h) fun _ _ _ => trivial)).1
  have answers := System.safe_return (disciplined ⟨True, False, False⟩) safe (e := e)
      (fun k c' f' at_call => by
    cases asks.symm.trans at_call
    exact met tidied) asks step returns
  exact (answers confirms).2 trivial

section Removed

def returned (s : State) (i : Nat) : Option (Kind × Option Err) :=
  match s.threads i with
  | some ⟨k, .ret a⟩ => some (k, a)
  | _ => none

theorem returned_eq_some {s : State} {i : Nat} {k : Kind} {a : Option Err}
    (h : returned s i = some (k, a)) : s.threads i = some ⟨k, .ret a⟩ := by
  unfold returned at h
  split at h
  · rename_i k' b found
    cases h
    exact found
  · cases h

def removing : List (Action Kind Env Event) :=
  -- the sandbox has booted, and a Remove has handed its command over
  ordered1 ++ List.replicate 14 (.call 2 {}) ++
    [.call 1 {}, .spawn (.remove Host.someID), .call 3 {},
    .call 3 {}, .spawn (.serve 0 (.command 3 .remove)), .call 4 {}, .call 4 {}]

def removedTwice : List (Action Kind Env Event) :=
  -- the volume cannot be removed, and the Remove is answered with the error; the next one is
  -- answered that there is no such sandbox
  removing ++ [.call 4 { fault := .err "device busy" }, .call 4 {}, .call 4 {},
    .call 3 {}, .call 3 {}, .spawn (.remove Host.someID)]

open Uuid.Standard in
theorem absence_unproved : ∃ s t, system.Reaches (System.init (booting .empty)) s ∧
    pending s 5 = some (.remove Host.someID, .claim Host.someID) ∧
    system.step s (.call 5 {}) = some t ∧
    returned t 5 = some (.remove Host.someID,
      some (.tag (.sentinel .sandboxNotOnWorker) Host.someID)) ∧
    t.shared.remnant Host.someID = ⟨true, true, false, false⟩ := by
  have run : ((system.run (System.init (booting .empty)) removedTwice).bind fun s =>
      (system.step s (.call 5 {})).map fun t =>
        (pending s 5, returned t 5, t.shared.remnant Host.someID)) =
      some (some (.remove Host.someID, .claim Host.someID),
        some (.remove Host.someID, some (.tag (.sentinel .sandboxNotOnWorker) Host.someID)),
        ⟨true, true, false, false⟩) := by
    decide +kernel
  simp only [Option.bind_eq_some_iff, Option.map_eq_some_iff, Prod.mk.injEq] at run
  obtain ⟨s, hs, t, ht, asks, returns, left⟩ := run
  exact ⟨s, t, System.reaches_of_run hs, asks, ht, returns, left⟩

def removedOnce : List (Action Kind Env Event) :=
  -- nothing fails, and the Remove is about to be answered
  removing ++ [.call 4 {}, .call 4 {}, .call 4 {}, .call 4 {}, .call 3 {}]

open Uuid.Standard in
theorem removal_proves_absence_once : ∃ s t,
    system.ReachesWhen tidy (fun _ _ => true) (System.init (booting .empty)) s ∧
    system.step s (.call 3 {}) = some t ∧ returned t 3 = some (.remove Host.someID, none) ∧
    t.shared.remnant Host.someID = ⟨false, false, false, false⟩ := by
  have run : ((system.runIf tidy (fun _ _ => true) (System.init (booting .empty)) removedOnce).bind
      fun s =>
      (system.step s (.call 3 {})).map fun t => (pending s 3, returned t 3)) =
      some (some (.remove Host.someID, .release Host.someID true),
        some (.remove Host.someID, none)) := by
    decide +kernel
  simp only [Option.bind_eq_some_iff, Option.map_eq_some_iff, Prod.mk.injEq] at run
  obtain ⟨s, hs, t, ht, asks, returns⟩ := run
  obtain ⟨f, asks⟩ := pending_eq_some asks
  have reached := System.reachesWhen_of_runIf hs
  exact ⟨s, t, reached, ht, returns,
    removal_proves_absence (fun _ => ⟨rfl, by simp [Manager.remnant, booting]⟩) reached asks rfl ht
      (returned_eq_some returns) rfl⟩

end Removed
end Fire2.SandboxMgr
