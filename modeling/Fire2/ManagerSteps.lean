import Fire2.Ownership

/-! Every step of a worker keeps to the specification: the sections under the
Manager's lock, the steps of a Service, the operations on the host, the start
of a thread and what happens to the process from outside. -/

namespace Fire2.SandboxMgr
open Interleaving

section Maps
variable {A : Assume} {i : Nat} {s : Manager} {id : SandboxID} {ref : Ref}

theorem svcOf_eq_none {k : SandboxID} : s.svcOf k = none ↔ s.services.get? k = none := by
  simp [Manager.svcOf]

theorem Owned.inactive (h : Owned s) (free : s.svcOf id = none) (free' : s.deleting.get? id = none)
    {svc : Service} (at_ref : s.heap ref = some svc) (same : svc.id = id) : svc.active = false := by
  by_contra active
  subst same
  rcases h.held ref svc at_ref (by simpa using active) with tracked | ⟨d, found, -⟩
  · cases free.symm.trans tracked
  · cases free'.symm.trans found

theorem forget_fits [Uuid] (sane : Sane A s) (ok : may A i s (.forget id ref)) :
    Fits A i s (s.forget id ref) := by
  obtain ⟨serving, svc, at_ref, idle, bare⟩ := ok
  unfold Manager.forget
  split
  · rename_i e found
    split
    · rename_i mine
      subst mine
      have was : s.svcOf id = some e.svc := by simp [Manager.svcOf, found]
      have svcs (k : SandboxID) : Manager.svcOf { s with services := s.services.erase id } k =
          if k = id then none else s.svcOf k := by
        by_cases same : k = id <;> simp [Manager.svcOf, same]
      have held (k : SandboxID) (r : Ref)
          (h : Manager.Held { s with services := s.services.erase id } k r) : s.Held k r := by
        refine h.imp_left fun x => ?_
        rw [svcs] at x
        split at x
        · cases x
        · exact x
      have remap : Remap s { s with services := s.services.erase id } :=
        ⟨rfl, rfl, rfl, rfl, rfl, rfl, fun _ mem => mem, ⟨serving, serving⟩, held⟩
      refine remap.fits sane (fun tidy => (sane.spent tidy).remap rfl rfl)
        (fun _ _ _ _ found _ => found) (fun k r x => ?_) (fun r x at_r active => ?_)
        fun tidy k valid free free' => ?_
      · rw [svcs] at x
        split at x
        · cases x
        · exact ⟨x, (sane.owned.tracked k r x).1⟩
      · refine (sane.owned.held r x at_r active).imp_left fun tracked => ?_
        rw [svcs]
        split
        · rename_i same
          cases (same ▸ tracked).symm.trans was
          cases at_ref.symm.trans at_r
          cases idle.symm.trans active
        · exact tracked
      · by_cases same : k = id
        · exact same ▸ bare tidy (.inl was)
        · rw [svcs, if_neg same] at free
          exact (sane.clean tidy).untracked serving k valid free free'
    · exact .refl sane
  · exact .refl sane

theorem release_fits [Uuid] {confirmed : Bool} (sane : Sane A s)
    (ok : may A i s (.release id confirmed)) : Fits A i s { s with
      deleting := s.deleting.erase id
      gone := if confirmed then id :: s.gone else s.gone } := by
  obtain ⟨deletes, bare⟩ := ok
  have inactive {r : Ref} {x : Service} (at_r : s.heap r = some x) (same : x.id = id) :
      x.active = false := sane.owned.deletes_idle (same ▸ deletes) at_r
  obtain ⟨d, found, mine, -⟩ := deletes
  have serving : s.stage = .serving := by
    by_contra early
    cases (sane.owned.early early id).symm.trans found
  have remap : Remap s { s with
      deleting := s.deleting.erase id
      gone := if confirmed then id :: s.gone else s.gone } := by
    refine ⟨rfl, rfl, rfl, rfl, rfl, rfl, fun k mem => ?_, ⟨serving, serving⟩, fun k r held => ?_⟩
    · cases confirmed
      · exact mem
      · exact List.mem_cons_of_mem _ mem
    · refine held.imp_right fun deleted => ?_
      obtain ⟨d', found', took⟩ := deleted
      refine ⟨d', ?_, took⟩
      simp only [Table.get?_erase] at found'
      split at found'
      · cases found'
      · exact found'
  refine remap.fits sane (fun tidy => ?_) (fun j other k d' found' owner => ?_) (fun k r x => ?_)
    (fun r x at_r active => ?_) fun tidy k valid free free' => ?_
  · intro k mem r x at_r same active
    cases confirmed with
    | false => exact sane.spent tidy k mem r x at_r same active
    | true =>
      rcases List.mem_cons.1 mem with eq | old
      · cases (inactive at_r (same.trans eq)).symm.trans active
      · exact sane.spent tidy k old r x at_r same active
  · have apart : k ≠ id := by
      rintro rfl
      cases found.symm.trans found'
      exact other (owner.symm.trans mine)
    simp [apart, found']
  · refine ⟨x, ?_⟩
    simp only [Table.get?_erase]
    split
    · rfl
    · exact (sane.owned.tracked k r x).1
  · refine (sane.owned.held r x at_r active).imp_right fun deleted => ?_
    obtain ⟨d', found', took⟩ := deleted
    refine ⟨d', ?_, took⟩
    have apart : x.id ≠ id := fun same => by cases (inactive at_r same).symm.trans active
    simp [apart, found']
  · by_cases same : k = id
    · exact same ▸ bare tidy (same ▸ valid)
    · simp only [Table.get?_erase, same, if_false] at free'
      exact (sane.clean tidy).untracked serving k valid free free'

theorem claim_fits [Uuid] (sane : Sane A s) (serving : s.stage = .serving) :
    Fits A i s (s.claim i id).2 := by
  unfold Manager.claim
  split
  · exact .refl sane
  rename_i undeleted
  have free : s.deleting.get? id = none := by simpa [Manager.deletes] using undeleted
  split
  · rename_i absent
    have remap : Remap s { s with gone := id :: s.gone } :=
      ⟨rfl, rfl, rfl, rfl, rfl, rfl, fun _ => List.mem_cons_of_mem _, ⟨serving, serving⟩,
        fun _ _ held => held⟩
    refine remap.fits sane (fun tidy k mem r x at_r same active => ?_)
      (fun _ _ _ _ found _ => found)
      (fun k r x => ⟨x, (sane.owned.tracked k r x).1⟩) sane.owned.held
      fun tidy => (sane.clean tidy).untracked serving
    rcases List.mem_cons.1 mem with eq | old
    · have inactive := sane.owned.inactive (svcOf_eq_none.2 absent) free at_r (same.trans eq)
      cases inactive.symm.trans active
    · exact sane.spent tidy k old r x at_r same active
  · rename_i e found
    have was : s.svcOf id = some e.svc := by simp [Manager.svcOf, found]
    have svcs (k : SandboxID) : Manager.svcOf { s with
        services := s.services.erase id
        deleting := s.deleting.set id ⟨i, some e.svc⟩ } k = if k = id then none else s.svcOf k := by
      by_cases same : k = id <;> simp [Manager.svcOf, same]
    have remap : Remap s { s with
        services := s.services.erase id
        deleting := s.deleting.set id ⟨i, some e.svc⟩ } := by
      refine ⟨rfl, rfl, rfl, rfl, rfl, rfl, fun _ mem => mem,
        ⟨serving, serving⟩, fun k r held => ?_⟩
      rcases held with tracked | ⟨d, deleted, took⟩
      · rw [svcs] at tracked
        split at tracked
        · cases tracked
        · exact .inl tracked
      · simp only [Table.get?_set] at deleted
        split at deleted
        · rename_i same
          cases deleted
          exact .inl (same ▸ was.trans took)
        · exact .inr ⟨d, deleted, took⟩
    refine remap.fits sane (fun tidy => (sane.spent tidy).remap rfl rfl)
      (fun j other k d deleted _ => ?_) (fun k r x => ?_) (fun r x at_r active => ?_)
      fun tidy k valid free free' => ?_
    · have apart : k ≠ id := by
        rintro rfl
        cases free.symm.trans deleted
      simp [apart, deleted]
    · rw [svcs] at x
      split at x
      · cases x
      · rename_i apart
        exact ⟨x, by simpa [apart] using (sane.owned.tracked k r x).1⟩
    · by_cases same : x.id = id
      · have held := sane.owned.held r x at_r active
        rw [same] at held
        cases sane.owned.held_unique held (.inl was)
        exact .inr ⟨⟨i, some e.svc⟩, by simp [same], rfl⟩
      · refine (sane.owned.held r x at_r active).imp (fun tracked => ?_) fun claimed => ?_
        · rw [svcs, if_neg same]
          exact tracked
        · obtain ⟨d, deleted, took⟩ := claimed
          exact ⟨d, by simp [same, deleted], took⟩
    · by_cases same : k = id
      · simp [same] at free'
      · rw [svcs, if_neg same] at free
        simp only [Table.get?_set, same, if_false] at free'
        exact (sane.clean tidy).untracked serving k valid free free'

theorem orphan_fits [Uuid] (sane : Sane A s) (serving : s.stage = .serving)
    (untracked : s.svcOf id = none) (undeleted : s.deleting.get? id = none) :
    Fits A i s { s with deleting := s.deleting.set id ⟨i, none⟩ } := by
  have remap : Remap s { s with deleting := s.deleting.set id ⟨i, none⟩ } := by
    refine ⟨rfl, rfl, rfl, rfl, rfl, rfl, fun _ mem => mem, ⟨serving, serving⟩, fun k r held => ?_⟩
    refine held.imp_right fun claimed => ?_
    obtain ⟨d, deleted, took⟩ := claimed
    refine ⟨d, ?_, took⟩
    simp only [Table.get?_set] at deleted
    split at deleted
    · cases deleted
      cases took
    · exact deleted
  refine remap.fits sane (fun tidy => (sane.spent tidy).remap rfl rfl)
    (fun j other k d deleted _ => ?_) (fun k r x => ⟨x, ?_⟩) (fun r x at_r active => ?_)
    fun tidy k valid free free' => ?_
  · have apart : k ≠ id := by
      rintro rfl
      cases undeleted.symm.trans deleted
    simp [apart, deleted]
  · have apart : k ≠ id := by
      rintro rfl
      cases untracked.symm.trans x
    simpa [apart] using (sane.owned.tracked k r x).1
  · have apart : x.id ≠ id := fun same => by
      cases (sane.owned.inactive untracked undeleted at_r same).symm.trans active
    refine (sane.owned.held r x at_r active).imp_right fun claimed => ?_
    obtain ⟨d, deleted, took⟩ := claimed
    exact ⟨d, by simp [apart, deleted], took⟩
  · have apart : k ≠ id := by
      rintro rfl
      simp at free'
    simp only [Table.get?_set, apart, if_false] at free'
    exact (sane.clean tidy).untracked serving k valid free free'

theorem claimOrphans_fits [Uuid] {ids : List SandboxID} (sane : Sane A s)
    (serving : s.stage = .serving) : Fits A i s (s.claimOrphans i ids).2 := by
  induction ids generalizing s with
  | nil => exact .refl sane
  | cons id ids ih =>
    unfold Manager.claimOrphans
    split
    · exact ih sane serving
    · rename_i free
      simp only [Manager.tracks, Manager.deletes, Bool.or_eq_true, not_or, Bool.not_eq_true,
        Option.isSome_eq_false_iff, Option.isNone_iff_eq_none] at free
      have first := orphan_fits (i := i) sane serving (svcOf_eq_none.2 free.1) free.2
      exact first.trans (ih first.sane serving)

theorem add_fits [Uuid] {svc : Service} {state : SandboxState} (sane : Sane A s)
    (same : svc.id = id) (untracked : s.svcOf id = none) (undeleted : s.deleting.get? id = none)
    (alone : ∀ j, j ≠ i → s.stage ≠ .recovering j) (started : s.stage ≠ .fresh)
    (phase : svc.phase = .idle) (replies : svc.replies = fun _ => none) (begun : svc.begun = none)
    (used : svc.vm ≠ none → svc.creator = none) (account : A.clean → Accounts svc.vm (s.remnant id))
    (spent : A.ordered → svc.creator = none ∨ id ∉ s.gone) :
    Fits A i s { s with
      services := s.services.set id ⟨s.next, state⟩
      heap := Function.update s.heap s.next (some svc)
      next := s.next + 1 } := by
  obtain ⟨owned, clean, spent'⟩ := sane
  have old {r : Ref} {x : Service} (at_r : s.heap r = some x) :
      Function.update s.heap s.next (some svc) r = some x := by
    rw [Function.update_of_ne (Nat.ne_of_lt (owned.bound r x at_r))]
    exact at_r
  have either {r : Ref} {x : Service} (at_r : Function.update s.heap s.next (some svc) r = some x) :
      r = s.next ∧ x = svc ∨ s.heap r = some x := by
    by_cases new : r = s.next
    · subst new
      rw [Function.update_self] at at_r
      exact .inl ⟨rfl, (Option.some.inj at_r).symm⟩
    · rw [Function.update_of_ne new] at at_r
      exact .inr at_r
  generalize target : { s with
      services := s.services.set id ⟨s.next, state⟩
      heap := Function.update s.heap s.next (some svc)
      next := s.next + 1 } = t
  have heap : t.heap = Function.update s.heap s.next (some svc) := by rw [← target]
  have svcs (k : SandboxID) : t.svcOf k = if k = id then some s.next else s.svcOf k := by
    rw [← target]
    by_cases same : k = id <;> simp [Manager.svcOf, same]
  have deleting : t.deleting = s.deleting := by rw [← target]
  have remnant (k : SandboxID) : t.remnant k = s.remnant k := by rw [← target]; rfl
  have stage : t.stage = s.stage := by rw [← target]
  have held {k : SandboxID} {r : Ref} (h : t.Held k r) : s.Held k r ∨ r = s.next ∧ k = id := by
    rcases h with tracked | ⟨d, found, took⟩
    · rw [svcs] at tracked
      split at tracked
      · rename_i eq
        exact .inr ⟨(Option.some.inj tracked).symm, eq⟩
      · exact .inl (.inl tracked)
    · exact .inl (.inr ⟨d, deleting ▸ found, took⟩)
  have kept {k : SandboxID} {r : Ref} (h : s.Held k r) : t.Held k r := by
    rcases h with tracked | ⟨d, found, took⟩
    · have apart : k ≠ id := by
        rintro rfl
        cases untracked.symm.trans tracked
      exact .inl ((svcs k).trans (if_neg apart ▸ tracked))
    · exact .inr ⟨d, deleting ▸ found, took⟩
  have before {k : SandboxID} {r : Ref} {x : Service} (at_r : s.heap r = some x) (h : t.Held k r) :
      s.Held k r :=
    (held h).resolve_right fun new => Nat.ne_of_lt (owned.bound r x at_r) new.1
  have takes (j : Nat) (cmd : Command) : ¬ svc.Takes j cmd := by
    simp [Service.Takes, phase]
  have owned' : Owned t := by
    refine ⟨fun k r x => ?_, fun r x at_r active => ?_, fun r x j cmd err at_r replied => ?_,
      fun r x j cmd at_r taken => ?_, fun r x at_r => ?_, fun r x j input at_r replied => ?_,
      fun r x at_r => ?_, fun early => ?_, fun fresh => absurd (stage.symm.trans fresh) started,
      fun j => ?_⟩
    · rw [svcs] at x
      rw [deleting, heap]
      split at x
      · rename_i eq
        cases x
        exact ⟨eq ▸ undeleted, svc, Function.update_self _ _ _, same.trans eq.symm⟩
      · obtain ⟨free, y, at_r, eq⟩ := owned.tracked k r x
        exact ⟨free, y, old at_r, eq⟩
    · obtain ⟨rfl, rfl⟩ | at_r := either (heap ▸ at_r)
      · exact .inl ((svcs _).trans (if_pos same))
      · exact kept (owned.held r x at_r active)
    · obtain ⟨rfl, rfl⟩ | at_r := either (heap ▸ at_r)
      · rw [replies] at replied
        cases replied
      · exact owned.settled r x j cmd err at_r replied
    · obtain ⟨rfl, rfl⟩ | at_r := either (heap ▸ at_r)
      · exact absurd taken (takes j cmd)
      · exact stage ▸ owned.made r x j cmd at_r taken
    · obtain ⟨rfl, rfl⟩ | at_r := either (heap ▸ at_r)
      · exact fun vm made => absurd (used vm) made
      · exact owned.used r x at_r
    · obtain ⟨rfl, rfl⟩ | at_r := either (heap ▸ at_r)
      · rw [replies] at replied
        cases replied
      · rw [← target]
        exact owned.booted r x j input at_r replied
    · rw [show t.next = s.next + 1 by rw [← target]]
      obtain ⟨rfl, -⟩ | at_r := either (heap ▸ at_r)
      · exact Nat.lt_succ_self _
      · exact Nat.lt_succ_of_lt (owned.bound r x at_r)
    · exact deleting ▸ owned.early (stage ▸ early)
    · rw [← target]
      exact owned.born j
  have moves : Moves s t := by
    refine ⟨fun x => stage.trans x, fun r x at_r => ?_, fun r x at_r _ h => ?_⟩
    · exact ⟨x, heap ▸ old at_r, rfl, rfl, fun x => x⟩
    · exact ⟨before at_r h, remnant _ ▸ .refl _⟩
  refine ⟨⟨owned', fun tidy => ?_, fun tidy => ?_⟩, ?_, fun j other =>
    ?_, by rw [← target],
    by rw [← target],
    fun _ mem => by rw [← target]; exact mem, fun _ mem => by rw [← target]; exact mem⟩
  · have clean := clean tidy
    have was {r : Ref} {x : Service} (at_r : s.heap r = some x) (h : t.Held x.id r)
        (bare : s.Held x.id r → s.Bare x.id) : t.Bare x.id :=
      (remnant _).trans (bare (before at_r h))
    refine ⟨fun k => remnant k ▸ clean.marked k, fun r x at_r h => ?_,
      fun r x j input err at_r replied h => ?_, fun r x j err at_r replied h => ?_,
      fun r x j cmd at_r made began create => ?_, fun serving k valid free free' => ?_⟩
    · rw [remnant]
      obtain ⟨rfl, rfl⟩ | at_r := either (heap ▸ at_r)
      · exact same ▸ account tidy
      · exact clean.account r x at_r (before at_r h)
    · obtain ⟨rfl, rfl⟩ | at_r := either (heap ▸ at_r)
      · rw [replies] at replied
        cases replied
      · exact was at_r h (clean.failed r x j input err at_r replied)
    · obtain ⟨rfl, rfl⟩ | at_r := either (heap ▸ at_r)
      · rw [replies] at replied
        cases replied
      · exact was at_r h (clean.removed r x j err at_r replied)
    · obtain ⟨rfl, rfl⟩ | at_r := either (heap ▸ at_r)
      · cases begun.symm.trans began
      · exact clean.taken r x j cmd at_r made began create
    · rw [svcs] at free
      split at free
      · cases free
      · exact (remnant k).trans (clean.untracked (stage.symm.trans serving) k valid free
          (deleting ▸ free'))
  · intro k mem r x at_r eq active
    obtain ⟨rfl, rfl⟩ | at_r := either (heap ▸ at_r)
    · refine (spent tidy).resolve_right fun out => out ?_
      rw [← target] at mem
      exact same ▸ eq ▸ mem
    · rw [← target] at mem
      exact spent' tidy k mem r x at_r eq active
  · exact moves
  · refine ⟨fun r x wake at_r _ => ?_, fun k d found _ => deleting ▸ found,
      fun k mine => ⟨moves.deletes (fun k d found _ => deleting ▸ found) mine, remnant k ▸ .refl _⟩,
      fun recovering => absurd recovering (alone j other), fun r x at_r made => ?_⟩
    · exact ⟨heap ▸ old at_r, remnant _ ▸ .refl _⟩
    · exact ⟨x, heap ▸ old at_r, made, rfl⟩

theorem register_fits [Uuid] {input : CreateInput} (sane : Sane A s)
    (ok : may A i s (.register input)) (order : A.ordered → input.id ∉ s.gone) :
    Fits A i s (s.register i input).2 := by
  obtain ⟨serving, valid⟩ := ok
  unfold Manager.register
  split
  · exact .refl sane
  rename_i untracked
  split
  · exact .refl sane
  rename_i undeleted
  split
  · exact .refl sane
  have free : s.svcOf input.id = none := by simpa [Manager.tracks, Manager.svcOf] using untracked
  have free' : s.deleting.get? input.id = none := by simpa [Manager.deletes] using undeleted
  exact add_fits sane rfl free free' (fun j _ eq => by cases serving.symm.trans eq)
    (fun eq => by cases serving.symm.trans eq) rfl rfl rfl (fun h => absurd rfl h)
    (fun tidy => (sane.clean tidy).untracked serving input.id valid free free')
    fun tidy => .inr (order tidy)

theorem adopt_fits [Uuid] {state : SandboxState} (sane : Sane A s)
    (ok : may A i s (.adopt id state)) : Fits A i s (s.adopt id state) := by
  obtain ⟨recovering, free, -⟩ := ok
  refine add_fits sane rfl free (sane.owned.early (fun eq => nomatch recovering.symm.trans eq) id)
    (fun j other eq => other ?_) (fun eq => nomatch recovering.symm.trans eq) rfl rfl rfl
    (fun _ => rfl) (fun _ unspawned => nomatch unspawned) fun _ => .inl rfl
  have eq := recovering.symm.trans eq
  cases eq
  rfl

end Maps

section Labels
variable {A : Assume} {i : Nat} {s : Manager} {id : SandboxID} {ref : Ref} {state : SandboxState}

theorem relabel_fits [Uuid] {services : Table SandboxID Entry} (sane : Sane A s)
    (h : ∀ k, (services.get? k).map Entry.svc = s.svcOf k) : Fits A i s { s with services } :=
  Same.fits_of_host ⟨h, rfl, rfl, rfl, rfl, rfl, rfl, rfl, rfl, fun _ => .refl _⟩ sane rfl

theorem report_fits [Uuid] (sane : Sane A s) : Fits A i s (s.report ref id state).2 := by
  unfold Manager.report
  split
  · rename_i e found
    split
    · refine relabel_fits sane fun k => ?_
      by_cases same : k = id <;> simp [Manager.svcOf, same, found]
    · exact .refl sane
  · exact .refl sane

@[simp] theorem report_heap : (s.report ref id state).2.heap = s.heap := by
  unfold Manager.report
  split
  · split <;> rfl
  · rfl

@[simp] theorem report_remnant (k : SandboxID) :
    (s.report ref id state).2.remnant k = s.remnant k := by
  unfold Manager.report
  split
  · split <;> rfl
  · rfl

@[simp] theorem emit_heap : (s.emit id state).heap = s.heap := by
  unfold Manager.emit
  split <;> rfl

@[simp] theorem emit_remnant (k : SandboxID) : (s.emit id state).remnant k = s.remnant k := by
  unfold Manager.emit
  split <;> rfl

theorem markDead_fits [Uuid] (sane : Sane A s) : Fits A i s s.markDead.2 := by
  refine relabel_fits sane fun k => ?_
  simp only [Table.get?_update, Option.map_map, Manager.svcOf]
  congr 1
  funext e
  simp only [Function.comp_apply]
  split <;> rfl

theorem emit_fits [Uuid] (sane : Sane A s) : Fits A i s (s.emit id state) := by
  unfold Manager.emit
  split
  · exact Same.fits_of_host ⟨fun _ => rfl, rfl, rfl, rfl, rfl, rfl, rfl, rfl, rfl, fun _ => .refl _⟩
      sane rfl
  · exact .refl sane

theorem serveRequests_fits [Uuid] (sane : Sane A s) (ok : may A i s .serveRequests) :
    Fits A i s { s with stage := .serving } := by
  obtain ⟨recovering, bare⟩ := ok
  obtain ⟨owned, clean, spent⟩ := sane
  have none := owned.early fun eq => nomatch recovering.symm.trans eq
  have takes (r : Ref) (x : Service) (j : Nat) (cmd : Command) (at_r : s.heap r = some x) :
      ¬ x.Takes j cmd := fun taken => nomatch recovering.symm.trans
      (owned.made r x j cmd at_r taken).1
  refine ⟨⟨⟨owned.tracked, owned.held, owned.settled, ?_, owned.used, owned.booted, owned.bound,
    fun early => absurd rfl early, nofun, owned.born⟩, fun tidy => ?_, spent⟩, ?_,
    fun j other => ?_, rfl, rfl, fun _ mem => mem, fun _ mem => mem⟩
  · exact fun r x j cmd at_r taken => absurd taken (takes r x j cmd at_r)
  · exact ⟨(clean tidy).marked, (clean tidy).account, (clean tidy).failed, (clean tidy).removed,
      (clean tidy).taken, fun _ id valid free _ => bare tidy id valid free⟩
  · exact ⟨fun _ => rfl, fun _ x at_r => ⟨x, at_r, rfl, rfl, fun x => x⟩,
      fun _ _ _ _ h => ⟨h, .refl _⟩⟩
  · refine ⟨fun _ _ _ at_r _ => ⟨at_r, .refl _⟩, fun _ _ found _ => found,
      fun _ mine => ⟨mine, .refl _⟩, fun eq => ?_, fun _ x at_r made => ⟨x, at_r, made, rfl⟩⟩
    have eq := recovering.symm.trans eq
    cases eq
    exact absurd rfl other

end Labels

section Actors
variable {A : Assume} {i : Nat} {s : Manager} {ref : Ref} {svc svc' : Service} {wake : Wake}

theorem setService_touch (at_ref : s.heap ref = some svc)
    (same : svc'.id = svc.id ∧ svc'.creator = svc.creator)
    (active : svc'.active = true → svc.active = true)
    (mine : ∀ j wake, svc.phase = .busy j wake → j = i)
    (begun : svc'.begun = svc.begun ∨ svc.creator = some i) :
    Touch i ref svc svc' s (s.setService ref svc') :=
  ⟨at_ref, rfl, fun _ => rfl, rfl, rfl, rfl, rfl, rfl, fun _ mem => mem,
    fun _ => .inl rfl, same, active, mine, begun⟩

theorem Touch.fits [Uuid] {t : Manager} (h : Touch i ref svc svc' s t)
    (born : t.born = s.born) (sane : Sane A s)
    (owned : Owned t) (clean : A.clean → Clean t) : Fits A i s t :=
  ⟨⟨owned, clean, fun tidy => h.spent (sane.spent tidy)⟩, h.moves sane.owned,
    fun _ other => h.leaves sane.owned other, h.process, born, h.booted, fun _ mem => h.gone ▸ mem⟩

theorem busy_unique {j : Nat} {wake' : Wake} (busy : svc.phase = .busy i wake)
    (busy' : svc.phase = .busy j wake') : j = i ∧ wake' = wake := by
  have eq := busy'.symm.trans busy
  cases eq
  exact ⟨rfl, rfl⟩

theorem Owned.unsettled (h : Owned s) (at_ref : s.heap ref = some svc) (active : svc.active = true)
    {j : Nat} {cmd : Command} {err : Option Err} (exits : Service.exits cmd err = true) :
    svc.replies (j, cmd) ≠ some err := fun replied => by
  cases (h.settled ref svc j cmd err at_ref replied exits).symm.trans active

theorem field_fits [Uuid] (sane : Sane A s) (at_ref : s.heap ref = some svc)
    (busy : svc.phase = .busy i wake) (same : svc'.id = svc.id ∧ svc'.creator = svc.creator)
    (phase : svc'.phase = svc.phase) (replies : svc'.replies = svc.replies) (vm : svc'.vm = svc.vm)
    (begun : svc'.begun = svc.begun) : Fits A i s (s.setService ref svc') := by
  have active : svc'.active = svc.active := by simp [Service.active, phase]
  have takes (j : Nat) (cmd : Command) : svc'.Takes j cmd ↔ svc.Takes j cmd := by
    simp [Service.Takes, phase]
  have touch : Touch i ref svc svc' s (s.setService ref svc') :=
    setService_touch at_ref same (fun x => active ▸ x)
      (fun _ _ x => (busy_unique busy x).1) (.inl begun)
  obtain ⟨owned, clean, -⟩ := id sane
  refine touch.fits rfl sane (touch.owned owned.born owned ?_ ?_ ?_ ?_) fun tidy =>
    touch.clean owned (clean tidy) ((clean tidy).marked _) ?_ ?_ ?_ ?_
  · rw [replies, active]
    exact fun j cmd err => owned.settled ref svc j cmd err at_ref
  · intro j cmd taken
    rw [same.2, begun, phase, vm]
    exact owned.made ref svc j cmd at_ref ((takes j cmd).1 taken)
  · rw [vm, same.2, begun]
    exact owned.used ref svc at_ref
  · rw [replies, same.1]
    exact fun j input => owned.booted ref svc j input at_ref
  · exact fun held => vm ▸ (clean tidy).account ref svc at_ref held
  · exact fun j input err replied =>
      (clean tidy).failed ref svc j input err at_ref (replies ▸ replied)
  · exact fun j err replied => (clean tidy).removed ref svc j err at_ref (replies ▸ replied)
  · intro j cmd made began create
    rw [takes, replies]
    exact (clean tidy).taken ref svc j cmd at_ref (same.2 ▸ made) (begun ▸ began) create

theorem phase_fits [Uuid] {phase : Phase} (sane : Sane A s)
    (touch : Touch i ref svc { svc with phase } s (s.setService ref { svc with phase }))
    (free : ∀ j cmd, ¬ ({ svc with phase } : Service).Takes j cmd)
    (settled : ∀ j cmd err, svc.replies (j, cmd) = some err → Service.exits cmd err = true →
      ({ svc with phase } : Service).active = false)
    (answered : A.clean → ∀ j cmd, cmd.isCreate = true →
      svc.Takes j cmd ∨ (∃ err, svc.replies (j, cmd) = some err) →
      ∃ err, svc.replies (j, cmd) = some err) :
    Fits A i s (s.setService ref { svc with phase }) := by
  have at_ref := touch.at_ref
  obtain ⟨owned, clean, -⟩ := id sane
  exact touch.fits rfl sane (touch.owned owned.born owned settled
    (fun j cmd taken => absurd taken (free j cmd)) (owned.used ref svc at_ref)
    fun j input => owned.booted ref svc j input at_ref) fun tidy =>
    touch.clean owned (clean tidy) ((clean tidy).marked _) ((clean tidy).account ref svc at_ref)
      (fun j input err => (clean tidy).failed ref svc j input err at_ref)
      (fun j err => (clean tidy).removed ref svc j err at_ref) fun j cmd made began create =>
      .inr (answered tidy j cmd create ((clean tidy).taken ref svc j cmd at_ref made began create))

theorem resume_fits [Uuid] (sane : Sane A s) (ok : may A i s (.resume ref))
    (at_ref : s.heap ref = some svc) :
    Fits A i s (s.setService ref { svc with phase := .idle }) := by
  obtain ⟨_, wake, ⟨at_ref', busy⟩, replied⟩ := ok
  cases at_ref'.symm.trans at_ref
  refine phase_fits sane (setService_touch at_ref ⟨rfl, rfl⟩ (fun _ => active_of_busy busy)
    (fun _ _ x => (busy_unique busy x).1) (.inl rfl)) ?_ (fun j cmd err x exits => ?_)
    fun tidy j cmd create taken => ?_
  · rintro j cmd (taken | ⟨k, taken⟩) <;> cases taken
  · exact absurd x (sane.owned.unsettled at_ref (active_of_busy busy) exits)
  · rcases taken with (taken | ⟨k, taken⟩) | done
    · cases busy.symm.trans taken
    · exact replied tidy j cmd (busy_unique busy taken).2.symm create
    · exact done

theorem close_fits [Uuid] (sane : Sane A s) (ok : may A i s (.close ref))
    (at_ref : s.heap ref = some svc) :
    Fits A i s (s.setService ref { svc with phase := .closed }) := by
  obtain ⟨_, at_ref', state⟩ := ok
  cases at_ref'.symm.trans at_ref
  have mine (j : Nat) (wake : Wake) (busy : svc.phase = .busy j wake) : j = i := by
    rcases state with idle | ⟨wake', busy', -⟩
    · cases idle.symm.trans (active_of_busy busy)
    · exact (busy_unique busy' busy).1
  refine phase_fits sane (setService_touch at_ref ⟨rfl, rfl⟩
    (fun x => by simp [Service.active] at x) mine (.inl rfl)) ?_
    (fun j cmd err x exits => by simp [Service.active])
    fun tidy j cmd create taken => taken.resolve_left fun taken => ?_
  · rintro j cmd (taken | ⟨k, taken⟩) <;> cases taken
  · rcases state with idle | ⟨wake, busy, other⟩
    · rcases taken with taken | ⟨k, taken⟩ <;> simp [Service.active, taken] at idle
    · rcases taken with taken | ⟨k, taken⟩
      · cases busy.symm.trans taken
      · cases (other tidy j cmd (busy_unique busy taken).2.symm).symm.trans create

theorem offer_fits [Uuid] {cmd : Command} (sane : Sane A s) (ok : may A i s (.offer ref cmd))
    (at_ref : s.heap ref = some svc) (idle : svc.phase = .idle) :
    Fits A i s (s.setService ref { svc with
      phase := .offered i cmd, begun := if cmd.isCreate then some cmd else svc.begun }) := by
  obtain ⟨serving, _, at_ref', mine⟩ := ok
  cases at_ref'.symm.trans at_ref
  obtain ⟨owned, clean, -⟩ := id sane
  have active : svc.active = true := by simp [Service.active, idle]
  have touch : Touch i ref svc { svc with
      phase := .offered i cmd, begun := if cmd.isCreate then some cmd else svc.begun } s
      (s.setService ref { svc with
        phase := .offered i cmd, begun := if cmd.isCreate then some cmd else svc.begun }) := by
    refine setService_touch at_ref ⟨rfl, rfl⟩ (fun _ => active) (fun j wake busy => ?_) ?_
    · cases idle.symm.trans busy
    · dsimp only
      split
      · rename_i create
        exact .inr (mine create).1
      · exact .inl rfl
  refine touch.fits rfl sane (touch.owned owned.born owned (fun j cmd' err x exits => ?_)
    (fun j cmd' taken => ⟨serving, fun create => ?_⟩) (fun vm made => ?_)
    fun j input => owned.booted ref svc j input at_ref) fun tidy =>
    touch.clean owned (clean tidy) ((clean tidy).marked _) ((clean tidy).account ref svc at_ref)
      (fun j input err => (clean tidy).failed ref svc j input err at_ref)
      (fun j err => (clean tidy).removed ref svc j err at_ref) fun j cmd' made began create => ?_
  · exact absurd x (owned.unsettled at_ref active exits)
  · rcases taken with taken | ⟨k, taken⟩
    · cases taken
      refine ⟨(mine create).1, if_pos create, fun _ => ?_⟩
      by_contra made
      exact owned.used ref svc at_ref made (by simp [(mine create).1]) (mine create).2
    · cases taken
  · dsimp only
    split
    · intro eq
      cases eq
    · exact owned.used ref svc at_ref vm made
  · dsimp only at began
    split at began
    · rename_i create
      cases began
      cases (mine create).1.symm.trans made
      exact .inl (.inl rfl)
    · rcases (clean tidy).taken ref svc j cmd' at_ref made began
        create with (taken | ⟨k, taken⟩) | done
      · cases idle.symm.trans taken
      · cases idle.symm.trans taken
      · exact .inr done

theorem reply_fits [Uuid] {sender : Nat} {cmd : Command} {err : Option Err}
    {exit : Bool} (sane : Sane A s) (ok : may A i s (.reply ref sender cmd err exit))
    (at_ref : s.heap ref = some svc) : Fits A i s (s.setService ref { svc with
      replies := Function.update svc.replies (sender, cmd) (some err)
      phase := if exit then .exiting else svc.phase }) := by
  obtain ⟨rfl, _, ⟨at_ref', busy⟩, up, bare⟩ := ok
  cases at_ref'.symm.trans at_ref
  obtain ⟨owned, clean, -⟩ := id sane
  generalize new : { svc with
      replies := Function.update svc.replies (sender, cmd) (some err)
      phase := if Service.exits cmd err then Phase.exiting else svc.phase } = svc'
  have replied {j : Nat} {cmd' : Command} {err' : Option Err}
    (x : svc'.replies (j, cmd') = some err') :
      (j = sender ∧ cmd' = cmd ∧ err' = err) ∨ svc.replies (j, cmd') = some err' := by
    rw [← new] at x
    by_cases same : (j, cmd') = (sender, cmd)
    · rw [same] at x
      obtain ⟨rfl, rfl⟩ := Prod.mk.inj same
      simp only [Function.update_self, Option.some.injEq] at x
      exact .inl ⟨rfl, rfl, x.symm⟩
    · simp only [Function.update_of_ne same] at x
      exact .inr x
  have takes {j : Nat} {cmd' : Command} (taken : svc'.Takes j cmd') : svc.Takes j cmd' := by
    rw [← new] at taken
    simp only [Service.Takes] at taken ⊢
    split at taken
    · simp at taken
    · exact taken
  have kept : svc'.vm = svc.vm ∧ svc'.id = svc.id ∧ svc'.creator = svc.creator ∧
      svc'.begun = svc.begun := by
    simp [← new]
  obtain ⟨vm, same, made, begun⟩ := kept
  have touch : Touch i ref svc svc' s (s.setService ref svc') :=
    setService_touch at_ref ⟨same, made⟩ (fun _ => active_of_busy busy)
      (fun _ _ x => (busy_unique busy x).1) (.inl begun)
  refine touch.fits rfl sane (touch.owned owned.born owned (fun j cmd' err' x exits => ?_)
    (fun j cmd' taken => ?_) (fun used => ?_) fun j input x => ?_) fun tidy =>
    touch.clean owned (clean tidy) ((clean tidy).marked _)
      (fun held => vm ▸ (clean tidy).account ref svc at_ref held)
      (fun j input err' x held => ?_) (fun j err' x held => ?_)
      fun j cmd' creator began create => ?_
  · rcases replied x with ⟨rfl, rfl, rfl⟩ | old
    · simp [← new, Service.active, exits]
    · exact absurd old (owned.unsettled at_ref (active_of_busy busy) exits)
  · rw [made, begun]
    obtain ⟨serving, create⟩ := owned.made ref svc j cmd' at_ref (takes taken)
    refine ⟨serving, fun x => ⟨(create x).1, (create x).2.1, fun offered => ?_⟩⟩
    rw [← new] at offered
    simp only [busy] at offered
    split at offered <;> cases offered
  · rw [made, begun]
    exact owned.used ref svc at_ref (vm ▸ used)
  · rw [same]
    rcases replied x with ⟨rfl, rfl, rfl⟩ | old
    · exact up rfl rfl
    · exact owned.booted ref svc j input at_ref old
  · rcases replied x with ⟨rfl, rfl, rfl⟩ | old
    · exact bare tidy (.inl ⟨rfl, by simp⟩)
    · exact (clean tidy).failed ref svc j input err' at_ref old held
  · rcases replied x with ⟨rfl, rfl, rfl⟩ | old
    · exact bare tidy (.inr rfl)
    · exact (clean tidy).removed ref svc j err' at_ref old held
  · have answered (err' : Option Err) (x : svc.replies (j, cmd') = some err') :
        ∃ err, svc'.replies (j, cmd') = some err := by
      rw [← new]
      by_cases hit : (j, cmd') = (sender, cmd)
      · exact ⟨err, by rw [hit]; simp⟩
      · exact ⟨err', by simp only [Function.update_of_ne hit]; exact x⟩
    refine .inr ?_
    rcases (clean tidy).taken ref svc j cmd' at_ref (made ▸ creator) (begun ▸ began) create with
      (taken | ⟨k, taken⟩) | ⟨err', old⟩
    · cases busy.symm.trans taken
    · have eq := busy.symm.trans taken
      cases eq
      exact ⟨err, by simp [← new]⟩
    · exact answered err' old

end Actors

section Host
variable {A : Assume} {i : Nat} {s : Manager} {id : SandboxID} {ref : Ref} {svc : Service} {e : Env}
  {op : VMOp} {cmd : Command} {vm : Option VM} {r : Remnant}

theorem VMOp.apply_vm (ok : op.may A vm r cmd) (teardown : cmd.isCreate = false) :
    (op.apply e vm r).1 = vm := by
  cases op with
  | newVM => cases teardown.symm.trans ok.1
  | createVolume => rfl
  | spawn => cases teardown.symm.trans ok.1
  | waitRunning => rfl
  | stop => unfold VMOp.apply; dsimp only; split <;> rfl
  | removeVolume => rfl
  | removeDir => rfl

theorem Remnant.createVolume_marked (tidy : VMOp.createVolume.tidy cmd e = true)
    (dir : r.dir = true) (was : r.Marked) : (r.createVolume e).Marked where
  unleaked := by
    simp only [VMOp.tidy, Bool.and_eq_true, Bool.or_eq_true, decide_eq_true_eq,
      Bool.not_eq_true'] at tidy
    rcases tidy.2 with none | kept
    · simp [createVolume, was.unleaked, none]
    · simp [createVolume, was.unleaked, kept]
  dir _ := dir

theorem Remnant.removeVolume_marked (done : e.fault = .none) (was : r.Marked) :
    (r.removeVolume e).Marked where
  unleaked := by simp [removeVolume, was.unleaked, done]
  dir h := was.dir (h.imp_left fun x => (Bool.and_eq_true_iff.1 x).1)

theorem Remnant.marked_of_gone (volume : r.volume = false) (vm : r.vm = false) : r.Marked := by
  simp only [Remnant.volume, Bool.or_eq_false_iff] at volume
  exact ⟨volume.2, by simp [volume.1, vm]⟩

theorem VMOp.apply_marked (ok : op.may A vm r cmd) (clean : A.clean) (tidy : op.tidy cmd e = true)
    (was : r.Marked) : (op.apply e vm r).2.Marked := by
  cases op with
  | newVM =>
    unfold VMOp.apply
    cases e.fault with
    | none => exact ⟨was.unleaked, fun _ => rfl⟩
    | err _ => exact was
    | panic => exact ⟨was.unleaked, fun h => by simp [was.dir h]⟩
  | createVolume => exact Remnant.createVolume_marked tidy (ok.2.2 clean) was
  | spawn => exact ⟨was.unleaked, fun _ => ok.2.2 clean⟩
  | waitRunning => exact was
  | stop =>
    unfold VMOp.apply
    dsimp only
    split
    · exact ⟨was.unleaked, fun h => was.dir (h.imp_right fun x => (Bool.and_eq_true_iff.1 x).1)⟩
    · exact was
  | removeVolume => exact Remnant.removeVolume_marked (by simpa [VMOp.tidy] using tidy) was
  | removeDir =>
    obtain ⟨volume, vm⟩ := ok clean
    exact Remnant.marked_of_gone (r := { r with dir := _ }) volume vm

theorem Remnant.removeVolume_volume (h : (r.removeVolume e).volume = true) : r.volume = true := by
  simp only [removeVolume, Remnant.volume, Bool.or_eq_true, Bool.and_eq_true] at h ⊢
  tauto

theorem VMOp.apply_accounts (ok : op.may A vm r cmd) (tidy : op.tidy cmd e = true)
    (was : Accounts vm r) : Accounts (op.apply e vm r).1 (op.apply e vm r).2 := by
  have shrinks {r' : Remnant} (dir : r'.dir = true → r.dir = true)
      (volume : r'.volume = true → r.volume = true) (process : r'.vm = true → r.vm = true) :
      Accounts vm r' := Shrinks.accounts ⟨dir, volume, process⟩ was
  cases op with
  | newVM =>
    unfold VMOp.apply
    cases fault : e.fault with
    | none =>
      rw [ok.2] at was
      exact fun _ => by rw [show r = _ from was]
    | err _ => exact was
    | panic => simp [VMOp.tidy, fault] at tidy
  | createVolume =>
    obtain ⟨v, made⟩ := Option.ne_none_iff_exists'.1 ok.2.1
    simp only [VMOp.apply, made] at was ⊢
    exact was
  | spawn =>
    obtain ⟨v, made⟩ := Option.ne_none_iff_exists'.1 ok.2.1
    simp only [VMOp.tidy, Bool.and_eq_true, Bool.or_eq_true, decide_eq_true_eq] at tidy
    rw [made] at was ⊢
    unfold VMOp.apply
    dsimp only
    split
    · nofun
    · rename_i failed
      have none : e.took = false := by simpa using tidy.2.resolve_left failed
      exact fun unspawned => by simp [was unspawned, Env.effective, failed, none]
  | waitRunning => exact was
  | stop =>
    unfold VMOp.apply
    dsimp only
    split
    · exact shrinks (fun x => x) (fun x => x) fun x => (Bool.and_eq_true_iff.1 x).1
    · exact was
  | removeVolume => exact shrinks (fun x => x) Remnant.removeVolume_volume fun x => x
  | removeDir => exact shrinks (fun x => (Bool.and_eq_true_iff.1 x).1) (fun x => x) fun x => x

theorem remnant_set (r : Remnant) (k : SandboxID) {t : Manager} (host : t.host = s.host.set id r) :
    t.remnant k = if k = id then r else s.remnant k := by
  unfold Manager.remnant
  rw [host, Table.get?_set]
  split <;> rfl

theorem handling_of_busy {j : Nat} (at_ref : s.heap ref = some svc)
    (busy : svc.phase = .busy i (.command j cmd)) : s.handling ref = some cmd := by
  simp [Manager.handling, at_ref, busy]

theorem vm_fits [Uuid] (sane : Sane A s) (ok : may A i s (.vm ref op))
    (meets : Meets A i (.vm ref op) e s) (at_ref : s.heap ref = some svc) :
    Fits A i s { s.setService ref { svc with vm := (op.apply e svc.vm (s.remnant svc.id)).1 } with
      host := s.host.set svc.id (op.apply e svc.vm (s.remnant svc.id)).2
      booted := if op = .waitRunning ∧ e.fault = .none then svc.id :: s.booted else s.booted } := by
  obtain ⟨_, j, cmd, ⟨at_ref', busy⟩, ok⟩ := ok
  cases at_ref'.symm.trans at_ref
  obtain ⟨owned, clean, -⟩ := id sane
  generalize left : op.apply e svc.vm (s.remnant svc.id) = left'
  have active := active_of_busy busy
  have met (tidy : A.clean) : op.tidy cmd e = true := by
    simpa [SandboxMgr.tidy, handling_of_busy at_ref busy] using meets.clean tidy
  obtain ⟨serving, made⟩ := owned.made ref svc j cmd at_ref (.inr ⟨i, busy⟩)
  have touch : Touch i ref svc { svc with vm := left'.1 } s
      { s.setService ref { svc with vm := left'.1 } with
        host := s.host.set svc.id left'.2
        booted := if op = .waitRunning ∧ e.fault = .none then svc.id :: s.booted
            else s.booted } := by
    refine ⟨at_ref, rfl, fun _ => rfl, rfl, rfl, rfl, rfl, rfl, fun k mem => ?_,
      fun k => ?_, ⟨rfl, rfl⟩, fun _ => active, fun _ _ x => (busy_unique busy x).1, .inl rfl⟩
    · dsimp only
      split
      · exact List.mem_cons_of_mem _ mem
      · exact mem
    · rw [remnant_set left'.2 k rfl]
      split
      · rename_i same
        exact .inr ⟨same, active, serving⟩
      · exact .inl rfl
  have here : Manager.remnant { s.setService ref { svc with vm := left'.1 } with
      host := s.host.set svc.id left'.2
      booted := if op = .waitRunning ∧ e.fault = .none then svc.id :: s.booted
        else s.booted } svc.id =
      left'.2 := (remnant_set left'.2 svc.id rfl).trans (if_pos rfl)
  refine touch.fits rfl sane (touch.owned owned.born owned (fun k cmd' err x exits => ?_)
    (fun k cmd' taken => ?_) (fun vm creator => ?_) fun k input x => ?_) fun tidy =>
    touch.clean owned (clean tidy) ?_ (fun held => ?_) (fun k input err x _ => ?_)
      (fun k err x _ => ?_) fun k cmd' => (clean tidy).taken ref svc k cmd' at_ref
  · exact absurd x (owned.unsettled at_ref active exits)
  · obtain ⟨serving, create⟩ := owned.made ref svc k cmd' at_ref taken
    refine ⟨serving, fun x => ⟨(create x).1, (create x).2.1, fun offered => ?_⟩⟩
    cases busy.symm.trans offered
  · cases create : cmd.isCreate with
    | true => simp [(made create).2.1]
    | false =>
      rw [← left, VMOp.apply_vm ok create] at vm
      exact owned.used ref svc at_ref vm creator
  · exact touch.booted _ (owned.booted ref svc k input at_ref x)
  · rw [here, ← left]
    exact VMOp.apply_marked ok tidy (met tidy) ((clean tidy).marked _)
  · rw [here, ← left]
    exact VMOp.apply_accounts ok (met tidy) ((clean tidy).account ref svc at_ref held)
  · exact absurd x (owned.unsettled at_ref active rfl)
  · exact absurd x (owned.unsettled at_ref active rfl)

theorem ReapOp.shrinks (op : ReapOp) : Shrinks r (op.apply e r) := by
  cases op with
  | kill => exact ⟨fun h => h, fun h => h, fun h => (Bool.and_eq_true_iff.1 h).1⟩
  | removeVolume => exact ⟨fun h => h, Remnant.removeVolume_volume, fun h => h⟩
  | removeDir => exact ⟨fun h => (Bool.and_eq_true_iff.1 h).1, fun h => h, fun h => h⟩

theorem reap_fits [Uuid] {op : ReapOp} (sane : Sane A s) (ok : may A i s (.reap id op))
    (meets : Meets A i (.reap id op) e s) :
    Fits A i s { s with host := s.host.set id (op.apply e (s.remnant id)) } := by
  obtain ⟨mine, bare⟩ := ok
  have remnant (k : SandboxID) : Manager.remnant
      { s with host := s.host.set id (op.apply e (s.remnant id)) } k =
      if k = id then op.apply e (s.remnant id) else s.remnant k := remnant_set _ k rfl
  have same : Same s { s with host := s.host.set id (op.apply e (s.remnant id)) } := by
    refine ⟨fun _ => rfl, rfl, rfl, rfl, rfl, rfl, rfl, rfl, rfl, fun k => ?_⟩
    rw [remnant]
    split
    · rename_i eq
      exact eq ▸ op.shrinks
    · exact .refl _
  refine same.fits sane (fun tidy k => ?_) fun j r x wake _ at_r busy => ?_
  · rw [remnant]
    split
    · have marked := (sane.clean tidy).marked id
      cases op with
      | kill =>
        exact ⟨marked.unleaked, fun h => marked.dir
          (h.imp_right fun x => (Bool.and_eq_true_iff.1 x).1)⟩
      | removeVolume =>
        have met := meets.clean tidy
        simp only [SandboxMgr.tidy, Bool.and_eq_true, decide_eq_true_eq] at met
        exact Remnant.removeVolume_marked met.1 marked
      | removeDir =>
        obtain ⟨volume, vm⟩ := bare tidy rfl
        exact Remnant.marked_of_gone (r := { s.remnant id with dir := _ }) volume vm
    · exact (sane.clean tidy).marked k
  · have apart : x.id ≠ id := by
      rintro rfl
      rcases mine with deletes | ⟨-, -, none⟩
      · cases (sane.owned.deletes_idle deletes at_r).symm.trans (active_of_busy busy)
      · exact none r x at_r rfl
    rw [remnant, if_neg apart]
    exact .refl _

end Host

section Soundness
variable {A : Assume} {i : Nat} {s t : Manager} {c : Call} {e : Env}

theorem onService_eq_some {ref : Ref} {f : Service → Option Service} {a : Unit}
    (h : onService s ref f = some (a, t)) :
    ∃ svc svc', s.heap ref = some svc ∧ f svc = some svc' ∧ t = s.setService ref svc' := by
  simp only [onService, Option.bind_eq_some_iff, Option.map_eq_some_iff] at h
  obtain ⟨svc, at_ref, svc', made, eq⟩ := h
  cases eq
  exact ⟨svc, svc', at_ref, made, rfl⟩

theorem answered {α : Type} {p : α × Manager} {a : α} (h : p = (a, t)) : t = p.2 := by
  rw [h]

theorem claimOrphans_frame (i : Nat) (ids : List SandboxID) (s : Manager) :
    (s.claimOrphans i ids).2 = { s with deleting := (s.claimOrphans i ids).2.deleting } := by
  induction ids generalizing s with
  | nil => rfl
  | cons id ids ih =>
    unfold Manager.claimOrphans
    split
    · exact ih s
    · exact ih { s with deleting := s.deleting.set id ⟨i, none⟩ }

/-- What a call of thread `i` does to the Manager: a section under the lock, a
change of one Service or of what the host has, or nothing. -/
inductive Effect (i : Nat) (e : Env) (s : Manager) : Call → Manager → Prop
  | register (input : CreateInput) : Effect i e s (.register input) (s.register i input).2
  | forget (id : SandboxID) (ref : Ref) : Effect i e s (.forget id ref) (s.forget id ref)
  | claim (id : SandboxID) : Effect i e s (.claim id) (s.claim i id).2
  | release (id : SandboxID) (confirmed : Bool) : Effect i e s (.release id confirmed)
      { s with deleting := s.deleting.erase id, gone := if confirmed then id :: s.gone else s.gone }
  | claimOrphans (ids : List SandboxID) : Effect i e s (.claimOrphans ids) (s.claimOrphans i ids).2
  | adopt (id : SandboxID) (state : SandboxState) : Effect i e s
    (.adopt id state) (s.adopt id state)
  | report (ref : Ref) (state : SandboxState) (id : SandboxID) :
      Effect i e s (.report ref state) (s.report ref id state).2
  | markDead : Effect i e s .markDead s.markDead.2
  | emit (id : SandboxID) (state : SandboxState) : Effect i e s (.emit id state) (s.emit id state)
  | serveRequests : Effect i e s .serveRequests { s with stage := .serving }
  | service {c : Call} {ref : Ref} {svc svc' : Service} (at_ref : s.heap ref = some svc)
      (same : svc'.id = svc.id ∧ svc'.creator = svc.creator)
      (takes : ∀ j cmd, svc'.Takes j cmd → svc.Takes j cmd ∨ ∃ k d, c = .offer k d) :
      Effect i e s c (s.setService ref svc')
  | vm {ref : Ref} {svc : Service} (op : VMOp) (at_ref : s.heap ref = some svc)
    (booted : List SandboxID) :
      Effect i e s (.vm ref op)
        { s.setService ref { svc with vm := (op.apply e svc.vm (s.remnant svc.id)).1 } with
          host := s.host.set svc.id (op.apply e svc.vm (s.remnant svc.id)).2
          booted }
  | reap (id : SandboxID) (op : ReapOp) :
      Effect i e s (.reap id op) { s with host := s.host.set id (op.apply e (s.remnant id)) }
  | read (c : Call) : Effect i e s c s

theorem perform_effect [Uuid] {a : c.Answer} (h : perform i c e s = some (a, t)) :
    Effect i e s c t := by
  have service {ref : Ref} {f : Service → Option Service} {a : Unit}
    (ran : onService s ref f = some (a, t))
      (same : ∀ svc svc', f svc = some svc' → (svc'.id = svc.id ∧ svc'.creator = svc.creator) ∧
        ∀ j cmd, svc'.Takes j cmd → svc.Takes j cmd) : Effect i e s c t := by
    obtain ⟨svc, svc', at_ref, made, rfl⟩ := onService_eq_some ran
    exact .service at_ref (same svc svc' made).1 fun j cmd takes => .inl
      ((same svc svc' made).2 j cmd takes)
  have read {α β : Type} {x : Option α} {f : α → β} {a : β}
      (ran : x.map (fun r => (f r, s)) = some (a, t)) : Effect i e s c t := by
    obtain ⟨_, -, eq⟩ := Option.map_eq_some_iff.1 ran
    cases eq
    exact .read c
  cases c with
  | register input =>
    obtain rfl := answered (Option.some.inj h)
    exact .register input
  | claim id =>
    obtain rfl := answered (Option.some.inj h)
    exact .claim id
  | claimOrphans ids =>
    obtain rfl := answered (Option.some.inj h)
    exact .claimOrphans ids
  | report ref state =>
    obtain ⟨svc, -, eq⟩ := Option.map_eq_some_iff.1 h
    obtain rfl := answered eq
    exact .report ref state svc.id
  | offer ref cmd =>
    obtain ⟨svc, at_ref, h⟩ := Option.bind_eq_some_iff.1 h
    split at h <;> cases h
    · exact .service at_ref ⟨rfl, rfl⟩ fun _ _ _ => .inr ⟨ref, cmd, rfl⟩
    · exact .read _
  | await ref cmd =>
    obtain ⟨svc, -, h⟩ := Option.bind_eq_some_iff.1 h
    split at h
    · split at h <;> cases h
      exact .read _
    · exact read h
  | attach id =>
    simp only [perform] at h
    split at h
    · exact read h
    · cases h
  | vm ref op =>
    obtain ⟨svc, at_ref, eq⟩ := Option.map_eq_some_iff.1 h
    cases eq
    exact .vm op at_ref _
  | reap id op =>
    obtain ⟨_, -, eq⟩ := Option.map_eq_some_iff.1 h
    cases eq
    exact .reap id op
  | forget id ref => cases h; exact .forget id ref
  | release id confirmed => cases h; exact .release id confirmed
  | adopt id state => cases h; exact .adopt id state
  | markDead => cases h; exact .markDead
  | emit id state => cases h; exact .emit id state
  | serveRequests => cases h; exact .serveRequests
  | lookup _ => cases h; exact .read _
  | recheck _ _ | fields _ | queryVM _ | listDisk | queryState _ => exact read h
  | reply _ _ _ _ exit =>
    refine service h fun svc svc' made => ?_
    cases made
    cases exit
    · exact ⟨⟨rfl, rfl⟩, fun _ _ takes => takes⟩
    · exact ⟨⟨rfl, rfl⟩, by simp [Service.Takes]⟩
  | resume _ | close _ | setField _ _ | watch _ | unwatch _ =>
    refine service h fun svc svc' made => ?_
    cases made
    exact ⟨⟨rfl, rfl⟩, by simp [Service.Takes]⟩

theorem perform_fits [Uuid] {a : c.Answer} (sane : Sane A s) (ok : may A i s c)
    (meets : Meets A i c e s) (h : perform i c e s = some (a, t)) : Fits A i s t := by
  cases c with
  | register input =>
    obtain rfl := answered (Option.some.inj h)
    refine register_fits sane ok fun order => ?_
    simpa [ordered] using meets.ordered order
  | forget id ref => cases h; exact forget_fits sane ok
  | lookup id => cases h; exact .refl sane
  | claim id =>
    obtain rfl := answered (Option.some.inj h)
    exact claim_fits sane ok
  | release id confirmed => cases h; exact release_fits sane ok
  | claimOrphans ids =>
    obtain rfl := answered (Option.some.inj h)
    exact claimOrphans_fits sane ok
  | adopt id state => cases h; exact adopt_fits sane ok
  | report ref state =>
    obtain ⟨svc, -, eq⟩ := Option.map_eq_some_iff.1 h
    obtain rfl := answered eq
    exact report_fits sane
  | markDead => cases h; exact markDead_fits sane
  | emit id state => cases h; exact emit_fits sane
  | serveRequests => cases h; exact serveRequests_fits sane ok
  | offer ref cmd =>
    obtain ⟨svc, at_ref, h⟩ := Option.bind_eq_some_iff.1 h
    split at h
    · cases h
      exact offer_fits sane ok at_ref (by assumption)
    · cases h
      exact .refl sane
    · cases h
  | await ref cmd =>
    obtain ⟨svc, -, h⟩ := Option.bind_eq_some_iff.1 h
    split at h
    · split at h
      · cases h
        exact .refl sane
      · cases h
    · obtain ⟨_, -, eq⟩ := Option.map_eq_some_iff.1 h
      cases eq
      exact .refl sane
  | recheck ref cmd =>
    obtain ⟨_, -, eq⟩ := Option.map_eq_some_iff.1 h
    cases eq
    exact .refl sane
  | reply ref sender cmd err exit =>
    obtain ⟨svc, _, at_ref, eq, rfl⟩ := onService_eq_some h
    cases eq
    exact reply_fits sane ok at_ref
  | resume ref =>
    obtain ⟨svc, _, at_ref, eq, rfl⟩ := onService_eq_some h
    cases eq
    exact resume_fits sane ok at_ref
  | close ref =>
    obtain ⟨svc, _, at_ref, eq, rfl⟩ := onService_eq_some h
    cases eq
    exact close_fits sane ok at_ref
  | fields ref =>
    obtain ⟨_, -, eq⟩ := Option.map_eq_some_iff.1 h
    cases eq
    exact .refl sane
  | setField ref _ | watch ref | unwatch ref =>
    obtain ⟨svc, _, at_ref, eq, rfl⟩ := onService_eq_some h
    cases eq
    obtain ⟨_, wake, at_ref', busy⟩ := ok
    cases at_ref'.symm.trans at_ref
    exact field_fits sane at_ref busy ⟨rfl, rfl⟩ rfl rfl rfl rfl
  | vm ref op =>
    obtain ⟨svc, at_ref, eq⟩ := Option.map_eq_some_iff.1 h
    cases eq
    exact vm_fits sane ok meets at_ref
  | queryVM ref | listDisk =>
    obtain ⟨_, -, eq⟩ := Option.map_eq_some_iff.1 h
    cases eq
    exact .refl sane
  | attach id =>
    simp only [perform] at h
    split at h
    · obtain ⟨_, -, eq⟩ := Option.map_eq_some_iff.1 h
      cases eq
      exact .refl sane
    · cases h
  | queryState id =>
    obtain ⟨_, -, eq⟩ := Option.map_eq_some_iff.1 h
    cases eq
    exact .refl sane
  | reap id op =>
    obtain ⟨_, -, eq⟩ := Option.map_eq_some_iff.1 h
    cases eq
    exact reap_fits sane ok meets

theorem exec_eq_some [Uuid] {a : c.Answer} (h : exec i c e s = some (a, t)) :
    s.born i = s.process ∧ perform i c e s = some (a, t) := by
  unfold exec at h
  split at h
  · exact ⟨by assumption, h⟩
  · cases h

theorem Fits.evolves [Uuid] (h : Fits A i s t) : Evolves s t :=
  ⟨Nat.le_of_eq h.process.symm, h.booted, h.gone, fun _ => h.moves⟩

theorem Fits.keeps [Uuid] {j : Nat} (h : Fits A i s t) (other : j ≠ i) : Keeps j s t :=
  ⟨Nat.le_of_eq h.process.symm, congrFun h.born j, fun _ => h.leaves j other⟩

theorem spec_sound [Uuid] (A : Assume) : (spec A).Sound exec where
  evolves_refl := Evolves.refl
  evolves_trans := Evolves.trans
  keeps_refl := Keeps.refl
  keeps_trans := Keeps.trans
  step {i c e s a t} sane pre meets h := by
    obtain ⟨current, h⟩ := exec_eq_some h
    have fits := perform_fits sane (pre current) meets h
    exact ⟨fits.sane, fits.evolves, fun j other => fits.keeps other⟩

theorem born_sane [Uuid] (sane : Sane A s) :
    Sane A { s with born := Function.update s.born i s.process } := by
  obtain ⟨⟨tracked, held, settled, made, used, booted, bound, early, fresh, born⟩,
    clean, spent⟩ := sane
  refine ⟨⟨tracked, held, settled, made, used, booted, bound, early, fresh,
    fun j => ?_⟩, fun tidy => ?_, spent⟩
  · by_cases mine : j = i
    · simp [mine]
    · simpa [mine] using born j
  · obtain ⟨marked, account, failed, removed, taken, untracked⟩ := clean tidy
    exact ⟨marked, account, failed, removed, taken, untracked⟩

theorem born_evolves : Evolves s { s with born := Function.update s.born i s.process } :=
  ⟨Nat.le_refl _, fun _ h => h, fun _ h => h, fun _ => ⟨fun h => h,
    fun _ svc at_ref => ⟨svc, at_ref, rfl, rfl, fun h => h⟩, fun _ _ _ _ held => ⟨held, .refl _⟩⟩⟩

theorem born_keeps {j : Nat} (other : j ≠ i) :
    Keeps j s { s with born := Function.update s.born i s.process } :=
  ⟨Nat.le_refl _, Function.update_of_ne other _ _, fun _ =>
    ⟨fun _ _ _ at_ref _ => ⟨at_ref, .refl _⟩, fun _ _ found _ => found,
      fun _ mine => ⟨mine, .refl _⟩,
      fun h => ⟨h, fun _ => rfl, fun _ svc at_ref => ⟨svc, at_ref, rfl⟩, fun _ => .refl _⟩,
      fun _ svc at_ref made => ⟨svc, at_ref, made, rfl⟩⟩⟩

theorem serve_fits [Uuid] {ref : Ref} {svc : Service} {wake : Wake} (sane : Sane A s)
    (at_ref : s.heap ref = some svc) (ready : svc.ready s wake = true) :
    Fits A i s (s.setService ref { svc with phase := .busy i wake }) := by
  obtain ⟨owned, clean, -⟩ := id sane
  have phase : svc.phase = .idle ∨ ∃ j cmd, wake = .command j cmd ∧ svc.phase = .offered j cmd := by
    cases wake with
    | command j cmd => exact .inr ⟨j, cmd, rfl, by simpa [Service.ready] using ready⟩
    | ctxDone =>
      simp only [Service.ready, Bool.and_eq_true, decide_eq_true_eq] at ready
      exact .inl ready.1
    | exited =>
      simp only [Service.ready, Bool.and_eq_true, decide_eq_true_eq] at ready
      exact .inl ready.1.1
    | tick => exact .inl (by simpa [Service.ready] using ready)
  have active : svc.active = true := by
    rcases phase with idle | ⟨j, cmd, -, offered⟩
    · simp [Service.active, idle]
    · simp [Service.active, offered]
  have takes {j : Nat} {cmd : Command}
    (taken : Service.Takes { svc with phase := .busy i wake } j cmd) :
      svc.Takes j cmd := by
    rcases taken with taken | ⟨k, taken⟩
    · cases taken
    · cases taken
      rcases phase with idle | ⟨j', cmd', eq, offered⟩
      · simp [Service.ready, idle] at ready
      · cases eq
        exact .inl offered
  have touch : Touch i ref svc { svc with phase := .busy i wake } s
      (s.setService ref { svc with phase := .busy i wake }) := by
    refine setService_touch at_ref ⟨rfl, rfl⟩ (fun _ => active) (fun j wake' busy => ?_) (.inl rfl)
    rcases phase with idle | ⟨j', cmd', -, offered⟩
    · cases idle.symm.trans busy
    · cases offered.symm.trans busy
  refine touch.fits rfl sane (touch.owned owned.born owned (fun j cmd err x exits => ?_)
    (fun j cmd taken => ?_) (owned.used ref svc at_ref) fun j input =>
    owned.booted ref svc j input at_ref) fun tidy => touch.clean owned (clean tidy)
    ((clean tidy).marked _) ((clean tidy).account ref svc at_ref)
      (fun j input err => (clean tidy).failed ref svc j input err at_ref)
      (fun j err => (clean tidy).removed ref svc j err at_ref) fun j cmd made began create => ?_
  · exact absurd x (owned.unsettled at_ref active exits)
  · obtain ⟨serving, create⟩ := owned.made ref svc j cmd at_ref (takes taken)
    exact ⟨serving, fun x => ⟨(create x).1, (create x).2.1, by simp⟩⟩
  · refine ((clean tidy).taken ref svc j cmd at_ref made began create).imp_left fun taken => ?_
    rcases phase with idle | ⟨j', cmd', rfl, offered⟩
    · rcases taken with taken | ⟨k, taken⟩ <;> cases idle.symm.trans taken
    · rcases taken with taken | ⟨k, taken⟩
      · cases offered.symm.trans taken
        exact .inr ⟨i, rfl⟩
      · cases offered.symm.trans taken

theorem startup_fits [Uuid] (sane : Sane A s) (fresh : s.stage = .fresh) :
    Fits A i s { s with stage := .recovering i } := by
  obtain ⟨owned, clean, spent⟩ := sane
  obtain ⟨none, free⟩ := owned.fresh fresh
  have early := owned.early fun eq => nomatch fresh.symm.trans eq
  refine ⟨⟨⟨owned.tracked, owned.held, owned.settled, ?_, owned.used, owned.booted, owned.bound,
    fun _ => early, nofun, owned.born⟩, fun tidy => ?_, spent⟩, ?_, fun j other => ?_, rfl, rfl,
    fun _ mem => mem, fun _ mem => mem⟩
  · intro ref svc j cmd at_ref
    cases (none ref).symm.trans at_ref
  · exact ⟨(clean tidy).marked, (clean tidy).account, (clean tidy).failed, (clean tidy).removed,
      (clean tidy).taken, nofun⟩
  · exact ⟨fun eq => (nomatch fresh.symm.trans eq), fun _ svc at_ref =>
      ⟨svc, at_ref, rfl, rfl, fun x => x⟩, fun _ _ _ _ held => ⟨held, .refl _⟩⟩
  · exact ⟨fun _ _ _ at_ref _ => ⟨at_ref, .refl _⟩, fun _ _ found _ => found,
      fun _ mine => ⟨mine, .refl _⟩, fun eq => (nomatch fresh.symm.trans eq),
      fun _ svc at_ref made => ⟨svc, at_ref, made, rfl⟩⟩

def Begun (i : Nat) (s : Manager) : Kind → Prop
  | .startup => s.stage = .recovering i ∧ (∀ ref, s.heap ref = none) ∧ ∀ id, s.svcOf id = none
  | .serve ref wake => ∃ svc, s.Serving i ref svc wake ∧
      ∀ j cmd, wake = .command j cmd → cmd.isCreate = true → svc.vm = none
  | _ => s.stage = .serving

theorem begin_fits [Uuid] {k : Kind} (sane : Sane A s) (h : begin i k s = some t) :
    Fits A i { s with born := Function.update s.born i s.process } t ∧ Begun i t k := by
  have born : Sane A { s with born := Function.update s.born i s.process } := born_sane sane
  cases k with
  | startup =>
    simp only [begin, Option.ite_none_right_eq_some] at h
    obtain ⟨fresh, eq⟩ := h
    cases eq
    obtain ⟨none, free⟩ := sane.owned.fresh fresh
    exact ⟨startup_fits born fresh, rfl, none, free⟩
  | serve ref wake =>
    simp only [begin, Option.bind_eq_some_iff, Option.ite_none_right_eq_some] at h
    obtain ⟨svc, at_ref, ready, eq⟩ := h
    cases eq
    refine ⟨serve_fits born at_ref ready, _, ⟨Function.update_self _ _ _, rfl⟩,
      fun j cmd eq create => ?_⟩
    subst eq
    have offered : svc.phase = .offered j cmd := by simpa [Service.ready] using ready
    exact ((sane.owned.made ref svc j cmd at_ref (.inl offered)).2 create).2.2 offered
  | create _ | stop _ | remove _ | reconcileDisk | checkLiveness =>
    simp only [begin, Option.ite_none_right_eq_some] at h
    obtain ⟨serving, eq⟩ := h
    cases eq
    exact ⟨.refl born, serving⟩

theorem restart_sane [Uuid] (sane : Sane A s) : Sane A (happen .restart s) := by
  have stage : (happen .restart s).stage = .fresh := rfl
  have svcs (id : SandboxID) : (happen .restart s).svcOf id = none := rfl
  have none {P : Prop} {ref : Ref} {svc : Service}
      (h : (happen .restart s).heap ref = some svc) : P :=
    nomatch h
  refine ⟨⟨fun id ref h => ?_, fun _ _ h => none h, fun _ _ _ _ _ h => none h,
    fun _ _ _ _ h => none h, fun _ _ h => none h, fun _ _ _ _ h => none h, fun _ _ h =>
    none h, fun _ _ => rfl, fun _ => ⟨fun _ => rfl, svcs⟩, fun i => Nat.le_succ_of_le
    (sane.owned.born i)⟩, fun tidy => ⟨(sane.clean tidy).marked, fun _ _ h => none h,
    fun _ _ _ _ _ h => none h,
      fun _ _ _ _ h => none h, fun _ _ _ _ h => none h, fun serving => ?_⟩,
      fun _ _ _ _ _ h => none h⟩
  · cases (svcs id).symm.trans h
  · cases stage.symm.trans serving

theorem happen_keeps [Uuid] (x : Event) (sane : Sane A s) :
    Sane A (happen x s) ∧ Evolves s (happen x s) ∧ ∀ j, Keeps j s (happen x s) := by
  -- an event that fits whoever is taken to cause it
  have any (fits : ∀ i, Fits A i s (happen x s)) :
      Sane A (happen x s) ∧ Evolves s (happen x s) ∧ ∀ j, Keeps j s (happen x s) :=
    ⟨(fits 0).sane, (fits 0).evolves, fun j => (fits (j + 1)).keeps
      (Nat.ne_of_lt (Nat.lt_succ_self j))⟩
  cases x with
  | restart =>
    have later : s.process ≤ s.process + 1 := Nat.le_succ _
    have differs : s.process ≠ s.process + 1 := Nat.ne_of_lt (Nat.lt_succ_self _)
    exact ⟨restart_sane sane, ⟨later, fun _ h => h, fun _ h => h, fun same => absurd same differs⟩,
      fun j => ⟨later, rfl, fun same => absurd same differs⟩⟩
  | vmExit id =>
    have remnant (k : SandboxID) : (happen (.vmExit id) s).remnant k =
        if k = id then { s.remnant id with vm := false } else s.remnant k :=
      remnant_set { s.remnant id with vm := false } k rfl
    have stays (k : SandboxID) : Stays (s.remnant k) ((happen (.vmExit id) s).remnant k) := by
      rw [remnant]
      split
      · rename_i eq
        exact eq ▸ ⟨rfl, rfl, nofun⟩
      · exact .refl _
    refine any fun i => Same.fits ⟨fun _ => rfl, rfl, rfl, rfl, rfl, rfl, rfl, rfl, rfl,
      fun k => (stays k).shrinks⟩ sane (fun tidy k => ?_) fun _ _ x _ _ _ _ => stays x.id
    have marked := (sane.clean tidy).marked k
    rw [remnant]
    split
    · rename_i eq
      subst eq
      exact ⟨marked.unleaked, fun h => marked.dir (h.imp_right nofun)⟩
    · exact marked
  | cancel | setCapacity _ | takeEvent =>
    exact any fun i => Same.fits_of_host
      ⟨fun _ => rfl, rfl, rfl, rfl, rfl, rfl, rfl, rfl, rfl, fun _ => .refl _⟩ sane rfl

end Soundness
end Fire2.SandboxMgr
