import Fire2.ManagerCalls
import Fire2.Records

/-! The states a Manager records of its sandboxes, and the StateChanges it makes
of them.

The Service records through report, from its goroutine or from the handler of its
panic; the audit records for a Service that is gone. The Service keeps a copy of
its own: outside of a pass it is what is recorded, and within one the goroutine
knows both. A change is emitted after the lock is released, by the thread that
recorded it, which no other change of that Service can overtake. -/

namespace Fire2.StateChanges
open Interleaving SandboxMgr

/-- A Manager with the states recorded of each Service, and the StateChanges made,
whether sent or dropped. -/
structure Journal where
  manager : Manager
  records : Records Ref SandboxState SandboxID

namespace Journal

def rows (s : Journal) (ids : List SandboxID) : List (SandboxID × Ref) :=
  ids.filterMap fun id => (s.manager.svcOf id).map fun ref => (id, ref)

def note (s : Journal) (i : Nat) : (c : Call) → c.Answer → Records Ref SandboxState SandboxID
  | .register _ => fun registered =>
    match registered with
    | .fresh ref => s.records.start ref .starting
    | _ => s.records
  | .adopt _ state => fun _ => s.records.start s.manager.next state
  | .report ref state => fun told =>
    if told then s.records.record i (s.rows ((s.manager.heap ref).map Service.id).toList) state
    else s.records
  | .markDead => fun ids => s.records.record i (s.rows ids) .dead
  | .emit _ state => fun _ => s.records.report i state
  | _ => fun _ => s.records

end Journal

def exec [Uuid] : Exec Call Env Journal Call.Answer := fun i c e s =>
  (SandboxMgr.exec i c e s.manager).map fun r => (r.1, ⟨r.2, s.note i c r.1⟩)

def system [Uuid] : System Kind Call Env Event (Option Err) Journal Call.Answer where
  exec := exec
  body := body
  start i k s := (begin i k s.manager).map fun m => { s with manager := m }
  stoppable _ := false
  ext x s := some { s with manager := happen x s.manager }

abbrev State := Config Kind Call (Option Err) Journal Call.Answer

def starting (host : Table SandboxID Remnant) : Journal := ⟨booting host, .empty⟩

theorem system_observes [Uuid] : System.Observes system SandboxMgr.system Journal.manager where
  body := rfl
  stoppable := rfl
  exec i c e s := by
    simp only [system, exec, Option.map_map]
    exact Option.map_id'.symm
  start i k s := by
    simp only [system, Option.map_map]
    exact Option.map_id'.symm
  ext _ _ := rfl

def resting (svc : Service) : Bool :=
  -- the goroutine is in none of its passes, nor gone
  match svc.phase with
  | .busy _ _ | .closed => false
  | _ => true

/-- What the records say of the Manager. Whoever is still to emit a change of a
Service runs a pass of it, or has found it gone. -/
structure Told (s : Journal) : Prop where
  fresh : ∀ ref, s.manager.next ≤ ref → s.records.recorded ref = []
  tracked : ∀ id e svc, s.manager.services.get? id = some e → s.manager.heap e.svc = some svc →
    (s.records.recorded e.svc).head? = some e.state ∧ (resting svc = true → e.state = svc.state)
  owes : ∀ i ref state svc, s.records.Owes i ref state → s.manager.heap ref = some svc →
    (∃ wake, svc.phase = .busy i wake) ∨ svc.phase = .closed ∧ state = .dead
  sound : s.records.Sound

/-- What a step of thread `i` leaves of what is recorded: DEAD, the changes of the
others, and the entries of the Services they run. -/
structure Notes (i : Nat) (s t : Journal) : Prop where
  told : Told t
  final : ∀ id e e', s.manager.services.get? id = some e → t.manager.services.get? id = some e' →
    e.state = .dead → e'.state = .dead
  owed : ∀ j, j ≠ i → t.records.owed j = s.records.owed j
  entry : ∀ j, j ≠ i → ∀ ref svc wake e, s.manager.Serving j ref svc wake →
    t.manager.services.get? svc.id = some e → e.svc = ref → s.manager.services.get? svc.id = some e

section Steps
variable {i : Nat} {s : Journal} {m : Manager} {ref : Ref} {svc svc' : Service}

theorem resting_of_idle (h : svc.phase = .idle) : resting svc = true := by
  rw [resting, h]

theorem resting_of_ready {s : Manager} {wake : Wake} (h : svc.ready s wake = true) :
    resting svc = true := by
  cases wake with
  | command j cmd =>
    have offered : svc.phase = .offered j cmd := by simpa [Service.ready] using h
    rw [resting, offered]
  | ctxDone | exited | tick =>
    refine resting_of_idle ?_
    simp only [Service.ready, Bool.and_eq_true, decide_eq_true_eq] at h
    first | exact h | exact h.1 | exact h.1.1

theorem Told.clear_of_resting (told : Told s) (at_ref : s.manager.heap ref = some svc)
    (rests : resting svc = true) (j : Nat) (state : SandboxState) :
    ¬ s.records.Owes j ref state := by
  intro owes
  obtain ⟨wake, busy⟩ | ⟨gone, -⟩ := told.owes j ref state svc owes at_ref
  · simp [resting, busy] at rests
  · simp [resting, gone] at rests

theorem Told.clear_of_busy (told : Told s) {wake : Wake}
    (serving : s.manager.Serving i ref svc wake)
    (clear : ∀ state, ¬ s.records.Owes i ref state) (j : Nat) (state : SandboxState) :
    ¬ s.records.Owes j ref state := by
  intro owes
  obtain ⟨wake', busy⟩ | ⟨gone, -⟩ := told.owes j ref state svc owes serving.1
  · cases (busy_unique busy serving.2).1
    exact clear state owes
  · cases serving.2.symm.trans gone

theorem drops_notes (told : Told s) (heap : m.heap = s.manager.heap)
    (next : m.next = s.manager.next) (less : ∀ id e, m.services.get? id = some e →
      s.manager.services.get? id = some e) :
    Notes i s { s with manager := m } where
  told :=
    { fresh ref le := told.fresh ref (next ▸ le)
      tracked id e svc found at_ref := told.tracked id e svc (less id e found) (heap ▸ at_ref)
      owes j ref state svc owes at_ref := told.owes j ref state svc owes (heap ▸ at_ref)
      sound := told.sound }
  final id e e' found found' dead := by
    cases found.symm.trans (less id e' found')
    exact dead
  owed _ _ := rfl
  entry _ _ _ svc _ e _ found _ := less svc.id e found

theorem touch_notes (told : Told s) (owned : Owned s.manager)
    (at_ref : s.manager.heap ref = some svc)
    (heap : m.heap = Function.update s.manager.heap ref (some svc'))
    (next : m.next = s.manager.next) (services : m.services = s.manager.services)
    (agree : resting svc' = true →
      ∀ e, s.manager.services.get? svc.id = some e → e.svc = ref → e.state = svc'.state)
    (owes : ∀ j state, s.records.Owes j ref state →
      (∃ wake, svc'.phase = .busy j wake) ∨ svc'.phase = .closed ∧ state = .dead) :
    Notes i s { s with manager := m } where
  told :=
    { fresh ref le := told.fresh ref (next ▸ le)
      tracked id e x found at_x := by
        rw [services] at found
        rw [heap] at at_x
        by_cases same : e.svc = ref
        · subst same
          rw [Function.update_self] at at_x
          cases at_x
          obtain ⟨-, _, at_ref', rfl⟩ := owned.tracked id e.svc (by simp [Manager.svcOf, found])
          cases at_ref.symm.trans at_ref'
          exact ⟨(told.tracked _ e svc found at_ref).1, fun rests => agree rests e found rfl⟩
        · rw [Function.update_of_ne same] at at_x
          exact told.tracked id e x found at_x
      owes j k state x due at_x := by
        rw [heap] at at_x
        by_cases same : k = ref
        · subst same
          rw [Function.update_self] at at_x
          cases at_x
          exact owes j state due
        · rw [Function.update_of_ne same] at at_x
          exact told.owes j k state x due at_x
      sound := told.sound }
  final id e e' found found' dead := by
    rw [services] at found'
    cases found.symm.trans found'
    exact dead
  owed _ _ := rfl
  entry _ _ _ svc _ e _ found _ := services ▸ found

theorem field_notes (told : Told s) (owned : Owned s.manager) {wake : Wake}
    (serving : s.manager.Serving i ref svc wake)
    (heap : m.heap = Function.update s.manager.heap ref (some svc'))
    (next : m.next = s.manager.next) (services : m.services = s.manager.services)
    (phase : svc'.phase = svc.phase) : Notes i s { s with manager := m } := by
  refine touch_notes told owned serving.1 heap next services (fun rests => ?_) fun j state due => ?_
  · simp [resting, phase, serving.2] at rests
  · rw [phase]
    exact told.owes j ref state svc due serving.1

theorem add_notes (svc : Service) {id : SandboxID} (told : Told s) (owned : Owned s.manager)
    (free : s.manager.services.get? id = none)
    (heap : m.heap = Function.update s.manager.heap s.manager.next (some svc))
    (next : m.next = s.manager.next + 1)
    (services : m.services = s.manager.services.set id ⟨s.manager.next, svc.state⟩) :
    Notes i s ⟨m, s.records.start s.manager.next svc.state⟩ := by
  have blank := told.fresh s.manager.next (Nat.le_refl _)
  have unowed (j : Nat) (state : SandboxState) : ¬ s.records.Owes j s.manager.next
      state := fun owes => by
    have changes := told.sound.owing j _ state owes
    simp [blank] at changes
  have found_iff (k : SandboxID) (e : Entry) (found : m.services.get? k = some e) :
      k = id ∧ e = ⟨s.manager.next, svc.state⟩ ∨ k ≠ id ∧ s.manager.services.get? k = some e := by
    rw [services, Table.get?_set] at found
    split at found
    · rename_i same
      cases found
      exact .inl ⟨same, rfl⟩
    · rename_i other
      exact .inr ⟨other, found⟩
  have older (k : SandboxID) (e : Entry) (found : s.manager.services.get? k = some e) : e.svc ≠
      s.manager.next := by
    obtain ⟨-, old, at_old, -⟩ := owned.tracked k e.svc (by simp [Manager.svcOf, found])
    exact Nat.ne_of_lt (owned.bound e.svc old at_old)
  refine ⟨⟨fun k le => ?_, fun k e x found at_x => ?_, fun j k state x due at_x => ?_,
    told.sound.start blank⟩, fun k e e' found found' dead => ?_, fun _ _ => rfl,
    fun j _ k x wake e serving found same => ?_⟩
  · have above : s.manager.next + 1 ≤ k := next ▸ le
    simp only [Records.start, Function.update_of_ne (Nat.ne_of_gt above)]
    exact told.fresh k (Nat.le_of_lt above)
  · obtain ⟨-, rfl⟩ | ⟨-, found⟩ := found_iff k e found
    · simp only [heap, Function.update_self, Option.some.injEq] at at_x
      subst at_x
      simp [Records.start]
    · have other := older k e found
      simp only [heap, Function.update_of_ne other] at at_x
      simpa [Records.start, other] using told.tracked k e x found at_x
  · have other : k ≠ s.manager.next := by
      rintro rfl
      exact unowed j state due
    simp only [heap, Function.update_of_ne other] at at_x
    exact told.owes j k state x due at_x
  · obtain ⟨rfl, -⟩ | ⟨-, found'⟩ := found_iff k e' found'
    · cases free.symm.trans found
    · cases found.symm.trans found'
      exact dead
  · obtain ⟨-, rfl⟩ | ⟨-, found⟩ := found_iff x.id e found
    · exact absurd (owned.bound k x serving.1) (same ▸ Nat.lt_irrefl _)
    · exact found

/-- Thread `i` may record a state under an ID: the Service is the one it runs, or
is gone and found dead, and all its changes are emitted. -/
def Recordable (s : Journal) (i : Nat) (state : SandboxState) (id : SandboxID) : Prop :=
  ∃ e svc, s.manager.services.get? id = some e ∧ s.manager.heap e.svc = some svc ∧
    ((∃ wake, svc.phase = .busy i wake) ∨ svc.phase = .closed ∧ state = .dead) ∧
    e.state ≠ state ∧ e.state ≠ .dead ∧ ∀ j state', ¬ s.records.Owes j e.svc state'

theorem mem_rows {ids : List SandboxID} :
    ref ∈ (s.rows ids).map Prod.snd ↔ ∃ id ∈ ids, s.manager.svcOf id = some ref := by
  simp [Journal.rows]

theorem nodup_rows {ids : List SandboxID} (owned : Owned s.manager) (nodup : ids.Nodup) :
    ((s.rows ids).map Prod.snd).Nodup := by
  have refs : (s.rows ids).map Prod.snd = ids.filterMap s.manager.svcOf := by
    simp only [Journal.rows, List.map_filterMap, Option.map_map, Function.comp_def, Option.map_id']
  rw [refs]
  refine nodup.filterMap fun id id' ref mine mine' => ?_
  obtain ⟨-, svc, at_ref, rfl⟩ := owned.tracked id ref mine
  obtain ⟨-, svc', at_ref', rfl⟩ := owned.tracked id' ref mine'
  cases at_ref.symm.trans at_ref'
  rfl

theorem record_notes {ids : List SandboxID} {state : SandboxState} (told : Told s)
    (owned : Owned s.manager) (nodup : ids.Nodup) (recordable : ∀ id ∈ ids, Recordable s i state id)
    (heap : m.heap = s.manager.heap) (next : m.next = s.manager.next)
    (services : ∀ k, m.services.get? k =
      if k ∈ ids then (s.manager.services.get? k).map ({ · with state })
      else s.manager.services.get? k) :
    Notes i s ⟨m, s.records.record i (s.rows ids) state⟩ := by
  have svcOf {k : SandboxID} {e : Entry} (found : s.manager.services.get? k = some e) :
      s.manager.svcOf k = some e.svc := by simp [Manager.svcOf, found]
  -- a Service is tracked under one ID
  have only {k : SandboxID} {e : Entry} (found : s.manager.services.get? k = some e) :
      e.svc ∈ (s.rows ids).map Prod.snd ↔ k ∈ ids := by
    rw [mem_rows]
    refine ⟨fun row => ?_, fun mem => ⟨k, mem, svcOf found⟩⟩
    obtain ⟨id, mem, mine⟩ := row
    obtain ⟨-, svc, at_ref, rfl⟩ := owned.tracked id e.svc mine
    obtain ⟨-, svc', at_ref', rfl⟩ := owned.tracked k e.svc (svcOf found)
    cases at_ref.symm.trans at_ref'
    exact mem
  have changes : ∀ ref ∈ (s.rows ids).map Prod.snd, ∃ id ∈ ids, ∃ e svc, e.svc = ref ∧
      s.manager.services.get? id = some e ∧ s.manager.heap ref = some svc ∧
      ((∃ wake, svc.phase = .busy i wake) ∨ svc.phase = .closed ∧ state = .dead) ∧
      e.state ≠ state ∧ ∀ j state', ¬ s.records.Owes j ref state' := by
    intro ref mem
    obtain ⟨id, among, mine⟩ := mem_rows.1 mem
    obtain ⟨e, svc, found, at_ref, how, other, -, clear⟩ := recordable id among
    cases (svcOf found).symm.trans mine
    exact ⟨id, among, e, svc, rfl, found, at_ref, how, other, clear⟩
  have changed (k : SandboxID) (e' : Entry) (found : m.services.get? k = some e') :
      ∃ e, s.manager.services.get? k = some e ∧ e' = if k ∈ ids then { e with state } else e := by
    rw [services] at found
    split at found
    · rename_i mem
      obtain ⟨e, was, rfl⟩ := Option.map_eq_some_iff.1 found
      exact ⟨e, was, by rw [if_pos mem]⟩
    · rename_i out
      exact ⟨e', found, by rw [if_neg out]⟩
  refine ⟨⟨fun ref le => ?_, fun k e' svc found at_ref => ?_,
    fun j ref old svc due at_ref => ?_, ?_⟩,
    fun k e e' found found' dead => ?_, fun j other => ?_,
    fun j other ref svc wake e' serving found same => ?_⟩
  · have out : ref ∉ (s.rows ids).map Prod.snd := fun mem => by
      obtain ⟨_, -, _, svc, -, -, at_ref, -⟩ := changes ref mem
      exact Nat.not_lt.2 (next ▸ le) (owned.bound ref svc at_ref)
    simp only [Records.record, if_neg out]
    exact told.fresh ref (next ▸ le)
  · obtain ⟨e, was, rfl⟩ := changed k e' found
    by_cases mem : k ∈ ids
    · simp only [if_pos mem, heap] at at_ref ⊢
      obtain ⟨e₀, svc₀, found₀, at_ref₀, how, -⟩ := recordable k mem
      cases found₀.symm.trans was
      cases at_ref₀.symm.trans at_ref
      refine ⟨by simp only [Records.record, if_pos ((only was).2 mem), List.head?_cons],
        fun rests => ?_⟩
      obtain ⟨wake, busy⟩ | ⟨gone, -⟩ := how
      · simp [resting, busy] at rests
      · simp [resting, gone] at rests
    · simp only [if_neg mem, heap] at at_ref ⊢
      have out : e.svc ∉ (s.rows ids).map Prod.snd := fun h => mem ((only was).1 h)
      simp only [Records.record, if_neg out]
      exact told.tracked k e svc was at_ref
  · rw [heap] at at_ref
    obtain ⟨rfl, mem, rfl⟩ | due := Records.owes_record.1 due
    · obtain ⟨_, -, _, svc', -, -, at_ref', how, -⟩ := changes ref mem
      cases at_ref.symm.trans at_ref'
      exact how
    · exact told.owes j ref old svc due at_ref
  · refine told.sound.record (nodup_rows owned nodup) fun ref mem => ?_
    obtain ⟨id, -, e, svc, rfl, found, at_ref, -, other, clear⟩ := changes ref mem
    exact ⟨⟨e.state, (told.tracked id e svc found at_ref).1, other⟩, clear⟩
  · obtain ⟨e₀, found₀, rfl⟩ := changed k e' found'
    cases found.symm.trans found₀
    split
    · rename_i mem
      obtain ⟨e₁, _, found₁, -, -, -, alive, -⟩ := recordable k mem
      cases found.symm.trans found₁
      exact absurd dead alive
    · exact dead
  · exact Function.update_of_ne other _ _
  · obtain ⟨e, was, rfl⟩ := changed svc.id e' found
    split at same
    · rename_i mem
      obtain ⟨e₁, svc₁, found₁, at_ref, how, -⟩ := recordable svc.id mem
      cases was.symm.trans found₁
      subst same
      cases at_ref.symm.trans serving.1
      obtain ⟨wake', busy⟩ | ⟨gone, -⟩ := how
      · exact absurd (busy_unique serving.2 busy).1.symm other
      · cases serving.2.symm.trans gone
    · rename_i out
      rw [if_neg out]
      exact was

def tells (i : Nat) (s : Journal) : Call → Prop
  | .report ref state =>
    (∀ old, ¬ s.records.Owes i ref old) ∧ ∃ svc wake, s.manager.Serving i ref svc wake ∧
      ∀ e, s.manager.services.get? svc.id = some e → e.svc = ref → e.state ≠ state ∧ e.state ≠ .dead
  | .emit id state => ∃ ref rest, s.records.owed i = (id, ref, state) :: rest
  | .reply ref .. | .resume ref =>
    (∀ old, ¬ s.records.Owes i ref old) ∧ ∀ svc e, s.manager.heap ref = some svc →
      s.manager.services.get? svc.id = some e → e.svc = ref → e.state = svc.state
  | .close ref => ∀ old, ¬ s.records.Owes i ref old
  | _ => True

theorem report_notes {state : SandboxState} {told? : Bool} (told : Told s) (owned : Owned s.manager)
    (ok : tells i s (.report ref state))
    (ran : (s.manager.heap ref).map
      (fun svc => s.manager.report ref svc.id state) = some (told?, m)) :
    Notes i s ⟨m, s.note i (.report ref state) told?⟩ := by
  obtain ⟨clear, svc, wake, serving, changes⟩ := ok
  obtain ⟨at_ref, busy⟩ := serving
  simp only [at_ref, Option.map_some, Option.some.injEq] at ran
  unfold Manager.report at ran
  split at ran
  · rename_i e found
    split at ran
    · rename_i same
      cases ran
      have ids : ((s.manager.heap ref).map Service.id).toList = [svc.id] := by rw [at_ref]; rfl
      simp only [Journal.note, if_true, ids]
      refine record_notes told owned (List.nodup_singleton _) (fun id mem => ?_) rfl rfl fun k => ?_
      · obtain rfl := List.mem_singleton.1 mem
        have clear' := told.clear_of_busy ⟨at_ref, busy⟩ clear
        exact ⟨e, svc, found, same ▸ at_ref, .inl ⟨wake, busy⟩, (changes e found same).1,
          (changes e found same).2, same ▸ clear'⟩
      · by_cases here : k = svc.id <;> simp [here, found]
    · cases ran
      exact drops_notes told rfl rfl fun _ _ found => found
  · cases ran
    exact drops_notes told rfl rfl fun _ _ found => found

theorem mem_markDead {s : Manager} {id : SandboxID} :
    id ∈ s.markDead.1 ↔ ∃ e, s.services.get? id = some e ∧ s.overdue e = true := by
  simp only [Manager.markDead, Table.mem_select]

theorem markDead_notes (told : Told s) (owned : Owned s.manager) :
    Notes i s ⟨s.manager.markDead.2, s.note i .markDead s.manager.markDead.1⟩ := by
  have nodup : s.manager.markDead.1.Nodup :=
    Table.nodup_select s.manager.services fun _ e => s.manager.overdue e
  refine record_notes told owned nodup (fun id mem => ?_) rfl rfl fun k => ?_
  · obtain ⟨e, found, overdue⟩ := mem_markDead.1 mem
    simp only [Manager.overdue, Bool.and_eq_true, Option.any_eq_true, decide_eq_true_eq] at overdue
    obtain ⟨⟨svc, at_ref, gone⟩, alive⟩ := overdue
    refine ⟨e, svc, found, at_ref, .inr ⟨gone, rfl⟩, alive, alive, fun j state owes => ?_⟩
    -- what is owed was recorded last, and of a Service that is gone it is DEAD
    obtain ⟨w, older, recorded, -⟩ := told.sound.due owes
    have shown := (told.tracked id e svc found at_ref).1
    rw [recorded, List.head?_cons, Option.some.injEq] at shown
    obtain ⟨wake, busy⟩ | ⟨-, dead⟩ := told.owes j e.svc state svc owes at_ref
    · cases gone.symm.trans busy
    · exact alive (shown.symm.trans dead)
  · have marked : s.manager.markDead.2.services.get? k = (s.manager.services.get? k).map fun e =>
        if s.manager.overdue e then { e with state := .dead } else e := Table.get?_update _ _ k
    rw [marked]
    cases found : s.manager.services.get? k with
    | none => simp
    | some e =>
      have among : k ∈ s.manager.markDead.1 ↔ s.manager.overdue e = true := by
        simp [mem_markDead, found]
      by_cases due : s.manager.overdue e = true
      · simp [due, among.2 due]
      · have out : k ∉ s.manager.markDead.1 := fun mem => due (among.1 mem)
        simp [due, out]

theorem emit_services {s : Manager} {id : SandboxID} {state : SandboxState} :
    (s.emit id state).services = s.services := by
  unfold Manager.emit
  split <;> rfl

theorem emit_notes {id : SandboxID} {state : SandboxState} (told : Told s)
    (ok : tells i s (.emit id state)) :
    Notes i s ⟨s.manager.emit id state, s.records.report i state⟩ := by
  obtain ⟨ref, rest, next⟩ := ok
  have refs : (s.manager.emit id state).next = s.manager.next := by
    unfold Manager.emit
    split <;> rfl
  have recorded : (s.records.report i state).recorded = s.records.recorded := by
    simp [Records.report, next]
  have drops := drops_notes (i := i) told emit_heap refs fun _ _ found => emit_services ▸ found
  refine ⟨⟨fun ref le => ?_, fun k e svc found at_ref => ?_, fun j ref old svc due => ?_,
    told.sound.report next⟩, drops.final, fun j other => ?_, drops.entry⟩
  · exact recorded ▸ drops.told.fresh ref le
  · exact recorded ▸ drops.told.tracked k e svc found at_ref
  · exact drops.told.owes j ref old svc ((told.sound.owes_report next).1 due).1
  · simp [Records.report, next, other]

theorem perform_notes [Uuid] {c : Call} {e : Env} {a : c.Answer} (told : Told s)
    (owned : Owned s.manager) (ok : may unassuming i s.manager c) (ok' : tells i s c)
    (ran : perform i c e s.manager = some (a, m)) : Notes i s ⟨m, s.note i c a⟩ := by
  have same : Notes i s ⟨s.manager, s.records⟩ := drops_notes told rfl rfl fun _ _ found => found
  have read {α β : Type} {x : Option α} {f : α → β} {b : β}
      (ran : x.map (fun r => (f r, s.manager)) = some (b, m)) : Notes i s ⟨m, s.records⟩ := by
    obtain ⟨_, -, eq⟩ := Option.map_eq_some_iff.1 ran
    cases eq
    exact same
  -- a write to a field of the Service the thread runs
  have field {ref : Ref} {f : Service → Service}
      (ran : onService s.manager ref (fun svc => some (f svc)) = some ((), m))
      (serves : ∃ svc wake, s.manager.Serving i ref svc wake)
      (phase : ∀ svc, (f svc).phase = svc.phase) : Notes i s ⟨m, s.records⟩ := by
    obtain ⟨svc, wake, serving⟩ := serves
    obtain ⟨_, _, at', eq, rfl⟩ := onService_eq_some ran
    cases at'.symm.trans serving.1
    cases eq
    exact field_notes told owned serving rfl rfl rfl (phase svc)
  cases c with
  | register input =>
    have ran : s.manager.register i input = (a, m) := Option.some.inj ran
    unfold Manager.register at ran
    split at ran
    · cases ran
      exact same
    · rename_i free
      split at ran
      · cases ran
        exact same
      · split at ran
        · cases ran
          exact same
        · cases ran
          exact add_notes (newService input.id (some i)) told owned
            (by simpa [Manager.tracks] using free) rfl rfl rfl
  | adopt id state =>
    cases ran
    obtain ⟨-, free, -⟩ := ok
    exact add_notes { newService id none with vm := some ⟨true⟩, state, watched := true } told owned
      (svcOf_eq_none.1 free) rfl rfl rfl
  | report ref state => exact report_notes told owned ok' ran
  | markDead =>
    cases ran
    exact markDead_notes told owned
  | emit id state =>
    cases ran
    exact emit_notes told ok'
  | offer ref cmd =>
    obtain ⟨svc, at_ref, ran⟩ := Option.bind_eq_some_iff.1 ran
    split at ran <;> cases ran
    · rename_i idle
      have rests := resting_of_idle idle
      exact touch_notes told owned at_ref rfl rfl rfl
        (fun _ e found mine => (told.tracked svc.id e svc found (mine ▸ at_ref)).2 rests)
        fun j state owes => absurd owes (told.clear_of_resting at_ref rests j state)
    · exact same
  | reply ref sender cmd err exit =>
    obtain ⟨-, svc, serving, -⟩ := ok
    obtain ⟨_, _, at', eq, rfl⟩ := onService_eq_some ran
    cases at'.symm.trans serving.1
    cases eq
    exact touch_notes told owned serving.1 rfl rfl rfl (fun _ e found mine =>
      ok'.2 svc e serving.1 found mine) fun j state owes => absurd owes
      (told.clear_of_busy serving ok'.1 j state)
  | resume ref =>
    obtain ⟨svc, wake, serving, -⟩ := ok
    obtain ⟨_, _, at', eq, rfl⟩ := onService_eq_some ran
    cases at'.symm.trans serving.1
    cases eq
    exact touch_notes told owned serving.1 rfl rfl rfl (fun _ e found mine =>
      ok'.2 svc e serving.1 found mine) fun j state owes => absurd owes
      (told.clear_of_busy serving ok'.1 j state)
  | close ref =>
    obtain ⟨svc, at_ref, how⟩ := ok
    obtain ⟨_, _, at', eq, rfl⟩ := onService_eq_some ran
    cases at'.symm.trans at_ref
    cases eq
    refine touch_notes told owned at_ref rfl rfl rfl (fun rests => by cases rests)
      fun j state owes => .inr ⟨rfl, ?_⟩
    obtain ⟨wake, busy⟩ | ⟨-, dead⟩ := told.owes j ref state svc owes at_ref
    · obtain left | ⟨wake', busy', -⟩ := how
      · cases left.symm.trans (active_of_busy busy)
      · cases (busy_unique busy busy').1
        exact absurd owes (ok' state)
    · exact dead
  | setField ref state | watch ref | unwatch ref => exact field ran ok fun _ => rfl
  | vm ref op =>
    obtain ⟨svc, j, cmd, serving, -⟩ := ok
    obtain ⟨_, at', eq⟩ := Option.map_eq_some_iff.1 ran
    cases at'.symm.trans serving.1
    cases eq
    exact field_notes told owned serving rfl rfl rfl rfl
  | forget id ref =>
    cases ran
    unfold Manager.forget
    split
    · split
      · refine drops_notes told rfl rfl fun k e found => ?_
        simp only [Table.get?_erase, Option.ite_none_left_eq_some] at found
        exact found.2
      · exact same
    · exact same
  | claim id =>
    have ran : s.manager.claim i id = (a, m) := Option.some.inj ran
    unfold Manager.claim at ran
    split at ran
    · cases ran
      exact same
    · split at ran <;> cases ran
      · exact drops_notes told rfl rfl fun _ _ found => found
      · refine drops_notes told rfl rfl fun k e found => ?_
        simp only [Table.get?_erase, Option.ite_none_left_eq_some] at found
        exact found.2
  | claimOrphans ids =>
    obtain rfl := answered (Option.some.inj ran)
    rw [claimOrphans_frame]
    exact drops_notes told rfl rfl fun _ _ found => found
  | release id confirmed | serveRequests =>
    cases ran
    exact drops_notes told rfl rfl fun _ _ found => found
  | reap id op =>
    obtain ⟨_, -, eq⟩ := Option.map_eq_some_iff.1 ran
    cases eq
    exact drops_notes told rfl rfl fun _ _ found => found
  | lookup id =>
    cases ran
    exact same
  | await ref cmd =>
    obtain ⟨svc, -, ran⟩ := Option.bind_eq_some_iff.1 ran
    split at ran
    · split at ran <;> cases ran
      exact same
    · exact read ran
  | attach id =>
    simp only [perform] at ran
    split at ran
    · exact read ran
    · cases ran
  | recheck | fields | queryVM | listDisk | queryState => exact read ran

theorem begin_notes {k : Kind} (told : Told s) (owned : Owned s.manager)
    (started : begin i k s.manager = some m) : Notes i s ⟨m, s.records⟩ := by
  cases k with
  | serve ref wake =>
    simp only [begin, Option.bind_eq_some_iff, Option.ite_none_right_eq_some] at started
    obtain ⟨svc, at_ref, ready, eq⟩ := started
    cases eq
    exact touch_notes told owned at_ref rfl rfl rfl (fun rests => by cases rests)
      fun j state owes => absurd owes
      (told.clear_of_resting at_ref (resting_of_ready ready) j state)
  | startup | create | stop | remove | reconcileDisk | checkLiveness =>
    simp only [begin, Option.ite_none_right_eq_some] at started
    obtain ⟨-, eq⟩ := started
    cases eq
    exact drops_notes told rfl rfl fun _ _ found => found

theorem happen_notes (told : Told s) (x : Event) :
    Notes i s { s with manager := happen x s.manager } := by
  cases x with
  | restart =>
    refine ⟨⟨told.fresh, fun _ _ _ found => (nomatch found), fun _ _ _ _ _ at_ref =>
      (nomatch at_ref), told.sound⟩, fun _ _ _ _ found => (nomatch found), fun _ _ => rfl,
      fun _ _ _ _ _ _ _ found => nomatch found⟩
  | vmExit | cancel | setCapacity | takeEvent =>
    exact drops_notes told rfl rfl fun _ _ found => found

end Steps

structure Spares (i : Nat) (s t : Journal) : Prop where
  keeps : Keeps i s.manager t.manager
  owed : t.records.owed i = s.records.owed i
  entry : s.manager.process = t.manager.process → ∀ ref svc wake e,
    s.manager.Serving i ref svc wake →
    t.manager.services.get? svc.id = some e → e.svc = ref → s.manager.services.get? svc.id = some e

def journalSpec [Uuid] : Spec Call Env Event Journal where
  Inv s := Sane unassuming s.manager ∧ Told s
  Evolves s t := Evolves s.manager t.manager
  Keeps := Spares
  Pre i c s := s.manager.born i = s.manager.process → may unassuming i s.manager c ∧ tells i s c
  Cond _ _ _ _ := True
  Out _ _ := True

section Soundness
variable {i : Nat} {s t u : Journal}

theorem Spares.refl (i : Nat) (s : Journal) : Spares i s s :=
  ⟨.refl i s.manager, rfl, fun _ _ _ _ _ _ found _ => found⟩

theorem Spares.trans (h : Spares i s t) (k : Spares i t u) : Spares i s u where
  keeps := h.keeps.trans k.keeps
  owed := k.owed.trans h.owed
  entry same ref svc wake e serving found mine := by
    have mid : s.manager.process = t.manager.process := Nat.le_antisymm h.keeps.process
      (same ▸ k.keeps.process)
    have still := ((h.keeps.leaves mid).serving ref svc wake serving.1 serving.2).1
    have between := k.entry (mid.symm.trans same) ref svc wake e ⟨still, serving.2⟩ found mine
    exact h.entry mid ref svc wake e serving between mine

theorem exec_eq [Uuid] {c : Call} {e : Env} {a : c.Answer} (ran : exec i c e s = some (a, t)) :
    ∃ m, s.manager.born i = s.manager.process ∧ perform i c e s.manager = some (a, m) ∧
    t = ⟨m, s.note i c a⟩ := by
  obtain ⟨⟨b, m⟩, done, eq⟩ := Option.map_eq_some_iff.1 ran
  cases eq
  exact ⟨m, (exec_eq_some done).1, (exec_eq_some done).2, rfl⟩

theorem journalSpec_sound [Uuid] : journalSpec.Sound exec where
  evolves_refl s := .refl s.manager
  evolves_trans h k := h.trans k
  keeps_refl := .refl
  keeps_trans h k := h.trans k
  step {i c e s a t} inv pre _ ran := by
    obtain ⟨m, current, done, rfl⟩ := exec_eq ran
    obtain ⟨ok, ok'⟩ := pre current
    have fits := perform_fits inv.1 ok (unassuming_meets _ _ _ _) done
    have notes := perform_notes inv.2 inv.1.owned ok ok' done
    exact ⟨⟨fits.sane, notes.told⟩, fits.evolves, fun j other =>
      ⟨fits.keeps other, notes.owed j other, fun _ => notes.entry j other⟩⟩

end Soundness

def telling [Uuid] : Spec Call Env Event Journal :=
  { journalSpec with Pre := fun i c s => s.manager.born i = s.manager.process → tells i s c }

/-- What thread `i` knows while it runs a pass of a Service: the Service's copy of
its state, what is shown of it, and the changes the thread is still to emit. -/
structure Knows (i : Nat) (ref : Ref) (id : SandboxID) (state shown : SandboxState)
    (due : List (SandboxID × Ref × SandboxState)) (s : Journal) : Prop where
  current : s.manager.born i = s.manager.process
  serving : ∃ svc wake, s.manager.Serving i ref svc wake ∧ svc.id = id ∧ svc.state = state
  shown : ∀ e, s.manager.services.get? id = some e → e.svc = ref → e.state = shown
  owed : ∃ rest, s.records.owed i = due ++ rest ∧ ∀ x ∈ rest, x.2.1 ≠ ref

def Settled (i : Nat) (ref : Ref) (s : Journal) : Prop :=
  ∃ id state, Knows i ref id state state [] s

def Calm (ref : Ref) : Call → Prop
  | .fields k | .vm k _ | .watch k | .unwatch k | .queryVM k => k = ref
  | _ => False

theorem effect_process {i : Nat} {e : Env} {s t : Manager} {c : Call} (h : Effect i e s c t) :
    t.process = s.process ∧ t.born = s.born := by
  cases h with
  | register input =>
    unfold Manager.register
    split
    · exact ⟨rfl, rfl⟩
    · split
      · exact ⟨rfl, rfl⟩
      · split <;> exact ⟨rfl, rfl⟩
  | forget id ref =>
    unfold Manager.forget
    split
    · split <;> exact ⟨rfl, rfl⟩
    · exact ⟨rfl, rfl⟩
  | claim id =>
    unfold Manager.claim
    split
    · exact ⟨rfl, rfl⟩
    · split <;> exact ⟨rfl, rfl⟩
  | claimOrphans ids =>
    rw [claimOrphans_frame]
    exact ⟨rfl, rfl⟩
  | report ref state id =>
    unfold Manager.report
    split
    · split <;> exact ⟨rfl, rfl⟩
    · exact ⟨rfl, rfl⟩
  | emit id state =>
    unfold Manager.emit
    split <;> exact ⟨rfl, rfl⟩
  | release | adopt | markDead | serveRequests | service | vm | reap | read => exact ⟨rfl, rfl⟩

section Passes
variable {i : Nat} {ref : Ref} {id : SandboxID} {state shown : SandboxState}
  {due : List (SandboxID × Ref × SandboxState)} {s t : Journal} {m : Manager} {c : Call} {α : Type}

theorem Knows.clear (h : Knows i ref id state shown [] s) (old : SandboxState) :
    ¬ s.records.Owes i ref old := by
  rintro ⟨l, mem⟩
  obtain ⟨rest, eq, other⟩ := h.owed
  exact other _ (eq ▸ mem) rfl

theorem Knows.between [Uuid] (h : Knows i ref id state shown due s) (rely : journalSpec.Rely i s t)
    (current : t.manager.born i = t.manager.process) : Knows i ref id state shown due t := by
  obtain ⟨-, spares⟩ := rely
  have same : s.manager.process = t.manager.process :=
    h.current.symm.trans (spares.keeps.born.symm.trans current)
  obtain ⟨svc, wake, serving, named, copy⟩ := h.serving
  have still := ((spares.keeps.leaves same).serving ref svc wake serving.1 serving.2).1
  refine ⟨current, ⟨svc, wake, ⟨still, serving.2⟩, named, copy⟩, fun e found mine => ?_,
    spares.owed ▸ h.owed⟩
  subst named
  exact h.shown e (spares.entry same ref svc wake e serving found mine) mine

theorem call_tells [Uuid] {f : c.Answer → M α} {Q : α → Journal → Prop}
    (h : Knows i ref id state shown due s)
    (ok : ∀ t, Knows i ref id state shown due t → tells i t c)
    (next : ∀ t e a m, Knows i ref id state shown due t → perform i c e t.manager = some (a, m) →
      m.born i = m.process → WP exec telling i Q (f a) ⟨m, t.note i c a⟩) :
    WP exec telling i Q (.call c f) s := by
  refine .call (fun t _ rely current => ok t (h.between rely current))
    fun t e a u _ rely _ ran _ => ?_
  obtain ⟨m, current, done, rfl⟩ := exec_eq ran
  obtain ⟨process, born⟩ := effect_process (perform_effect done)
  refine next t e a m (h.between rely current) done ?_
  rw [process, born]
  exact current

theorem Calm.tells (calm : Calm ref c) : tells i t c := by
  cases c with
  | fields | vm | watch | unwatch | queryVM => trivial
  | _ => exact calm.elim

theorem Calm.knows [Uuid] {e : Env} {a : c.Answer} (calm : Calm ref c)
    (h : Knows i ref id state shown due t) (ran : perform i c e t.manager = some (a, m))
    (current : m.born i = m.process) : Knows i ref id state shown due ⟨m, t.note i c a⟩ := by
  obtain ⟨-, ⟨svc, wake, ⟨at_ref, busy⟩, named, copy⟩, shows, owed⟩ := h
  have field {f : Service → Service}
    (ran : onService t.manager ref (fun svc => some (f svc)) = some ((), m))
      (same : (f svc).phase = svc.phase ∧ (f svc).id = svc.id ∧ (f svc).state = svc.state) :
      Knows i ref id state shown due ⟨m, t.records⟩ := by
    obtain ⟨_, _, at', eq, rfl⟩ := onService_eq_some ran
    cases at'.symm.trans at_ref
    cases eq
    exact ⟨current, ⟨f svc, wake, ⟨Function.update_self _ _ _, same.1.trans busy⟩,
      same.2.1.trans named, same.2.2.trans copy⟩, shows, owed⟩
  cases c with
  | fields k | queryVM k =>
    obtain ⟨_, -, eq⟩ := Option.map_eq_some_iff.1 ran
    cases eq
    exact ⟨current, ⟨svc, wake, ⟨at_ref, busy⟩, named, copy⟩, shows, owed⟩
  | watch k | unwatch k =>
    obtain rfl : k = ref := calm
    exact field ran ⟨rfl, rfl, rfl⟩
  | vm k op =>
    obtain rfl : k = ref := calm
    obtain ⟨_, at', eq⟩ := Option.map_eq_some_iff.1 ran
    cases at'.symm.trans at_ref
    cases eq
    exact ⟨current, ⟨_, wake, ⟨Function.update_self _ _ _, busy⟩, named, copy⟩, shows, owed⟩
  | _ => exact calm.elim

theorem calm_tells [Uuid] {p : M α} (calls : Calls p (Calm ref))
    (h : Knows i ref id state shown due s) :
    WP exec telling i (fun _ t => Knows i ref id state shown due t) p s := by
  induction calls generalizing s with
  | ret a => exact .ret h
  | call calm _ ih =>
    exact call_tells h (fun _ _ => calm.tells) fun t e a m known ran current =>
      ih a trivial (calm.knows known ran current)

theorem fields_tells [Uuid] (h : Knows i ref id state shown due s) :
    WP exec telling i (fun a t => Knows i ref id state shown due t ∧ a.id = id ∧ a.state = state)
      (ask (.fields ref)) s := by
  refine call_tells h (fun _ _ => trivial) fun t e a m known ran current => .ret ⟨?_, ?_⟩
  · exact Calm.knows (c := .fields ref) rfl known ran current
  · obtain ⟨svc, wake, ⟨at_ref, busy⟩, named, copy⟩ := known.serving
    obtain ⟨_, at', eq⟩ := Option.map_eq_some_iff.1 ran
    cases at'.symm.trans at_ref
    cases eq
    exact ⟨named, copy⟩

theorem Knows.setField [Uuid] {old : SandboxState} {e : Env} (h : Knows i ref id old shown due t)
    (ran : perform i (.setField ref state) e t.manager = some ((), m))
    (current : m.born i = m.process) : Knows i ref id state shown due ⟨m, t.records⟩ := by
  obtain ⟨svc, wake, ⟨at_ref, busy⟩, named, -⟩ := h.serving
  obtain ⟨_, _, at', eq, rfl⟩ := onService_eq_some ran
  cases at'.symm.trans at_ref
  cases eq
  exact ⟨current, ⟨_, wake, ⟨Function.update_self _ _ _, busy⟩, named, rfl⟩, h.shown, h.owed⟩

theorem Knows.report [Uuid] {e : Env} {told : Bool} (h : Knows i ref id state shown [] t)
    (ran : perform i (.report ref state) e t.manager = some (told, m))
    (current : m.born i = m.process) :
    Knows i ref id state state (if told then [(id, ref, state)] else [])
    ⟨m, t.note i (.report ref state) told⟩ := by
  obtain ⟨-, ⟨svc, wake, ⟨at_ref, busy⟩, rfl, copy⟩, -, rest, owed, unowed⟩ := h
  have ran : t.manager.report ref svc.id state = (told, m) := by
    simpa [perform, at_ref] using ran
  unfold Manager.report at ran
  split at ran
  · rename_i e found
    split at ran
    · rename_i mine
      cases ran
      have row : t.rows ((t.manager.heap ref).map Service.id).toList = [(svc.id, ref)] := by
        simp [Journal.rows, at_ref, Manager.svcOf, found, mine]
      refine ⟨current, ⟨svc, wake, ⟨at_ref, busy⟩, rfl, copy⟩, fun e' found' _ =>
        ?_, rest, ?_, unowed⟩
      · rw [Table.get?_set, if_pos rfl] at found'
        cases found'
        rfl
      · simp [Journal.note, row, Records.record, owed]
    · rename_i other
      cases ran
      refine ⟨current, ⟨svc, wake, ⟨at_ref, busy⟩, rfl, copy⟩, fun e' found' mine =>
        ?_, rest, owed, unowed⟩
      cases found.symm.trans found'
      exact absurd mine other
  · rename_i none
    cases ran
    exact ⟨current, ⟨svc, wake, ⟨at_ref, busy⟩, rfl, copy⟩, fun e' found' =>
      (by cases none.symm.trans found'), rest, owed, unowed⟩

theorem Knows.emit [Uuid] {e : Env} (h : Knows i ref id state state [(id, ref, state)] t)
    (ran : perform i (.emit id state) e t.manager = some ((), m)) (current : m.born i = m.process) :
    Knows i ref id state state [] ⟨m, t.note i (.emit id state) ()⟩ := by
  obtain ⟨svc, wake, ⟨at_ref, busy⟩, named, copy⟩ := h.serving
  obtain ⟨rest, owed, unowed⟩ := h.owed
  cases ran
  have at_ref : (t.manager.emit id state).heap ref = some svc := by rwa [emit_heap]
  refine ⟨current, ⟨svc, wake, ⟨at_ref, busy⟩, named, copy⟩, fun e found mine =>
    ?_, rest, ?_, unowed⟩
  · exact h.shown e (emit_services ▸ found) mine
  · simp [Journal.note, Records.report, owed]

theorem setState_tells [Uuid] {old : SandboxState} (h : Knows i ref id old old [] s)
    (dead : old = .dead → state = .dead) : WP exec telling i (fun _ t => Settled i ref t)
    (Service.setState ref state) s := by
  refine (fields_tells h).bind fun fields t known => ?_
  obtain ⟨known, named, copy⟩ := known
  split
  · exact .ret ⟨id, old, known⟩
  rename_i differs
  have other : old ≠ state := copy ▸ differs
  refine call_tells known (fun _ _ => trivial) fun t e _ m known ran current => ?_
  refine call_tells (known.setField ran current)
    (fun t known => ?_) fun t e told m known ran current => ?_
  · obtain ⟨svc, wake, serving, rfl, -⟩ := known.serving
    refine ⟨known.clear, svc, wake, serving, fun e found mine => ?_⟩
    rw [known.shown e found mine]
    exact ⟨other, fun eq => other (eq.trans (dead eq).symm)⟩
  have recorded := known.report ran current
  cases told with
  | false => exact .ret ⟨id, state, recorded⟩
  | true =>
    rw [named]
    refine call_tells recorded (fun t known => ?_) fun t e _ m known ran current => ?_
    · obtain ⟨rest, owed, -⟩ := known.owed
      exact ⟨ref, rest, owed⟩
    · exact .ret ⟨id, state, known.emit ran current⟩

theorem poll_tells [Uuid] (h : Settled i ref s) : WP exec telling i (fun _ t => Settled i ref t)
    (Service.poll ref) s := by
  obtain ⟨id, old, h⟩ := h
  refine (fields_tells h).bind fun fields t known => ?_
  obtain ⟨known, -, copy⟩ := known
  split
  · exact .ret ⟨id, old, known⟩
  rename_i polled
  have alive : old ≠ .dead := fun dead => polled (.inr (copy.trans dead))
  refine (calm_tells (calls_last (c := .queryVM ref) rfl) known).bind fun a t known => ?_
  match a with
  | none => exact .ret ⟨id, old, known⟩
  | some (.ok state) =>
    exact (setState_tells known fun dead => absurd dead alive).bind fun _ t known => .ret known
  | some (.error _) =>
    exact (setState_tells known fun dead => absurd dead alive).bind fun _ t known => .ret known

theorem VMCall.calm (h : VMCall ref c) : Calm ref c := by
  cases c with
  | vm | fields => exact h
  | _ => exact h.elim

theorem vm_tells [Uuid] {p : M α} (calls : Calls p (VMCall ref)) (h : Settled i ref s) :
    WP exec telling i (fun _ t => Settled i ref t) p s := by
  obtain ⟨id, state, h⟩ := h
  exact (calm_tells (calls.mono fun _ => VMCall.calm) h).mono fun _ t known => ⟨id, state, known⟩

theorem create_tells [Uuid] (h : Settled i ref s) : WP exec telling i (fun _ t => Settled i ref t)
    (Service.create ref) s := by
  refine (vm_tells (calls_last (c := .fields ref) rfl) h).bind fun fields t known => ?_
  split
  · exact .ret known
  refine (vm_tells (calls_last (c := .vm ref .newVM) rfl) known).bind fun made t known => ?_
  cases made with
  | err | panicked => exact .ret known
  | ok =>
    refine (vm_tells vmCreate_calls known).bind fun built t known => ?_
    cases built with
    | ok =>
      obtain ⟨id, state, known⟩ := known
      refine (calm_tells (calls_last (c := .watch ref) rfl) known).bind fun _ t known => ?_
      refine (poll_tells ⟨id, state, known⟩).bind fun polled t known => ?_
      split <;> exact .ret known
    | err =>
      refine (vm_tells remove_calls known).bind fun removed t known => ?_
      cases removed <;> exact .ret known
    | panicked => exact .ret known

theorem handle_tells [Uuid] {cmd : Command} (h : Settled i ref s) :
    WP exec telling i (fun _ t => Settled i ref t) (Service.handle ref cmd) s := by
  cases cmd with
  | create => exact create_tells h
  | stop => exact vm_tells stop_calls h
  | remove => exact vm_tells remove_calls h

theorem close_tells [Uuid] (clear : ∀ x ∈ s.records.owed i, x.2.1 ≠ ref) :
    WP exec telling i (fun _ _ => True) (ask (.close ref)) s := by
  refine .call (fun t _ rely _ old ⟨l, mem⟩ => ?_) fun _ _ _ _ _ _ _ _ _ => .ret trivial
  exact clear _ (rely.2.owed ▸ mem) rfl

theorem Settled.clear (h : Settled i ref s) : ∀ x ∈ s.records.owed i, x.2.1 ≠ ref := by
  obtain ⟨id, state, h⟩ := h
  obtain ⟨rest, owed, clear⟩ := h.owed
  exact owed ▸ clear

theorem Knows.shows (h : Knows i ref id state state [] t) {svc : Service} {e : Entry}
    (at_ref : t.manager.heap ref = some svc) (found : t.manager.services.get? svc.id = some e)
    (mine : e.svc = ref) : e.state = svc.state := by
  obtain ⟨svc', wake, serving, named, copy⟩ := h.serving
  cases at_ref.symm.trans serving.1
  exact (h.shown e (named ▸ found) mine).trans copy.symm

theorem resume_tells [Uuid] (h : Settled i ref s) :
    WP exec telling i (fun _ _ => True) (ask (.resume ref)) s := by
  obtain ⟨id, state, h⟩ := h
  exact call_tells h (fun t known => ⟨known.clear, fun svc e => known.shows⟩)
    fun t e _ m _ _ _ => .ret trivial

theorem die_tells [Uuid] (h : Settled i ref s) :
    WP exec telling i (fun _ _ => True) (Service.die ref) s := by
  obtain ⟨id, state, h⟩ := h
  exact (setState_tells h fun _ => rfl).bind fun _ t known => close_tells known.clear

theorem answer_tells [Uuid] {sender : Nat} {cmd : Command} {err : Option Err}
    (h : Settled i ref s) :
    WP exec telling i (fun _ _ => True) (Service.answer ref sender cmd err) s := by
  obtain ⟨id, state, h⟩ := h
  refine call_tells h (fun t known => ⟨known.clear, fun svc e => known.shows⟩)
    fun t e _ m known ran current => ?_
  have clear : ∀ x ∈ t.records.owed i, x.2.1 ≠ ref := Settled.clear ⟨id, state, known⟩
  obtain ⟨svc, wake, ⟨at_ref, busy⟩, named, copy⟩ := known.serving
  obtain ⟨_, _, at', eq, rfl⟩ := onService_eq_some ran
  cases at'.symm.trans at_ref
  cases eq
  split
  · exact close_tells clear
  · rename_i stays
    refine resume_tells ⟨id, state, current, ⟨_, wake, ⟨Function.update_self _ _ _, ?_⟩,
      named, copy⟩, known.shown, known.owed⟩
    simpa [stays] using busy

theorem pass_tells [Uuid] {wake : Wake} (h : Settled i ref s) :
    WP exec telling i (fun _ _ => True) (Service.pass ref wake) s := by
  cases wake with
  | ctxDone => exact close_tells h.clear
  | command sender cmd =>
    refine (handle_tells h).bind fun ran t known => ?_
    cases ran with
    | ok => exact answer_tells known
    | err => exact answer_tells known
    | panicked => exact die_tells known
  | exited =>
    obtain ⟨id, state, h⟩ := h
    refine (calm_tells (calls_last (c := .unwatch ref) rfl) h).bind fun _ t known => ?_
    exact (setState_tells known fun _ => rfl).bind fun _ t known => resume_tells known
  | tick =>
    refine (poll_tells h).bind fun polled t known => ?_
    split
    · exact resume_tells known
    · exact die_tells known

end Passes

section Audits
variable {i : Nat} {s t : Journal}

def Announces (i : Nat) (ids : List SandboxID) (s : Journal) : Prop :=
  ∃ rest, (s.records.owed i).map (fun x => (x.1, x.2.2)) = ids.map (fun id => (id, .dead)) ++ rest

theorem emitDead_tells [Uuid] {ids : List SandboxID} (h : Announces i ids s) :
    WP exec telling i (fun _ _ => True) (Manager.emitDead ids) s := by
  induction ids generalizing s with
  | nil => exact .ret trivial
  | cons id ids ih =>
    obtain ⟨rest, all⟩ := h
    obtain ⟨⟨k, ref, state⟩, due, owed, head, later⟩ := List.map_eq_cons_iff.1 all
    obtain ⟨rfl, rfl⟩ := Prod.mk.inj head
    refine .call (fun t _ rely _ => ⟨ref, due, rely.2.owed.trans owed⟩)
      fun t e a u _ rely _ ran _ => ?_
    obtain ⟨m, -, -, rfl⟩ := exec_eq ran
    refine ih ⟨rest, ?_⟩
    simpa [Journal.note, Records.report, rely.2.owed.trans owed] using later

theorem rows_fst {ids : List SandboxID} (tracked : ∀ id ∈ ids, (s.manager.svcOf id).isSome = true) :
    (s.rows ids).map Prod.fst = ids := by
  induction ids with
  | nil => rfl
  | cons id ids ih =>
    obtain ⟨ref, svc⟩ := Option.isSome_iff_exists.1 (tracked id List.mem_cons_self)
    have rest := ih fun k mem => tracked k (List.mem_cons_of_mem id mem)
    simp only [Journal.rows] at rest ⊢
    simp [svc, rest]

theorem checkLiveness_tells [Uuid] :
    WP exec telling i (fun _ _ => True) Manager.checkLiveness s := by
  refine .call (fun _ _ _ _ => trivial) fun t e ids u _ _ _ ran _ => ?_
  obtain ⟨m, -, done, rfl⟩ := exec_eq ran
  have dead : t.manager.markDead.1 = ids := congrArg Prod.fst (Option.some.inj done)
  have tracked : (t.rows ids).map Prod.fst = ids := rows_fst fun id mem => by
    obtain ⟨e, found, -⟩ := mem_markDead.1 (dead ▸ mem)
    simp [Manager.svcOf, found]
  refine emitDead_tells ⟨(t.records.owed i).map fun x => (x.1, x.2.2), ?_⟩
  conv_rhs => rw [← tracked]
  simp [Journal.note, Records.record, Function.comp_def]

end Audits

def Silent : Call → Prop
  | .report .. | .emit .. | .reply .. | .resume _ | .close _ => False
  | _ => True

section Runs
variable {i : Nat} {s t : State} {host : Table SandboxID Remnant}

theorem silent_tells [Uuid] {α : Type} {p : M α} {s : Journal} (calls : Calls p Silent) :
    WP exec telling i (fun _ _ => True) p s := by
  refine .within (fun _ _ _ _ => trivial) (fun c t silent _ _ _ => ?_)
    (fun _ _ _ _ _ _ _ _ _ _ => ⟨trivial, trivial⟩) calls trivial
  cases c with
  | report | emit | reply | resume | close => exact silent.elim
  | _ => trivial

theorem body_tells [Uuid] {k : Kind} {s : Journal}
    (serves : ∀ ref wake, k = .serve ref wake → Settled i ref s) :
    WP exec telling i (fun _ _ => True) (body k) s := by
  have silent (all : ∀ c, KindCall k c → Silent c) : WP exec telling i
      (fun _ _ => True) (body k) s :=
    silent_tells ((body_calls k).mono all)
  cases k with
  | serve ref wake => exact (pass_tells (serves ref wake rfl)).bind fun _ _ _ => .ret trivial
  | checkLiveness => exact checkLiveness_tells.bind fun _ _ _ => .ret trivial
  | startup | create | stop | remove | reconcileDisk =>
    refine silent fun c made => ?_
    cases c with
    | report | emit | reply | resume | close => exact made.elim
    | _ => trivial

theorem begin_settled {s : Journal} {m : Manager} {ref : Ref} {wake : Wake} (told : Told s)
    (started : begin i (.serve ref wake) s.manager = some m) : Settled i ref ⟨m, s.records⟩ := by
  simp only [begin, Option.bind_eq_some_iff, Option.ite_none_right_eq_some] at started
  obtain ⟨svc, at_ref, ready, eq⟩ := started
  cases eq
  have rests := resting_of_ready ready
  refine ⟨svc.id, svc.state, Function.update_self _ _ _,
    ⟨_, wake, ⟨Function.update_self _ _ _, rfl⟩, rfl, rfl⟩,
    fun e found mine => ?_, s.records.owed i, rfl, fun x mem mine => ?_⟩
  · subst mine
    exact (told.tracked svc.id e svc found at_ref).2 rests
  · subst mine
    exact told.clear_of_resting at_ref rests i x.2.2 ⟨x.1, mem⟩

theorem disciplined [Uuid] : system.Disciplined journalSpec fun _ _ _ _ => True where
  sound := journalSpec_sound
  start i k s t inv started := by
    obtain ⟨m, began, rfl⟩ := Option.map_eq_some_iff.1 started
    obtain ⟨sane, evolves, keeps, runs⟩ := (SandboxMgr.disciplined unassuming).start i k
      s.manager m inv.1 began
    have notes := begin_notes inv.2 inv.1.owned began
    refine ⟨⟨sane, notes.told⟩, evolves, fun j other =>
      ⟨keeps j other, rfl, fun _ => notes.entry j other⟩, ?_⟩
    have tells : WP exec telling i (fun _ _ => True) (body k) ⟨m, s.records⟩ := by
      refine body_tells fun ref wake eq => ?_
      subst eq
      exact begin_settled inv.2 began
    have both : WP exec journalSpec i (fun a v => Answers unassuming i k a v.manager ∧ True)
        (body k) ⟨m, s.records⟩ := by
      have sane (v : Journal) (inv : journalSpec.Inv v) : Sane unassuming v.manager := inv.1
      have rely (v w : Journal) (rely : journalSpec.Rely i v w) : (spec unassuming).Rely i
          v.manager w.manager :=
        ⟨rely.1, rely.2.keeps⟩
      refine WP.both Journal.manager sane rely
        (fun _ _ pre pre' current => ⟨pre current, pre' current⟩)
        (fun c e v a w _ ran => ?_) rfl runs tells
      obtain ⟨m', current, done, rfl⟩ := exec_eq ran
      exact ⟨e, unassuming_meets _ _ _ _, (if_pos current).trans done⟩
    exact both.mono fun _ _ _ => trivial
  ext x s t inv _ happened := by
    cases happened
    obtain ⟨sane, evolves, keeps⟩ := happen_keeps x inv.1
    have notes (j : Nat) := happen_notes (i := j + 1) inv.2 x
    exact ⟨⟨sane, (notes 0).told⟩, evolves, fun j => ⟨keeps j, rfl,
      fun _ => (notes j).entry j (Nat.ne_of_lt (Nat.lt_succ_self j))⟩⟩

theorem reaches_safe [Uuid] (h : system.Reaches (System.init (starting host)) s) :
    system.Safe journalSpec (fun _ _ _ _ => True) s := by
  have told : Told (starting host) :=
    ⟨fun _ _ => rfl, fun _ _ _ found => (nomatch found), fun _ _ _ _ _ at_ref => (nomatch at_ref),
      Records.empty_sound⟩
  exact (System.safe_reaches disciplined (fun _ _ _ _ => trivial) (fun _ _ => trivial)
    (System.safe_init ⟨booting_sane False.elim, told⟩) h).1

theorem final_step [Uuid] (safe : system.Safe journalSpec (fun _ _ _ _ => True) s)
    {a : Action Kind Env Event} (step : system.step s a = some t) {id : SandboxID} {e e' : Entry}
    (found : s.shared.manager.services.get? id = some e)
    (found' : t.shared.manager.services.get? id = some e')
    (dead : e.state = .dead) : e'.state = .dead := by
  obtain ⟨sane, told⟩ := safe.inv
  obtain ⟨k, v, rfl, started, rfl⟩ | ⟨i, ev, k, c, f, r, v, rfl, thread, ran, rfl⟩ |
    ⟨i, th, -, -, stopped, -⟩ | ⟨x, v, rfl, happened, rfl⟩ := System.step_cases step
  · obtain ⟨m, began, rfl⟩ := Option.map_eq_some_iff.1 started
    exact (begin_notes told sane.owned began).final id e e' found found' dead
  · obtain ⟨m, current, done, rfl⟩ := exec_eq ran
    obtain ⟨ok, ok'⟩ := System.safe_pre disciplined safe thread current
    exact (perform_notes told sane.owned ok ok' done).final id e e' found found' dead
  · cases stopped
  · cases happened
    exact (happen_notes (i := 0) told x).final id e e' found found' dead

theorem mem_snapshot {s : Manager} {id : SandboxID} {state : SandboxState} :
    (id, state) ∈ s.snapshot ↔ ∃ e, s.services.get? id = some e ∧ e.state = state := by
  simp only [Manager.snapshot, List.mem_map, Table.get?_eq_some_iff, Prod.exists, Prod.mk.injEq]
  constructor
  · rintro ⟨k, e, mem, rfl, rfl⟩
    exact ⟨e, mem, rfl⟩
  · rintro ⟨e, mem, rfl⟩
    exact ⟨id, e, mem, rfl, rfl⟩

theorem final_run [Uuid] (safe : system.Safe journalSpec (fun _ _ _ _ => True) s) {id : SandboxID}
    (dead : (id, .dead) ∈ s.shared.manager.snapshot) {as : List (Action Kind Env Event)}
    (run : system.run s as = some t)
    (tracked : ∀ bs cs u, as = bs ++ cs → system.run s bs = some u →
      u.shared.manager.tracks id = true) :
    (id, .dead) ∈ t.shared.manager.snapshot := by
  induction as generalizing s with
  | nil =>
    cases run
    exact dead
  | cons a as ih =>
    obtain ⟨u, step, rest⟩ := System.run_cons run
    obtain ⟨e, found, dead⟩ := mem_snapshot.1 dead
    have still : u.shared.manager.tracks id = true := tracked
      [a] as u rfl (by simp [System.run, step])
    obtain ⟨e', found'⟩ := Option.isSome_iff_exists.1 still
    have safe' :=
      (System.safe_step disciplined safe (System.meets_of_forall (fun _ _ _ _ => trivial)
      (fun _ _ => trivial) a) step).1
    refine ih safe' (mem_snapshot.2 ⟨e', found', final_step safe step found found' dead⟩) rest
      fun bs cs v eq ran => ?_
    exact tracked (a :: bs) cs v (by rw [eq]; rfl) (by simp [System.run, step, ran])

end Runs

/-- In every run of a worker, a sandbox that Snapshot shows DEAD is shown so as
long as it is tracked. What is recorded of a Service is what Snapshot shows; a
StateChange carries what was recorded last, which is not what was recorded
before; and the changes of a Service are reported in their order, so that no state
is reported twice in a row. -/
theorem dead_is_final [Uuid] {host : Table SandboxID Remnant} {as : List (Action Kind Env Event)}
    {s : SandboxMgr.State} (run : SandboxMgr.system.run (System.init (booting host)) as = some s) :
    (∀ id, (id, .dead) ∈ s.shared.snapshot → ∀ bs t, SandboxMgr.system.run s bs = some t →
      (∀ cs ds u, bs = cs ++ ds → SandboxMgr.system.run s cs = some u → u.shared.tracks id = true) →
      (id, .dead) ∈ t.shared.snapshot) ∧
    ∃ j, system.run (System.init (starting host)) as = some j ∧
    System.viewed Journal.manager j = s ∧
      (∀ id e, s.shared.services.get? id = some e →
        (j.shared.records.recorded e.svc).head? = some e.state) ∧
      (∀ i id state, At s i (.emit id state) → ∃ ref rest before older,
        j.shared.records.owed i = (id, ref, state) :: rest ∧
        j.shared.records.recorded ref = state :: before :: older ∧ state ≠ before) ∧
      ∀ ref, (j.shared.records.reported ref).IsChain (· ≠ ·) ∧
      ∃ due : List SandboxState, due.length ≤ 1 ∧
        (j.shared.records.recorded ref).dropLast = due ++ j.shared.records.reported ref := by
  have lifted := system_observes.run (s := System.init (starting host)) as
  have same : System.viewed Journal.manager (System.init (starting host) : State) = System.init
    (booting host) := rfl
  rw [same, run] at lifted
  obtain ⟨j, ran, rfl⟩ := Option.map_eq_some_iff.1 lifted.symm
  have safe := reaches_safe (System.reaches_of_run ran)
  obtain ⟨sane, told⟩ := safe.inv
  refine ⟨fun id dead bs t later tracked => ?_, j, ran, rfl, fun id e found => ?_,
    fun i id state here => ?_, fun ref => ⟨told.sound.reported_differ ref, told.sound.reports ref⟩⟩
  · rw [system_observes.run, Option.map_eq_some_iff] at later
    obtain ⟨u, later, rfl⟩ := later
    refine final_run safe dead later fun cs ds v eq ran' => tracked cs ds
      (System.viewed Journal.manager v) eq ?_
    rw [system_observes.run, ran', Option.map_some]
  · obtain ⟨-, svc, at_ref, -⟩ := sane.owned.tracked id e.svc (by
      have found : j.shared.manager.services.get? id = some e := found
      simp [Manager.svcOf, found])
    exact (told.tracked id e svc found at_ref).1
  · obtain ⟨current, k, f, thread⟩ := here
    obtain ⟨-, ref, rest, owed⟩ := System.safe_pre disciplined safe thread current
    obtain ⟨before, older, recorded, differs⟩ := told.sound.due ⟨id, owed ▸ List.mem_cons_self⟩
    exact ⟨ref, rest, before, older, owed, recorded, differs⟩

section Examples

def exited : List (Action Kind Env Event) :=
  -- the worker has started and has booted a sandbox, which it found running; its VM has
  -- exited, which is recorded and not emitted yet
  ordered1 ++ List.replicate 14 (.call 2 {}) ++
    [.ext (.vmExit Host.someID), .spawn (.serve 0 .exited)] ++ List.replicate 4 (.call 3 {})

open Uuid.Standard in
theorem dead_is_final_exited :
    ∃ s, SandboxMgr.system.run (System.init (booting .empty)) exited = some s ∧
    (Host.someID, .dead) ∈ s.shared.snapshot ∧ At s 3 (.emit Host.someID .dead) ∧
    ∃ (j : State) (ref : Ref) (rest : List (SandboxID × Ref × SandboxState)) (before : SandboxState)
      (older : List SandboxState), system.run (System.init (starting .empty)) exited = some j ∧
      j.shared.records.owed 3 = (Host.someID, ref, .dead) :: rest ∧
      j.shared.records.recorded ref = .dead :: before :: older ∧ SandboxState.dead ≠ before := by
  have run : (SandboxMgr.system.run (System.init (booting .empty)) exited).map
      (fun s => (pending s 3, s.shared.born 3 == s.shared.process, s.shared.snapshot)) =
      some (some (.serve 0 .exited, .emit Host.someID .dead), true, [(Host.someID, .dead)]) := by
    decide +kernel
  simp only [Option.map_eq_some_iff, Prod.mk.injEq, beq_iff_eq] at run
  obtain ⟨s, run, asks, current, shown⟩ := run
  have here : At s 3 (.emit Host.someID .dead) := ⟨current, _, pending_eq_some asks⟩
  obtain ⟨-, j, ran, -, -, differs, -⟩ := dead_is_final run
  obtain ⟨ref, rest, before, older, owed, recorded, other⟩ := differs 3 Host.someID .dead here
  exact ⟨s, run, shown ▸ List.mem_singleton_self _, here, j, ref, rest, before, older, ran,
    owed, recorded, other⟩

end Examples

end Fire2.StateChanges
