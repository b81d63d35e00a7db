import Fire2.ThinVolumes

/-! What a failed CreateVolume leaves behind. One call is run to its end, on any
pool and any devices, and its operations may fail in any way; when those of its
rollback succeed, the thin IDs and the devices with their tables are the ones of
before. The rollback is the end of the calls made, from the first one that is
only made to undo: createDevice removes the device, CreateVolume deletes the
snapshot, and RemoveVolume opens the control device a second time. -/

namespace Fire2.Thin
open Interleaving Host

abbrev Made := Prog.Made Call Env Call.Answer

def undoes : Call → Bool
  | .devRemove _ | .delete _ | .probe _ => true
  | _ => false

def undoing (calls : List Made) : List Made := calls.dropWhile fun call => !undoes call.1

def rollback (calls : List Made) : List Made := undoing (calls.drop 2)

def succeeded : Made → Bool
  -- a node that is not there counts as removed
  | ⟨.probe _, _, opened⟩ => opened
  | ⟨.tableStatus _, _, .ok (some _)⟩ => true
  | ⟨.devRemove _, _, .ok ()⟩ | ⟨.delete _, _, .ok ()⟩ => true
  | ⟨.removeNode _, _, .ok ()⟩ | ⟨.removeNode _, _, .error .enoent⟩ => true
  | _ => false

def Succeed : List Made → Prop
  | [] => True
  | call :: rest => (succeeded call = true ∨ ∃ again ∈ rest, again.1 = call.1) ∧ Succeed rest

def faithful : Made → Bool
  | ⟨.createSnap .., e, _⟩ | ⟨.devCreate _, e, _⟩ => e.fails.all fun failure => !failure.2
  | _ => true

/-- The same thin IDs and the same devices, with the same tables. -/
structure Same (s t : Mapper) : Prop where
  thin : t.thin = s.thin
  devices : ∀ name, t.devices.get? name = s.devices.get? name

/-- One more thin ID, of the sandboxes' range, and one more device, which maps
it. -/
structure Added (p : Pool) (name : String) (s t : Mapper) : Prop where
  thin : ∃ n, t.thin = n :: s.thin ∧ n ∉ s.thin ∧ p.firstSandboxID ≤ n ∧ n ≤ maxThinID ∧
    ∃ d l, t.devices.get? name = some d ∧ d.loaded = none ∧ d.live = some [l] ∧ l.thinID? = some n
  absent : s.devices.get? name = none
  others : ∀ k, k ≠ name → t.devices.get? k = s.devices.get? k

structure Beside (name : String) (s t : Kernel) : Prop where
  thin : t.thin = s.thin
  devices : ∀ k, k ≠ name → t.devices.get? k = s.devices.get? k

section Calls
variable {p : Pool} {i : Nat} {name : String} {s t u : Kernel} {calls : List Made}

theorem Beside.refl (s : Kernel) : Beside name s s := ⟨rfl, fun _ _ => rfl⟩

theorem Beside.trans (h : Beside name s t) (h' : Beside name t u) : Beside name s u :=
  ⟨h'.thin.trans h.thin, fun k other => (h'.devices k other).trans (h.devices k other)⟩

def concerns (name : String) : Call → Prop
  -- calls on one device, and those that change nothing
  | .devCreate k | .tableLoad k _ | .devResume k | .devRemove k => k = name
  | .probe _ | .tableStatus _ | .statNode _ | .removeNode _ | .mknod .. => True
  | _ => False

theorem ioctl_beside {α : Type} {e : Env} {r : Except Errno α × Kernel} {a : Except Errno α}
    (h : Beside name s r.2) (ran : some (ioctl e s r) = some (a, t)) : Beside name s t := by
  obtain rfl | rfl := ioctl_state ran
  · exact .refl _
  · exact h

theorem set_beside {d : Device} : Beside name s { s with devices := s.devices.set name d } :=
  ⟨rfl, fun k other => by simp [other]⟩

theorem exec_beside {c : Call} {e : Env} {a : c.Answer} (h : concerns name c)
    (ran : exec p i c e s = some (a, t)) : Beside name s t := by
  cases c with
  | devCreate k =>
    obtain rfl : k = name := h
    refine ioctl_beside ?_ ran
    unfold devCreate
    split
    · exact .refl _
    · exact set_beside
  | tableLoad k targets =>
    obtain rfl : k = name := h
    refine ioctl_beside ?_ ran
    unfold tableLoad
    split
    · exact .refl _
    · exact .refl _
    · split
      · exact set_beside
      · exact .refl _
  | devResume k =>
    obtain rfl : k = name := h
    refine ioctl_beside ?_ ran
    unfold devResume
    split
    · exact .refl _
    · exact set_beside
  | devRemove k =>
    obtain rfl : k = name := h
    refine ioctl_beside ?_ ran
    unfold devRemove
    split
    · exact .refl _
    · split
      · exact .refl _
      · exact ⟨rfl, fun k other => by simp [other]⟩
  | tableStatus k => exact ioctl_beside (r := (tableStatus k e s, s)) (.refl s) ran
  | probe | statNode | removeNode | mknod =>
    cases ran
    exact .refl _
  | _ => exact h.elim

theorem beside_ran {α : Type} {m : M α} {a : α} (asks : m.Asks (fun _ _ => True) (concerns name))
    (h : m.Ran (exec p) i s calls a t) : Beside name s t :=
  (asks.ran Beside.refl (fun _ _ _ => Beside.trans)
    (fun _ _ _ _ _ hc ran => ⟨trivial, exec_beside hc ran⟩) h).1

theorem call_ran {c : Call} {a : c.Answer} (h : (call c).Ran (exec p) i s calls a t) :
    ∃ e, calls = [⟨c, e, a⟩] ∧ exec p i c e s = some (a, t) := by
  cases h with
  | @call _ _ e _ _ _ _ _ _ ran rest =>
    obtain ⟨rfl, rfl, rfl⟩ := rest.of_ret
    exact ⟨e, rfl, ran⟩

def named {α : Type} (what : String) : Except Errno α → Except Fault α
  | .error n => .error (.wrap what (.errno n))
  | .ok a => .ok a

theorem request_ran {α : Type} {what : String} {m : M (Except Errno α)} {r : Except Fault α}
    (h : (request name what m).Ran (exec p) i s calls r t) :
    (∃ err, newRequest name = .error err ∧ calls = [] ∧ r = .error err ∧ t = s) ∨
    newRequest name = .ok () ∧ ∃ a, m.Ran (exec p) i s calls a t ∧ r = named what a := by
  unfold request at h
  split at h
  · rename_i err refused
    obtain ⟨rfl, rfl, rfl⟩ := h.of_ret
    exact .inl ⟨err, refused, rfl, rfl, rfl⟩
  · rename_i sent
    obtain ⟨before, after, a, v, rfl, first, rest⟩ := h.of_bind
    refine .inr ⟨sent, a, ?_⟩
    cases a with
    | error n | ok =>
      obtain ⟨rfl, rfl, rfl⟩ := rest.of_ret
      exact ⟨by simpa using first, rfl⟩

theorem sent_ran {α : Type} {what : String} {m : M (Except Errno α)} {r : Except Fault α}
    (sendable : newRequest name = .ok ()) (h : (request name what m).Ran (exec p) i s calls r t) :
    ∃ a, m.Ran (exec p) i s calls a t ∧ r = named what a := by
  obtain ⟨err, refused, -⟩ | ⟨-, ran⟩ := request_ran h
  · cases sendable.symm.trans refused
  · exact ran

end Calls

section Undoing
variable {p : Pool} {i : Nat} {name : String} {s t u : Kernel} {calls : List Made}

theorem devRemove_ok {e : Env} {a : (Call.devRemove name).Answer}
    (ran : exec p i (.devRemove name) e s = some (a, t))
    (done : a = .ok ()) : t.devices.get? name = none := by
  subst done
  have removed := ioctl_ok ran
  unfold devRemove at removed
  split at removed
  · cases removed
  · split at removed
    · cases removed
    · cases removed
      simp

structure Failed (calls : List Made) : Prop where
  made : calls ≠ []
  all : ∀ call ∈ calls, succeeded call = false

theorem Succeed.of_append {before after : List Made} (h : Succeed (before ++ after)) :
    Succeed after := by
  induction before with
  | nil => exact h
  | cons _ _ ih => exact ih h.2

theorem Succeed.of_all (h : calls.all succeeded = true) : Succeed calls := by
  induction calls with
  | nil => trivial
  | cons call rest ih =>
    rw [List.all_cons, Bool.and_eq_true] at h
    exact ⟨.inl h.1, ih h.2⟩

theorem Succeed.tried_again {before after : List Made} (h : Succeed (before ++ after))
    (failed : Failed before) : ∃ call ∈ before, ∃ again ∈ after, again.1 = call.1 := by
  obtain ⟨last, init, rfl⟩ : ∃ last init, before = init ++ [last] :=
    ⟨_, _, (List.dropLast_append_getLast failed.made).symm⟩
  rw [List.append_assoc] at h
  obtain ok | again := h.of_append.1
  · exact absurd ((failed.all last (by simp)).symm.trans ok) Bool.false_ne_true
  · exact ⟨last, by simp, again⟩

theorem Succeed.not_failed (h : Succeed calls) (failed : Failed calls) : False := by
  rw [← List.append_nil calls] at h
  obtain ⟨_, _, _, mem, _⟩ := h.tried_again failed
  cases mem

theorem Failed.single {call : Made} (h : succeeded call = false) : Failed [call] :=
  ⟨List.cons_ne_nil _ _, by simpa using h⟩

theorem Failed.cons {call : Made} (h : succeeded call = false) (rest : Failed calls) :
    Failed ([call] ++ calls) :=
  ⟨List.cons_ne_nil _ _, List.forall_mem_cons.2 ⟨h, rest.all⟩⟩

theorem removeDevice_ran {left : Nat} {r : Except Fault Unit} (sendable : newRequest name = .ok ())
    (h : (removeDevice name left).Ran (exec p) i s calls r t) :
    r = .ok () ∧ t.devices.get? name = none ∨ (∃ err, r = .error err) ∧ Failed calls := by
  induction left generalizing s calls with
  | zero =>
    obtain ⟨a, asked, rfl⟩ := sent_ran sendable h
    obtain ⟨e, rfl, ran⟩ := call_ran asked
    obtain n | _ := a
    · exact .inr ⟨⟨_, rfl⟩, .single rfl⟩
    · exact .inl ⟨rfl, devRemove_ok ran rfl⟩
  | succ left ih =>
    obtain ⟨before, after, b, v, rfl, first, rest⟩ := Prog.Ran.of_bind h
    obtain ⟨a, asked, rfl⟩ := sent_ran sendable first
    obtain ⟨e, rfl, ran⟩ := call_ran asked
    obtain n | _ := a
    · dsimp only [named] at rest
      split at rest
      · exact (ih rest).imp_right fun ⟨err, failed⟩ => ⟨err, failed.cons rfl⟩
      · obtain ⟨rfl, rfl, rfl⟩ := rest.of_ret
        exact .inr ⟨⟨_, rfl⟩, .single rfl⟩
    · obtain ⟨rfl, rfl, rfl⟩ := rest.of_ret
      exact .inl ⟨rfl, devRemove_ok ran rfl⟩

theorem table_ran {left : Nat} {d : Device} {r : Except Fault (List Target)}
    (sendable : newRequest name = .ok ()) (there : s.devices.get? name = some d)
    (h : (table name left).Ran (exec p) i s calls r t) : t = s ∧ (left ≠ 0 → calls ≠ []) ∧
    ((∃ major minor, r = .ok ((d.live.getD []).map (printLine major minor))) ∨
      (∃ err, r = .error err) ∧ ∀ call ∈ calls, succeeded call = false) := by
  induction left generalizing calls with
  | zero =>
    obtain ⟨rfl, rfl, rfl⟩ := h.of_ret
    exact ⟨rfl, fun h => absurd rfl h, .inr ⟨⟨_, rfl⟩, fun _ mem => (by cases mem)⟩⟩
  | succ left ih =>
    obtain ⟨before, after, b, v, rfl, first, rest⟩ := Prog.Ran.of_bind h
    obtain ⟨a, asked, rfl⟩ := sent_ran sendable first
    obtain ⟨e, rfl, ran⟩ := call_ran asked
    have same : v = s := (ioctl_state (r := (tableStatus name e s, s)) ran).elim id id
    subst same
    obtain n | found := a
    · obtain ⟨rfl, rfl, rfl⟩ := rest.of_ret
      exact ⟨rfl, fun _ => List.cons_ne_nil _ _, .inr ⟨⟨_, rfl⟩, by simp [succeeded]⟩⟩
    · have read : tableStatus name e v = .ok found := congrArg Prod.fst
        (ioctl_ok (r := (tableStatus name e v, v)) ran)
      simp only [tableStatus, there, Except.ok.injEq] at read
      obtain _ | targets := found
      · obtain ⟨same, -, known⟩ := ih rest
        refine ⟨same, fun _ => List.cons_ne_nil _ _, known.imp_right fun unread => ?_⟩
        exact ⟨unread.1, List.forall_mem_cons.2 ⟨rfl, unread.2⟩⟩
      · obtain ⟨rfl, rfl, rfl⟩ := rest.of_ret
        refine ⟨rfl, fun _ => List.cons_ne_nil _ _, .inl ⟨e.major, e.minor, ?_⟩⟩
        rw [Option.ite_none_left_eq_some] at read
        rw [← Option.some.inj read.2]

theorem removeNode_ran {path : String} {r : Except Fault Unit}
    (h : (removeNode path).Ran (exec p) i s calls r t) :
    t = s ∧ (r = .ok () ∨ (∃ err, r = .error err) ∧ Failed calls) := by
  obtain ⟨before, after, a, v, rfl, asked, rest⟩ := Prog.Ran.of_bind h
  obtain ⟨e, rfl, ran⟩ := call_ran asked
  cases ran
  split at rest
  · obtain ⟨rfl, rfl, rfl⟩ := rest.of_ret
    exact ⟨rfl, .inl rfl⟩
  · obtain ⟨rfl, rfl, rfl⟩ := rest.of_ret
    exact ⟨rfl, .inl rfl⟩
  · rename_i n absent answer
    obtain ⟨rfl, rfl, rfl⟩ := rest.of_ret
    refine ⟨rfl, .inr ⟨⟨_, rfl⟩, .single ?_⟩⟩
    rw [answer]
    cases n <;> first | rfl | exact absurd rfl absent

theorem deleteThin_ran {n : Nat} {r : Except Fault Unit} (sendable : newRequest p.name = .ok ())
    (h : (deleteThin p n).Ran (exec p) i s calls r t) :
    (r = .ok () ∧ t.thin = s.thin.filter (· ≠ n) ∧ t.devices = s.devices) ∨
    (∃ err, r = .error err) ∧ Failed calls := by
  obtain ⟨a, asked, rfl⟩ := sent_ran sendable h
  obtain ⟨e, rfl, ran⟩ := call_ran asked
  obtain _ | _ := a
  · exact .inr ⟨⟨_, rfl⟩, .single rfl⟩
  · have deleted := ioctl_ok ran
    unfold delete at deleted
    split at deleted
    · cases deleted
    · split at deleted
      · cases deleted
        exact .inl ⟨rfl, rfl, rfl⟩
      · cases deleted

theorem fields_plain {a : String} (plain : ∀ c ∈ a.toList, isSpace c = false)
    (written : a.toList ≠ []) : fields a = [a] := by
  have one := List.splitOnP_eq_singleton (p := isSpace) plain
  rw [fields, one, List.filter_singleton, decide_eq_true written, cond_true, List.map_singleton,
    String.ofList_toList]

theorem sandboxThinID_printed {l : Line} {n : Nat} (major minor : Nat) (mapped : l.thinID? = some n)
    (low : p.firstSandboxID ≤ n) (high : n ≤ maxThinID) :
    sandboxThinID p name [printLine major minor l] = .ok n := by
  cases l with
  | other t h => cases mapped
  | thin start length thinID =>
    cases mapped
    have number : fields (toString major ++ ":" ++ toString minor) = [toString major ++ ":" ++
        toString minor] := by
      refine fields_plain (fun c mem => ?_) ?_
      · simp only [String.toList_append, List.mem_append] at mem
        obtain (digit | colon) | digit := mem
        · exact digit_not_space (toString_digits digit)
        · cases List.mem_singleton.1 colon
          rfl
        · exact digit_not_space (toString_digits digit)
      · simp
    have small : n < 2 ^ 32 := by
      unfold maxThinID at high
      omega
    have two := fields_append (toString major ++ ":" ++ toString minor) (toString n)
    rw [number, fields_toString, List.singleton_append] at two
    simp only [sandboxThinID, printLine, two, parseUint_toString, small, if_true,
      low, high, and_self]

theorem removeVolume_ran {id : SandboxID} {d : Device} {l : Line} {n : Nat} {r : Except Fault Unit}
    (valid : volumeName id = .ok name) (sendable : newRequest name = .ok ())
    (sendable' : newRequest p.name = .ok ())
    (there : s.devices.get? name = some d) (live : d.live = some [l]) (mapped : l.thinID? = some n)
    (low : p.firstSandboxID ≤ n) (high : n ≤ maxThinID)
    (h : (removeVolume p id).Ran (exec p) i s calls r t) (done : Succeed calls) :
    t.thin = s.thin.filter (· ≠ n) ∧ t.devices.get? name = none ∧
      ∀ k, k ≠ name → t.devices.get? k = s.devices.get? k := by
  unfold removeVolume at h
  rw [valid] at h
  obtain ⟨before, after, opened, v, rfl, asked, rest⟩ := Prog.Ran.of_bind h
  obtain ⟨e, rfl, ran⟩ := call_ran asked
  cases ran
  cases ok : e.ok with
  | false =>
    rw [ok] at rest done
    obtain ⟨rfl, -⟩ := rest.of_ret
    exact (done.not_failed (.single rfl)).elim
  | true =>
    rw [ok] at rest
    obtain ⟨reading, after, table, v, rfl, read, rest⟩ := Prog.Ran.of_bind rest
    obtain ⟨rfl, made, ⟨major, minor, rfl⟩ | ⟨⟨err, rfl⟩, failed⟩⟩ := table_ran sendable there read
    · simp only [live, Option.getD_some, List.map_singleton,
        sandboxThinID_printed major minor mapped low high] at rest
      obtain ⟨removing, after, removed, w, rfl, remove, rest⟩ := Prog.Ran.of_bind rest
      obtain ⟨rfl, gone⟩ | ⟨⟨err, rfl⟩, failed⟩ := removeDevice_ran sendable remove
      · have beside := beside_ran (removeDevice_asks rfl) remove
        obtain ⟨unlinking, deleting, unlinked, x, rfl, unlink, rest⟩ := Prog.Ran.of_bind rest
        obtain ⟨rfl, rfl | ⟨⟨err, rfl⟩, failed⟩⟩ := removeNode_ran unlink
        · obtain ⟨-, thin, devices⟩ | ⟨-, failed⟩ := deleteThin_ran sendable' rest
          · rw [thin, devices]
            exact ⟨by rw [beside.thin], gone, beside.devices⟩
          · exact (done.of_append.of_append.of_append.of_append.not_failed failed).elim
        · obtain ⟨rfl, -⟩ := rest.of_ret
          rw [List.append_nil] at done
          exact (done.of_append.of_append.of_append.not_failed failed).elim
      · obtain ⟨rfl, -⟩ := rest.of_ret
        rw [List.append_nil] at done
        exact (done.of_append.of_append.not_failed failed).elim
    · -- the table was not read, so it is read again; but what follows is the node at most
      obtain ⟨call, mem, again, later, same⟩ := done.of_append.tried_again
        ⟨made (by decide), failed⟩
      have asked := (table_asks (P := fun c => c = .tableStatus name) rfl).made read call mem
      dsimp only at rest
      split at rest
      · have unlinked := (removeNode_asks (P := fun c => c = .removeNode (volumePath id))
          rfl).made rest again later
        cases asked.symm.trans (same.symm.trans unlinked)
      · obtain ⟨rfl, -⟩ := rest.of_ret
        cases later

end Undoing

section Creating
variable {p : Pool} {i : Nat} {name : String} {s t u : Kernel} {calls : List Made}

theorem ioctl_faithful {α : Type} {e : Env} {r : Except Errno α × Kernel} {a : Except Errno α}
    (real : (e.fails.all fun failure => !failure.2) = true)
    (ran : some (ioctl e s r) = some (a, t)) : r = (a, t) ∨ (∃ n, a = .error n) ∧ t = s := by
  unfold ioctl at ran
  split at ran
  · exact .inl (Option.some.inj ran)
  · rename_i n effect failed
    obtain rfl : effect = false := by simpa [failed] using real
    cases ran
    exact .inr ⟨⟨n, rfl⟩, rfl⟩

theorem createSnap_ran {n baseID : Nat} {e : Env} {a : (Call.createSnap n baseID).Answer}
    (ran : exec p i (.createSnap n baseID) e s = some (a, t))
    (real : faithful ⟨.createSnap n baseID, e, a⟩ = true) :
    (a = .ok () ∧ n ∉ s.thin ∧ t.thin = n :: s.thin ∧ t.devices = s.devices) ∨
    (∃ m, a = .error m) ∧ t = s := by
  obtain worked | failed := ioctl_faithful real ran
  · unfold createSnap at worked
    split at worked
    · cases worked
      exact .inr ⟨⟨_, rfl⟩, rfl⟩
    · rename_i fresh
      cases worked
      exact .inl ⟨rfl, fresh, rfl, rfl⟩
  · exact .inr failed

structure Snapped (p : Pool) (n : Nat) (s t : Kernel) : Prop where
  sendable : newRequest p.name = .ok ()
  low : p.firstSandboxID ≤ n
  high : n ≤ maxThinID
  fresh : n ∉ s.thin
  thin : t.thin = n :: s.thin
  devices : t.devices = s.devices

theorem createSnapshot_ran {baseID left : Nat} {r : Except Fault Nat}
    (range : p.firstSandboxID ≤ maxThinID)
    (h : (createSnapshot p baseID left).Ran (exec p) i s calls r t)
    (real : ∀ call ∈ calls, faithful call = true) :
    (∃ n, r = .ok n ∧ Snapped p n s t) ∨ (∃ err, r = .error err) ∧ t = s := by
  induction left generalizing calls with
  | zero =>
    obtain ⟨-, rfl, rfl⟩ := h.of_ret
    exact .inr ⟨⟨_, rfl⟩, rfl⟩
  | succ left ih =>
    obtain ⟨_, after, drawn, v, rfl, draw, rest⟩ := Prog.Ran.of_bind h
    obtain ⟨e, rfl, ran⟩ := call_ran draw
    cases ran
    have small : e.draw % (maxThinID - p.firstSandboxID + 1) < maxThinID - p.firstSandboxID + 1 :=
      Nat.mod_lt _ (Nat.succ_pos _)
    obtain ⟨trying, after, tried, v, rfl, create, next⟩ := Prog.Ran.of_bind rest
    have failed (err : Fault) (eq : tried = .error err) (same : v = s) :
        (∃ n, r = .ok n ∧ Snapped p n s t) ∨ (∃ err, r = .error err) ∧ t = s := by
      subst eq same
      dsimp only at next
      split at next
      · exact ih next fun call mem => real call (by simp [mem])
      · obtain ⟨-, rfl, rfl⟩ := next.of_ret
        exact .inr ⟨⟨_, rfl⟩, rfl⟩
    obtain ⟨err, -, -, refused, same⟩ | ⟨sendable, a, asked, rfl⟩ := request_ran create
    · exact failed err refused same
    · obtain ⟨e', rfl, ran⟩ := call_ran asked
      obtain ⟨rfl, fresh, thin, devices⟩ | ⟨⟨m, rfl⟩, same⟩ := createSnap_ran ran (real _ (by simp))
      · obtain ⟨-, rfl, rfl⟩ := next.of_ret
        exact .inl ⟨_, rfl, sendable, Nat.le_add_right _ _, by omega, fresh, thin, devices⟩
      · exact failed _ rfl same

theorem devCreate_ran {e : Env} {a : (Call.devCreate name).Answer}
    (ran : exec p i (.devCreate name) e s = some (a, t))
    (real : faithful ⟨.devCreate name, e, a⟩ = true) :
    (∃ dev, a = .ok dev ∧ s.devices.get? name = none ∧ t.devices.get? name =
      some ⟨dev, none, none⟩) ∨
      (∃ m, a = .error m) ∧ t = s := by
  obtain worked | failed := ioctl_faithful real ran
  · unfold devCreate at worked
    split at worked
    · cases worked
      exact .inr ⟨⟨_, rfl⟩, rfl⟩
    · rename_i absent
      cases worked
      exact .inl ⟨_, rfl, absent, by simp⟩
  · exact .inr failed

def Carries (n : Nat) (d : Device) : Prop :=
  d.loaded = none ∧ ∃ l, d.live = some [l] ∧ l.thinID? = some n

theorem tableLoad_ran {d : Device} {sectors n : Nat} {dev : String} {e : Env}
    (there : s.devices.get? name = some d)
    (ran : exec p i (.tableLoad name [⟨0, sectors, "thin", dev ++ " " ++ toString n⟩]) e
      s = some (.ok (), t)) :
    ∃ l, l.thinID? = some n ∧ t.devices.get? name = some { d with loaded := some [l] } := by
  have loaded := ioctl_ok ran
  unfold tableLoad at loaded
  rw [there] at loaded
  split at loaded
  · cases loaded
  · cases loaded
  · rename_i d' lines known parsed
    cases known
    split at loaded
    · simp only [List.mapM_cons, List.mapM_nil, Option.bind_eq_bind,
        Option.pure_def, Option.bind_some, Option.bind_eq_some_iff, Option.some.injEq] at parsed
      obtain ⟨l, line, rfl⟩ := parsed
      cases loaded
      exact ⟨l, parseTarget_thinID line, by simp⟩
    · cases loaded

theorem loadTable_ran {sectors n number : Nat} {dev : String}
    (sendable : newRequest name = .ok ()) (there : s.devices.get? name = some ⟨number, none, none⟩)
    (h : (loadTable name [⟨0, sectors, "thin", dev ++ " " ++ toString n⟩]).Ran
      (exec p) i s calls (.ok ()) t) :
    ∃ d, t.devices.get? name = some d ∧ Carries n d := by
  have short : encodeTargets [⟨0, sectors, "thin", dev ++ " " ++ toString n⟩] = .ok () := rfl
  unfold loadTable at h
  rw [short] at h
  obtain ⟨before, after, load, v, rfl, first, rest⟩ := Prog.Ran.of_bind h
  obtain ⟨a, asked, rfl⟩ := sent_ran sendable first
  obtain ⟨e, rfl, ran⟩ := call_ran asked
  obtain m | _ := a
  · obtain ⟨-, eq, -⟩ := rest.of_ret
    cases eq
  · obtain ⟨l, mapped, loaded⟩ := tableLoad_ran there ran
    obtain ⟨a, resume, eq⟩ := sent_ran sendable rest
    obtain ⟨e', rfl, ran'⟩ := call_ran resume
    obtain m | _ := a
    · cases eq
    · have resumed := ioctl_ok ran'
      unfold devResume at resumed
      rw [loaded] at resumed
      cases resumed
      exact ⟨⟨number, none, some [l]⟩, by simp, rfl, l, rfl, mapped⟩

theorem undo_ran {α : Type} {m : M (Except Fault Unit)}
    {k : Except Fault Unit → M (Except Fault α)} {err : Fault}
    {r : Except Fault α} (ok : k (.ok ()) = .ret (.error err))
    (failed : ∀ e, k (.error e) = .ret (.error (.join err e)))
    (h : (m >>= k).Ran (exec p) i s calls r t) :
    (∃ e, r = .error e) ∧ ∃ undone, m.Ran (exec p) i s calls undone t := by
  obtain ⟨before, after, undone, u, rfl, first, rest⟩ := h.of_bind
  have ended : after = [] ∧ (∃ e, r = .error e) ∧ t = u := by
    obtain e | _ := undone
    · rw [failed] at rest
      obtain ⟨rfl, rfl, rfl⟩ := rest.of_ret
      exact ⟨rfl, ⟨_, rfl⟩, rfl⟩
    · rw [ok] at rest
      obtain ⟨rfl, rfl, rfl⟩ := rest.of_ret
      exact ⟨rfl, ⟨_, rfl⟩, rfl⟩
  obtain ⟨rfl, error, rfl⟩ := ended
  exact ⟨error, undone, by simpa using first⟩

theorem createDevice_ran {sectors n : Nat} {dev : String} {r : Except Fault Nat}
    (h : (createDevice name [⟨0, sectors, "thin", dev ++ " " ++ toString n⟩]).Ran
      (exec p) i s calls r t)
    (real : ∀ call ∈ calls, faithful call = true) :
    (∃ number d, r = .ok number ∧ newRequest name = .ok () ∧ s.devices.get? name = none ∧
      t.devices.get? name = some d ∧ Carries n d ∧ ∀ call ∈ calls, undoes call.1 = false) ∨
    (∃ err, r = .error err) ∧ t = s ∧ (∀ call ∈ calls, undoes call.1 = false) ∨
    ∃ err creating removing v removed, r = .error err ∧ newRequest name = .ok () ∧
    s.devices.get? name = none ∧
      calls = creating ++ removing ∧ (∀ call ∈ creating, undoes call.1 = false) ∧
      (removeDevice name removeRetries).Ran (exec p) i v removing removed t := by
  obtain ⟨making, after, made, v, rfl, make, rest⟩ := Prog.Ran.of_bind h
  obtain ⟨err, -, rfl, rfl, rfl⟩ | ⟨sendable, a, asked, rfl⟩ := request_ran make
  · obtain ⟨rfl, rfl, rfl⟩ := rest.of_ret
    exact .inr (.inl ⟨⟨_, rfl⟩, rfl, by simp⟩)
  obtain ⟨e, rfl, ran⟩ := call_ran asked
  obtain ⟨number, rfl, absent, there⟩ | ⟨⟨m, rfl⟩, rfl⟩ := devCreate_ran ran (real _ (by simp))
  · obtain ⟨loading, after, loaded, w, rfl, load, next⟩ := Prog.Ran.of_bind rest
    have quiet : ∀ call ∈ loading, undoes call.1 = false :=
      (loadTable_asks (P := fun c => undoes c = false) rfl rfl).made load
    obtain err | _ := loaded
    · refine .inr (.inr ?_)
      obtain ⟨⟨err', rfl⟩, removed, remove⟩ := undo_ran rfl (fun _ => rfl) next
      refine ⟨err', ⟨.devCreate name, e, .ok number⟩ :: loading, after, w, removed, rfl, sendable,
        absent, by simp, ?_, remove⟩
      simpa [undoes] using quiet
    · obtain ⟨rfl, rfl, rfl⟩ := next.of_ret
      obtain ⟨d, found, carries⟩ := loadTable_ran sendable there load
      refine .inl ⟨number, d, rfl, sendable, absent, found, carries, ?_⟩
      simpa [undoes] using quiet
  · obtain ⟨rfl, rfl, rfl⟩ := rest.of_ret
    exact .inr (.inl ⟨⟨_, rfl⟩, rfl, by simp [undoes]⟩)

end Creating

section Rollback
variable {p : Pool} {i : Nat} {s t : Kernel} {calls before after : List Made}
  {r : Except Fault Unit} {n : Nat} {v : Kernel}

theorem undoing_append (quiet : ∀ call ∈ before, undoes call.1 = false) :
    undoing (before ++ after) = undoing after :=
  List.dropWhile_append_of_pos (by simpa using quiet)

theorem undoing_cons {call : Made} {rest : List Made} (undo : undoes call.1 = true) :
    undoing (call :: rest) = call :: rest := by
  simp [undoing, undo]

theorem undoing_all (undo : ∀ call ∈ after, undoes call.1 = true) : undoing after = after := by
  cases after with
  | nil => rfl
  | cons call rest => exact undoing_cons (undo call (by simp))

theorem removeVolume_opens {id : SandboxID} {name : String} (valid : volumeName id = .ok name)
    (h : (removeVolume p id).Ran (exec p) i s calls r t) :
    ∃ e opened rest, calls = ⟨.probe .openControl, e, opened⟩ :: rest := by
  unfold removeVolume at h
  rw [valid] at h
  obtain ⟨_, rest, opened, v, rfl, asked, -⟩ := Prog.Ran.of_bind h
  obtain ⟨e, rfl, -⟩ := call_ran asked
  exact ⟨e, opened, rest, rfl⟩

theorem ensureNode_ran {path : String} {dev left : Nat}
    (h : (ensureNode path dev left).Ran (exec p) i s calls r t) :
    t = s ∧ ∀ call ∈ calls, undoes call.1 = false := by
  have asks : (ensureNode path dev left).Asks (fun _ _ => True) fun c =>
      undoes c = false ∧ ∀ e s a t, exec p i c e s = some (a, t) → t = s := by
    refine ensureNode_asks ⟨rfl, ?_⟩ ⟨rfl, ?_⟩ ⟨rfl, ?_⟩
      <;> exact fun _ _ _ _ ran => by cases ran; rfl
  obtain ⟨same, calls⟩ := asks.ran (R := fun s t => t = s) (fun _ => rfl)
    (fun _ _ _ h h' => h'.trans h) (fun c e s r t hc ran => ⟨trivial, hc.2 e s r t ran⟩) h
  exact ⟨same, fun call mem => (calls call mem).1⟩

theorem Snapped.restored (made : Snapped p n s v) (thin : t.thin = v.thin.filter (· ≠ n))
    (devices : ∀ k, t.devices.get? k = v.devices.get? k) : Same s.toMapper t.toMapper := by
  refine ⟨?_, fun k => by rw [devices, made.devices]⟩
  have others : ∀ m ∈ s.thin, m ≠ n := fun m mem eq => made.fresh (eq ▸ mem)
  rw [thin, made.thin]
  simpa using others

theorem Snapped.deleted {v w : Kernel} (made : Snapped p n s v)
    (thin : w.thin = v.thin) (devices : ∀ k, w.devices.get? k = v.devices.get? k)
    (h : (deleteThin p n).Ran (exec p) i w calls r t) (done : Succeed calls) :
    Same s.toMapper t.toMapper := by
  obtain ⟨-, freed, kept⟩ | ⟨-, failed⟩ := deleteThin_ran made.sendable h
  · exact made.restored (by rw [freed, thin]) fun k => by rw [kept, devices]
  · exact (done.not_failed failed).elim

theorem Snapped.removed {v w : Kernel} {id : SandboxID} {name : String} {d : Device}
    (made : Snapped p n s v) (valid : volumeName id = .ok name)
    (sendable : newRequest name = .ok ()) (absent : v.devices.get? name = none)
    (beside : Beside name v w) (there : w.devices.get? name = some d) (carries : Carries n d)
    (h : (removeVolume p id).Ran (exec p) i w calls r t) (done : Succeed calls) :
    Same s.toMapper t.toMapper := by
  obtain ⟨-, l, live, mapped⟩ := carries
  obtain ⟨freed, gone, kept⟩ :=
    removeVolume_ran valid sendable made.sendable there live mapped made.low made.high h done
  refine made.restored (by rw [freed, beside.thin]) fun k => ?_
  by_cases same : k = name
  · rw [same, gone, absent]
  · rw [kept k same, beside.devices k same]

end Rollback

section Attaching
variable {p : Pool} {id : SandboxID} {i : Nat} {name : String} {sectors n : Nat} {s t v : Kernel}
  {calls : List Made} {r : Except Fault String}

def attach (p : Pool) (id : SandboxID) (name : String) (sectors thinID : Nat) :
    M (Except Fault String) := do
  let params := mapperDir ++ p.name ++ " " ++ toString thinID
  match ← createDevice name [⟨0, sectors, "thin", params⟩] with
  | .error err =>
    match ← deleteThin p thinID with
    | .error delErr => return .error (.join err delErr)
    | .ok () => return .error err
  | .ok dev =>
    let path := volumePath id
    match ← ensureNode path dev 2 with
    | .ok () => return .ok path
    | .error err =>
      match ← removeVolume p id with
      | .error rmErr => return .error (.join err rmErr)
      | .ok () => return .error err

theorem createVolume_ran (range : p.firstSandboxID ≤ maxThinID)
    (ran : (createVolume p id).Ran (exec p) i s calls r t)
    (real : ∀ call ∈ calls, faithful call = true) :
    (∃ err, r = .error err) ∧ t = s ∨
    ∃ name sectors n v opening snapping rest, volumeName id = .ok name ∧
      calls = opening ++ (snapping ++ rest) ∧ opening.length = 2 ∧
      (∀ call ∈ snapping, undoes call.1 = false) ∧ Snapped p n s v ∧
      (attach p id name sectors n).Ran (exec p) i v rest r t := by
  unfold createVolume at ran
  split at ran
  · obtain ⟨-, rfl, rfl⟩ := ran.of_ret
    exact .inl ⟨⟨_, rfl⟩, rfl⟩
  rename_i name named
  obtain ⟨_, after, based, v, rfl, base, next⟩ := Prog.Ran.of_bind ran
  obtain ⟨e, rfl, read⟩ := call_ran base
  cases read
  split at next
  · obtain ⟨-, rfl, rfl⟩ := next.of_ret
    exact .inl ⟨⟨_, rfl⟩, rfl⟩
  obtain ⟨_, after, opened, v, rfl, open_, next⟩ := Prog.Ran.of_bind next
  obtain ⟨e', rfl, read⟩ := call_ran open_
  cases read
  split at next
  · obtain ⟨-, rfl, rfl⟩ := next.of_ret
    exact .inl ⟨⟨_, rfl⟩, rfl⟩
  obtain ⟨snapping, after, snapped, v, rfl, snap, snapDone⟩ := Prog.Ran.of_bind next
  have quiet : ∀ call ∈ snapping, undoes call.1 = false :=
    (createSnapshot_asks (P := fun c => undoes c = false) rfl fun _ => rfl).made snap
  obtain ⟨n, rfl, made⟩ | ⟨⟨err, rfl⟩, rfl⟩ :=
    createSnapshot_ran range snap fun call mem => real call (by simp [mem])
  · exact .inr ⟨name, _, n, v, [_, _], snapping, after, named, rfl, rfl, quiet, made, snapDone⟩
  · obtain ⟨-, rfl, rfl⟩ := snapDone.of_ret
    exact .inl ⟨⟨_, rfl⟩, rfl⟩

structure Mapped (name : String) (n : Nat) (s t : Kernel) : Prop where
  sendable : newRequest name = .ok ()
  absent : s.devices.get? name = none
  found : ∃ d, t.devices.get? name = some d ∧ Carries n d
  beside : Beside name s t

inductive Attached (p : Pool) (id : SandboxID) (i : Nat) (name : String) (n : Nat)
    (s t : Kernel) : List Made → Except Fault String → Prop where
  | done (path : String) (calls : List Made) (mapped : Mapped name n s t) :
      Attached p id i name n s t calls (.ok path)
  | unlinked (err : Fault) (creating removing : List Made) (w : Kernel) (mapped : Mapped name n s w)
      (quiet : ∀ call ∈ creating, undoes call.1 = false) (removed : Except Fault Unit)
      (remove : (removeVolume p id).Ran (exec p) i w removing removed t) :
      Attached p id i name n s t (creating ++ removing) (.error err)
  | unmade (err : Fault) (creating deleting : List Made)
      (quiet : ∀ call ∈ creating, undoes call.1 = false) (deleted : Except Fault Unit)
      (delete : (deleteThin p n).Ran (exec p) i s deleting deleted t) :
      Attached p id i name n s t (creating ++ deleting) (.error err)
  | removed (err : Fault) (sectors : Nat) (dev : String) (creating removing deleting : List Made)
      (v w : Kernel) (created : Except Fault Nat) (sendable : newRequest name = .ok ())
      (absent : s.devices.get? name = none)
      (quiet : ∀ call ∈ creating, undoes call.1 = false)
      (create : (createDevice name [⟨0, sectors, "thin", dev ++ " " ++ toString n⟩]).Ran
        (exec p) i s (creating ++ removing) created w)
      (gone : Except Fault Unit)
      (remove : (removeDevice name removeRetries).Ran (exec p) i v removing gone w)
      (deleted : Except Fault Unit)
      (delete : (deleteThin p n).Ran (exec p) i w deleting deleted t) :
      Attached p id i name n s t (creating ++ (removing ++ deleting)) (.error err)

theorem attach_ran (ran : (attach p id name sectors n).Ran (exec p) i s calls r t)
    (real : ∀ call ∈ calls, faithful call = true) : Attached p id i name n s t calls r := by
  obtain ⟨creating, after, device, w, rfl, create, createDone⟩ := Prog.Ran.of_bind ran
  have beside := beside_ran (createDevice_asks rfl rfl rfl rfl) create
  obtain ⟨number, d, rfl, sendable, absent, found, carries, quiet⟩ | ⟨⟨err, rfl⟩, rfl, quiet⟩ |
    ⟨err, making, removing, x, removed, rfl, sendable, absent, rfl, quiet, remove⟩ :=
    createDevice_ran create fun call mem => real call (by simp [mem])
  · obtain ⟨noding, after, ensured, y, rfl, ensure, ensureDone⟩ := Prog.Ran.of_bind createDone
    have mapped : Mapped name n s w := ⟨sendable, absent, ⟨d, found, carries⟩, beside⟩
    obtain ⟨rfl, quiet'⟩ := ensureNode_ran ensure
    obtain err | _ := ensured
    · obtain ⟨⟨_, rfl⟩, removed, remove⟩ := undo_ran rfl (fun _ => rfl) ensureDone
      rw [← List.append_assoc]
      refine .unlinked _ _ _ _ mapped (fun call mem => ?_) removed remove
      exact (List.mem_append.1 mem).elim (quiet call) (quiet' call)
    · obtain ⟨-, rfl, rfl⟩ := ensureDone.of_ret
      exact .done _ _ mapped
  · obtain ⟨⟨_, rfl⟩, deleted, delete⟩ := undo_ran rfl (fun _ => rfl) createDone
    exact .unmade _ _ _ quiet deleted delete
  · obtain ⟨⟨_, rfl⟩, deleted, delete⟩ := undo_ran rfl (fun _ => rfl) createDone
    rw [List.append_assoc]
    exact .removed _ _ _ making removing after x w _ sendable absent quiet create removed remove
      deleted delete

end Attaching

/-- A create that fails, with every operation of its rollback succeeding, leaves
the thin IDs and the devices as they were; one that succeeds adds a thin ID and
a device. -/
theorem create_rolls_back {confPath : String} {vars : Settings} {p : Pool}
    (valid : loadPool confPath vars = .ok p)
    {id : SandboxID} {i : Nat} {s t : Kernel} {calls : List Made} {r : Except Fault String}
    (ran : (createVolume p id).Ran (exec p) i s calls r t)
    (real : ∀ call ∈ calls, faithful call = true) (undone : Succeed (rollback calls)) :
    match r with
    | .error _ => Same s.toMapper t.toMapper
    | .ok _ => Added p (volumePrefix ++ id) s.toMapper t.toMapper := by
  obtain ⟨⟨err, rfl⟩, rfl⟩ | ⟨name, sectors, n, v, opening, snapping, rest, named, rfl, two, quiet,
    made, ran⟩ := createVolume_ran (loadPool_valid valid).2 ran real
  · exact ⟨rfl, fun _ => rfl⟩
  rw [rollback, List.drop_left' two, undoing_append quiet] at undone
  cases attach_ran ran fun call mem => real call (by simp [mem]) with
  | done path _ mapped =>
    obtain ⟨-, absent, ⟨d, found, unloaded, l, live, carried⟩, beside⟩ := mapped
    rw [volumeName_eq named] at absent found beside
    refine ⟨⟨n, beside.thin.trans made.thin, made.fresh, made.low, made.high, d, l, found,
      unloaded, live,
      carried⟩, by rwa [← made.devices],
      fun k other => by rw [beside.devices k other, made.devices]⟩
  | unlinked err creating removing w mapped quiet removed remove =>
    obtain ⟨sendable, absent, ⟨d, found, carries⟩, beside⟩ := mapped
    obtain ⟨_, _, rest, rfl⟩ := removeVolume_opens named remove
    rw [undoing_append quiet, undoing_cons rfl] at undone
    exact made.removed named sendable absent beside found carries remove undone
  | unmade err creating deleting quiet deleted delete =>
    have deletes := (request_asks (call_asks (P := fun c => undoes c = true) rfl)).made delete
    rw [undoing_append quiet, undoing_all deletes] at undone
    exact made.deleted rfl (fun _ => rfl) delete undone
  | removed err sectors dev creating removing deleting x w created sendable absent quiet create gone
      remove deleted delete =>
    have beside := beside_ran (createDevice_asks rfl rfl rfl rfl) create
    have deletes := (request_asks (call_asks (P := fun c => c = .delete n) rfl)).made delete
    have removes := (removeDevice_asks (P := fun c => c = .devRemove name) rfl).made remove
    rw [undoing_append quiet, undoing_all] at undone
    · obtain ⟨-, gone⟩ | ⟨-, failed⟩ := removeDevice_ran sendable remove
      · refine made.deleted beside.thin (fun k => ?_) delete undone.of_append
        by_cases same : k = name
        · rw [same, gone, absent]
        · exact beside.devices k same
      · obtain ⟨call, mem, again, later, same⟩ := undone.tried_again failed
        cases (removes call mem).symm.trans (same.symm.trans (deletes again later))
    · intro call mem
      obtain mem | mem := List.mem_append.1 mem
      · rw [removes call mem]
        rfl
      · rw [deletes call mem]
        rfl

def notResumed : List Env :=
  [{ baseEnv := .ok someBase }, {}, {}, {}, {}, {}, { fails := some (.ebusy, true) }, {}, {}]

theorem create_rolls_back_notResumed : ∃ calls t,
    (createVolume somePool "a").Ran (exec somePool) 0 importedPool.boot calls
      (.error (.wrap "resume fire2-sb-a" (.errno .ebusy))) t ∧
    (rollback calls).length = 2 ∧ Same importedPool t.toMapper := by
  have failed : ((createVolume somePool "a").alone (exec somePool) 0 notResumed
    importedPool.boot).map Prod.fst =
      some (.error (.wrap "resume fire2-sb-a" (.errno .ebusy))) := by decide +kernel
  have checked : ((createVolume somePool "a").made (exec somePool) 0 notResumed
    importedPool.boot).all faithful = true ∧
      (rollback ((createVolume somePool "a").made (exec somePool) 0 notResumed
        importedPool.boot)).all succeeded = true ∧
      (rollback ((createVolume somePool "a").made (exec somePool) 0 notResumed
        importedPool.boot)).length = 2 := by
    decide +kernel
  obtain ⟨⟨r, t⟩, run, rfl⟩ := Option.map_eq_some_iff.1 failed
  have valid : loadPool "thinpool.conf" someConf = .ok somePool := by decide +kernel
  have ran := Prog.ran_of_alone run
  exact ⟨_, t, ran, checked.2.2,
    create_rolls_back valid ran (List.all_eq_true.1 checked.1) (.of_all checked.2.1)⟩

end Fire2.Thin
