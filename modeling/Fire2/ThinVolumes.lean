import Fire2.ThinPool

/-! `CreateVolume` and `RemoveVolume` against the pool. A thread holds the thin ID
that its `create_snap` allocated, and the one that its removal took off a device:
nobody else maps or frees it, so it is the thread's to load or to delete. -/

namespace Fire2.Thin
open Interleaving Host

section Triples
variable {α : Type} {p : Pool} {i : Nat} {id : SandboxID} {n : Nat} {s t u : Kernel}
  {Q : α → Kernel → Prop} {c : Call} {left : Nat}

theorem call_wp {k : c.Answer → M α} (mine : s.owner id = some i)
    (allowed : ∀ t, t.owner id = some i → Undisturbed i s t → may p i id t c)
    (next : ∀ t e a u, Sane t.toMapper → t.owner id = some i → Undisturbed i s t →
      exec p i c e t = some (a, u) → WP (exec p) (spec p) i Q (k a) u) :
    WP (exec p) (spec p) i Q (.call c k) s :=
  .call (fun t _ rely => ⟨id, allowed t (rely.2 id mine).1 rely.2⟩)
    fun t e a u sane rely _ ran _ => next t e a u sane (rely.2 id mine).1 rely.2 ran

def plain : Call → Bool
  | .disown _ | .delete _ | .devCreate _ | .devResume _ | .devRemove _ | .tableLoad .. => false
  | _ => true

theorem plain_steady (h : plain c = true) : steady c = true := by
  cases c with
  | disown | delete => cases h
  | _ => rfl

theorem plain_may (h : plain c = true) : may p i id s c := by
  cases c with
  | disown | delete | devCreate | devResume | devRemove | tableLoad => cases h
  | _ => trivial

theorem ask_wp (mine : s.owner id = some i) (free : plain c = true) :
    WP (exec p) (spec p) i (fun a t => t.owner id = some i ∧ ∃ e u, Sane u.toMapper ∧
      exec p i c e u = some (a, t)) (call c) s := by
  refine call_wp mine (fun _ _ _ => plain_may free) fun t e a u sane mine _ ran => .ret
    ⟨?_, e, t, sane, ran⟩
  rw [(exec_frame (plain_steady free) ran).1]
  exact mine

theorem request_wp {β : Type} {name what : String} {R : Except Errno β → Kernel → Prop}
    {Q : Except Fault β → Kernel → Prop} {m : M (Except Errno β)} (h : WP (exec p) (spec p) i R m s)
    (refused : ∀ err, Q (.error err) s) (ok : ∀ b t, R (.ok b) t → Q (.ok b) t)
    (error : ∀ x err t, R (.error x) t → Q (.error err) t) :
    WP (exec p) (spec p) i Q (request name what m) s := by
  unfold request
  split
  · exact .ret (refused _)
  · refine h.bind fun r t known => ?_
    cases r with
    | error x => exact .ret (error x _ t known)
    | ok b => exact .ret (ok b t known)

def works (p : Pool) (id : SandboxID) (n : Nat) : Call → Prop
  | .devCreate name | .devResume name | .devRemove name => name = volumePrefix ++ id
  | .tableLoad name targets => name = volumePrefix ++ id ∧
      ∀ t ∈ targets, ∀ l m, parseTarget p.name t = some l → l.thinID? = some m → m = n
  | .statNode _ | .removeNode _ | .mknod .. => True
  | _ => False

theorem works_may (h : works p id n c) (mine : s.owner id = some i) (held : Held i id n s) :
    may p i id s c := by
  cases c with
  | devCreate | devResume | devRemove => exact ⟨h, mine⟩
  | tableLoad name targets =>
    refine ⟨h.1, mine, fun t mem l m parsed thin => ?_⟩
    rw [h.2 t mem l m parsed thin]
    exact held
  | statNode | removeNode | mknod => trivial
  | _ => exact h.elim

theorem works_steady (h : works p id n c) : steady c = true := by
  cases c with
  | disown | delete => exact h.elim
  | _ => rfl

theorem works_wp {m : M α} (asks : m.Asks (fun _ _ => True) (works p id n))
    (mine : s.owner id = some i) (held : Held i id n s) :
    WP (exec p) (spec p) i (fun _ t => t.owner id = some i ∧ Held i id n t) m s := by
  refine WP.within (φ := fun s => s.owner id = some i ∧ Held i id n s) ?_ ?_ ?_ asks ⟨mine, held⟩
  · rintro s t ⟨mine, held⟩ rely
    obtain ⟨mine', -, kept⟩ := rely.2 id mine
    exact ⟨mine', kept n held⟩
  · rintro c s allowed - ⟨mine, held⟩
    exact ⟨id, works_may allowed mine held⟩
  · rintro c e s r t allowed - ⟨mine, held⟩ - ran
    have touch := exec_touch (works_may allowed mine held) ran
    obtain ⟨owner, thin⟩ := exec_frame (works_steady allowed) ran
    exact ⟨trivial, by rw [owner]; exact mine, touch.held_self (thin n held.allocated) held⟩

theorem createSnap_held (sane : Sane s.toMapper) (h : createSnap i n s = (.ok (), t)) :
    Held i id n t := by
  unfold createSnap at h
  split at h
  · cases h
  · rename_i fresh
    cases h
    refine ⟨List.mem_cons_self, Function.update_self _ _ _, fun id' mapped => ?_⟩
    exact absurd (sane.allocated id' n mapped) fresh

theorem createSnapshot_wp {baseID left : Nat} (range : p.firstSandboxID ≤ maxThinID)
    (mine : s.owner id = some i) :
    WP (exec p) (spec p) i (fun r t => t.owner id = some i ∧ ∀ n, r = .ok n →
      Held i id n t ∧ p.firstSandboxID ≤ n ∧ n ≤ maxThinID) (createSnapshot p baseID left) s := by
  induction left generalizing s with
  | zero => exact .ret ⟨mine, nofun⟩
  | succ left ih =>
    refine (ask_wp mine rfl).bind fun drawn t known => ?_
    obtain ⟨mine, e, u, -, ran⟩ := known
    have small : p.firstSandboxID + drawn ≤ maxThinID := by
      cases ran
      have small : e.draw % (maxThinID - p.firstSandboxID + 1) < maxThinID - p.firstSandboxID + 1 :=
        Nat.mod_lt _ (Nat.succ_pos _)
      omega
    have tried : WP (exec p) (spec p) i (fun r t => t.owner id = some i ∧
        (r = .ok () → Held i id (p.firstSandboxID + drawn) t))
        (call (.createSnap (p.firstSandboxID + drawn) baseID)) t := by
      refine (ask_wp mine rfl).mono fun r t known => ⟨known.1, ?_⟩
      rintro rfl
      obtain ⟨e, u, sane, ran⟩ := known.2
      exact createSnap_held sane (ioctl_ok ran)
    refine WP.bind (request_wp (Q := fun r t => t.owner id = some i ∧
        (r = .ok () → Held i id (p.firstSandboxID + drawn) t)) tried (fun _ => ⟨mine, nofun⟩)
      (fun _ _ known => ⟨known.1, fun _ => known.2 rfl⟩) fun _ _ _ known =>
      ⟨known.1, nofun⟩) fun r t known => ?_
    cases r with
    | ok =>
      refine .ret ⟨known.1, ?_⟩
      rintro n ⟨⟩
      exact ⟨known.2 rfl, Nat.le_add_right _ _, small⟩
    | error err =>
      dsimp only
      split
      · exact ih known.1
      · exact .ret ⟨known.1, nofun⟩

def Known (i : Nat) (id : SandboxID) (n : Nat) (s : Kernel) : Prop :=
  s.maps id n = true ∨ Held i id n s

theorem Known.undisturbed (h : Known i id n s) (mine : s.owner id = some i)
    (rest : Undisturbed i s t) : Known i id n t := by
  obtain ⟨-, device, held⟩ := rest id mine
  obtain mapped | known := h
  · exact .inl ((maps_congr device n).trans mapped)
  · exact .inr (held n known)

theorem devRemove_held {e : Env} (sane : Sane s.toMapper) (mine : s.owner id = some i)
    (known : Known i id n s) (h : devRemove i (volumePrefix ++ id) e s = (.ok (), t)) :
    Held i id n t := by
  have touch : Touch i id s t := by
    have after := devRemove_touch (e := e) mine
    rwa [h] at after
  unfold devRemove at h
  split at h
  · cases h
  rename_i d there
  split at h
  · cases h
  cases h
  obtain mapped | held := known
  · obtain ⟨d', found, maps⟩ := maps_iff.1 mapped
    cases there.symm.trans found
    refine ⟨sane.allocated id n mapped, if_pos maps, fun id' mapped' => ?_⟩
    obtain old | ⟨same, -⟩ := touch.maps_cases mapped'
    · exact sane.apart id' id n old mapped
    · exact same
  · exact touch.held_self held.allocated held

theorem devRemove_known {e : Env} (sane : Sane s.toMapper) (mine : s.owner id = some i)
    (known : Known i id n s) : Known i id n (devRemove i (volumePrefix ++ id) e s).2 := by
  have removed := fun t => devRemove_held (t := t) (e := e) sane mine known
  revert removed
  unfold devRemove
  split
  · exact fun _ => known
  · split
    · exact fun _ => known
    · exact fun removed => .inr (removed _ rfl)

theorem removeDevice_wp (mine : s.owner id = some i) (known : Known i id n s) :
    WP (exec p) (spec p) i (fun r t => t.owner id = some i ∧ (r = .ok () → Held i id n t))
      (removeDevice (volumePrefix ++ id) left) s := by
  have tried {s : Kernel} (mine : s.owner id = some i) (known : Known i id n s) :
      WP (exec p) (spec p) i (fun r t => t.owner id = some i ∧ Known i id n t ∧
        (r = .ok () → Held i id n t))
        (request (volumePrefix ++ id) ("remove device " ++ (volumePrefix ++ id))
          (call (.devRemove (volumePrefix ++ id)))) s := by
    refine request_wp (R := fun r t => t.owner id = some i ∧ Known i id n t ∧
      (r = .ok () → Held i id n t)) ?_ (fun _ => ⟨mine, known, nofun⟩)
      (fun _ _ known => ⟨known.1, known.2.1, fun _ => known.2.2 rfl⟩)
      fun _ _ _ known => ⟨known.1, known.2.1, nofun⟩
    refine call_wp mine (fun t mine _ => ⟨rfl, mine⟩)
      fun t e a u sane mine' rest ran => .ret ⟨?_, ?_, ?_⟩
    · rw [(exec_frame rfl ran).1]
      exact mine'
    · have still := known.undisturbed mine rest
      obtain rfl | rfl := ioctl_state ran
      · exact still
      · exact devRemove_known sane mine' still
    · rintro rfl
      exact devRemove_held sane mine' (known.undisturbed mine rest) (ioctl_ok ran)
  induction left generalizing s with
  | zero => exact (tried mine known).mono fun _ _ known => ⟨known.1, known.2.2⟩
  | succ left ih =>
    refine (tried mine known).bind fun r t known => ?_
    cases r with
    | ok => exact .ret ⟨known.1, known.2.2⟩
    | error err =>
      dsimp only
      split
      · exact ih known.1 known.2.1
      · exact .ret ⟨known.1, nofun⟩

theorem table_wp (mine : s.owner id = some i) :
    WP (exec p) (spec p) i (fun r t => t.owner id = some i ∧ ∀ targets,
      r = .ok targets → ∃ d major minor, t.device? id = some d ∧ targets = (d.live.getD []).map
      (printLine major minor)) (table (volumePrefix ++ id) left) s := by
  induction left generalizing s with
  | zero => exact .ret ⟨mine, by simp⟩
  | succ left ih =>
    have read : WP (exec p) (spec p) i (fun r t => t.owner id = some i ∧ ∀ targets,
      r = .ok (some targets) →
        ∃ d major minor, t.device? id = some d ∧ targets = (d.live.getD []).map
        (printLine major minor)) (call (.tableStatus (volumePrefix ++ id))) s := by
      refine (ask_wp mine rfl).mono fun r t known => ⟨known.1, ?_⟩
      rintro targets rfl
      obtain ⟨e, u, -, ran⟩ := known.2
      obtain ⟨status, rfl⟩ := Prod.mk.inj (ioctl_ok ran)
      unfold tableStatus at status
      split at status
      · cases status
      · rename_i d there
        split at status
        · cases status
        · cases status
          exact ⟨d, e.major, e.minor, there, rfl⟩
    unfold table
    refine WP.bind (request_wp (Q := fun r t => t.owner id = some i ∧ ∀ targets,
      r = .ok (some targets) →
        ∃ d major minor, t.device? id = some d ∧ targets = (d.live.getD []).map
        (printLine major minor)) read
      (fun _ => ⟨mine, by simp⟩) ?_ fun _ _ _ known => ⟨known.1, by simp⟩) fun r t known => ?_
    · rintro b t ⟨mine, known⟩
      exact ⟨mine, fun targets eq => known targets (by rw [Except.ok.inj eq])⟩
    · split
      · exact .ret ⟨known.1, by simp⟩
      · refine .ret ⟨known.1, ?_⟩
        rintro targets ⟨⟩
        exact known.2 _ rfl
      · exact ih known.1

theorem deleteThin_wp (mine : s.owner id = some i) (held : Held i id n s)
    (low : p.firstSandboxID ≤ n) (high : n ≤ maxThinID) :
    WP (exec p) (spec p) i (fun _ t => t.owner id = some i) (deleteThin p n) s := by
  refine request_wp (R := fun _ t => t.owner id = some i) ?_ (fun _ => mine)
    (fun _ _ known => known) fun _ _ _ known => known
  refine call_wp mine (fun t mine' rest => ⟨mine', (rest id mine).2.2 n held, low, high⟩)
    fun t e a u _ mine _ ran => .ret ?_
  obtain rfl | rfl := ioctl_state ran
  · exact mine
  · unfold delete
    split
    · exact mine
    · split <;> exact mine

theorem removeNode_wp {path : String} (mine : s.owner id = some i) :
    WP (exec p) (spec p) i (fun _ t => t.owner id = some i) (removeNode path) s := by
  refine (ask_wp mine rfl).bind fun r t known => ?_
  split <;> exact .ret known.1

theorem removeVolume_wp (mine : s.owner id = some i) :
    WP (exec p) (spec p) i (fun _ t => t.owner id = some i) (removeVolume p id) s := by
  unfold removeVolume
  split
  · exact .ret mine
  rename_i name named
  cases volumeName_eq named
  refine (ask_wp mine rfl).bind fun opened t known => ?_
  split
  · exact .ret known.1
  refine (table_wp known.1).bind fun r t known => ?_
  obtain ⟨mine, shown⟩ := known
  cases r with
  | error err =>
    dsimp only
    split
    · exact removeNode_wp mine
    · exact .ret mine
  | ok targets =>
    dsimp only
    split
    · exact .ret mine
    rename_i thinID read
    obtain ⟨d, major, minor, there, rfl⟩ := shown targets rfl
    obtain ⟨⟨l, mem, thin⟩, low, high⟩ := sandboxThinID_maps read
    have mapped : d.maps thinID = true :=
      List.any_eq_true.2 ⟨l, List.mem_append_right _ mem, decide_eq_true thin⟩
    refine (removeDevice_wp mine (.inl (maps_iff.2 ⟨d, there, mapped⟩))).bind fun r t known => ?_
    cases r with
    | error => exact .ret known.1
    | ok =>
      refine (works_wp (removeNode_asks trivial) known.1 (known.2 rfl)).bind fun r t known => ?_
      cases r with
      | error => exact .ret known.1
      | ok => exact deleteThin_wp known.1 known.2 low high

theorem createVolume_wp (range : p.firstSandboxID ≤ maxThinID) (mine : s.owner id = some i) :
    WP (exec p) (spec p) i (fun _ t => t.owner id = some i) (createVolume p id) s := by
  unfold createVolume
  split
  · exact .ret mine
  rename_i name named
  cases volumeName_eq named
  refine (ask_wp mine rfl).bind fun base t known => ?_
  split
  · exact .ret known.1
  rename_i b
  refine (ask_wp known.1 rfl).bind fun opened t known => ?_
  split
  · exact .ret known.1
  refine (createSnapshot_wp range known.1).bind fun r t known => ?_
  cases r with
  | error => exact .ret known.1
  | ok thinID =>
    obtain ⟨held, low, high⟩ := known.2 thinID rfl
    have loads : works p id thinID (.tableLoad (volumePrefix ++ id)
        [⟨0, b.sectors, "thin", mapperDir ++ p.name ++ " " ++ toString thinID⟩]) := by
      refine ⟨rfl, fun t mem l m parsed thin => ?_⟩
      cases List.mem_singleton.1 mem
      exact Option.some.inj (thin.symm.trans (parseTarget_thinID parsed))
    refine (works_wp (createDevice_asks rfl loads rfl rfl) known.1 held).bind fun r t known => ?_
    cases r with
    | error =>
      refine (deleteThin_wp known.1 known.2 low high).bind fun r t mine => ?_
      cases r <;> exact .ret mine
    | ok dev =>
      refine (works_wp (ensureNode_asks trivial trivial trivial) known.1 known.2).bind
        fun r t known => ?_
      cases r with
      | ok => exact .ret known.1
      | error =>
        refine (removeVolume_wp known.1).bind fun r t mine => ?_
        cases r <;> exact .ret mine

theorem body_wp (range : p.firstSandboxID ≤ maxThinID) {k : Kind} (mine : s.owner k.id = some i) :
    WP (exec p) (spec p) i (fun _ _ => True) (body p k) s := by
  have worked : WP (exec p) (spec p) i (fun _ t => t.owner k.id = some i) (volumeCall p k) s := by
    cases k with
    | create id =>
      refine (createVolume_wp range mine).bind fun r t mine => ?_
      cases r <;> exact .ret mine
    | remove id => exact removeVolume_wp mine
  exact worked.bind fun r t mine => call_wp mine (fun _ mine _ => mine)
    fun _ _ _ _ _ _ _ _ => .ret trivial

end Triples

theorem disciplined {p : Pool} (range : p.firstSandboxID ≤ maxThinID) :
    (system p).Disciplined (spec p) fun _ _ _ _ => True where
  sound := spec_sound
  start i k s t sane started := by
    obtain ⟨free, same⟩ := Option.ite_none_right_eq_some.1 started
    cases same
    refine ⟨sane, trivial, fun j _ id mine => ?_, body_wp range (Function.update_self _ _ _)⟩
    refine ⟨?_, rfl, fun n held => ⟨held.allocated, held.holder, held.only⟩⟩
    by_cases same : id = k.id
    · rw [same, free] at mine
      cases mine
    · exact (Function.update_of_ne same _ _).trans mine
  ext x := nomatch x

section Runs
variable {p : Pool} {m : Mapper} {t u : State}

theorem exec_owner {i j : Nat} {c : Call} {e : Env} {a : c.Answer} {s t : Kernel} {id : SandboxID}
    (ran : exec p i c e s = some (a, t)) (h : t.owner id = some j) : s.owner id = some j := by
  cases c with
  | disown id' =>
    cases ran
    by_cases same : id = id'
    · rw [same] at h
      cases (Function.update_self id' _ _).symm.trans h
    · exact (Function.update_of_ne same _ _).symm.trans h
  | delete n =>
    obtain rfl | rfl := ioctl_state ran
    · exact h
    · revert h
      unfold delete
      split
      · exact fun h => h
      · split <;> exact fun h => h
  | _ =>
    rw [← (exec_frame rfl ran).1]
    exact h

theorem owner_kind (h : (system p).Reaches (System.init m.boot) t) {id : SandboxID} {i : Nat}
    (owner : t.shared.owner id = some i) : ∃ th, t.threads i = some th ∧ th.kind.id = id := by
  induction h generalizing id i with
  | refl => cases owner
  | @tail s t before last ih =>
    obtain ⟨a, -, ha⟩ := last
    obtain ⟨k, v, -, started, rfl⟩ | ⟨j, e, k, c, f, r, v, -, hj, ran, rfl⟩ | ⟨j, th,
      -, -, stoppable, -⟩ | ⟨x, -⟩ := System.step_cases ha
    · obtain ⟨free, same⟩ := Option.ite_none_right_eq_some.1 started
      cases same
      by_cases mine : id = k.id
      · cases mine
        cases (Function.update_self k.id _ _).symm.trans owner
        exact ⟨_, Function.update_self _ _ _, rfl⟩
      · obtain ⟨th, there, kind⟩ := ih ((Function.update_of_ne mine _ _).symm.trans owner)
        have started := System.started_of_thread before there
        exact ⟨th, (Function.update_of_ne (Nat.ne_of_lt started) _ _).trans there, kind⟩
    · obtain ⟨th, there, kind⟩ := ih (exec_owner ran owner)
      by_cases same : i = j
      · cases same
        cases hj.symm.trans there
        exact ⟨_, Function.update_self _ _ _, kind⟩
      · exact ⟨th, (Function.update_of_ne same _ _).trans there, kind⟩
    · cases stoppable
    · cases x

theorem reaches_safe (range : p.firstSandboxID ≤ maxThinID) (sane : Sane m)
    (h : (system p).Reaches (System.init m.boot) t) :
    (system p).Safe (spec p) (fun _ _ _ _ => True) t :=
  (System.safe_reachesIf (disciplined range) (System.safe_init (v := m.boot) sane) h).1

/-- From any sane pool, whatever calls on whichever IDs run: a deletion is of a
thin ID in the range of the sandboxes, so never of a base, and of none that
another sandbox's device maps; no two sandboxes' devices map the same ID; no step
of a call changes another sandbox's device or frees what it maps. -/
theorem volumes_isolated {confPath : String} {vars : Settings}
    (valid : loadPool confPath vars = .ok p)
    (sane : Sane m) (h : (system p).Reaches (System.init m.boot) t) :
    (∀ i k n f, t.threads i = some ⟨k, .call (.delete n) f⟩ → p.firstSandboxID ≤
      n ∧ n ≤ 2 ^ 24 - 1 ∧
      (∀ vars b, loadBase p vars = .ok b → b.thinID ≠ n) ∧ ∀ id, id ≠ k.id →
      t.shared.maps id n = false) ∧
    (∀ id id' n, t.shared.maps id n = true → t.shared.maps id' n = true → id = id') ∧
    ∀ i th e u, t.threads i = some th → (system p).step t (.call i e) = some u →
    ∀ id, id ≠ th.kind.id →
      u.shared.device? id = t.shared.device? id ∧ ∀ n, t.shared.maps id n = true →
      n ∈ u.shared.thin := by
  have range := (loadPool_valid valid).2
  have safe := reaches_safe range sane h
  refine ⟨fun i k n f at_call => ?_, safe.inv.apart, fun i th e u at_call stepped id other => ?_⟩
  · obtain ⟨id, owner, held, low, high⟩ := System.safe_pre (disciplined range) safe at_call
    refine ⟨low, high, fun vars b base same => ?_, fun id' other => Bool.eq_false_iff.2
      fun mapped => other ?_⟩
    · have below := loadBase_below base
      omega
    · obtain ⟨th, there, kind⟩ := owner_kind h owner
      cases at_call.symm.trans there
      exact (held.only id' mapped).trans kind.symm
  · obtain ⟨k, v, step, -⟩ | ⟨j, e', k, c, f, r, v, step, hj, ran, rfl⟩ | ⟨j, th,
        step, -⟩ | ⟨x, -⟩ :=
      System.step_cases stepped
    · cases step
    · cases step
      cases at_call.symm.trans hj
      obtain ⟨id', allowed⟩ := System.safe_pre (disciplined range) safe hj
      have touch := exec_touch allowed ran
      have same : v.device? id = t.shared.device? id := by
        obtain same | ⟨rfl, owner⟩ := touch.device id
        · exact same
        · obtain ⟨th, there, kind⟩ := owner_kind h owner
          cases at_call.symm.trans there
          exact absurd kind.symm other
      refine ⟨same, fun n mapped => ?_⟩
      exact (touch.sane safe.inv).allocated id n ((maps_congr same n).trans mapped)
    · cases step
    · cases x

end Runs

def someConf : Settings
  | "POOL_NAME" => "fire2-pool"
  | "POOL_DIR" => "/var/lib/fire2"
  | "FIRST_SANDBOX_ID" => "100"
  | _ => ""

def someBase : Settings
  | "BASE_THIN_ID" => "7"
  | "BASE_SECTORS" => "2048"
  | _ => ""

def somePool : Pool := ⟨"fire2-pool", "/var/lib/fire2", 100⟩

def importedPool : Mapper := ⟨[7], .empty⟩

def deletion : Thread Kind Call (Except Fault Unit) Call.Answer → Option (Kind × Nat)
  | ⟨k, .call (.delete n) _⟩ => some (k, n)
  | _ => none

theorem deletion_eq {th : Thread Kind Call (Except Fault Unit) Call.Answer} {k : Kind} {n : Nat}
    (h : deletion th = some (k, n)) : ∃ f, th = ⟨k, .call (.delete n) f⟩ := by
  unfold deletion at h
  split at h
  · cases h
    exact ⟨_, rfl⟩
  · cases h

def rolledBack : List (Action Kind Env Empty) :=
  -- a volume is made for one sandbox, and the device of another is not created
  [.spawn (.create "a"), .spawn (.create "b"), .call 0 { baseEnv := .ok someBase },
    .call 1 { baseEnv := .ok someBase }, .call 0 {}, .call 1 {}, .call 0 {}, .call 1 {},
    .call 0 {}, .call 1 {}, .call 1 { draw := 1 }, .call 1 {}, .call 0 {}, .call 0 {}, .call 0 {},
    .call 1 { fails := some (.ebusy, true) }]

theorem volumes_isolated_rolledBack :
    ∃ t f, (system somePool).Reaches (System.init importedPool.boot) t ∧
    t.shared.maps "a" 100 = true ∧ t.threads 1 = some ⟨.create "b", .call (.delete 101) f⟩ ∧
    somePool.firstSandboxID ≤ 101 ∧ t.shared.maps "a" 101 = false := by
  have ran : ((system somePool).run (System.init importedPool.boot) rolledBack).map (fun t =>
      (t.shared.maps "a" 100, (t.threads 1).bind deletion)) =
          some (true, some (.create "b", 101)) := by
    decide +kernel
  obtain ⟨t, run, seen⟩ := Option.map_eq_some_iff.1 ran
  obtain ⟨mapped, found⟩ := Prod.mk.inj seen
  obtain ⟨th, there, deleting⟩ := Option.bind_eq_some_iff.1 found
  obtain ⟨f, rfl⟩ := deletion_eq deleting
  have reached := System.reaches_of_run run
  have valid : loadPool "thinpool.conf" someConf = .ok somePool := by decide +kernel
  have sane : Sane importedPool :=
    ⟨fun _ _ mapped => absurd mapped Bool.false_ne_true, fun _ _ _ mapped =>
      absurd mapped Bool.false_ne_true⟩
  obtain ⟨low, -, -, free⟩ := (volumes_isolated valid sane reached).1 1 _ _ _ there
  exact ⟨t, f, reached, mapped, there, low, free "a" (by decide)⟩

end Fire2.Thin
