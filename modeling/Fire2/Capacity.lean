import Mathlib.Data.List.Induction
import Fire2.Assignment

/-! What AssignWorker guarantees in every run: the committed data moves as in the
atomic model of the orchestrator, a worker that is given a sandbox has room for
it, and ErrWorkerFull tells the truth. -/

namespace Fire2.Capacity
open Interleaving Lifecycle SandboxRepository Orchestrator

def FullSeen (i : Nat) (k : Kind) (a : Assigned) (s : Shared) : Prop :=
  a = .error (.sentinel .workerFull) → (i, k.id, k.workerID) ∈ s.full

section Program
variable {i : Nat} {s t : Shared} {id : SandboxID} {workerID : WorkerID} {capacity : Int}

def Past (n : Nat) (id : SandboxID) (s : Shared) : Prop :=
  ∃ r, s.db.sandbox? id = some r ∧ n ≤ rank r.status

theorem Past.evolves {n : Nat} (h : Past n id s) (k : lockSpec.Evolves s t) : Past n id t := by
  obtain ⟨r, row, high⟩ := h
  obtain ⟨r', row', steps⟩ := k.1.kept id r row
  exact ⟨r', row', Nat.le_trans high steps.forward.le⟩

theorem still_held (rely : lockSpec.Rely i s t) (running : t.phase i = .running) : Held i s t :=
  rely.2.2.resolve_left fun ended => nomatch running.symm.trans ended

theorem wp_execute {Q : Assigned → Shared → Prop} {c : Statement}
    {f : c.Answer → Transaction Assigned}
    (pre : ∀ t, Inv t → lockSpec.Rely i s t → lockSpec.Pre i c t)
    (failed : ∀ text u, WP exec lockSpec i Q (f (.error (.database text))) u)
    (done : ∀ t now r u, Inv t → lockSpec.Rely i s t → t.phase i = c.ready →
      run i c now t = some (r, u) → Inv u → WP exec lockSpec i Q (f (.ok r)) u) :
    WP exec lockSpec i Q (execute c >>= f) s := by
  refine .call pre fun t e a u inv rely _ ran inv' => ?_
  obtain ⟨⟨text, rfl⟩, -⟩ | ⟨r, rfl, ready, ran⟩ := exec_cases ran
  · exact failed text u
  · exact done t e.now r u inv rely ready ran inv'

/-- The outcome of the UPDATE: if it matched no row, the worker was full or the
sandbox has moved on. -/
inductive Updated (i : Nat) (id : SandboxID) (workerID : WorkerID) (s : Shared) : Assigned → Prop
  | failed (text : String) : Updated i id workerID s (.error (.database text))
  | written (sbx : Sandbox) : Updated i id workerID s (.ok (some sbx))
  | full (h : (i, id, workerID) ∈ s.full) : Updated i id workerID s (.ok none)
  | moved (h : Past 2 id s) : Updated i id workerID s (.ok none)

theorem past_two {r : SandboxRow} (row : s.db.sandbox? id = some r) (past : 1 ≤ rank r.status)
    (moved : r.status ≠ .scheduling) : Past 2 id s := by
  refine ⟨r, row, ?_⟩
  cases status : r.status with
  | pending => exact absurd (status ▸ past) (by decide)
  | scheduling => exact absurd status moved
  | _ => decide

theorem snapshot_full {snap : Snapshot} {now : Int} (locked : Locked i workerID capacity s)
    (h : run i (.snapshot id workerID) now s = some (snap, t))
    (status : snap.status = some .scheduling) (reached : capacity ≤ snap.hosted) :
    (i, id, workerID) ∈ t.full := by
  cases h
  obtain ⟨w, worker, rfl⟩ := locked.row
  obtain ⟨r, row, scheduling⟩ := Option.map_eq_some_iff.1 status
  have full : s.isFull i id workerID = true := by
    simp [Shared.isFull, locked.mine, worker, row, scheduling, reached]
  dsimp only
  rw [if_pos full]
  exact List.mem_cons_self

theorem update_outcome {now : Int} {answer : Option Sandbox} {u : Shared} {snap : Snapshot}
    (past : Past 1 id s) (status : snap.status = (s.db.sandbox? id).map fun r => r.status)
    (full : snap.status = some .scheduling → capacity ≤ snap.hosted → (i, id, workerID) ∈ s.full)
    (evolves : lockSpec.Evolves s t)
    (ran : run i (.update id workerID capacity snap) now t = some (answer, u)) :
    Updated i id workerID u (.ok answer) := by
  simp only [run] at ran
  split at ran
  · split at ran
    · cases ran
    · rename_i r free row
      split at ran
      · cases ran
        exact .written _
      · rename_i moved
        cases ran
        obtain ⟨r', row', high⟩ := past.evolves evolves
        cases row.symm.trans row'
        exact .moved (past_two row high moved)
    · rename_i absent
      obtain ⟨r', row', -⟩ := past.evolves evolves
      cases absent.symm.trans row'
  · rename_i guard
    cases ran
    by_cases scheduling : snap.status = some .scheduling
    · refine .full (evolves.2 _ (full scheduling ?_))
      exact Int.not_lt.1 fun room => guard ⟨scheduling, room⟩
    · obtain ⟨r, row, high⟩ := past
      refine .moved ((past_two row high fun eq => scheduling ?_).evolves evolves)
      rw [status, row, Option.map_some, eq]

theorem guardedUpdate_wp (locked : Locked i workerID capacity s) (past : Past 1 id s) :
    WP exec lockSpec i (fun a u => Updated i id workerID u a)
      (guardedUpdate id workerID capacity) s := by
  refine wp_execute (fun _ _ _ => trivial) (fun text u => .ret (.failed text)) ?_
  intro t now snap u inv rely ready ran inv'
  have locked' := locked.held (still_held rely ready)
  have full := snapshot_full locked' ran
  obtain ⟨locked, past, status, count⟩ : Locked i workerID capacity u ∧ Past 1 id u ∧
      snap.status = (u.db.sandbox? id).map (fun r => r.status) ∧
      hostedCount workerID u.db = snap.hosted := by
    have past' := past.evolves rely.1
    cases ran
    exact ⟨⟨locked'.mine, locked'.row, locked'.unwritten⟩, past', rfl, rfl⟩
  refine .call (fun v _ rely => ?_) fun v e a x _ rely _ ran _ => ?_
  · refine rely.2.2.imp_right fun held => ⟨locked.held held, ?_⟩
    exact Nat.le_trans (held.locked workerID locked.mine).2.2 (Nat.le_of_eq count)
  · obtain ⟨⟨text, rfl⟩, -⟩ | ⟨answer, rfl, -, ran⟩ := exec_cases ran
    · exact .ret (.failed text)
    · exact .ret (update_outcome past status full rely.1 ran)

theorem fail_wp (k : Kind) (text : String) (u : Shared) :
    WP exec lockSpec i (FullSeen i k) (.ret (.error (.database text))) u :=
  .ret fun eq => nomatch eq

theorem notUpdated_wp {k : Kind} (h : (i, k.id, k.workerID) ∈ s.full ∨ Past 2 k.id s) :
    WP exec lockSpec i (FullSeen i k) (notUpdated k.id) s := by
  refine wp_execute (fun _ _ _ => trivial) (fail_wp k) fun t now r u inv rely _ ran _ => ?_
  cases ran
  cases seen : t.visible i k.id with
  | none => exact .ret fun eq => nomatch eq
  | some r =>
    simp only [Option.map_some]
    split
    · rename_i scheduling
      refine .ret fun _ => rely.1.2 _ (h.resolve_right fun past => ?_)
      obtain ⟨r', row, high⟩ := past.evolves rely.1
      -- the version that was read is the committed one, or would be assigned already
      have committed : t.db.sandbox? k.id = some r := by
        unfold Shared.visible at seen
        split at seen
        · rename_i j q own
          split at seen
          · cases seen
            obtain ⟨_, _, _, _, -, -, -, -, -, rfl⟩ := (inv.written k.id j r own).assignment
            cases scheduling
          · exact seen
        · exact seen
      cases committed.symm.trans row
      rw [scheduling] at high
      exact absurd high (by decide)
    · exact .ret fun eq => nomatch eq

theorem updateAndCommit_wp {k : Kind} (locked : Locked i k.workerID capacity s)
    (past : Past 1 k.id s) :
    WP exec lockSpec i (FullSeen i k) (updateAndCommit k.id k.workerID capacity) s := by
  refine (guardedUpdate_wp locked past).bind fun a t updated => ?_
  cases updated with
  | failed text => exact fail_wp k text t
  | written sbx =>
    refine wp_execute (fun _ _ _ => trivial) (fail_wp k) fun _ _ _ u _ _ _ _ _ => ?_
    exact .ret fun eq => nomatch eq
  | full seen => exact notUpdated_wp (.inl seen)
  | moved past => exact notUpdated_wp (.inr past)

theorem lockAndUpdate_wp {k : Kind} (unwritten : Unwritten i s) (past : Past 1 k.id s) :
    WP exec lockSpec i (FullSeen i k) (lockAndUpdate k.id k.workerID) s := by
  refine wp_execute (fun _ _ _ => trivial) (fail_wp k) fun t now r u _ rely ready ran inv => ?_
  have held := still_held rely ready
  simp only [run] at ran
  split at ran
  · cases ran
    exact .ret fun eq => by cases eq
  · rename_i w row
    split at ran
    · cases ran
      refine updateAndCommit_wp ⟨Function.update_self .., ⟨w, row, rfl⟩, ?_⟩ (past.evolves rely.1)
      exact fun id r own => unwritten id r (held.writes id r own)
    · cases ran

theorem assignWorker_wp (k : Kind) (past : Past 1 k.id s) :
    WP exec lockSpec i (FullSeen i k) (assignWorker k.beginner k.id k.workerID) s := by
  unfold assignWorker
  split
  · exact .ret fun eq => nomatch eq
  · refine wp_execute (fun _ _ _ => trivial) (fail_wp k) fun t now r u inv rely ready ran _ => ?_
    cases ran
    have unwritten : Unwritten i t := fun id r own =>
      nomatch ready.symm.trans (inv.written id i r own).running
    refine WP.bind (lockAndUpdate_wp (k := k) (fun id r => unwritten id r) (past.evolves rely.1)) ?_
    intro a v seen
    refine .call (fun _ _ _ => trivial) fun x e b y inv' rely' _ ran _ => .ret fun eq => ?_
    have free : lockSpec.Pre i .rollback x := trivial
    exact (lockSpec_sound.step inv' free trivial ran).2.1.2 _ (rely'.1.2 _ (seen eq))

end Program

theorem disciplined : system.Disciplined lockSpec FullSeen where
  sound := lockSpec_sound
  start i k s t inv started := by
    simp only [system] at started
    split at started
    · rename_i past
      cases started
      refine ⟨inv, lockSpec_sound.evolves_refl s, fun j _ => lockSpec_sound.keeps_refl j s, ?_⟩
      obtain ⟨r, row, status⟩ := (Option.any_eq_true _ _).1 past
      refine assignWorker_wp k ⟨r, row, ?_⟩
      cases eq : r.status with
      | pending => simp [eq] at status
      | _ => decide
    · cases started
  ext _ _ _ inv _ := outside_sound inv

theorem initial_inv : Inv initial.shared :=
  ⟨fun _ _ row => (nomatch row), fun _ _ _ own => nomatch own⟩

inductive Changes (s : Shared) : World → Prop
  | nothing : Changes s s.world
  | assigned {id : SandboxID} {workerID : WorkerID} {w : WorkerRow} {r : SandboxRow} (now : Int)
      (worker : s.db.worker? workerID = some w) (row : s.db.sandbox? id = some r)
      (room : hostedCount workerID s.db < w.capacity) :
      Changes s { s.world with db := (SandboxRepository.assignWorker now id workerID s.db).2 }
  | other (o : Other) (e : Env) : Changes s (answer o.call e s.world).2

theorem run_world {i : Nat} {c : Statement} {now : Int} {s t : Shared} {r : c.Result}
    (h : run i c now s = some (r, t)) : t.world = s.world ∨
      c = .commit ∧ t.world = { s.world with db := s.applied i } := by
  cases c with
  | commit =>
    cases h
    exact .inr ⟨rfl, rfl⟩
  | lockWorker workerID =>
    simp only [run] at h
    split at h
    · cases h
      exact .inl rfl
    · split at h <;> cases h
      exact .inl rfl
  | update id workerID capacity snap =>
    simp only [run] at h
    split at h
    · split at h
      · cases h
      · split at h <;> cases h <;> exact .inl rfl
      · cases h
        exact .inl rfl
    · cases h
      exact .inl rfl
  | begin | snapshot | readStatus | rollback =>
    cases h
    exact .inl rfl

theorem run_changes {i : Nat} {c : Statement} {now : Int} {s t : Shared}
    {r : c.Result} (inv : Inv s) (h : run i c now s = some (r, t)) : Changes s t.world := by
  obtain same | ⟨-, done⟩ := run_world h
  · rw [same]
    exact .nothing
  · rw [done]
    obtain same | ⟨id, workerID, w, r, now, -, worker, row, room, done⟩ := applied_cases inv i
    · rw [same]
      exact .nothing
    · rw [done]
      exact .assigned now worker row room

theorem run_full {i : Nat} {c : Statement} {now : Int} {s t : Shared} {r : c.Result}
    (h : run i c now s = some (r, t)) {x : Nat × SandboxID × WorkerID} (mem : x ∈ t.full) :
    x ∈ s.full ∨ s.isFull x.1 x.2.1 x.2.2 = true := by
  cases c with
  | snapshot id workerID =>
    cases h
    dsimp only at mem
    split at mem
    · rename_i full
      obtain rfl | old := List.mem_cons.1 mem
      · exact .inr full
      · exact .inl old
    · exact .inl mem
  | lockWorker workerID =>
    simp only [run] at h
    split at h
    · cases h
      exact .inl mem
    · split at h <;> cases h
      exact .inl mem
  | update id workerID capacity snap =>
    simp only [run] at h
    split at h
    · split at h
      · cases h
      · split at h <;> cases h <;> exact .inl mem
      · cases h
        exact .inl mem
    · cases h
      exact .inl mem
  | begin | readStatus | commit | rollback =>
    cases h
    exact .inl mem

section Runs
variable {s t : State} {acts : List (Action Kind Env Outside)} {a : Action Kind Env Outside}

theorem reached_safe (h : system.Reaches initial s) : system.Safe lockSpec FullSeen s :=
  (System.safe_reaches disciplined (fun _ _ _ _ => trivial) (fun _ _ => trivial)
    (System.safe_init initial_inv) h).1

theorem step_changes (h : system.Reaches initial s)
    (moved : system.step s a = some t) : Changes s.shared t.shared.world := by
  have inv : Inv s.shared := (reached_safe h).inv
  obtain ⟨k, v, -, started, rfl⟩ | ⟨i, e, k, c, f, r, v, -, -, ran, rfl⟩ | ⟨i, th, -, -, -, rfl⟩ |
    ⟨x, v, -, done, rfl⟩ := System.step_cases moved
  · simp only [system] at started
    split at started <;> cases started
    exact .nothing
  · obtain ⟨-, rfl | ⟨r, -, ran⟩⟩ | ⟨r, -, -, ran⟩ := exec_cases ran
    · exact .nothing
    · exact run_changes inv ran
    · exact run_changes inv ran
  · exact .nothing
  · cases x with
    | disconnect i =>
      cases done
      exact .nothing
    | statement o e =>
      simp only [system, outside] at done
      split at done <;> cases done
      exact .other o e

theorem step_refines (h : system.Reaches initial s)
    (moved : system.step s a = some t) : t.shared.world = s.shared.world ∨
      ∃ c e, Lawful c ∧ t.shared.world = (answer c e s.shared.world).2 := by
  have change := step_changes h moved
  generalize t.shared.world = after at change ⊢
  cases change with
  | nothing => exact .inl rfl
  | @assigned id workerID w r now => exact .inr ⟨.assignWorker id workerID, { now }, trivial, rfl⟩
  | other o e => exact .inr ⟨o.call, e, o.lawful, rfl⟩

theorem step_capacity (h : system.Reaches initial s)
    (moved : system.step s a = some t) (workerID : WorkerID) :
    NoneGiven workerID s.shared.db t.shared.db ∨ ∃ w, t.shared.db.worker? workerID = some w ∧
      hostedCount workerID t.shared.db ≤ w.capacity := by
  have change := step_changes h moved
  rw [Shared.db, Shared.db]
  generalize t.shared.world = after at change ⊢
  cases change with
  | nothing => exact .inl (.refl _)
  | other o e => exact .inl (other_noneGiven (reached_safe h).inv o e workerID)
  | @assigned id given w r now worker row room =>
    obtain ⟨count, others⟩ := assignWorker_counts now id given s.shared.db
    by_cases same : workerID = given
    · subst same
      have lives : Lives .any s.shared.db
          (SandboxRepository.assignWorker now id workerID s.shared.db).2 :=
        assignWorker_lives fun _ _ => trivial
      refine .inr ⟨w, (congrArg (fun ws => Table.get? ws workerID) lives.workers).trans worker, ?_⟩
      dsimp only
      omega
    · exact .inl (others workerID same)

theorem step_full (moved : system.step s a = some t)
    {x : Nat × SandboxID × WorkerID} (mem : x ∈ t.shared.full) :
    x ∈ s.shared.full ∨ s.shared.isFull x.1 x.2.1 x.2.2 = true := by
  obtain ⟨k, v, -, started, rfl⟩ | ⟨i, e, k, c, f, r, v, -, -, ran, rfl⟩ | ⟨i, th, -, -, -, rfl⟩ |
    ⟨x, v, -, done, rfl⟩ := System.step_cases moved
  · simp only [system] at started
    split at started <;> cases started
    exact .inl mem
  · obtain ⟨-, rfl | ⟨r, -, ran⟩⟩ | ⟨r, -, -, ran⟩ := exec_cases ran
    · exact .inl mem
    · exact run_full ran mem
    · exact run_full ran mem
  · exact .inl mem
  · cases x with
    | disconnect i =>
      cases done
      exact .inl mem
    | statement o e =>
      simp only [system, outside] at done
      split at done <;> cases done
      exact .inl mem

theorem full_was (h : system.run initial acts = some s) {x : Nat × SandboxID × WorkerID}
    (mem : x ∈ s.shared.full) : ∃ before after u, acts = before ++ after ∧
      system.run initial before = some u ∧ u.shared.isFull x.1 x.2.1 x.2.2 = true := by
  induction acts using List.reverseRecOn generalizing s with
  | nil =>
    cases h
    cases mem
  | append_singleton acts a ih =>
    obtain ⟨u, ran, last⟩ := System.run_concat h
    obtain old | full := step_full last mem
    · obtain ⟨before, after, v, rfl, reached, full⟩ := ih ran old
      exact ⟨before, after ++ [a], v, List.append_assoc .., reached, full⟩
    · exact ⟨acts, [a], u, rfl, ran, full⟩

theorem count_le_capacity (h : system.run initial acts = some s) {workerID : WorkerID} {c : Int}
    (unchanged : ∀ before after u w, acts = before ++ after → system.run initial before = some u →
      u.shared.db.worker? workerID = some w → w.capacity = c) :
    hostedCount workerID s.shared.db ≤ c.toNat := by
  induction acts using List.reverseRecOn generalizing s with
  | nil =>
    cases h
    exact Nat.zero_le _
  | append_singleton acts a ih =>
    obtain ⟨u, ran, last⟩ := System.run_concat h
    obtain none | ⟨w, row, within⟩ := step_capacity (System.reaches_of_run ran) last workerID
    · refine Nat.le_trans none.count_le (ih ran fun before after v w split => ?_)
      exact unchanged before (after ++ [a]) v w (by rw [split, List.append_assoc])
    · have := unchanged _ [] s w (List.append_nil _).symm h row
      omega

/-- A worker that is given a sandbox is within the capacity stored in its row,
so it never exceeds a capacity that does not change, and AssignWorker returns
ErrWorkerFull only if its worker was full while it held the lock and the
sandbox was still scheduling. -/
theorem assignments_within_capacity (h : system.run initial acts = some s) :
    (∀ a t id r workerID, system.step s a = some t → t.shared.db.sandbox? id = some r →
      r.workerID = some workerID →
      (∀ r₀, s.shared.db.sandbox? id = some r₀ → r₀.workerID ≠ some workerID) →
      ∃ w, t.shared.db.worker? workerID = some w ∧
        hostedCount workerID t.shared.db ≤ w.capacity) ∧
    (∀ workerID c, (∀ before after u w, acts = before ++ after →
        system.run initial before = some u → u.shared.db.worker? workerID = some w →
        w.capacity = c) →
      hostedCount workerID s.shared.db ≤ c.toNat) ∧
    ∀ i k, s.threads i = some ⟨k, .ret (.error (.sentinel .workerFull))⟩ →
      ∃ before after u w r, acts = before ++ after ∧ system.run initial before = some u ∧
        u.shared.locks k.workerID = some i ∧ u.shared.db.worker? k.workerID = some w ∧
        w.capacity ≤ hostedCount k.workerID u.shared.db ∧
        u.shared.db.sandbox? k.id = some r ∧ r.status = .scheduling := by
  have reached := System.reaches_of_run h
  refine ⟨fun a t id r workerID moved row given new => ?_, fun workerID c => count_le_capacity h,
    fun i k returned => ?_⟩
  · refine (step_capacity reached moved workerID).resolve_left fun none => ?_
    obtain ⟨r₀, before, held, -⟩ := none id r row given
    exact new r₀ before held
  · obtain ⟨v, evolves, seen⟩ := System.safe_results disciplined initial_inv reached returned
    obtain ⟨before, after, u, split, ran, full⟩ := full_was h (evolves.2 _ (seen rfl))
    simp only [Shared.isFull, Bool.and_eq_true, decide_eq_true_eq, Option.any_eq_true] at full
    obtain ⟨⟨lock, w, worker, reached⟩, r, row, status⟩ := full
    exact ⟨before, after, u, w, r, split, ran, lock, worker, reached, row, status⟩

end Runs
def waiting (id : SandboxID) : List (Action Kind Env Outside) :=
  [.ext (.statement ⟨.createTx ⟨⟨"node", .pending, 0, 0, 0, "", "", none, 1, 512, none⟩, id⟩,
      ⟨rfl, rfl⟩, rfl⟩ {}),
    .ext (.statement ⟨.updateStatus id .scheduling [.pending], ⟨_, .scheduling⟩, rfl⟩ {})]

def raceOpen : List (Action Kind Env Outside) :=
  -- two transactions reach for the one slot of a worker; the first is about to commit
  .ext (.statement ⟨.register ⟨⟨.active, "10.0.0.1", 1, 50051, 2, 1024, 0, 0, 0, 0⟩, "worker-1"⟩,
      trivial, rfl⟩ {}) :: (waiting "sandbox-1" ++ waiting "sandbox-2" ++
    [.spawn ⟨true, "sandbox-1", "worker-1"⟩, .spawn ⟨true, "sandbox-2", "worker-1"⟩,
      .call 0 {}, .call 1 {}, .call 0 {}, .call 0 {}, .call 0 {}])

def raceLost : List (Action Kind Env Outside) := List.replicate 5 (.call 1 {})

def givenTo (id : SandboxID) (s : State) : Option (Option WorkerID) :=
  (s.shared.db.sandbox? id).map fun r => r.workerID

def refused (s : State) (i : Nat) : Option Kind :=
  match s.threads i with
  | some ⟨k, .ret (.error (.sentinel .workerFull))⟩ => some k
  | _ => none

theorem refused_thread {s : State} {i : Nat} {k : Kind} (h : refused s i = some k) :
    s.threads i = some ⟨k, .ret (.error (.sentinel .workerFull))⟩ := by
  unfold refused at h
  split at h
  · rename_i found
    cases h
    exact found
  · cases h

theorem assignments_within_capacity_race : ∃ s t u w, system.run initial raceOpen = some s ∧
    system.step s (.call 0 {}) = some t ∧ t.shared.db.worker? "worker-1" = some w ∧
    hostedCount "worker-1" t.shared.db ≤ w.capacity ∧
    system.run initial (raceOpen ++ .call 0 {} :: raceLost) = some u ∧
    ∃ before after v, raceOpen ++ .call 0 {} :: raceLost = before ++ after ∧
      system.run initial before = some v ∧ v.shared.locks "worker-1" = some 1 := by
  have run : ((system.run initial raceOpen).bind fun s => (system.step s (.call 0 {})).bind fun t =>
      (system.run t raceLost).map fun u =>
        (givenTo "sandbox-1" s, givenTo "sandbox-1" t, refused u 1)) =
      some (some none, some (some "worker-1"), some ⟨true, "sandbox-2", "worker-1"⟩) := by
    decide +kernel
  simp only [Option.bind_eq_some_iff, Option.map_eq_some_iff, Prod.mk.injEq, givenTo] at run
  obtain ⟨s, hs, t, ht, u, hu, ⟨r₀, row₀, none⟩, ⟨r, row, given⟩, lost⟩ := run
  have whole : system.run initial (raceOpen ++ .call 0 {} :: raceLost) = some u :=
    System.run_append hs (by simp only [System.run, ht, Option.bind_some, hu])
  obtain ⟨w, worker, within⟩ := (assignments_within_capacity hs).1 _ t
    "sandbox-1" r "worker-1" ht row given fun r' row' => by
      cases row₀.symm.trans row'
      rw [none]
      intro eq
      cases eq
  obtain ⟨before, after, v, _, _, split, ran, lock, -⟩ :=
    (assignments_within_capacity whole).2.2 1 _ (refused_thread lost)
  exact ⟨s, t, u, w, hs, ht, worker, within, whole, before, after, v, split, ran, lock⟩

end Fire2.Capacity
