import Fire2.Liveness

/-! The date of an inactive worker. A sweep writes the status and
`inactive_since` together; a registration or a heartbeat clears the date and
takes the status from the request, which may say that the worker is inactive. -/

namespace Fire2.Orchestrator
open Interleaving Lifecycle SandboxRepository WorkerRepository EventGRPCServer History

def Dated (db : Database) : Prop :=
  ∀ id r, db.worker? id = some r → (r.status = .inactive ↔ r.inactiveSince ≠ none)

def accepts (w : Worker) (db : Database) : Bool :=
  (db.worker? w.id).any fun r => r.fencingToken = w.fencingToken

/-- No registration, and no heartbeat that is accepted, says that its worker is
inactive. -/
def declaresActive : Nat → Call → Env → World → Bool
  | _, .register w, _, _ => w.status = .active
  | _, .updateWorker w, _, s | _, .reconcileTx w _, _, s => w.status = .active || !accepts w s.db
  | _, _, _, _ => true

section Steps
variable {now : Int} {s t : World}

theorem dated_written {w : Worker} (h : Dated s.db)
    (active : ∀ r, t.db.worker? w.id = some r → r.status = .active ∧ r.inactiveSince = none)
    (others : ∀ id, id ≠ w.id → t.db.worker? id = s.db.worker? id) : Dated t.db := by
  intro id r row
  by_cases own : id = w.id
  · subst own
    obtain ⟨status, date⟩ := active r row
    simp [status, date]
  · rw [others id own] at row
    exact h id r row

theorem registers_dated {w : Worker} (h : Dated s.db) (active : w.status = .active)
    (done : Registers now w s t) : Dated t.db := by
  obtain ⟨n, written⟩ := done.row
  refine dated_written h (fun r row => ?_) done.others
  cases written.symm.trans row
  exact ⟨active, rfl⟩

theorem beats_dated {w : Worker} {inv : Option Inventory} (h : Dated s.db)
    (may : w.status = .active ∨ accepts w s.db = false) (done : Beats now w inv s t) :
    Dated t.db := by
  obtain ⟨r₀, n, found, current, written⟩ := done.row
  have active : w.status = .active := by simpa [accepts, found, current] using may
  refine dated_written h (fun r row => ?_) done.others
  cases written.symm.trans row
  exact ⟨active, rfl⟩

theorem sweeps_dated {timeout : Int} (h : Dated s.db) (done : Sweeps now timeout s t) :
    Dated t.db := by
  intro id r row
  rw [done.rows id] at row
  obtain ⟨r₀, found, rfl⟩ := Option.map_eq_some_iff.1 row
  split
  · simp
  · exact h id r₀ found

theorem dated_step {i : Nat} {c : Call} {e : Env} (h : Dated s.db)
    (may : declaresActive i c e s = true) (step : WorkerStep now s t c) : Dated t.db := by
  cases step with
  | silent workers =>
    intro id r row
    rw [Database.worker?, workers] at row
    exact h id r row
  | registered done => exact registers_dated h (of_decide_eq_true may) done
  | heartbeat done | inventory done =>
    exact beats_dated h (by simpa [declaresActive] using may) done
  | swept done => exact sweeps_dated h done

end Steps

theorem reaches_dated {s : State}
    (hs : system.ReachesWhen declaresActive (fun _ _ => true) initial s) : Dated s.shared.db := by
  induction hs with
  | refl => exact fun _ _ row => nomatch row
  | @tail t u before last ih =>
    obtain ⟨a, may, moved⟩ := last
    have safe := reached_lawful (System.ReachesIf.reaches before)
    obtain ⟨k, v, -, started, rfl⟩ | ⟨i, e, k, c, f, r, v, rfl, hi, ran,
      rfl⟩ | ⟨i, th, -, -, -, rfl⟩ | ⟨x, -⟩ := System.step_cases moved
    · exact (start_eq started).2 ▸ ih
    · obtain rfl : v = (answer c e t.shared).2 := congrArg Prod.snd (exec_eq_some (i := i) ran)
      exact dated_step ih (may k c f hi)
        (answer_workers (System.safe_pre lawful_disciplined safe hi) e t.shared)
    · exact ih
    · exact nomatch x

theorem workerLost_claims {now livenessTimeout workerLostTimeout : Int} {locked : SandboxID → Bool}
    {db : Database} {workerID : WorkerID} {w : WorkerRow} {id : SandboxID} {r : SandboxRow}
    (worker : db.worker? workerID = some w) (lost : workerLost now workerLostTimeout w = true)
    (row : db.sandbox? id = some r) (active : activeOn workerID r = true)
    (unlocked : locked id = false) (positive : 0 < workerLostTimeout) :
    ∃ ids db', claimLivenessExpired now locked livenessTimeout workerLostTimeout db =
      (.ok ids, db') ∧ id ∈ ids := by
  obtain ⟨link, status⟩ := activeOn_active active
  have expired : livenessExpired now livenessTimeout workerLostTimeout db r = true := by
    simp [livenessExpired, link, worker, lost, status]
  refine ⟨_, _, if_neg (Int.not_le.2 positive), ?_⟩
  exact (Table.mem_select _ _ _).2 ⟨r, row, by simp [expired, unlocked]⟩

/-- In every run in which no accepted request says that its worker is inactive,
a worker is inactive if and only if its row has a date, the date is the one of
the sweep after which it was not heard of, and the liveness claim takes the
sandboxes of every worker that has been inactive for longer than the timeout. -/
theorem inactive_dated {s : State}
    (hs : system.ReachesWhen declaresActive (fun _ _ => true) initial s)
    {workerID : WorkerID} {w : WorkerRow} (row : s.shared.db.worker? workerID = some w) :
    (w.status = .inactive ↔ w.inactiveSince ≠ none) ∧
    (w.status = .inactive → ∃ since, w.inactiveSince = some since ∧
      Since (beatOf workerID) (SweptAt workerID since) s.shared.log ∧
      ∀ now livenessTimeout workerLostTimeout locked id r, 0 < workerLostTimeout →
        since < now - makeInterval workerLostTimeout → s.shared.db.sandbox? id = some r →
        activeOn workerID r = true → locked id = false →
        ∃ ids db', claimLivenessExpired now locked livenessTimeout workerLostTimeout
        s.shared.db = (.ok ids, db') ∧
          id ∈ ids) := by
  have dated := reaches_dated hs workerID w row
  refine ⟨dated, fun inactive => ?_⟩
  obtain ⟨since, date⟩ := Option.ne_none_iff_exists'.1 (dated.1 inactive)
  have heard := reaches_heard (System.ReachesIf.reaches hs)
  refine ⟨since, date, heard.swept workerID w since row date, ?_⟩
  intro now livenessTimeout workerLostTimeout locked id r positive old found active unlocked
  have lost : workerLost now workerLostTimeout w = true := by simp [workerLost, inactive, date, old]
  exact workerLost_claims row lost found active unlocked positive

theorem inactive_dated_swept :
    ∃ s w, system.ReachesWhen declaresActive (fun _ _ => true) initial s ∧
    s.shared.db.worker? "worker-1" = some w ∧ w.status = .inactive ∧
    w.inactiveSince = some 20000000 ∧
    ∃ ids db', claimLivenessExpired 90000000 (fun _ => false) 0
    (60 * second) s.shared.db = (.ok ids, db') ∧
      firstID ∈ ids := by
  have run : (system.runIf declaresActive (fun _ _ => true) initial
      (firstCreated ++ firstStarted ++ firstSilence)).bind (fun s =>
        (s.shared.db.worker? "worker-1").bind fun w => (s.shared.db.sandbox? firstID).map fun r =>
          (w.status, w.inactiveSince, activeOn "worker-1" r)) =
              some (.inactive, some 20000000, true) := by
    decide +kernel
  simp only [Option.bind_eq_some_iff, Option.map_eq_some_iff, Prod.mk.injEq] at run
  obtain ⟨s, hs, w, row, r, found, inactive, date, active⟩ := run
  have reached := System.reachesWhen_of_runIf hs
  obtain ⟨since, date', -, claimed⟩ := (inactive_dated reached row).2 inactive
  cases date.symm.trans date'
  exact ⟨s, w, reached, row, inactive, date,
    claimed 90000000 0 (60 * second) (fun _ => false) firstID r (by decide)
    (by decide +kernel) found active rfl⟩

theorem inactive_undated :
    ∃ s w, system.Reaches initial s ∧ s.shared.db.worker? "worker-1" = some w ∧
    w.status = .inactive ∧ w.inactiveSince = none ∧
    ∀ now timeout, stale now timeout w = false ∧ workerLost now timeout w = false := by
  -- a worker registers as inactive: neither the sweep nor the liveness claim ever takes it
  -- for one that is gone
  have run : (system.run initial
    [.spawn (.registerWorker { firstHello with status := "inactive" }), .call 0 {},
      .call 0 {}]).bind (fun s => (s.shared.db.worker? "worker-1").map fun w =>
      (w.status, w.inactiveSince)) = some (.inactive, none) := by
    decide +kernel
  simp only [Option.bind_eq_some_iff, Option.map_eq_some_iff, Prod.mk.injEq] at run
  obtain ⟨s, hs, w, row, inactive, undated⟩ := run
  exact ⟨s, w, System.reaches_of_run hs, row, inactive,
    undated, by simp [stale, workerLost, inactive, undated]⟩

end Fire2.Orchestrator
