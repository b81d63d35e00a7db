import Fire2.Workers

/-! An orchestrator outage kills nothing: what the columns that
ClaimLivenessExpired reads say about the history of the run. Nothing is assumed
of the times of the commits, which may even go backwards. -/

namespace Fire2.Orchestrator
open Interleaving Lifecycle SandboxRepository WorkerRepository History

def heartbeatOf (workerID : WorkerID) : Committed → Prop
  | .heartbeat w .. => w = workerID
  | _ => False

def beatOf (workerID : WorkerID) : Committed → Prop
  | .registered w .. | .heartbeat w .. => w = workerID
  | _ => False

/-- A heartbeat of the worker, committed at `time` with a complete inventory
that lists the sandbox as starting, running or paused while it was active
there. -/
def ListedAt (workerID : WorkerID) (id : SandboxID) (time : Int) : Committed → Prop
  | .heartbeat w _ at_ (some inv) active =>
    w = workerID ∧ at_ = time ∧ id ∈ inv.live ++ inv.running ∧ id ∈ active
  | _ => False

def SweptAt (workerID : WorkerID) (time : Int) : Committed → Prop
  | .swept at_ marked => at_ = time ∧ workerID ∈ marked
  | _ => False

/-- The row stays with the worker that listed it at `time`, until its link is
cleared for good. -/
structure Held (workerID : WorkerID) (time : Int) (r : SandboxRow) : Prop where
  assigned : 2 ≤ rank r.status
  link : r.workerID = some workerID ∧ r.lastSeenAt = some time ∨
    r.workerID = none ∧ 5 ≤ rank r.status

def unseen (workerID : WorkerID) : Permit :=
  fun _ r l => ∀ now, l = .seen now → r.workerID ≠ some workerID

section Rows
variable {workerID : WorkerID} {time : Int} {id : SandboxID}

theorem Move.held {l : Label} {r r' : SandboxRow} (h : Held workerID time r)
    (may : unseen workerID id r l) (move : Move l r r') : Held workerID time r' := by
  have higher := move.forward.le
  have assigned := h.assigned
  have reached : 2 ≤ rank r'.status := Nat.le_trans assigned higher
  cases move with
  | schedule pending => rw [pending] at assigned; exact absurd assigned (by decide)
  | assign w now scheduling => rw [scheduling] at assigned; exact absurd assigned (by decide)
  | seen now active =>
    obtain held | cleared := h.link
    · exact absurd held.1 (may now rfl)
    · exact absurd (rank_active active).2 (Nat.not_lt.2 cleared.2)
  | clear pending => exact ⟨reached, .inr ⟨rfl, by rw [pending]; decide⟩⟩
  | start | confirm | claim | finish =>
    exact ⟨reached, h.link.imp_right fun cleared => ⟨cleared.1, Nat.le_trans cleared.2 higher⟩⟩

theorem Steps.held {r r' : SandboxRow} (h : Held workerID time r)
    (steps : Steps (unseen workerID id) r r') : Held workerID time r' := by
  induction steps with
  | refl => exact h
  | tail _ last ih =>
    obtain ⟨l, may, move⟩ := last
    exact Move.held ih may move

end Rows

section Listing
variable {now : Int} {workerID : WorkerID} {inv : Inventory} {db : Database} {id : SandboxID}
  {r : SandboxRow}

theorem reconcileInventory_seen {first : Bool} (row : db.sandbox? id = some r)
    (active : activeOn workerID r = true) (listed : id ∈ inv.live ++ inv.running) :
    ∃ r', (reconcileInventory now workerID first inv db).2.sandbox? id = some r' ∧
      Held workerID now r' := by
  have mem : id ∈ inv.ids := by
    simp only [Inventory.ids, List.mem_append] at listed ⊢
    exact .inl (.inl listed)
  have kept : (if first then claimLost workerID inv.ids db
      else ([], db)).2.sandbox? id = some r := by
    split
    · simp [claimLost, claimToCleanup, row, mem]
    · exact row
  have lives (db : Database) : Lives (unseen workerID) db
      (claimDead workerID inv.dead (confirmRunning workerID inv.running db)).2 :=
    (confirmRunning_lives fun _ _ _ _ _ eq => by cases eq).trans
      (claimDead_lives fun _ _ _ _ eq => by cases eq)
  unfold reconcileInventory
  dsimp only
  rw [if_neg (List.ne_nil_of_mem mem)]
  generalize (if first then claimLost workerID inv.ids db else ([], db)).2 = db₁ at kept
  have seen : (refreshSeen now workerID (inv.live ++ inv.running) db₁).sandbox? id =
      some { r with lastSeenAt := some now } := by
    simp only [refreshSeen, Database.sandbox?_rewrite, kept, Option.map_some]
    rw [if_pos ⟨active, listed⟩]
  obtain ⟨r', row', steps⟩ := (lives _).kept id _ seen
  obtain ⟨held, status⟩ := activeOn_active active
  have refreshed : Held workerID now { r with lastSeenAt := some now } :=
    ⟨(rank_active status).1, .inl ⟨held, rfl⟩⟩
  exact ⟨r', row', Steps.held refreshed steps⟩

theorem reconcileHeartbeat_seen {w : Worker} {db' : Database}
    (done : Transactions.reconcileHeartbeat now w inv db = some db')
    (row : db.sandbox? id = some r) (active : activeOn w.id r = true)
    (listed : id ∈ inv.live ++ inv.running) :
    ∃ r', db'.sandbox? id = some r' ∧ Held w.id now r' := by
  unfold Transactions.reconcileHeartbeat Transactions.reconciled at done
  split at done
  · cases done
  · rename_i w' db₁ updated
    obtain ⟨_, -, -, rfl⟩ := update_beats updated
    cases done
    exact reconcileInventory_seen row active listed

end Listing

structure Heard (s : World) : Prop where
  swept : ∀ workerID w time, s.db.worker? workerID = some w → w.inactiveSince = some time →
    Since (beatOf workerID) (SweptAt workerID time) s.log
  listed : ∀ workerID id time, Since (heartbeatOf workerID) (ListedAt workerID id time) s.log →
    (∃ r, s.db.sandbox? id = some r ∧ Held workerID time r) ∧
    ∀ w, s.db.worker? workerID = some w → w.lastHeartbeat = time ∨ w.lastHeartbeat = w.registeredAt

section Steps
variable {c : Call} {e : Env} {s : World} {workerID : WorkerID} {time : Int}

theorem grant_unseen (other : inventoryOf c ≠ some workerID)
    (id : SandboxID) (r : SandboxRow) (l : Label) (h : Grant e s.db c id r l) :
    unseen workerID id r l := by
  rintro now rfl
  cases h with
  | updateStatus allowed row => cases allowed
  | seen held listed =>
    rw [held]
    exact other

theorem held_answer (lawful : Lawful c) {id : SandboxID} (other : inventoryOf c ≠ some workerID)
    (h : ∃ r, s.db.sandbox? id = some r ∧ Held workerID time r) :
    ∃ r, (answer c e s).2.db.sandbox? id = some r ∧ Held workerID time r := by
  obtain ⟨r, row, held⟩ := h
  obtain ⟨r', row', steps⟩ := ((answer_grows lawful e).mono (grant_unseen other)).kept id r row
  exact ⟨r', row', Steps.held held steps⟩

theorem swept_beat {t : World} {own workerID : WorkerID} {entry : Committed} {w : WorkerRow}
    (h : Heard s) (log : t.log = entry :: s.log) (beat : beatOf workerID entry → own = workerID)
    (cleared : ∀ r, t.db.worker? own = some r → r.inactiveSince = none)
    (others : ∀ id, id ≠ own → t.db.worker? id = s.db.worker? id)
    (row : t.db.worker? workerID = some w) (inactive : w.inactiveSince = some time) :
    Since (beatOf workerID) (SweptAt workerID time) t.log := by
  have other : own ≠ workerID := by
    rintro rfl
    cases (cleared w row).symm.trans inactive
  rw [others workerID other.symm] at row
  rw [log]
  exact .later (h.swept workerID w time row inactive) fun loud => other (beat loud)

theorem swept_answer (lawful : Lawful c) (h : Heard s) {w : WorkerRow}
    (row : (answer c e s).2.db.worker? workerID = some w) (inactive : w.inactiveSince = some time) :
    Since (beatOf workerID) (SweptAt workerID time) (answer c e s).2.log := by
  have step := answer_workers lawful e s
  generalize (answer c e s).2 = t at row step
  cases step with
  | silent workers log kept =>
    rw [log]
    refine h.swept workerID w time ?_ inactive
    rw [← row, Database.worker?, Database.worker?, workers]
  | registered done =>
    obtain ⟨n, written⟩ := done.row
    refine swept_beat h done.log id (fun r found => ?_) done.others row inactive
    cases written.symm.trans found
    rfl
  | heartbeat done | inventory done =>
    obtain ⟨r₀, n, -, -, written⟩ := done.row
    refine swept_beat h done.log id (fun r found => ?_) done.others row inactive
    cases written.symm.trans found
    rfl
  | swept done =>
    rw [done.rows workerID] at row
    rw [done.log]
    obtain ⟨r, found, rfl⟩ := Option.map_eq_some_iff.1 row
    split at inactive
    · rename_i due
      exact .now ⟨Option.some.inj inactive, (Table.mem_select _ _ _).2 ⟨r, found, due⟩⟩
    · exact .later (h.swept workerID r time found inactive) id

theorem listed_answer (lawful : Lawful c) (h : Heard s) {id : SandboxID}
    (since : Since (heartbeatOf workerID) (ListedAt workerID id time) (answer c e s).2.log) :
    (∃ r, (answer c e s).2.db.sandbox? id = some r ∧ Held workerID time r) ∧
    ∀ w, (answer c e s).2.db.worker? workerID = some w →
      w.lastHeartbeat = time ∨ w.lastHeartbeat = w.registeredAt := by
  have keep (other : inventoryOf c ≠ some workerID)
      (held : ∃ r, s.db.sandbox? id = some r ∧ Held workerID time r) :
      ∃ r, (answer c e s).2.db.sandbox? id = some r ∧ Held workerID time r :=
    held_answer lawful other held
  have step := answer_workers lawful e s
  generalize (answer c e s).2 = t at since keep step ⊢
  cases step with
  | silent workers log kept =>
    rw [log] at since
    obtain ⟨held, beats⟩ := h.listed workerID id time since
    refine ⟨?_, fun w row => beats w ?_⟩
    · rcases kept with rfl | plain
      · exact held
      · exact keep (by rw [plain]; simp) held
    · rw [← row, Database.worker?, Database.worker?, workers]
  | @registered w₀ done =>
    rw [done.log] at since
    obtain ⟨held, beats⟩ := h.listed workerID id time (since.back fun found => found)
    refine ⟨keep (fun eq => by cases eq) held, fun w row => ?_⟩
    by_cases own : workerID = w₀.id
    · obtain ⟨n, written⟩ := done.row
      subst own
      cases written.symm.trans row
      exact .inr rfl
    · rw [done.others workerID own] at row
      exact beats w row
  | @heartbeat w₀ done =>
    rw [done.log] at since
    have other : workerID ≠ w₀.id := by
      rintro rfl
      exact since.here rfl
    obtain ⟨held, beats⟩ := h.listed workerID id time (since.back fun found => found)
    refine ⟨keep (fun eq => by cases eq) held, fun w row => beats w ?_⟩
    rw [← done.others workerID other, row]
  | @inventory w₀ inv done ran =>
    rw [done.log] at since
    rcases since with ⟨rfl, rfl, listed, active⟩ | ⟨other, before⟩
    · obtain ⟨r, row, on⟩ := (Table.mem_select _ _ _).1 active
      refine ⟨reconcileHeartbeat_seen ran row on listed, fun w row => ?_⟩
      obtain ⟨_, n, -, -, written⟩ := done.row
      cases written.symm.trans row
      exact .inl rfl
    · have other : w₀.id ≠ workerID := other
      obtain ⟨held, beats⟩ := h.listed workerID id time before
      refine ⟨keep (fun eq => other (Option.some.inj eq)) held, fun w row => beats w ?_⟩
      rw [← done.others workerID other.symm, row]
  | swept done =>
    rw [done.log] at since
    obtain ⟨held, beats⟩ := h.listed workerID id time (since.back fun found => found)
    refine ⟨keep (fun eq => by cases eq) held, fun w row => ?_⟩
    rw [done.rows workerID] at row
    obtain ⟨r, found, rfl⟩ := Option.map_eq_some_iff.1 row
    have before := beats r found
    split <;> exact before

theorem heard_answer (lawful : Lawful c) (h : Heard s) : Heard (answer c e s).2 :=
  ⟨fun _ _ _ => swept_answer lawful h, fun _ _ _ => listed_answer lawful h⟩

end Steps

theorem reaches_heard {s : State} (hs : system.Reaches initial s) : Heard s.shared :=
  reaches_induction (fun _ _ _ => heard_answer) ⟨fun _ _ _ row => (nomatch row),
    fun _ _ _ => False.elim⟩ hs

theorem claimLivenessExpired_due {now livenessTimeout workerLostTimeout : Int}
    {locked : SandboxID → Bool} {db db' : Database} {ids : List SandboxID} {id : SandboxID}
    (h : claimLivenessExpired now locked livenessTimeout workerLostTimeout db = (.ok ids, db'))
    (mem : id ∈ ids) : ∃ r workerID w, db.sandbox? id = some r ∧ r.workerID = some workerID ∧
      db.worker? workerID = some w ∧ (unlisted livenessTimeout r w = true ∨
        workerLost now workerLostTimeout w = true) := by
  unfold claimLivenessExpired at h
  split at h
  · cases h
  cases h
  obtain ⟨r, row, due⟩ := (Table.mem_select _ _ _).1 mem
  have expired := (Bool.and_eq_true_iff.1 due).1
  unfold livenessExpired at expired
  split at expired
  · rename_i w found
    obtain ⟨workerID, link, worker⟩ := Option.bind_eq_some_iff.1 found
    simp only [Bool.and_eq_true, Bool.or_eq_true] at expired
    exact ⟨r, workerID, w, row, link, worker, expired.2⟩
  · cases expired

theorem reap_dead {now livenessTimeout workerLostTimeout createTimeout : Int}
    {locked : SandboxID → Bool} {db db' : Database} {res : ReapResult}
    (h : Transactions.reap now locked livenessTimeout workerLostTimeout createTimeout db =
      (.ok res, db')) :
    ∃ db₂, claimLivenessExpired now locked livenessTimeout workerLostTimeout
      (claimTTLExpired now locked db).2 = (.ok res.dead, db₂) := by
  unfold Transactions.reap at h
  dsimp only at h
  split at h
  · cases h
  rename_i dead db₂ claimed
  split at h
  · cases h
  cases h
  exact ⟨db₂, claimed⟩

theorem listed_unlisted {livenessTimeout time : Int} {r : SandboxRow} {w : WorkerRow}
    (nonneg : 0 ≤ livenessTimeout) (seen : r.lastSeenAt = some time)
    (beat : w.lastHeartbeat = time ∨ w.lastHeartbeat = w.registeredAt) :
    unlisted livenessTimeout r w = false := by
  have interval := makeInterval_nonneg nonneg
  simp only [unlisted, lastSeen, seen, Option.getD_some, decide_eq_false_iff_not]
  omega

theorem claimLivenessExpired_pos {now livenessTimeout workerLostTimeout : Int}
    {locked : SandboxID → Bool} {db db' : Database} {ids : List SandboxID}
    (h : claimLivenessExpired now locked livenessTimeout workerLostTimeout db = (.ok ids, db')) :
    0 < workerLostTimeout := by
  unfold claimLivenessExpired at h
  split at h
  · cases h
  · omega

theorem claim_swept {s : World} (h : Heard s) {now livenessTimeout workerLostTimeout time : Int}
    {locked : SandboxID → Bool} {workerID : WorkerID} {id : SandboxID} {ids : List SandboxID}
    {db db' : Database} (nonneg : 0 ≤ livenessTimeout)
    (since : Since (heartbeatOf workerID) (ListedAt workerID id time) s.log)
    (lives : Lives (unseen workerID) s.db db)
    (claimed : claimLivenessExpired now locked livenessTimeout workerLostTimeout
      db = (.ok ids, db'))
    (mem : id ∈ ids) : ∃ at_, Since (beatOf workerID) (SweptAt workerID at_) s.log ∧
      at_ < now - makeInterval workerLostTimeout := by
  obtain ⟨⟨r₀, row₀, held₀⟩, beats⟩ := h.listed workerID id time since
  obtain ⟨r', row', steps⟩ := lives.kept id r₀ row₀
  obtain ⟨r, owner, w, row, link, worker, due⟩ := claimLivenessExpired_due claimed mem
  cases row'.symm.trans row
  obtain ⟨held, seen⟩ | ⟨cleared, -⟩ := (Steps.held held₀ steps).link
  · cases held.symm.trans link
    have found : s.db.worker? workerID = some w := by
      rw [← worker, Database.worker?, Database.worker?, lives.workers]
    rw [listed_unlisted nonneg seen (beats w found)] at due
    have gone := due.resolve_left Bool.false_ne_true
    simp only [workerLost, Bool.and_eq_true, decide_eq_true_eq] at gone
    obtain ⟨at_, inactive, old⟩ := (Option.any_eq_true _ _).1 gone.2
    exact ⟨at_, h.swept workerID w at_ found inactive, of_decide_eq_true old⟩
  · cases cleared.symm.trans link

/-- ClaimLivenessExpired takes the sandbox, in a pass of its own or in the
transaction of the reaper. -/
def LivenessClaim (now : Int) (locked : SandboxID → Bool) (livenessTimeout workerLostTimeout : Int)
    (db : Database) (id : SandboxID) : Prop :=
  (∃ ids db', claimLivenessExpired now locked livenessTimeout workerLostTimeout
    db = (.ok ids, db') ∧
    id ∈ ids) ∨
  ∃ createTimeout res db', Transactions.reap now locked livenessTimeout workerLostTimeout
    createTimeout db = (.ok res, db') ∧ id ∈ res.dead

/-- In every run, a sandbox that the latest heartbeat of its worker listed is
only claimed for liveness once a sweep marked the worker inactive, longer ago
than workerLostTimeout, and the worker was not heard of since. -/
theorem outage_kills_nothing {s : State} (hs : system.Reaches initial s)
    {livenessTimeout workerLostTimeout now time : Int} {locked : SandboxID → Bool}
    {workerID : WorkerID} {id : SandboxID} {since before : List Committed} {entry : Committed}
    (nonneg : 0 ≤ livenessTimeout) (small : workerLostTimeout ≤ 2 ^ 32 * second)
    (split : s.shared.log = since ++ entry :: before)
    (listed : ListedAt workerID id time entry) (latest : ∀ c ∈ since, ¬ heartbeatOf workerID c)
    (claimed : LivenessClaim now locked livenessTimeout workerLostTimeout s.shared.db id) :
    ∃ later at_ marked earlier, s.shared.log = later ++ .swept at_ marked :: earlier ∧
      workerID ∈ marked ∧ workerLostTimeout < (now - at_) * 1000 ∧
      ∀ c ∈ later, ¬ beatOf workerID c := by
  have heard := reaches_heard hs
  have lists : Since (heartbeatOf workerID) (ListedAt workerID id time) s.shared.log :=
    since_iff.2 ⟨since, entry, before, split, listed, latest⟩
  obtain ⟨positive, at_, swept, old⟩ : 0 < workerLostTimeout ∧
      ∃ at_, Since (beatOf workerID) (SweptAt workerID at_) s.shared.log ∧
        at_ < now - makeInterval workerLostTimeout := by
    rcases claimed with ⟨ids, db', done, mem⟩ | ⟨createTimeout, res, db', done, mem⟩
    · exact ⟨claimLivenessExpired_pos done, claim_swept heard nonneg lists (.refl _) done mem⟩
    · obtain ⟨db₂, pass⟩ := reap_dead done
      refine ⟨claimLivenessExpired_pos pass, ?_⟩
      refine claim_swept heard nonneg lists (claimTTLExpired_lives ?_) pass mem
      exact fun _ _ _ eq => nomatch eq
  obtain ⟨later, sweep, earlier, parts, marks, quiet⟩ := since_iff.1 swept
  cases sweep with
  | swept time marked =>
    obtain ⟨rfl, mem⟩ := marks
    refine ⟨later, time, marked, earlier, parts, mem, ?_, quiet⟩
    refine lt_of_makeInterval_lt positive.le small ?_
    omega
  | registered => exact marks.elim
  | heartbeat => exact marks.elim

def firstSilence : List (Action Kind Env Empty) :=
  -- the worker of the first sandbox lists it once and is then silent until a sweep marks it
  [.spawn (.reportHeartbeat { firstHello with
      fencingToken := 1, inventoryComplete := true, sandboxes := [⟨firstID, .running⟩] }),
    .call 3 {}, .call 3 { now := 5 }, .spawn (.reapWorkers (15 * second)),
      .call 4 { now := 20000000 }]

def silentLog : List Committed :=
  [.swept 20000000 ["worker-1"],
    .heartbeat "worker-1" 1 5 (some ⟨[], [firstID], [], []⟩) [firstID], .registered "worker-1" 1 0]

theorem silence_claimed {now workerLostTimeout : Int}
    (run : (system.run initial (firstCreated ++ firstStarted ++ firstSilence)).map (fun s =>
      (s.shared.log, (claimLivenessExpired now (fun _ => false) 0 workerLostTimeout
        s.shared.db).1.toOption)) = some (silentLog, some [firstID])) :
    ∃ s, system.Reaches initial s ∧ s.shared.log = silentLog ∧
      LivenessClaim now (fun _ => false) 0 workerLostTimeout s.shared.db firstID := by
  obtain ⟨s, hs, view⟩ := Option.map_eq_some_iff.1 run
  obtain ⟨log, ids⟩ := Prod.mk.inj view
  refine ⟨s, System.reaches_of_run hs, log, .inl ⟨[firstID], _, Prod.ext ?_ rfl, by simp⟩⟩
  generalize (claimLivenessExpired now (fun _ => false) 0 workerLostTimeout s.shared.db).1 = a
    at ids ⊢
  cases a with
  | error err => cases ids
  | ok found =>
    cases ids
    rfl

theorem outage_kills_nothing_first : ∃ s later at_ marked earlier,
    system.Reaches initial s ∧
    LivenessClaim 90000000 (fun _ => false) 0 (60 * second) s.shared.db firstID ∧
    s.shared.log = later ++ .swept at_ marked :: earlier ∧ "worker-1" ∈ marked ∧
    60 * second < (90000000 - at_) * 1000 := by
  obtain ⟨s, reached, log, claimed⟩ :=
    @silence_claimed 90000000 (60 * second) (by decide +kernel)
  have split : s.shared.log = [.swept 20000000 ["worker-1"]] ++ .heartbeat "worker-1" 1 5
      (some ⟨[], [firstID], [], []⟩) [firstID] :: [.registered "worker-1" 1 0] := log
  have listed : ListedAt "worker-1" firstID 5
      (.heartbeat "worker-1" 1 5 (some ⟨[], [firstID], [], []⟩) [firstID]) := by
    simp [ListedAt]
  obtain ⟨later, at_, marked, earlier, parts, mem, old, -⟩ := outage_kills_nothing reached
    (Int.le_refl 0) (by decide) split listed (by simp [heartbeatOf]) claimed
  exact ⟨s, later, at_, marked, earlier, reached, claimed, parts, mem, old⟩

theorem outage_claimed_early : ∃ s, system.Reaches initial s ∧ s.shared.log = silentLog ∧
    LivenessClaim 4304765279740125 (fun _ => false) 0 4304765259740125131 s.shared.db firstID ∧
    ∀ at_ marked, .swept at_ marked ∈ s.shared.log →
      (4304765279740125 - at_) * 1000 < 4304765259740125131 := by
  obtain ⟨s, reached, log, claimed⟩ := @silence_claimed 4304765279740125
    4304765259740125131 (by decide +kernel)
  refine ⟨s, reached, log, claimed, fun at_ marked mem => ?_⟩
  rw [log] at mem
  simp only [silentLog, List.mem_cons, Committed.swept.injEq, reduceCtorEq, List.not_mem_nil,
    or_false] at mem
  rw [mem.1]
  decide

end Fire2.Orchestrator
