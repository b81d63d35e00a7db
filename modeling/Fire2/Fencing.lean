import Fire2.Workers

/-! Fencing tokens. The token in a worker's row is the one its latest committed
registration returned, tokens only grow, and a heartbeat or an event changes
the database only with that token. -/

namespace Fire2.Orchestrator
open Interleaving Lifecycle SandboxRepository WorkerRepository EventGRPCServer

def latestToken (workerID : WorkerID) : List Committed → Option Int
  -- the token that the latest committed registration of the worker returned
  | [] => none
  | .registered w token _ :: log => if w = workerID then some token else latestToken workerID log
  | .heartbeat .. :: log => latestToken workerID log
  | .swept .. :: log => latestToken workerID log

def Fenced (s : World) : Prop :=
  ∀ workerID, (s.db.worker? workerID).map (·.fencingToken) = latestToken workerID s.log

def Ages (s t : World) : Prop :=
  ∀ workerID n, latestToken workerID s.log = some n →
    ∃ m, latestToken workerID t.log = some m ∧ n ≤ m

theorem Ages.refl (s : World) : Ages s s := fun _ n h => ⟨n, h, Int.le_refl n⟩

theorem Ages.trans {s t u : World} (h : Ages s t) (k : Ages t u) : Ages s u := by
  intro workerID n latest
  obtain ⟨m, latest', le⟩ := h workerID n latest
  obtain ⟨l, latest'', le'⟩ := k workerID m latest'
  exact ⟨l, latest'', Int.le_trans le le'⟩

theorem Ages.of_eq {s t : World}
    (h : ∀ workerID, latestToken workerID t.log = latestToken workerID s.log) : Ages s t :=
  fun workerID n latest => ⟨n, (h workerID).trans latest, Int.le_refl n⟩

section Steps
variable {now : Int} {s t : World}

theorem registers_fenced {w : Worker} (h : Fenced s) (done : Registers now w s t) :
    Fenced t ∧ Ages s t := by
  obtain ⟨n, row⟩ := done.row
  have latest (workerID : WorkerID) : latestToken workerID t.log =
      if w.id = workerID then some (nextToken w s.db) else latestToken workerID s.log := by
    rw [done.log, latestToken]
  refine ⟨fun workerID => ?_, fun workerID n old => ?_⟩
  · rw [latest]
    by_cases own : w.id = workerID
    · subst own
      rw [if_pos rfl, row]
      rfl
    · rw [if_neg own, done.others workerID (Ne.symm own)]
      exact h workerID
  · rw [latest]
    by_cases own : w.id = workerID
    · subst own
      rw [← h w.id, Option.map_eq_some_iff] at old
      obtain ⟨r, found, rfl⟩ := old
      refine ⟨nextToken w s.db, if_pos rfl, ?_⟩
      simp only [nextToken, found]
      omega
    · exact ⟨n, (if_neg own).trans old, Int.le_refl n⟩

theorem beats_fenced {w : Worker} {inv : Option Inventory} (h : Fenced s)
    (done : Beats now w inv s t) : Fenced t ∧ Ages s t := by
  obtain ⟨r, n, found, -, row⟩ := done.row
  have latest (workerID : WorkerID) :
      latestToken workerID t.log = latestToken workerID s.log := by
    rw [done.log, heartbeatEntry, latestToken]
  refine ⟨fun workerID => ?_, .of_eq latest⟩
  rw [latest, ← h workerID]
  by_cases own : workerID = w.id
  · subst own
    rw [row, found]
    rfl
  · rw [done.others workerID own]

theorem sweeps_fenced {timeout : Int} (h : Fenced s) (done : Sweeps now timeout s t) :
    Fenced t ∧ Ages s t := by
  have latest (workerID : WorkerID) :
      latestToken workerID t.log = latestToken workerID s.log := by
    rw [done.log, latestToken]
  refine ⟨fun workerID => ?_, .of_eq latest⟩
  rw [latest, ← h workerID, done.rows workerID, Option.map_map]
  congr 1
  funext r
  simp only [Function.comp_apply]
  split <;> rfl

theorem fenced_step {c : Call} (h : Fenced s) (step : WorkerStep now s t c) :
    Fenced t ∧ Ages s t := by
  cases step with
  | silent workers log kept =>
    refine ⟨fun workerID => ?_, .of_eq fun workerID => by rw [log]⟩
    rw [log, ← h workerID, Database.worker?, Database.worker?, workers]
  | registered done => exact registers_fenced h done
  | heartbeat done => exact beats_fenced h done
  | inventory done => exact beats_fenced h done
  | swept done => exact sweeps_fenced h done

end Steps

def tokenSpec : Spec Call Env Empty World where
  -- every lawful call keeps the tokens in step with the registrations
  Inv s := Targets s.db ∧ Fenced s
  Evolves := Ages
  Keeps _ _ _ := True
  Pre _ c _ := Lawful c
  Cond _ _ _ _ := True
  Out _ _ := True

theorem tokenSpec_sound : tokenSpec.Sound exec where
  evolves_refl := .refl
  evolves_trans := .trans
  keeps_refl _ _ := trivial
  keeps_trans _ _ := trivial
  step {i c e s a t} inv pre _ ran := by
    obtain rfl : t = (answer c e s).2 := congrArg Prod.snd (exec_eq_some (i := i) ran)
    obtain ⟨fenced, ages⟩ := fenced_step inv.2 (answer_workers pre e s)
    exact ⟨⟨targets_answer pre inv.1, fenced⟩, ages, fun _ _ => trivial⟩

def Kind.carries : Kind → Option (WorkerID × Int)
  | .reportHeartbeat req => some (trimSpace req.workerID, req.fencingToken)
  | .ingestEvent req => some (trimSpace req.workerID, req.fencingToken)
  | _ => none

def Carrying (k : Kind) (c : Call) : Prop :=
  ∀ workerID token, k.carries = some (workerID, token) → TokenCall workerID token c

theorem body_carrying (k : Kind) : Calls (body k) (Carrying k) := by
  cases k with
  | reportHeartbeat req =>
    refine (reportWorkerHeartbeat_calls.mono fun c h => ?_).bind fun _ => .ret _
    rintro _ _ ⟨⟩
    exact h.2.2.token
  | ingestEvent req =>
    refine (ingestSandboxEvent_calls.mono fun c h => ?_).bind fun _ => .ret _
    rintro _ _ ⟨⟩
    exact h.token
  | _ => exact .all (fun _ _ _ eq => nomatch eq) _

section Change
variable {workerID : WorkerID} {token : Int} {c : Call} {e : Env} {s : World}

theorem current_token (fenced : Fenced s)
    (h : (s.db.worker? workerID).any (fun w => w.fencingToken = token) = true) :
    latestToken workerID s.log = some token := by
  obtain ⟨r, row, current⟩ := (Option.any_eq_true _ _).1 h
  rw [← fenced workerID, row, Option.map_some, of_decide_eq_true current]

theorem updateStatusFenced_refused {id : SandboxID} {status : Status} {allowedFrom : List Status}
    {db : Database} (stale : (db.worker? workerID).any (fun w => w.fencingToken = token) = false) :
    (updateStatusFenced id workerID token status allowedFrom db).2 = db := by
  unfold updateStatusFenced
  split
  · rfl
  · simp only [stale, Bool.and_false, Bool.false_eq_true, if_false]
    exact congrArg (fun t => { db with sandboxes := t }) (Table.update_eq_self _ _ fun _ _ _ => rfl)

theorem change_matches (carried : TokenCall workerID token c)
    (changed : (answer c e s).2.db ≠ s.db) :
    (s.db.worker? workerID).any (fun w => w.fencingToken = token) = true := by
  have done : (effect c e s).db ≠ s.db := by
    obtain same | done := answer_effect c e s
    · exact absurd (congrArg World.db same) changed
    · exact done ▸ changed
  have accepted {w w' : Worker} {db' : Database} {now : Int}
    (h : update now w s.db = (some w', db')) :
      (s.db.worker? w.id).any (fun r => r.fencingToken = w.fencingToken) = true := by
    obtain ⟨r, row, current, -⟩ := update_beats h
    simp [row, current]
  cases c with
  | updateWorker w =>
    obtain ⟨rfl, rfl⟩ := carried
    simp only [effect, answer, statement, faulty, updateWorkerStep] at done
    split at done
    · rename_i updated
      exact accepted updated
    · exact absurd rfl done
  | reconcileTx w inv =>
    obtain ⟨rfl, rfl⟩ := carried
    simp only [effect, answer, statement, faulty, reconcileStep] at done
    split at done
    · rename_i reconciled
      obtain ⟨w', db₁, updated, -⟩ := reconcileHeartbeat_workers reconciled
      exact accepted updated
    · exact absurd rfl done
  | createSandboxEvent ev =>
    obtain ⟨rfl, rfl⟩ := carried
    by_contra stale
    refine done ?_
    simp only [effect, answer, statement, faulty, onDatabase, EventRepository.createSandboxEvent]
    rw [if_neg stale]
  | updateStatusFenced id w t status allowedFrom =>
    obtain ⟨rfl, rfl, -, -⟩ := carried
    by_contra stale
    exact done (updateStatusFenced_refused (Bool.not_eq_true _ ▸ stale))
  | whyRefused | timeNow | newUUID => exact absurd rfl done
  | _ => exact carried.elim

theorem update_current {now : Int} {w w' : Worker} {db' : Database} (fenced : Fenced s)
    (h : update now w s.db = (some w', db')) : latestToken w.id s.log = some w.fencingToken := by
  obtain ⟨r, row, current, -⟩ := update_beats h
  rw [← fenced w.id, row, Option.map_some, current]

theorem change_current (fenced : Fenced s) (carried : TokenCall workerID token c)
    (changed : (answer c e s).2.db ≠ s.db) : latestToken workerID s.log = some token :=
  current_token fenced (change_matches carried changed)

end Change

inductive Told (workerID : WorkerID) (token : Int) (s : World) : Except Err Unit → Prop
  | accepted (latest : latestToken workerID s.log = some token) : Told workerID token s (.ok ())
  | fenced : Told workerID token s
      (.error (.rpc .failedPrecondition "worker fencing token is stale"))
  | unknown (behind : ∀ n, latestToken workerID s.log = some n → n < token) :
      Told workerID token s (.error (.rpc .notFound "worker unknown, register again"))
  | failed (text : String) :
      Told workerID token s (.error (.rpc .internal ("heartbeat: " ++ (Err.database text).text)))
  | invalid (text : String) (h : workerID = "" ∨ token ≤ 0) :
      Told workerID token s (.error (.rpc .invalidArgument text))

section Handlers
variable {i : Nat} {s t u : World} {e : Env} {w : Worker} {r : Except Err Bool}

theorem statement_error {α : Type} {run : World → Except Err α × World} {a : Except Err α}
    {err : Err} (sure : ∀ err, (run s).1 ≠ .error err) (h : statement e run s = (a, t))
    (failed : a = .error err) : ∃ text, err = .database text := by
  subst failed
  unfold statement faulty at h
  split at h
  · exact absurd (congrArg Prod.fst h) (sure err)
  · cases h
    exact ⟨_, rfl⟩
  · cases h
    exact ⟨_, rfl⟩

structure Guarded (w : Worker) (u : World) (r : Except Err Bool) : Prop where
  accepted : r = .ok true → latestToken w.id u.log = some w.fencingToken
  failed : ∀ err, r = .error err → ∃ text, err = .database text

theorem updateWorker_guarded (fenced : Fenced t) (h : answer (.updateWorker w) e t = (r, u)) :
    Guarded w u r := by
  refine ⟨?_, fun err => statement_error ?_ h⟩
  · rintro rfl
    simp only [answer, statement] at h
    have done := faulty_ok h
    unfold updateWorkerStep at done
    split at done
    · rename_i accepted
      cases done
      rw [heartbeatEntry, latestToken]
      exact update_current fenced accepted
    · cases done
  · intro err
    unfold updateWorkerStep
    split <;> simp

theorem reconcile_guarded {inv : Inventory} (fenced : Fenced t)
    (h : answer (.reconcileTx w inv) e t = (r, u)) : Guarded w u r := by
  refine ⟨?_, fun err => statement_error ?_ h⟩
  · rintro rfl
    simp only [answer, statement] at h
    have done := faulty_ok h
    unfold reconcileStep at done
    split at done
    · rename_i accepted
      cases done
      obtain ⟨w', db₁, updated, -⟩ := reconcileHeartbeat_workers accepted
      rw [heartbeatEntry, latestToken]
      exact update_current fenced updated
    · cases done
  · intro err
    unfold reconcileStep
    split <;> simp

theorem whyRefused_told (fenced : Fenced t) {id : WorkerID} {token : Int} {err : Err}
    (h : answer (.whyRefused id token) e t = (err, u)) :
    Told id token u (.error (heartbeatError err)) := by
  simp only [answer] at h
  split at h
  · cases h
    unfold whyRefused
    have latest := fenced id
    split
    · rename_i gone
      refine .unknown fun n known => ?_
      rw [← latest, gone] at known
      cases known
    · rename_i row found
      split
      · rename_i behind
        refine .unknown fun n known => ?_
        rw [← latest, found] at known
        cases known
        exact behind
      · exact .fenced
  · cases h
    exact .failed _
  · cases h
    exact .failed _

theorem updated_told (guarded : Guarded w s r) :
    WP exec tokenSpec i (fun r t => Told w.id w.fencingToken t r) (updated w r) s := by
  obtain err | _ | _ := r
  · obtain ⟨text, rfl⟩ := guarded.failed err rfl
    exact .ret (.failed text)
  · exact wp_ask fun t inv _ => ⟨trivial, fun e err u ran _ _ => .ret (whyRefused_told inv.2 ran)⟩
  · exact .ret (.accepted (guarded.accepted rfl))

theorem heartbeat_told {req : WorkerHeartbeat} :
    WP exec tokenSpec i (fun r t => Told (trimSpace req.workerID) req.fencingToken t r)
      (reportWorkerHeartbeat req) s := by
  unfold reportWorkerHeartbeat
  split
  · exact .ret (.invalid _ (.inl ‹_›))
  split
  · exact .ret (.invalid _ (.inr ‹_›))
  refine wp_ask fun t _ _ => ⟨trivial, fun e clock u _ _ _ => ?_⟩
  have told (r : Except Err Bool) (v : World)
      (guarded : Guarded (workerFromHeartbeat clock req) v r) :=
    updated_told (i := i) guarded
  dsimp only
  split
  · exact wp_ask fun t inv _ =>
      ⟨trivial, fun e r u ran _ _ => told r u (reconcile_guarded inv.2 ran)⟩
  · exact wp_ask fun t inv _ =>
      ⟨trivial, fun e r u ran _ _ => told r u (updateWorker_guarded inv.2 ran)⟩

theorem register_told {req : WorkerHeartbeat} :
    WP exec tokenSpec i (fun r t => ∀ token, r = .ok token → trimSpace req.workerID ≠ "" ∧
      ∃ n, latestToken (trimSpace req.workerID) t.log = some n ∧ token ≤ n)
      (registerWorker req) s := by
  unfold registerWorker
  split
  · exact .ret nofun
  rename_i named
  refine wp_ask fun t _ _ => ⟨trivial, fun e clock u _ _ _ => ?_⟩
  refine wp_ask fun t inv _ => ⟨trivial, fun e r u ran _ _ => ?_⟩
  obtain err | registered := r
  · exact .ret nofun
  refine .ret ?_
  rintro token ⟨⟩
  simp only [answer, statement] at ran
  have done := faulty_ok ran
  unfold registerStep at done
  split at done
  · cases done
    exact ⟨named, registered.fencingToken, by rw [latestToken]; exact if_pos rfl, Int.le_refl _⟩
  · cases done

end Handlers

def Verdict : Kind → Outcome → World → Prop
  | .reportHeartbeat req, .grpc r, s => Told (trimSpace req.workerID) req.fencingToken s r
  | .reportHeartbeat _, _, _ => False
  | .registerWorker req, .registered (.ok token), s => trimSpace req.workerID ≠ "" ∧
    ∃ n, latestToken (trimSpace req.workerID) s.log = some n ∧ token ≤ n
  | _, _, _ => True

theorem verdict_disciplined : system.Disciplined tokenSpec fun _ => Verdict where
  sound := tokenSpec_sound
  start i k s t inv started := by
    obtain ⟨on, rfl⟩ := start_eq started
    refine ⟨inv, .refl t, fun _ _ => trivial, ?_⟩
    have lawful : WP exec tokenSpec i (fun _ _ => True) (body k) t :=
      WP.of_asks tokenSpec_sound (fun _ _ _ _ => trivial) (fun _ _ lawful _ _ => lawful)
        (fun _ _ _ _ _ => exec_answered (i := i)) (body_lawful inv.1 on) trivial
    cases k with
    | reportHeartbeat req => exact heartbeat_told.bind fun _ _ told => .ret told
    | registerWorker req =>
      refine register_told.bind fun r t told => .ret ?_
      cases r with
      | error err => trivial
      | ok token => exact told token rfl
    | _ => exact lawful
  ext x := nomatch x

theorem verdict_safe {s : State} (hs : system.Reaches initial s) :
    system.Safe tokenSpec (fun _ => Verdict) s := by
  have first : tokenSpec.Inv initial.shared := ⟨fun _ _ mem => (nomatch mem), fun _ => rfl⟩
  exact (System.safe_reaches verdict_disciplined (fun _ _ _ _ => trivial) (fun _ _ => trivial)
    (System.safe_init first) hs).1

theorem request_current {s t : State} (hs : system.Reaches initial s) {i : Nat} {e : Env}
    (h : system.step s (.call i e) = some t) (changed : t.shared.db ≠ s.shared.db)
    {th : Thread Kind Call Outcome Call.Answer} (thread : s.threads i = some th)
    {workerID : WorkerID} {token : Int} (carried : th.kind.carries = some (workerID, token)) :
    latestToken workerID s.shared.log = some token := by
  obtain ⟨k, v, eq, -⟩ | ⟨j, e', k, c, f, r, v, eq, at_call, ran, rfl⟩ | ⟨j, th, eq, -⟩ | ⟨x, -⟩ :=
    System.step_cases h
  · cases eq
  · cases eq
    cases at_call.symm.trans thread
    have asking := System.asking_reaches (S := system) (fun i _ _ _ _ _ => exec_answered (i := i))
      body_carrying hs
    obtain rfl : v = (answer c e s.shared).2 := congrArg Prod.snd (exec_eq_some (i := i) ran)
    exact change_current (verdict_safe hs).inv.2 (asking.call at_call _ _ carried) changed
  · cases eq
  · exact nomatch x

def Checked (k : Kind) (_ : Call) : Prop :=
  ∀ req, k = .reportHeartbeat req → trimSpace req.workerID ≠ "" ∧ 0 < req.fencingToken

theorem body_checked (k : Kind) : Calls (body k) (Checked k) := by
  cases k with
  | reportHeartbeat req =>
    refine (reportWorkerHeartbeat_calls.mono fun c h => ?_).bind fun _ => .ret _
    rintro _ ⟨⟩
    exact ⟨h.1, h.2.1⟩
  | _ => exact .all (fun _ _ eq => nomatch eq) _

theorem behind_refused {s t : State} (hs : system.Reaches initial s) {i : Nat}
    {req : WorkerHeartbeat} {c : Call} {f : c.Answer → Job Outcome} {n : Int}
    (waiting : s.threads i = some ⟨.reportHeartbeat req, .call c f⟩)
    (latest : latestToken (trimSpace req.workerID) s.shared.log = some n)
    (behind : req.fencingToken < n) (h : system.Reaches s t) {k : Kind} {a : Outcome}
    (returned : t.threads i = some ⟨k, .ret a⟩) :
    a = .grpc (.error (.rpc .failedPrecondition "worker fencing token is stale")) ∨
    ∃ text, a = .grpc (.error (.rpc .internal ("heartbeat: " ++ (Err.database text).text))) := by
  have checked := (System.asking_reaches (S := system) (fun i _ _ _ _ _ => exec_answered (i := i))
    body_checked hs).call waiting req rfl
  obtain ⟨-, back⟩ := System.safe_returned verdict_disciplined (verdict_safe hs)
    (System.started_of_thread hs waiting) waiting h
  obtain ⟨rfl, result⟩ := back _ returned
  obtain ⟨v, ages, -, told⟩ := result a rfl
  obtain ⟨m, latest', le⟩ := ages _ n latest
  cases a with
  | grpc r =>
    have told : Told (trimSpace req.workerID) req.fencingToken v r := told
    cases told with
    | accepted current =>
      cases latest'.symm.trans current
      omega
    | fenced => exact .inl rfl
    | unknown lost =>
      have := lost m latest'
      omega
    | failed text => exact .inr ⟨text, rfl⟩
    | invalid text invalid => exact absurd invalid (by simp [checked.1, checked.2])
  | http | job | registered => exact told.elim

end Fire2.Orchestrator
