import Fire2.Tenants

/-! The order of the listing. listSandboxes appends what it finds in the order
of the workers and, for each of them, in the order of its answer; it neither
sorts nor merges. So the array is ordered as the answers are. -/

namespace Fire2.HTTPHandlers
open Interleaving

def answered (calls : List (Prog.Made Query QueryEnv Query.Answer)) : List SandboxID :=
  calls.flatMap fun
    | ⟨.listRunningSandboxes .., _, .ok ids⟩ => ids
    | _ => []

def looked (calls : List (Prog.Made Query QueryEnv Query.Answer)) : List SandboxID :=
  calls.flatMap fun
    | ⟨.getSandbox id, _, .ok _⟩ => [id]
    | _ => []

def owned (user : String) (db : Database) (id : SandboxID) : Option Sandbox :=
  match db.sandbox? id with
  | some r => if r.userID = some user then some (scanSandbox id r) else none
  | none => none

/-- Two IDs whose sandboxes, if both are the user's, are two sandboxes
of which the second is not the newer one. -/
def InOrder (user : String) (db : Database) (id id' : SandboxID) : Prop :=
  ∀ sbx ∈ owned user db id, ∀ sbx' ∈ owned user db id', id ≠ id' ∧ sbx'.createdAt ≤ sbx.createdAt

section Runs
variable {user : String} {i : Nat} {db db' : Database}
  {calls calls' : List (Prog.Made Query QueryEnv Query.Answer)}

theorem answered_append : answered (calls ++ calls') = answered calls ++ answered calls' :=
  List.flatMap_append

theorem looked_append : looked (calls ++ calls') = looked calls ++ looked calls' :=
  List.flatMap_append

theorem owned_id {id : SandboxID} {sbx : Sandbox} (h : owned user db id = some sbx) :
    sbx.id = id := by
  unfold owned at h
  split at h
  · split at h
    · cases h
      rfl
    · cases h
  · cases h

theorem kept_eq (user : String) (db : Database) (e : QueryEnv) (id : SandboxID) :
    kept user (respond (.getSandbox id) e db) =
      (looked [⟨.getSandbox id, e, respond (.getSandbox id) e db⟩]).filterMap (owned user db) := by
  simp only [looked, respond, reading, SandboxRepository.getByID]
  cases e.fault with
  | some text => rfl
  | none =>
    cases row : db.sandbox? id with
    | none => rfl
    | some r => by_cases own : r.userID = some user <;> simp [kept, owned, row, scanSandbox, own]

theorem looked_sublist (q : Query) (e : QueryEnv) (a : q.Answer) (id : SandboxID)
    (h : q = .getSandbox id) : (looked [⟨q, e, a⟩]).Sublist [id] := by
  subst h
  cases a with
  | error err => exact List.nil_sublist _
  | ok sbx => exact .refl _

theorem inquire_ran {α : Type} {q : Query} {f : q.Answer → Read α} {a : α}
    (h : (inquire q >>= f).Ran query i db calls a db') :
    ∃ e rest, calls = ⟨q, e, respond q e db⟩ :: rest ∧
      (f (respond q e db)).Ran query i db rest a db' := by
  obtain ⟨e, r, t, rest, rfl, ran, after⟩ := Prog.Ran.of_perform h
  cases ran
  exact ⟨e, rest, rfl, after⟩

/-- The array of a run: the user's among the sandboxes that were read, which
are some of those the workers named. -/
structure Lists (user : String) (db : Database)
    (calls : List (Prog.Made Query QueryEnv Query.Answer)) (sbxs : List Sandbox) : Prop where
  array : sbxs = (looked calls).filterMap (owned user db)
  named : (looked calls).Sublist (answered calls)

theorem Lists.nil : Lists user db [] [] := ⟨rfl, .refl _⟩

theorem Lists.append {sbxs sbxs' : List Sandbox} (h : Lists user db calls sbxs)
    (h' : Lists user db calls' sbxs') : Lists user db (calls ++ calls') (sbxs ++ sbxs') where
  array := by rw [looked_append, List.filterMap_append, h.array, h'.array]
  named := by
    rw [looked_append, answered_append]
    exact h.named.append h'.named

theorem listHosted_ran {ids : List SandboxID} {sbxs : List Sandbox}
    (h : (listHosted user ids).Ran query i db calls sbxs db') :
    db' = db ∧ answered calls = [] ∧ (looked calls).Sublist ids ∧
      sbxs = (looked calls).filterMap (owned user db) := by
  induction ids generalizing calls sbxs with
  | nil =>
    obtain ⟨rfl, rfl, rfl⟩ := h.of_ret
    exact ⟨rfl, rfl, .refl _, rfl⟩
  | cons id ids ih =>
    obtain ⟨e, later, rfl, rest⟩ := inquire_ran h
    obtain ⟨before, after, found, t, rfl, hosted, done⟩ := rest.of_bind
    obtain ⟨rfl, rfl, rfl⟩ := done.of_ret
    obtain ⟨rfl, quiet, sub, rfl⟩ := ih hosted
    rw [List.append_nil, ← List.singleton_append, looked_append, answered_append,
      List.filterMap_append, kept_eq, quiet]
    exact ⟨rfl, rfl, (looked_sublist _ e _ id rfl).append sub, rfl⟩

theorem listOnWorker_ran {w : Worker} {sbxs : List Sandbox}
    (h : (listOnWorker user w).Ran query i db calls sbxs db') :
    db' = db ∧ Lists user db calls sbxs := by
  obtain ⟨e, later, rfl, rest⟩ := inquire_ran h
  cases dialled : respond (.newClient w.dialTarget) e db with
  | error err =>
    rw [dialled] at rest
    obtain ⟨rfl, rfl, rfl⟩ := rest.of_ret
    exact ⟨rfl, rfl, .refl _⟩
  | ok _ =>
    rw [dialled] at rest
    obtain ⟨e', later, rfl, hosted⟩ := inquire_ran rest
    cases running : respond (.listRunningSandboxes w.id w.dialTarget) e' db with
    | error err =>
      rw [running] at hosted
      obtain ⟨rfl, rfl, rfl⟩ := hosted.of_ret
      exact ⟨rfl, rfl, .refl _⟩
    | ok ids =>
      rw [running] at hosted
      obtain ⟨rfl, quiet, sub, array⟩ := listHosted_ran hosted
      refine ⟨rfl, array, ?_⟩
      simp only [answered, List.flatMap_cons, List.nil_append] at quiet ⊢
      rwa [quiet, List.append_nil]

theorem listOnWorkers_ran {workers : List Worker} {sbxs : List Sandbox}
    (h : (listOnWorkers user workers).Ran query i db calls sbxs db') :
    db' = db ∧ Lists user db calls sbxs := by
  induction workers generalizing calls sbxs with
  | nil =>
    obtain ⟨rfl, rfl, rfl⟩ := h.of_ret
    exact ⟨rfl, .nil⟩
  | cons w workers ih =>
    obtain ⟨before, later, here, t, rfl, first, rest⟩ := Prog.Ran.of_bind h
    obtain ⟨rfl, lists⟩ := listOnWorker_ran first
    obtain ⟨others, none_, there, u, rfl, second, done⟩ := rest.of_bind
    obtain ⟨rfl, rfl, rfl⟩ := done.of_ret
    obtain ⟨rfl, lists'⟩ := ih second
    rw [List.append_nil]
    exact ⟨rfl, lists.append lists'⟩

theorem listSandboxes_ran {sbxs : List Sandbox}
    (h : (listSandboxes (some user)).Ran query i db calls (.sandboxes sbxs) db') :
    Lists user db calls sbxs := by
  obtain ⟨e, later, rfl, rest⟩ := inquire_ran h
  cases listed : respond .listActive e db with
  | error err =>
    rw [listed] at rest
    obtain ⟨-, eq, -⟩ := rest.of_ret
    cases eq
  | ok workers =>
    rw [listed] at rest
    obtain ⟨before, after, found, t, rfl, asked, done⟩ := rest.of_bind
    obtain ⟨rfl, eq, rfl⟩ := done.of_ret
    cases eq
    have lists := (listOnWorkers_ran asked).2
    rw [List.append_nil]
    exact ⟨lists.array, lists.named⟩

end Runs

/-- The array of a listing is sorted by `createdAt`, newest first, and has no
sandbox twice, exactly when the user's sandboxes among those that were read came
once each and newest first: all of them together, in the order of the workers and
of their answers. -/
theorem listing_in_answer_order {user : String} {i : Nat} {db db' : Database}
    {calls : List (Prog.Made Query QueryEnv Query.Answer)} {sbxs : List Sandbox}
    (ran : (listSandboxes (some user)).Ran query i db calls (.sandboxes sbxs) db') :
    (looked calls).Sublist (answered calls) ∧
    (sbxs.Pairwise (fun newer older => older.createdAt ≤ newer.createdAt) ∧
      (sbxs.map Sandbox.id).Nodup ↔ (looked calls).Pairwise (InOrder user db)) := by
  have lists := listSandboxes_ran ran
  refine ⟨lists.named, ?_⟩
  rw [lists.array, List.Nodup, List.pairwise_map, and_comm, ← List.pairwise_and_iff,
    List.pairwise_filterMap]
  refine List.Pairwise.iff fun id id' => ?_
  constructor
  · intro apart sbx mine sbx' mine'
    have both := apart sbx mine sbx' mine'
    rwa [owned_id mine, owned_id mine'] at both
  · intro apart sbx mine sbx' mine'
    rw [owned_id mine, owned_id mine']
    exact apart sbx mine sbx' mine'

section Example

/-- A user with two sandboxes, the first of which is the older one, and two
workers to ask. -/
def listed : Database :=
  ⟨⟨[("sandbox-1", rowOf "user-1"),
    ("sandbox-2", { rowOf "user-1" with createdAt := 60000000 })], by decide⟩,
    ⟨[("worker-1", hostRow), ("worker-2", { hostRow with address := "10.0.0.3" })], by decide⟩,
    .empty, []⟩

def older : Sandbox := scanSandbox "sandbox-1" (rowOf "user-1")

def newer : Sandbox := scanSandbox "sandbox-2" { rowOf "user-1" with createdAt := 60000000 }

def newestFirst : List QueryEnv :=
  [{}, {}, { running := ["sandbox-2"] }, {}, {}, { running := ["sandbox-1"] }, {}]

def asTheyCome : List QueryEnv :=
  [{}, {}, { running := ["sandbox-1", "sandbox-2"] }, {}, {}, {}, { running := ["sandbox-2"] }, {}]

theorem listing_in_answer_order_two : ∃ calls sbxs,
    (listSandboxes (some "user-1")).Ran query 0 listed calls (.sandboxes sbxs) listed ∧
    sbxs.map Sandbox.id = ["sandbox-2", "sandbox-1"] ∧
    sbxs.Pairwise fun newer older => older.createdAt ≤ newer.createdAt := by
  have ran := Prog.ran_of_alone
    (show (listSandboxes (some "user-1")).alone query 0 newestFirst listed =
    some (.sandboxes [newer, older], listed) from rfl)
  have ids : looked ((listSandboxes (some "user-1")).made query 0 newestFirst listed) =
    ["sandbox-2", "sandbox-1"] := by decide +kernel
  refine ⟨_, _, ran, rfl, ((listing_in_answer_order ran).2.2 ?_).1⟩
  rw [ids]
  refine .cons ?_ (List.pairwise_singleton _ _)
  rintro _ mem sbx mine sbx' mine'
  cases List.mem_singleton.1 mem
  cases mine
  cases mine'
  decide

theorem listing_out_of_order : ∃ sbxs,
    (listSandboxes (some "user-1")).alone query 0 asTheyCome listed =
      some (.sandboxes sbxs, listed) ∧
    ¬ sbxs.Pairwise (fun newer older => older.createdAt ≤ newer.createdAt) ∧
    ¬ (sbxs.map Sandbox.id).Nodup :=
  ⟨[older, newer, newer], rfl, by decide, by decide⟩

end Example

end Fire2.HTTPHandlers
