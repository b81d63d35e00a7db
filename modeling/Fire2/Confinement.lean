import Fire2.ManagerCalls
import Fire2.Paths

/-! Where a worker makes directories, and which ones it removes with all they
hold. It runs as root on the IDs it is sent, and on the names it finds in the
base dir; an ID is checked before a Service is registered under it and before
anything is reaped, and only names that pass the check are listed. So whatever
the IDs are, each of these directories is an entry of the base dir. -/

namespace Fire2.SandboxMgr
open Interleaving Paths

/-- `SandboxBaseDir`, by the value of FIRECRACKER_SANDBOX_DIR. -/
def sandboxBaseDir (value : String) : String := if value ≠ "" then value else "/tmp"

def Call.touches : Call → Bool
  | .vm _ .newVM | .vm _ .removeDir | .reap _ .removeDir => true
  | _ => false

def Manager.directoryOf (s : Manager) : Call → Option SandboxID
  -- the ID that names the directory. NewClient is given the one of the command.
  | .vm ref .newVM =>
    match s.handling ref with
    | some (.create input) => some input.id
    | _ => none
  | .vm ref .removeDir => (s.heap ref).map Service.id
  | .reap id .removeDir => some id
  | _ => none

section Names
variable {id : SandboxID}

theorem sandboxID_plain [Uuid] (valid : Host.isSandboxID id = true) : Plain id := by
  have long := (Host.isSandboxID_grouped valid).1
  refine ⟨fun slash => ?_, ?_⟩
  · obtain dash | hex := Host.sandboxID_char valid slash
    · cases dash
    · cases hex
  · refine ⟨?_, ?_, ?_⟩ <;> rintro rfl <;> cases long

theorem sandboxID_volumeName [Uuid] (valid : Host.isSandboxID id = true) :
    Host.volumeName id = .ok (Host.volumePrefix ++ id) := by
  have long := (Host.isSandboxID_grouped valid).1
  have hexes : "0123456789abcdefABCDEF".toList.all Char.isAlphanum = true := by decide
  have all : ∀ c ∈ id.toList, (c.isAlphanum || c = '_' || c = '-') = true := by
    intro c mem
    obtain rfl | hex := Host.sandboxID_char valid mem
    · rfl
    · rw [List.all_eq_true.1 hexes c (of_decide_eq_true hex)]
      rfl
  have accepted : Host.validSandboxID id = true := by
    simp only [Host.validSandboxID, long, List.all_eq_true.2 all]
    rfl
  rw [Host.volumeName, if_pos accepted]

theorem volumeName_inj [Uuid] {id' : SandboxID} (valid : Host.isSandboxID id = true)
    (same : Host.volumeName id' = Host.volumeName id) : id' = id := by
  rw [sandboxID_volumeName valid] at same
  exact (Host.volumePrefix_inj (Host.volumeName_eq same)).symm

theorem sandboxBaseDir_ne (value : String) : sandboxBaseDir value ≠ "" := by
  unfold sandboxBaseDir
  split
  · assumption
  · decide

end Names

def Checked [Uuid] : Call → Prop
  -- the ID has passed the check before the call is made
  | .register input => Host.isSandboxID input.id = true
  | .adopt id _ | .reap id _ => Host.isSandboxID id = true
  | _ => True

def Lists [Uuid] : (c : Call) → c.Answer → Prop
  | .listDisk => fun r => ∀ ids, r = .ok ids → ∀ id ∈ ids, Host.isSandboxID id = true
  | _ => fun _ => True

section Checks
variable [Uuid] {id : SandboxID} {ids : List SandboxID}

theorem perform_lists {i : Nat} {c : Call} {e : Env} {s t : Manager} {a : c.Answer}
    (h : perform i c e s = some (a, t)) : Lists c a := by
  cases c with
  | listDisk =>
    intro ids eq id mem
    obtain ⟨r, answer, same⟩ := Option.map_eq_some_iff.1 h
    cases same
    subst eq
    have listed : ids = s.dirs := by
      unfold Env.result at answer
      split at answer <;> cases answer
      rfl
    rw [listed, Manager.dirs, Table.mem_select] at mem
    obtain ⟨r, -, passes⟩ := mem
    exact (Bool.and_eq_true_iff.1 passes).2
  | _ => trivial

theorem reap_checked : (reap id).Asks Lists Checked := by
  by_cases valid : Host.isSandboxID id = true
  · exact (reap_calls fun _ => valid).weaken fun _ _ _ => trivial
  · unfold reap
    rw [if_pos (by simpa using valid)]
    exact .ret _

theorem adoptListed_checked (all : ∀ id ∈ ids, Host.isSandboxID id = true) :
    (Manager.adoptListed ids).Asks Lists Checked := by
  induction ids with
  | nil => exact .ret _
  | cons id ids ih =>
    have rest := ih fun k mem => all k (List.mem_cons_of_mem id mem)
    refine .call trivial fun r _ => ?_
    cases r with
    | error => exact reap_checked.bind fun _ => rest
    | ok =>
      refine .call trivial fun r _ => ?_
      cases r <;> exact .call (all id List.mem_cons_self) fun _ _ => rest

theorem reapClaimed_checked : (Manager.reapClaimed ids).Asks Lists Checked := by
  induction ids with
  | nil => exact .ret _
  | cons id ids ih => exact reap_checked.bind fun _ => .call trivial fun _ _ => ih

theorem startup_checked : Manager.startup.Asks Lists Checked := by
  have recover : Manager.recover.Asks Lists Checked := by
    refine .call trivial fun r listed => ?_
    cases r with
    | error => exact .ret _
    | ok ids => exact (adoptListed_checked (listed ids rfl)).bind fun _ => .ret _
  exact recover.bind fun _ => .call trivial fun _ _ => .ret _

theorem kind_checked {k : Kind} (checked : ∀ c, KindCall k c → Checked c) :
    (body k).Asks Lists Checked :=
  ((body_calls k).mono checked).weaken fun _ _ _ => trivial

theorem body_checked (k : Kind) : (body k).Asks Lists Checked := by
  cases k with
  | startup => exact startup_checked
  | create input =>
    by_cases valid : Host.isSandboxID input.id = true
    · refine kind_checked fun c made => ?_
      cases c with
      | register x =>
        obtain rfl : x = input := made
        exact valid
      | adopt | reap => exact made.elim
      | _ => trivial
    · simp only [body, Manager.create, checkSandboxID, if_neg valid]
      exact .ret _
  | remove id =>
    by_cases valid : Host.isSandboxID id = true
    · refine kind_checked fun c made => ?_
      cases c with
      | reap k op =>
        obtain rfl : k = id := made
        exact valid
      | adopt | register => exact made.elim
      | _ => trivial
    · simp only [body, Manager.remove, checkSandboxID, if_neg valid]
      exact .ret _
  | reconcileDisk =>
    have all : Manager.reconcileDisk.Asks Lists Checked := by
      refine .call trivial fun r _ => ?_
      cases r with
      | error => exact .ret _
      | ok => exact .call trivial fun _ _ => reapClaimed_checked
    exact all.bind fun _ => .ret _
  | stop | checkLiveness =>
    refine kind_checked fun c made => ?_
    cases c with
    | adopt | register | reap => exact made.elim
    | _ => trivial
  | serve ref wake =>
    refine kind_checked fun c made => ?_
    cases c with
    | adopt | register | reap => cases wake <;> exact made.elim
    | _ => trivial

end Checks

/-- Every Service is under an ID that has passed the check, and the create command
it has taken is the one of the call that made it. -/
structure Filed [Uuid] (s : State) : Prop where
  valid : ∀ ref svc, s.shared.heap ref = some svc → Host.isSandboxID svc.id = true
  sender : ∀ ref svc j input, s.shared.heap ref = some svc → svc.Takes j (.create input) →
    ∃ p, s.threads j = some ⟨.create input, p⟩

section Runs
variable [Uuid] {host : Table SandboxID Remnant} {s t : State}

theorem reaches_checked (reached : system.Reaches (System.init (booting host)) s) {i : Nat}
    {k : Kind} {c : Call} {f : c.Answer → M (Option Err)}
    (thread : s.threads i = some ⟨k, .call c f⟩) : Checked c := by
  have asking := System.asking_reaches (P := fun _ => Checked)
    (fun _ _ _ _ _ _ ran => perform_lists (exec_eq_some ran).2) body_checked reached
  exact asking.call thread

theorem offered {i j : Nat} {ref ref' : Ref} {cmd d : Command} {e : Env} {v w : Manager}
    {svc : Service} {a : Bool} (ran : perform i (.offer ref' d) e v = some (a, w))
    (at_ref : w.heap ref = some svc) (takes : svc.Takes j cmd) :
    (∃ old, v.heap ref = some old ∧ old.Takes j cmd) ∨ j = i ∧ cmd = d := by
  obtain ⟨old, at_old, h⟩ := Option.bind_eq_some_iff.1 ran
  split at h <;> cases h
  · by_cases same : ref = ref'
    · subst same
      simp only [Manager.setService, Function.update_self, Option.some.injEq] at at_ref
      subst at_ref
      obtain offered | ⟨_, busy⟩ := takes
      · cases offered
        exact .inr ⟨rfl, rfl⟩
      · cases busy
    · exact .inl ⟨svc, (Function.update_of_ne same _ _).symm.trans at_ref, takes⟩
  · exact .inl ⟨svc, at_ref, takes⟩

theorem filed_step (reached : system.Reaches (System.init (booting host)) s) (hs : Filed s)
    {a : Action Kind Env Event} (h : system.step s a = some t) : Filed t := by
  have kept {ref : Ref} {old : Service} {j : Nat} {input : CreateInput}
    (here : s.shared.heap ref = some old)
      (takes : old.Takes j (.create input)) : ∃ p, t.threads j = some ⟨.create input, p⟩ := by
    obtain ⟨p, thread⟩ := hs.sender ref old j input here takes
    exact System.thread_kept (fun _ => rfl) (System.started_of_thread reached thread) h thread
  obtain ⟨k, v, rfl, started, rfl⟩ | ⟨i, e, k, c, f, r, v, rfl, thread, ran, rfl⟩ |
    ⟨i, th, -, -, stopped, -⟩ | ⟨x, v, rfl, happened, rfl⟩ := System.step_cases h
  · constructor
    · intro ref svc at_ref
      obtain ⟨old, here, ⟨same, -⟩, -⟩ := begin_origin started at_ref
      exact same ▸ hs.valid ref old here
    · intro ref svc j input at_ref takes
      obtain ⟨old, here, -, had⟩ := begin_origin started at_ref
      exact kept here (had j _ takes)
  · have checked := reaches_checked reached thread
    have ran := (exec_eq_some ran).2
    constructor
    · intro ref svc at_ref
      obtain ⟨old, here, ⟨same, -⟩, -⟩ | ⟨-, ⟨state, rfl, -⟩ | ⟨input, rfl, named, -⟩⟩ :=
        (perform_effect ran).origin at_ref
      · exact same ▸ hs.valid ref old here
      · exact checked
      · exact named ▸ checked
    · intro ref svc j input at_ref takes
      obtain ⟨old, here, -, had⟩ | ⟨idle, -⟩ := (perform_effect ran).origin at_ref
      · obtain had | ⟨ref', d, rfl⟩ := had j _ takes
        · exact kept here had
        · obtain ⟨old, here, had⟩ | ⟨rfl, rfl⟩ := offered ran at_ref takes
          · exact kept here had
          · have kind := At.kind reached thread
            cases k with
            | create x =>
              cases (kind : Command.create input = .create x)
              exact ⟨f _, Function.update_self _ _ _⟩
            | serve _ wake => cases wake <;> exact kind.elim
            | stop | remove => cases (kind : Command.create input = _)
            | startup | reconcileDisk | checkLiveness => exact kind.elim
      · obtain offered | ⟨_, busy⟩ := takes
        · cases idle.symm.trans offered
        · cases idle.symm.trans busy
  · cases stopped
  · cases happened
    exact ⟨fun ref svc at_ref => hs.valid ref svc (happen_origin at_ref),
      fun ref svc j input at_ref takes => kept (happen_origin at_ref) takes⟩

theorem reaches_filed (h : system.Reaches (System.init (booting host)) s) : Filed s := by
  induction h with
  | refl => exact ⟨fun _ _ at_ref => (nomatch at_ref), fun _ _ _ _ at_ref => (nomatch at_ref)⟩
  | tail before last ih =>
    obtain ⟨a, -, step⟩ := last
    exact filed_step before ih step

theorem Filed.handled (filed : Filed s) (ordered : Ordered s) (owned : Owned s.shared)
    {ref : Ref} {svc : Service} {j : Nat} {input : CreateInput}
    (at_ref : s.shared.heap ref = some svc) (takes : svc.Takes j (.create input)) :
    input.id = svc.id := by
  obtain ⟨p, thread⟩ := filed.sender ref svc j input at_ref takes
  have creator := ((owned.made ref svc j _ at_ref takes).2 rfl).1
  obtain ⟨input', p', named, thread'⟩ := ordered ref svc j at_ref creator
  cases thread.symm.trans thread'
  exact named

theorem At.directory (reached : system.Reaches (System.init (booting host)) s) {i : Nat}
    {c : Call} (here : At s i c) (touches : c.touches = true) :
    ∃ id, s.shared.directoryOf c = some id ∧ Host.isSandboxID id = true := by
  have safe := (System.safe_reaches (disciplined unassuming) unassuming_meets (fun _ _ => trivial)
    (System.safe_init (booting_sane False.elim)) reached).1
  have filed := reaches_filed reached
  unfold Call.touches at touches
  split at touches
  · rename_i ref
    obtain ⟨svc, j, cmd, ⟨at_ref, busy⟩, creates, -⟩ := here.may safe
    cases cmd with
    | create input =>
      have named := filed.handled (reaches_ordered reached) safe.inv.owned at_ref (.inr ⟨i, busy⟩)
      refine ⟨input.id, ?_, named ▸ filed.valid ref svc at_ref⟩
      simp [Manager.directoryOf, Manager.handling, at_ref, busy]
    | stop | remove => cases creates
  · rename_i ref
    obtain ⟨svc, -, at_ref, -⟩ := here.serves safe
    exact ⟨svc.id, by simp [Manager.directoryOf, at_ref], filed.valid ref svc at_ref⟩
  · rename_i id
    obtain ⟨-, k, f, thread⟩ := here
    exact ⟨id, rfl, reaches_checked reached thread⟩
  · cases touches

/-- Whatever IDs a worker is sent and whatever is in the base dir, a path NewClient
makes, and one Cleanup or ReapSandbox removes with all it holds, is the base dir
with one more element, which is a UUID. The volume's name is of that ID only. -/
theorem directories_confined (reached : system.Reaches (System.init (booting host)) s)
    {i : Nat} {c : Call} (here : At s i c) (touches : c.touches = true) (value : String) :
    ∃ id, s.shared.directoryOf c = some id ∧
      (id.toList.length = 36 ∧ ∀ n c, id.toList[n]? = some c →
        if n ∈ [8, 13, 18, 23] then c = '-' else isHex c = true) ∧
      join [sandboxBaseDir value, id] = some ((clean (sandboxBaseDir value)).child id) ∧
      (clean (sandboxBaseDir value)).child id ≠ clean (sandboxBaseDir value) ∧
      Host.volumeName id = .ok (Host.volumePrefix ++ id) ∧
      ∀ id', id' ≠ id → Host.volumeName id' ≠ Host.volumeName id := by
  obtain ⟨id, named, valid⟩ := here.directory reached touches
  refine ⟨id, named, Host.isSandboxID_grouped valid, (sandboxID_plain valid).join
    (sandboxBaseDir_ne value), Path.child_ne _ _, sandboxID_volumeName valid,
    fun id' other same => ?_⟩
  exact other (volumeName_inj valid same)

end Runs

open Uuid.Standard in
theorem directories_confined_newVM : ∃ s, system.Reaches (System.init (booting .empty)) s ∧
    At s 2 (.vm 0 .newVM) ∧ s.shared.directoryOf (.vm 0 .newVM) = some Host.someID ∧
    join [sandboxBaseDir "", Host.someID] = some (.child ⟨true, ["tmp"]⟩ Host.someID) := by
  -- a create is about to make its directory in the default base dir
  have run : (system.run (System.init (booting .empty)) (ordered1 ++ [.call 2 {}])).map
      (fun s => (pending s 2, s.shared.born 2 == s.shared.process,
        s.shared.directoryOf (.vm 0 .newVM))) =
      some (some (.serve 0 (.command 1 (.create someInput)), .vm 0 .newVM), true,
        some Host.someID) := by
    decide +kernel
  simp only [Option.map_eq_some_iff, Prod.mk.injEq, beq_iff_eq] at run
  obtain ⟨s, hs, asks, current, named⟩ := run
  have here : At s 2 (.vm 0 .newVM) := ⟨current, _, pending_eq_some asks⟩
  have reached := System.reaches_of_run hs
  obtain ⟨id, same, -, joined, -⟩ := directories_confined reached here rfl ""
  cases named.symm.trans same
  have base : clean (sandboxBaseDir "") = ⟨true, ["tmp"]⟩ := by decide +kernel
  rw [base] at joined
  exact ⟨s, reached, here, named, joined⟩

end Fire2.SandboxMgr
