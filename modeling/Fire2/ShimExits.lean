import Fire2.Shim

/-! A handle that is done reports how Firecracker ended.

Everything a client can learn comes from what the shim has recorded: the exit
file Spawn has cleared, and lines that are only written once the file is. So a
connection that drops means that the exit is recorded or never will be. -/

namespace Fire2.Shim
open Interleaving Decimal

structure Recorded (s : World) : Prop where
  started : s.process ≠ .absent → s.cleared = true
  listens : s.listening = true → s.process = .running
  spoke : s.dialed ≠ 0 → s.cleared = true
  file : s.cleared = true → s.exitFile = s.wrote.map itoa
  own : ∀ c, s.wrote = some c → s.vm.ownCode = some c
  final : s.final ≠ "" → ∃ c, s.wrote = some c ∧ s.final = exitedLine c
  data : ∀ k, (s.conns k).data ≠ "" → ∃ c n, s.wrote = some c ∧
    (s.conns k).data = String.ofList ((exitedLine c).toList.take n)
  down : ∀ k, k < s.dialed → (s.conns k).up = false → s.wrote ≠ none ∨ s.lapsed = true
  lapsed : s.lapsed = true → s.wrote = none
  serves : s.server ≠ none → s.process ≠ .absent
  idle : s.server = none → s.vm = .absent ∧ s.wrote = none ∧ (s.process ≠ .gone → s.lapsed = false)
  unspawned : s.spawner = none → s.process = .absent

structure Waiting (s : World) : Prop where
  queue : ∀ k ∈ s.queue, s.holder k = none ∧ (s.conns k).data = "" ∧ k < s.dialed ∧ k ∉ s.clients
  clients : ∀ k ∈ s.clients, s.holder k = none ∧ (s.conns k).data = "" ∧ k < s.dialed
  fresh : ∀ k, s.dialed ≤ k → s.holder k = none ∧ (s.conns k).data = ""
  nodup : s.queue.Nodup ∧ s.clients.Nodup

structure Sane (s : World) : Prop where
  recorded : Recorded s
  waiting : Waiting s

/-- What is recorded stays recorded, and what never will be never is. -/
structure Evolves (s t : World) : Prop where
  cleared : s.cleared = true → t.cleared = true
  wrote : ∀ c, s.wrote = some c → t.wrote = some c
  own : ∀ c, s.vm.ownCode = some c → t.vm.ownCode = some c
  lapsed : s.lapsed = true → t.lapsed = true
  dialed : s.dialed ≤ t.dialed

/-- What the other threads leave alone: for the client that spawns, that the
shim is not started; for the thread that serves, what is recorded; for the
holder of a connection, its data. -/
structure Leaves (i : Nat) (s t : World) : Prop where
  spawner : s.spawner = some i → t.spawner = some i ∧ (s.process = .absent → t.process = .absent)
  server : s.server = some i → t.server = some i ∧ t.wrote = s.wrote ∧
    (s.vm = .absent → t.vm = .absent) ∧
    (t.process = .running → s.process = .running ∧ t.lapsed = s.lapsed)
  holder : ∀ k, s.holder k = some i → t.holder k = some i ∧ (t.conns k).data = (s.conns k).data

def Said (s : World) (line : String) : Prop := ∃ c, s.wrote = some c ∧ line = exitedLine c

def may (i : Nat) (s : World) : Call → Prop
  | .startVM => s.server = some i ∧ s.vm = .absent ∧ s.wrote = none
  | .writeExit c => s.server = some i ∧ s.wrote = none ∧ s.lapsed = false ∧ s.vm.ownCode = some c
  | .finish line => Said s line
  | .write k line => s.holder k = some i ∧ (s.conns k).data = "" ∧ Said s line
  | .close _ => s.wrote ≠ none
  | .closeListener | .exit => s.server = some i
  | .enlist k => s.holder k = some i ∧ (s.conns k).data = ""
  | .removeExit => s.spawner = some i ∧ s.process = .absent
  | .startShim => s.spawner = some i ∧ s.process = .absent ∧ s.cleared = true
  | _ => True

def spec : Spec Call Env Event World where
  Inv := Sane
  Evolves := Evolves
  Keeps := Leaves
  Pre i c s := (c.ofShim = true → s.process = .running) → may i s c
  Cond _ _ _ _ := True
  Out _ _ := True

theorem Evolves.refl (s : World) : Evolves s s := ⟨id, fun _ => id, fun _ => id, id, Nat.le_refl _⟩

theorem Evolves.trans {s t u : World} (h : Evolves s t) (h' : Evolves t u) : Evolves s u :=
  ⟨fun x => h'.cleared (h.cleared x), fun c x => h'.wrote c (h.wrote c x),
    fun c x => h'.own c (h.own c x), fun x => h'.lapsed (h.lapsed x), h.dialed.trans h'.dialed⟩

theorem Leaves.refl (i : Nat) (s : World) : Leaves i s s :=
  ⟨fun x => ⟨x, id⟩, fun x => ⟨x, rfl, id, fun x => ⟨x, rfl⟩⟩, fun _ x => ⟨x, rfl⟩⟩

theorem Leaves.trans {i : Nat} {s t u : World} (h : Leaves i s t) (h' : Leaves i t u) :
    Leaves i s u := by
  refine ⟨fun x => ?_, fun x => ?_, fun k x => ?_⟩
  · obtain ⟨mine, absent⟩ := h.spawner x
    obtain ⟨mine', absent'⟩ := h'.spawner mine
    exact ⟨mine', fun x => absent' (absent x)⟩
  · obtain ⟨mine, wrote, vm, alive⟩ := h.server x
    obtain ⟨mine', wrote', vm', alive'⟩ := h'.server mine
    refine ⟨mine', wrote'.trans wrote, fun x => vm' (vm x), fun x => ?_⟩
    obtain ⟨running, lapsed⟩ := alive' x
    exact ⟨(alive running).1, lapsed.trans (alive running).2⟩
  · obtain ⟨mine, data⟩ := h.holder k x
    obtain ⟨mine', data'⟩ := h'.holder k mine
    exact ⟨mine', data'.trans data⟩

structure Fits (i : Nat) (s t : World) : Prop where
  sane : Sane t
  evolves : Evolves s t
  leaves : ∀ j, j ≠ i → Leaves j s t

section Steps
variable {i : Nat} {s t : World}

theorem Fits.refl (inv : Sane s) : Fits i s s := ⟨inv, .refl s, fun j _ => .refl j s⟩

theorem die_sane (inv : Sane s) (running : s.process = .running) : Sane s.die := by
  obtain ⟨rec, wait⟩ := inv
  have started : s.process ≠ .absent := by simp [running]
  refine ⟨⟨fun _ => rec.started started, nofun, rec.spoke, rec.file, rec.own, rec.final, rec.data,
    fun k _ _ => ?_, fun x => ?_, fun _ => nofun, fun x => ?_, fun x => ?_⟩,
    ⟨nofun, wait.clients, wait.fresh, List.nodup_nil, wait.nodup.2⟩⟩
  · cases wrote : s.wrote with
    | none => exact .inr (by simp [World.die, wrote])
    | some c => exact .inl (by simp [World.die, wrote])
  · simp only [World.die, Bool.or_eq_true, Option.isNone_iff_eq_none] at x
    exact x.elim rec.lapsed id
  · obtain ⟨vm, wrote, -⟩ := rec.idle x
    exact ⟨vm, wrote, fun alive => absurd rfl alive⟩
  · exact absurd (rec.unspawned x) started

theorem die_evolves (s : World) : Evolves s s.die :=
  ⟨id, fun _ => id, fun _ => id, fun x => by simp [World.die, x], Nat.le_refl _⟩

theorem die_leaves (running : s.process = .running) (j : Nat) : Leaves j s s.die :=
  ⟨fun x => ⟨x, fun absent => by rw [running] at absent; cases absent⟩,
    fun x => ⟨x, rfl, id, nofun⟩, fun _ x => ⟨x, rfl⟩⟩

theorem die_fits (inv : Sane s) (running : s.process = .running) : Fits i s s.die :=
  ⟨die_sane inv running, die_evolves s, fun j _ => die_leaves running j⟩

theorem listen_fits (inv : Sane s) (running : s.process = .running) :
    Fits i s { s with listening := true } := by
  obtain ⟨rec, wait⟩ := inv
  exact ⟨⟨⟨rec.started, fun _ => running, rec.spoke, rec.file, rec.own,
    rec.final, rec.data, rec.down, rec.lapsed, rec.serves, rec.idle, rec.unspawned⟩,
    ⟨wait.queue, wait.clients, wait.fresh, wait.nodup⟩⟩,
    ⟨id, fun _ => id, fun _ => id, id, Nat.le_refl _⟩,
    fun j _ => ⟨fun x => ⟨x, id⟩, fun x => ⟨x, rfl, id, fun x => ⟨x, rfl⟩⟩, fun _ x => ⟨x, rfl⟩⟩⟩

theorem aside_fits (inv : Sane s) (pidFile : Option String) (locked accepting : Bool) :
    Fits i s { s with pidFile, locked, accepting } := by
  obtain ⟨rec, wait⟩ := inv
  exact ⟨⟨⟨rec.started, rec.listens, rec.spoke, rec.file, rec.own, rec.final, rec.data, rec.down,
    rec.lapsed, rec.serves, rec.idle, rec.unspawned⟩,
    ⟨wait.queue, wait.clients, wait.fresh, wait.nodup⟩⟩,
    ⟨id, fun _ => id, fun _ => id, id, Nat.le_refl _⟩,
    fun j _ => ⟨fun x => ⟨x, id⟩, fun x => ⟨x, rfl, id, fun x => ⟨x, rfl⟩⟩, fun _ x => ⟨x, rfl⟩⟩⟩

theorem startVM_fits (inv : Sane s) (server : s.server = some i) (absent : s.vm = .absent)
    (unwritten : s.wrote = none) (vm : VM) : Fits i s { s with vm } := by
  obtain ⟨rec, wait⟩ := inv
  refine ⟨⟨⟨rec.started, rec.listens, rec.spoke, rec.file, fun c x => ?_,
    rec.final, rec.data, rec.down, rec.lapsed, rec.serves, fun x => ?_, rec.unspawned⟩,
    ⟨wait.queue, wait.clients, wait.fresh, wait.nodup⟩⟩,
    ⟨id, fun _ => id, fun c x => ?_, id, Nat.le_refl _⟩,
    fun j other => ⟨fun x => ⟨x, id⟩, fun x => ?_, fun _ x => ⟨x, rfl⟩⟩⟩
  · rw [unwritten] at x
    cases x
  · rw [server] at x
    cases x
  · rw [absent] at x
    cases x
  · exact absurd (Option.some.inj (x.symm.trans server)) other

theorem writeExit_fits {c : Int} (inv : Sane s)
    (server : s.server = some i) (unwritten : s.wrote = none) (open_ : s.lapsed = false)
    (own : s.vm.ownCode = some c) :
    Fits i s { s with exitFile := some (itoa c), wrote := some c } := by
  obtain ⟨rec, wait⟩ := inv
  refine ⟨⟨⟨rec.started, rec.listens, rec.spoke, fun _ => rfl, fun c' x => ?_,
    fun x => ?_, fun k x => ?_, fun _ _ _ => .inl nofun, fun x => ?_, rec.serves,
    fun x => ?_, rec.unspawned⟩, ⟨wait.queue, wait.clients, wait.fresh, wait.nodup⟩⟩,
    ⟨id, fun c' x => ?_, fun _ => id, id, Nat.le_refl _⟩,
    fun j other => ⟨fun x => ⟨x, id⟩, fun x => ?_, fun _ x => ⟨x, rfl⟩⟩⟩
  · cases x
    exact own
  · obtain ⟨_, wrote, -⟩ := rec.final x
    rw [unwritten] at wrote
    cases wrote
  · obtain ⟨_, _, wrote, -⟩ := rec.data k x
    rw [unwritten] at wrote
    cases wrote
  · rw [open_] at x
    cases x
  · rw [server] at x
    cases x
  · rw [unwritten] at x
    cases x
  · exact absurd (Option.some.inj (x.symm.trans server)) other

theorem finish_fits {line : String} (inv : Sane s) (said : Said s line) :
    Fits i s { s with
      final := line
      locked := true
      clients := []
      holder := fun k => if k ∈ s.clients then some i else s.holder k } := by
  obtain ⟨rec, wait⟩ := inv
  refine ⟨⟨⟨rec.started, rec.listens, rec.spoke, rec.file, rec.own,
    fun _ => said, rec.data, rec.down, rec.lapsed, rec.serves, rec.idle, rec.unspawned⟩,
    ⟨fun k mem => ?_, nofun, fun k x => ?_, wait.nodup.1, List.nodup_nil⟩⟩,
    ⟨id, fun _ => id, fun _ => id, id, Nat.le_refl _⟩,
    fun j other => ⟨fun x => ⟨x, id⟩, fun x => ⟨x, rfl, id, fun x => ⟨x, rfl⟩⟩, fun k x => ?_⟩⟩
  · obtain ⟨free, data, bound, away⟩ := wait.queue k mem
    exact ⟨by simp [away, free], data, bound, List.not_mem_nil⟩
  · obtain ⟨free, data⟩ := wait.fresh k x
    have away : k ∉ s.clients := fun mem => Nat.not_le_of_lt (wait.clients k mem).2.2 x
    exact ⟨by simp [away, free], data⟩
  · have away : k ∉ s.clients := fun mem => by
      rw [(wait.clients k mem).1] at x
      cases x
    exact ⟨by simp [away, x], rfl⟩

theorem Waiting.held {k j : Nat} (wait : Waiting s) (held : s.holder k = some j) :
    k ∉ s.queue ∧ k ∉ s.clients ∧ k < s.dialed := by
  refine ⟨fun mem => ?_, fun mem => ?_, Nat.lt_of_not_le fun le => ?_⟩
  · rw [(wait.queue k mem).1] at held
    cases held
  · rw [(wait.clients k mem).1] at held
    cases held
  · rw [(wait.fresh k le).1] at held
    cases held

theorem write_fits {k : Nat} {c : Int} {n : Nat} {text : String} (inv : Sane s)
    (held : s.holder k = some i) (unwritten : (s.conns k).data = "") (wrote : s.wrote = some c)
    (cut : text = String.ofList ((exitedLine c).toList.take n)) : Fits i s (s.write k text) := by
  obtain ⟨rec, wait⟩ := inv
  obtain ⟨away, away', bound⟩ := wait.held held
  have same {j : Nat} (other : j ≠ k) : (s.write k text).conns j = s.conns j :=
    Function.update_of_ne other _ _
  have here : (s.write k text).conns k = ⟨text, (s.conns k).up⟩ := by
    simp [World.write, unwritten]
  have up (j : Nat) : ((s.write k text).conns j).up = (s.conns j).up := by
    by_cases eq : j = k
    · rw [eq, here]
    · rw [same eq]
  refine ⟨⟨⟨rec.started, rec.listens, rec.spoke, rec.file, rec.own, rec.final, fun j x => ?_,
    fun j le x => rec.down j le ((up j).symm.trans x), rec.lapsed, rec.serves,
    rec.idle, rec.unspawned⟩, ⟨fun j mem => ?_, fun j mem => ?_, fun j x => ?_, wait.nodup⟩⟩,
    ⟨id, fun _ => id, fun _ => id, id, Nat.le_refl _⟩,
    fun j other => ⟨fun x => ⟨x, id⟩, fun x => ⟨x, rfl, id, fun x => ⟨x, rfl⟩⟩, fun l x => ⟨x, ?_⟩⟩⟩
  · by_cases eq : j = k
    · rw [eq, here]
      exact ⟨c, n, wrote, cut⟩
    · rw [same eq] at x ⊢
      exact rec.data j x
  · rw [same fun eq : j = k => away (eq ▸ mem)]
    exact wait.queue j mem
  · rw [same fun eq : j = k => away' (eq ▸ mem)]
    exact wait.clients j mem
  · rw [same fun eq : j = k => by have le : s.dialed ≤ j := x; omega]
    exact wait.fresh j x
  · rw [same]
    rintro rfl
    exact other (Option.some.inj (x.symm.trans held))

theorem down_sane {conns : Nat → Conn} (inv : Sane s)
    (data : ∀ k, (conns k).data = (s.conns k).data)
    (down : ∀ k, k < s.dialed → (conns k).up = false → s.wrote ≠ none ∨ s.lapsed = true) :
    Sane { s with conns } := by
  obtain ⟨rec, wait⟩ := inv
  refine ⟨⟨rec.started, rec.listens, rec.spoke, rec.file, rec.own, rec.final, fun k x => ?_, down,
    rec.lapsed, rec.serves, rec.idle, rec.unspawned⟩,
    ⟨fun k mem => ?_, fun k mem => ?_, fun k x => ?_, wait.nodup⟩⟩
  · dsimp only at x ⊢
    rw [data] at x ⊢
    exact rec.data k x
  · dsimp only
    rw [data]
    exact wait.queue k mem
  · dsimp only
    rw [data]
    exact wait.clients k mem
  · dsimp only
    rw [data]
    exact wait.fresh k x

theorem close_fits {k : Nat} (inv : Sane s) (wrote : s.wrote ≠ none) :
    Fits i s { s with conns := Function.update s.conns k ⟨(s.conns k).data, false⟩ } := by
  have data (j : Nat) : (Function.update s.conns k ⟨(s.conns k).data, false⟩ j).data =
      (s.conns j).data := by
    by_cases eq : j = k
    · simp [eq]
    · simp [eq]
  exact ⟨down_sane inv data fun _ _ _ => .inl wrote,
    ⟨id, fun _ => id, fun _ => id, id, Nat.le_refl _⟩, fun j _ =>
    ⟨fun x => ⟨x, id⟩, fun x => ⟨x, rfl, id, fun x => ⟨x, rfl⟩⟩, fun l x => ⟨x, data l⟩⟩⟩

theorem hangUp_fits (inv : Sane s) (server : s.server = some i) : Fits i s s.hangUp := by
  obtain ⟨rec, wait⟩ := inv
  have data (k : Nat) : (s.hangUp.conns k).data = (s.conns k).data := by
    simp only [World.hangUp]
    split <;> rfl
  refine ⟨⟨⟨rec.started, nofun, rec.spoke, rec.file, rec.own, rec.final, fun k x => ?_,
    fun k _ _ => ?_, fun x => ?_, rec.serves, fun x => ?_, rec.unspawned⟩,
    ⟨nofun, fun k mem => ?_, fun k x => ?_, List.nodup_nil, wait.nodup.2⟩⟩,
    ⟨id, fun _ => id, fun _ => id, fun x => by simp [World.hangUp, x], Nat.le_refl _⟩,
    fun j other => ⟨fun x => ⟨x, id⟩, fun x => ?_, fun k x => ⟨x, data k⟩⟩⟩
  · rw [data] at x ⊢
    exact rec.data k x
  · cases wrote : s.wrote with
    | none => exact .inr (by simp [World.hangUp, wrote])
    | some c => exact .inl (by simp [World.hangUp, wrote])
  · simp only [World.hangUp, Bool.or_eq_true, Option.isNone_iff_eq_none] at x
    exact x.elim rec.lapsed id
  · exact absurd (server.symm.trans x) nofun
  · rw [data]
    exact wait.clients k mem
  · rw [data]
    exact wait.fresh k x
  · exact absurd (Option.some.inj (x.symm.trans server)) other

theorem accept_fits {k : Nat} {rest : List Nat} (inv : Sane s) (head : s.queue = k :: rest) :
    Fits i s { s with queue := rest, holder := Function.update s.holder k (some i) } ∧
      (s.conns k).data = "" := by
  obtain ⟨rec, wait⟩ := inv
  obtain ⟨nodup, nodup'⟩ := wait.nodup
  rw [head, List.nodup_cons] at nodup
  have first := wait.queue k (by simp [head])
  refine ⟨⟨⟨⟨rec.started, rec.listens, rec.spoke, rec.file, rec.own, rec.final, rec.data, rec.down,
    rec.lapsed, rec.serves, rec.idle, rec.unspawned⟩,
    ⟨fun j mem => ?_, fun j mem => ?_, fun j x => ?_, nodup.2, nodup'⟩⟩,
    ⟨id, fun _ => id, fun _ => id, id, Nat.le_refl _⟩,
    fun j other => ⟨fun x => ⟨x, id⟩, fun x => ⟨x, rfl, id, fun x => ⟨x, rfl⟩⟩,
      fun l x => ⟨?_, rfl⟩⟩⟩,
    first.2.1⟩
  · have apart : j ≠ k := fun eq => nodup.1 (eq ▸ mem)
    simpa [apart] using wait.queue j (by simp [head, mem])
  · have apart : j ≠ k := fun eq => first.2.2.2 (eq ▸ mem)
    simpa [apart] using wait.clients j mem
  · have apart : j ≠ k := fun eq => by
      have bound := first.2.2.1
      have le : s.dialed ≤ j := x
      omega
    simpa [apart] using wait.fresh j x
  · have apart : l ≠ k := fun eq => by
      rw [eq, first.1] at x
      cases x
    simpa [apart] using x

theorem enlist_fits {k : Nat} (inv : Sane s) (held : s.holder k = some i)
    (unwritten : (s.conns k).data = "") :
    Fits i s { s with clients := s.clients ++ [k], holder := Function.update s.holder k none } := by
  obtain ⟨rec, wait⟩ := inv
  obtain ⟨away, away', bound⟩ := wait.held held
  obtain ⟨nodup, nodup'⟩ := wait.nodup
  refine ⟨⟨⟨rec.started, rec.listens, rec.spoke, rec.file, rec.own, rec.final, rec.data, rec.down,
    rec.lapsed, rec.serves, rec.idle, rec.unspawned⟩,
    ⟨fun j mem => ?_, fun j mem => ?_, fun j x => ?_, nodup, ?_⟩⟩,
    ⟨id, fun _ => id, fun _ => id, id, Nat.le_refl _⟩,
    fun j other => ⟨fun x => ⟨x, id⟩, fun x => ⟨x, rfl, id, fun x => ⟨x, rfl⟩⟩,
      fun l x => ⟨?_, rfl⟩⟩⟩
  · have apart : j ≠ k := fun eq => away (eq ▸ mem)
    simpa [apart] using wait.queue j mem
  · by_cases eq : j = k
    · simp [eq, unwritten, bound]
    · have old : j ∈ s.clients := by simpa [eq] using mem
      simpa [eq] using wait.clients j old
  · by_cases eq : j = k
    · simp [eq, unwritten]
    · simpa [eq] using wait.fresh j x
  · exact nodup'.append (List.nodup_singleton k) (by simpa using away')
  · have apart : l ≠ k := fun eq => by
      rw [eq] at x
      exact other (Option.some.inj (x.symm.trans held))
    simpa [apart] using x

theorem removeExit_fits (inv : Sane s) (absent : s.process = .absent) :
    Fits i s { s with exitFile := none, cleared := true } := by
  obtain ⟨rec, wait⟩ := inv
  have unwritten : s.wrote = none := by
    by_contra wrote
    have server : s.server ≠ none := fun x => wrote (rec.idle x).2.1
    exact rec.serves server absent
  exact ⟨⟨⟨fun _ => rfl, rec.listens, fun _ => rfl,
    fun _ => by simp [unwritten], rec.own, rec.final,
    rec.data, rec.down, rec.lapsed, rec.serves, rec.idle, rec.unspawned⟩,
    ⟨wait.queue, wait.clients, wait.fresh, wait.nodup⟩⟩,
    ⟨fun _ => rfl, fun _ => id, fun _ => id, id, Nat.le_refl _⟩,
    fun j _ => ⟨fun x => ⟨x, id⟩, fun x => ⟨x, rfl, id, fun x => ⟨x, rfl⟩⟩, fun _ x => ⟨x, rfl⟩⟩⟩

theorem startShim_fits (inv : Sane s) (spawner : s.spawner = some i) (absent : s.process = .absent)
    (cleared : s.cleared = true) : Fits i s { s with process := .running } := by
  obtain ⟨rec, wait⟩ := inv
  have server : s.server = none := by
    by_contra x
    exact rec.serves x absent
  refine ⟨⟨⟨fun _ => cleared, fun _ => rfl, rec.spoke, rec.file, rec.own,
    rec.final, rec.data, rec.down, rec.lapsed, fun _ => nofun, fun x => ?_, fun x => ?_⟩,
    ⟨wait.queue, wait.clients, wait.fresh, wait.nodup⟩⟩,
    ⟨id, fun _ => id, fun _ => id, id, Nat.le_refl _⟩,
    fun j other => ⟨fun x => ?_, fun x => ?_, fun _ x => ⟨x, rfl⟩⟩⟩
  · obtain ⟨vm, wrote, fresh⟩ := rec.idle x
    exact ⟨vm, wrote, fun _ => fresh (by simp [absent])⟩
  · rw [spawner] at x
    cases x
  · exact absurd (Option.some.inj (x.symm.trans spawner)) other
  · rw [server] at x
    cases x

theorem dial_fits (inv : Sane s) (listening : s.listening = true) :
    Fits i s { s with
      queue := s.queue ++ [s.dialed]
      conns := Function.update s.conns s.dialed ⟨"", true⟩
      dialed := s.dialed + 1 } := by
  obtain ⟨rec, wait⟩ := inv
  have running := rec.listens listening
  have cleared := rec.started (by simp [running])
  have same {k : Nat} (old : k < s.dialed) :
      Function.update s.conns s.dialed ⟨"", true⟩ k = s.conns k :=
    Function.update_of_ne (Nat.ne_of_lt old) _ _
  have data (k : Nat) : (Function.update s.conns s.dialed ⟨"", true⟩ k).data =
      (s.conns k).data := by
    by_cases eq : k = s.dialed
    · simp [eq, (wait.fresh s.dialed (Nat.le_refl _)).2]
    · simp [eq]
  have away : s.dialed ∉ s.clients := fun mem => Nat.lt_irrefl _ (wait.clients _ mem).2.2
  refine ⟨⟨⟨rec.started, rec.listens, fun _ => cleared, rec.file, rec.own, rec.final, fun k x => ?_,
    fun k le x => ?_, rec.lapsed, rec.serves, rec.idle, rec.unspawned⟩,
    ⟨fun k mem => ?_, fun k mem => ?_, fun k x => ?_, ?_, wait.nodup.2⟩⟩,
    ⟨id, fun _ => id, fun _ => id, id, Nat.le_succ _⟩,
    fun j _ => ⟨fun x => ⟨x, id⟩, fun x => ⟨x, rfl, id, fun x => ⟨x, rfl⟩⟩, fun k x => ⟨x, data k⟩⟩⟩
  · dsimp only at x ⊢
    rw [data] at x ⊢
    exact rec.data k x
  · dsimp only at x le
    by_cases eq : k = s.dialed
    · simp [eq] at x
    · have old : k < s.dialed := by omega
      rw [same old] at x
      exact rec.down k old x
  · dsimp only
    rw [data]
    obtain mem | eq := List.mem_append.1 mem
    · obtain ⟨free, data, bound, away⟩ := wait.queue k mem
      exact ⟨free, data, Nat.lt_succ_of_lt bound, away⟩
    · rw [List.mem_singleton.1 eq]
      obtain ⟨free, data⟩ := wait.fresh s.dialed (Nat.le_refl _)
      exact ⟨free, data, Nat.lt_succ_self _, away⟩
  · dsimp only
    rw [data]
    obtain ⟨free, data, bound⟩ := wait.clients k mem
    exact ⟨free, data, Nat.lt_succ_of_lt bound⟩
  · dsimp only at x ⊢
    rw [data]
    exact wait.fresh k (Nat.le_of_succ_le x)
  · refine wait.nodup.1.append (List.nodup_singleton _) ?_
    simp only [List.disjoint_singleton]
    exact fun mem => Nat.lt_irrefl _ (wait.queue _ mem).2.2.1

end Steps

section Sound
variable {i : Nat} {c : Call} {e : Env} {a : c.Answer} {s t : World}

theorem cutLine_eq (e : Env) (line : String) :
    ∃ n, cutLine e line = String.ofList (line.toList.take n) := by
  unfold cutLine
  split
  · exact ⟨line.toList.length, by rw [List.take_length, String.ofList_toList]⟩
  · rename_i n _
    exact ⟨n, rfl⟩

theorem perform_fits (inv : Sane s) (running : c.ofShim = true → s.process = .running)
    (allowed : may i s c) (h : perform i c e s = some (a, t)) : Fits i s t := by
  cases c with
  | listen =>
    cases Option.some.inj h
    split
    · exact listen_fits inv (running rfl)
    · exact .refl inv
  | writePid =>
    cases Option.some.inj h
    split
    · exact aside_fits inv _ _ _
    · exact .refl inv
  | goAccept | unlock =>
    cases Option.some.inj h
    exact aside_fits inv _ _ _
  | startVM =>
    cases Option.some.inj h
    exact startVM_fits inv allowed.1 allowed.2.1 allowed.2.2 _
  | waitVM =>
    simp only [perform] at h
    split at h
    · cases Option.some.inj h
      exact .refl inv
    · cases h
  | writeExit code =>
    cases Option.some.inj h
    obtain ⟨server, unwritten, fresh, own⟩ := allowed
    exact writeExit_fits inv server unwritten fresh own
  | finish line =>
    cases Option.some.inj h
    exact finish_fits inv allowed
  | write k line =>
    cases Option.some.inj h
    obtain ⟨held, unwritten, c, wrote, rfl⟩ := allowed
    obtain ⟨n, cut⟩ := cutLine_eq e (exitedLine c)
    exact write_fits inv held unwritten wrote cut
  | close k =>
    cases Option.some.inj h
    exact close_fits inv allowed
  | closeListener =>
    cases Option.some.inj h
    exact hangUp_fits inv allowed
  | exit =>
    cases Option.some.inj h
    exact die_fits inv (running rfl)
  | accept =>
    simp only [perform] at h
    split at h
    · split at h
      · cases h
      · rename_i head
        cases Option.some.inj h
        exact (accept_fits inv head).1
    · cases Option.some.inj h
      exact .refl inv
  | enlist k =>
    simp only [perform] at h
    split at h
    · cases h
    · cases Option.some.inj h
      split
      · exact enlist_fits inv allowed.1 allowed.2
      · exact .refl inv
  | removeExit =>
    cases Option.some.inj h
    split
    · exact removeExit_fits inv allowed.2
    · exact .refl inv
  | startShim =>
    cases Option.some.inj h
    split
    · exact startShim_fits inv allowed.1 allowed.2.1 allowed.2.2
    · exact .refl inv
  | dial =>
    simp only [perform] at h
    split at h
    · rename_i open_
      cases Option.some.inj h
      exact dial_fits inv (Bool.and_eq_true_iff.1 open_).2
    · cases Option.some.inj h
      exact .refl inv
  | killShim =>
    cases Option.some.inj h
    split
    · rename_i running
      exact die_fits inv running
    · exact .refl inv
  | readLine k =>
    simp only [perform] at h
    split at h
    · cases Option.some.inj h
      exact .refl inv
    · split at h
      · cases h
      · cases Option.some.inj h
        exact .refl inv
  | openLog | exited | readExit | readPid | isShimOf =>
    cases Option.some.inj h
    exact .refl inv

theorem exec_perform (h : exec i c e s = some (a, t)) :
    (c.ofShim = true → s.process = .running) ∧ perform i c e s = some (a, t) := by
  unfold exec at h
  split at h
  · cases h
  · rename_i alive
    exact ⟨by simpa using alive, h⟩

theorem spec_sound : spec.Sound exec where
  evolves_refl := .refl
  evolves_trans := .trans
  keeps_refl := .refl
  keeps_trans := .trans
  step inv pre _ ran := by
    obtain ⟨running, done⟩ := exec_perform ran
    have fits := perform_fits inv running (pre running) done
    exact ⟨fits.sane, fits.evolves, fits.leaves⟩

end Sound

theorem exitCode_int64 (st : WaitStatus) : int64 (exitCode st) := by
  cases st with
  | exited code =>
    have := code.isLt
    exact ⟨by simp only [exitCode]; omega, by simp only [exitCode]; omega⟩
  | signaled signal =>
    have := signal.isLt
    exact ⟨by simp only [exitCode]; omega, by simp only [exitCode]; omega⟩

theorem ownCode_int64 {vm : VM} {c : Int} (h : vm.ownCode = some c) : int64 c := by
  cases vm with
  | failed =>
    cases h
    decide
  | exited st =>
    cases h
    exact exitCode_int64 st
  | absent | running => cases h

theorem readExit_eq {s : World} (rec : Recorded s) (cleared : s.cleared = true) :
    (∀ c, s.wrote = some c → readExit s = .ok c) ∧
      (s.wrote = none → ∃ err, readExit s = .error err) := by
  have file := rec.file cleared
  refine ⟨fun c wrote => ?_, fun wrote => ?_⟩
  · rw [wrote] at file
    have file : s.exitFile = some (itoa c) := file
    simp only [readExit, file, trimSpace_itoa, atoi_itoa (ownCode_int64 (rec.own c wrote))]
  · rw [wrote] at file
    have file : s.exitFile = none := file
    simp only [readExit, file]
    exact ⟨_, rfl⟩

/-- What a handle that is done says: how Firecracker ended if the shim recorded
it, and an error if the shim ended without. -/
def Reports (s : World) (code : Int) (err : Option Err) : Prop :=
  (∃ c, s.wrote = some c ∧ s.vm.ownCode = some c ∧ code = c ∧ err = none) ∨
    (s.wrote = none ∧ s.lapsed = true ∧ code = -1 ∧ err ≠ none)

def Correct : Outcome → World → Prop
  | .done code err, s => Reports s code err
  | _, _ => True

theorem Recorded.reports {s : World} {c : Int} (rec : Recorded s) (wrote : s.wrote = some c) :
    Reports s c none :=
  .inl ⟨c, wrote, rec.own c wrote, rfl, rfl⟩

section Triples
variable {α : Type} {i : Nat} {s : World} {Q : α → World → Prop}

theorem call_wp {c : Call} {f : c.Answer → M α}
    (pre : ∀ t, Sane t → spec.Rely i s t → (c.ofShim = true → t.process = .running) → may i t c)
    (next : ∀ t e a u, Sane t → spec.Rely i s t → (c.ofShim = true → t.process = .running) →
      perform i c e t = some (a, u) → Sane u → WP exec spec i Q (f a) u) :
    WP exec spec i Q (call c >>= f) s := by
  refine WP.call pre fun t e a u inv rely _ ran inv' => ?_
  obtain ⟨running, done⟩ := exec_perform ran
  exact next t e a u inv rely running done inv'

theorem fallback_wp {err : Err} (cleared : s.cleared = true)
    (settled : s.wrote ≠ none ∨ s.lapsed = true) :
    WP exec spec i Correct (read.fallback err) s := by
  refine call_wp (fun _ _ _ _ => trivial) fun t e a u inv rely _ ran inv' => ?_
  cases Option.some.inj ran
  obtain ⟨found, missing⟩ := readExit_eq inv.recorded (rely.1.cleared cleared)
  cases wrote : t.wrote with
  | some c =>
    rw [found c wrote]
    exact .ret (inv.recorded.reports wrote)
  | none =>
    obtain ⟨_, missing⟩ := missing wrote
    rw [missing]
    have lapsed : t.lapsed = true := by
      obtain recorded | lapsed := settled
      · obtain ⟨c, recorded⟩ := Option.ne_none_iff_exists'.1 recorded
        cases wrote.symm.trans (rely.1.wrote c recorded)
      · exact rely.1.lapsed lapsed
    exact .ret (.inr ⟨wrote, lapsed, rfl, nofun⟩)

theorem read_wp {k : Nat} (dialed : k < s.dialed) : WP exec spec i Correct (read k) s := by
  refine call_wp (fun _ _ _ _ => trivial) fun t e a u inv rely _ ran inv' => ?_
  have bound : k < t.dialed := Nat.lt_of_lt_of_le dialed rely.1.dialed
  have cleared := inv.recorded.spoke (Nat.ne_of_gt (Nat.zero_lt_of_lt bound))
  simp only [perform] at ran
  split at ran
  · rename_i line whole
    cases Option.some.inj ran
    have some_ : (t.conns k).data ≠ "" := by
      intro empty
      rw [empty] at whole
      cases whole
    obtain ⟨c, n, wrote, data⟩ := inv.recorded.data k some_
    rw [data] at whole
    cases firstLine_cut whole
    dsimp only
    rw [parseExitedLine_exitedLine (ownCode_int64 (inv.recorded.own c wrote))]
    exact .ret (inv.recorded.reports wrote)
  · split at ran
    · cases ran
    · rename_i down
      cases Option.some.inj ran
      exact fallback_wp cleared (inv.recorded.down k bound (by simpa using down))

theorem dial_dialed {e : Env} {a : Option Nat} {t u : World}
    (h : perform i .dial e t = some (a, u)) {k : Nat} (h' : a = some k) : k < u.dialed := by
  simp only [perform] at h
  split at h
  · cases Option.some.inj h
    cases h'
    exact Nat.lt_succ_self _
  · cases Option.some.inj h
    cases h'

theorem connect_wp {tries : Nat} (cleared : s.cleared = true) :
    WP exec spec i Correct (connect tries) s := by
  induction tries generalizing s with
  | zero => exact call_wp (fun _ _ _ _ => trivial) fun _ _ _ _ _ _ _ _ _ => .ret trivial
  | succ tries ih =>
    refine call_wp (fun _ _ _ _ => trivial) fun t e a u inv rely _ ran inv' => ?_
    have cleared' : u.cleared = true :=
      (perform_fits inv (c := .dial) nofun trivial ran).evolves.cleared (rely.1.cleared cleared)
    cases a with
    | some k => exact read_wp (dial_dialed ran rfl)
    | none =>
      refine call_wp (fun _ _ _ _ => trivial) fun t e a v inv rely _ ran inv' => ?_
      have cleared' := rely.1.cleared cleared'
      cases Option.some.inj ran
      split
      · refine call_wp (fun _ _ _ _ => trivial) fun w e a v inv rely _ ran inv' => ?_
        have cleared' := rely.1.cleared cleared'
        cases Option.some.inj ran
        obtain ⟨found, missing⟩ := readExit_eq inv.recorded cleared'
        cases wrote : w.wrote with
        | some c =>
          rw [found c wrote]
          exact .ret (inv.recorded.reports wrote)
        | none =>
          obtain ⟨_, missing⟩ := missing wrote
          rw [missing]
          exact .ret trivial
      · exact ih cleared'

theorem attach_wp : WP exec spec i Correct attach s := by
  refine call_wp (fun _ _ _ _ => trivial) fun t e a u inv rely _ ran inv' => ?_
  cases a with
  | none => exact .ret trivial
  | some pid =>
    refine call_wp (fun _ _ _ _ => trivial) fun t e a u inv rely _ ran inv' => ?_
    split
    · exact .ret trivial
    refine call_wp (fun _ _ _ _ => trivial) fun t e a u inv rely _ ran inv' => ?_
    cases a with
    | ok => exact .ret trivial
    | error =>
      refine call_wp (fun _ _ _ _ => trivial) fun t e a u inv rely _ ran inv' => ?_
      cases a with
      | none => exact .ret trivial
      | some k => exact read_wp (dial_dialed ran rfl)

theorem spawn_wp {tries : Nat} (spawner : s.spawner = some i) (absent : s.process = .absent) :
    WP exec spec i Correct (spawn tries) s := by
  have kept {s t : World} (rely : spec.Rely i s t)
    (mine : s.spawner = some i ∧ s.process = .absent) :
      t.spawner = some i ∧ t.process = .absent := by
    obtain ⟨mine', absent'⟩ := rely.2.spawner mine.1
    exact ⟨mine', absent' mine.2⟩
  refine call_wp (fun _ _ _ _ => trivial) fun t e a u inv rely _ ran inv' => ?_
  have mine := kept rely ⟨spawner, absent⟩
  cases Option.some.inj ran
  split
  · exact .ret trivial
  refine call_wp (fun _ _ rely _ => kept rely mine) fun t e a u inv rely _ ran inv' => ?_
  have mine := kept rely mine
  cases Option.some.inj ran
  cases e.ok with
  | false => exact .ret trivial
  | true =>
    have cleared : ({ t with exitFile := none, cleared := true } : World).cleared = true := rfl
    refine call_wp (fun v _ rely _ => ?_) fun v e a u inv rely _ ran inv' => ?_
    · obtain ⟨spawner, absent⟩ := kept rely mine
      exact ⟨spawner, absent, rely.1.cleared rfl⟩
    · have cleared := rely.1.cleared cleared
      cases Option.some.inj ran
      cases e.ok with
      | false => exact .ret trivial
      | true => exact connect_wp cleared

structure Serves (i : Nat) (s : World) : Prop where
  server : s.server = some i
  unwritten : s.wrote = none
  open_ : s.process = .running → s.lapsed = false

theorem Serves.rely {t : World} (h : Serves i s) (rely : spec.Rely i s t) : Serves i t := by
  obtain ⟨server, wrote, -, alive⟩ := rely.2.server h.server
  refine ⟨server, wrote.trans h.unwritten, fun running => ?_⟩
  obtain ⟨running, lapsed⟩ := alive running
  exact lapsed.trans (h.open_ running)

theorem disconnect_wp {c : Int} {ks : List Nat} (server : s.server = some i)
    (wrote : s.wrote = some c) (held : ∀ k ∈ ks, s.holder k = some i ∧ (s.conns k).data = "")
    (nodup : ks.Nodup) : WP exec spec i (fun _ t => t.server = some i)
    (disconnect (exitedLine c) ks) s := by
  induction ks generalizing s with
  | nil => exact .ret server
  | cons k ks ih =>
    obtain ⟨away, nodup⟩ := List.nodup_cons.1 nodup
    have kept {t : World} (rely : spec.Rely i s t) (j : Nat) (mem : j ∈ k :: ks) :
        t.holder j = some i ∧ (t.conns j).data = "" := by
      obtain ⟨mine, data⟩ := rely.2.holder j (held j mem).1
      exact ⟨mine, data.trans (held j mem).2⟩
    refine call_wp (fun t _ rely _ => ?_) fun t e a u inv rely _ ran inv' => ?_
    · obtain ⟨mine, data⟩ := kept rely k List.mem_cons_self
      exact ⟨mine, data, c, rely.1.wrote c wrote, rfl⟩
    have server := (rely.2.server server).1
    have wrote := rely.1.wrote c wrote
    have held := kept rely
    cases Option.some.inj ran
    have rest (j : Nat) (mem : j ∈ ks) : (t.write k (cutLine e (exitedLine c))).holder j = some i ∧
        ((t.write k (cutLine e (exitedLine c))).conns j).data = "" := by
      have apart : j ≠ k := fun eq => away (eq ▸ mem)
      obtain ⟨mine, data⟩ := held j (List.mem_cons_of_mem k mem)
      exact ⟨mine, by simpa [World.write, apart] using data⟩
    refine call_wp (fun v _ rely _ => ?_) fun v e a u inv rely _ ran inv' => ?_
    · have wrote : v.wrote = some c := rely.1.wrote c wrote
      simp [may, wrote]
    have server : v.server = some i := (rely.2.server server).1
    have wrote : v.wrote = some c := rely.1.wrote c wrote
    cases Option.some.inj ran
    refine ih server wrote (fun j mem => ?_) nodup
    have apart : j ≠ k := fun eq => away (eq ▸ mem)
    obtain ⟨mine, data⟩ := rely.2.holder j (rest j mem).1
    exact ⟨mine, by simpa [apart] using data.trans (rest j mem).2⟩

theorem finish_wp {c : Int} (server : s.server = some i) (wrote : s.wrote = some c) :
    WP exec spec i (fun _ t => t.server = some i) (finish (exitedLine c)) s := by
  refine call_wp (fun t _ rely _ => ⟨c, rely.1.wrote c wrote, rfl⟩)
    fun t e a u inv rely _ ran inv' => ?_
  have server := (rely.2.server server).1
  have wrote := rely.1.wrote c wrote
  cases Option.some.inj ran
  refine WP.bind (disconnect_wp ?_ ?_ (fun k mem => ?_) inv.waiting.nodup.2) fun _ v server => ?_
  · exact server
  · exact wrote
  · exact ⟨by simp [mem], (inv.waiting.clients k mem).2.1⟩
  refine .call (fun _ _ _ _ => trivial) fun v e a u inv rely _ ran inv' => .ret ?_
  have server := (rely.2.server server).1
  cases Option.some.inj (exec_perform ran).2
  exact server

theorem report_wp {c : Int} (h : Serves i s) (own : s.vm.ownCode = some c) :
    WP exec spec i (fun _ t => t.server = some i) (report c) s := by
  refine call_wp (fun t _ rely running => ?_) fun t e a u inv rely _ ran inv' => ?_
  · have h := h.rely rely
    exact ⟨h.server, h.unwritten, h.open_ (running rfl), rely.1.own c own⟩
  have h := h.rely rely
  cases Option.some.inj ran
  refine WP.bind (finish_wp ?_ ?_) fun _ v server => ?_
  · exact h.server
  · rfl
  refine .call (fun t _ rely _ => (rely.2.server server).1)
    fun v e a u inv rely _ ran inv' => .ret ?_
  have server := (rely.2.server server).1
  cases Option.some.inj (exec_perform ran).2
  exact server

theorem serve_wp (h : Serves i s) (absent : s.vm = .absent) :
    WP exec spec i (fun _ t => t.server = some i) serve s := by
  have kept {s t : World} (rely : spec.Rely i s t) (h : Serves i s ∧ s.vm = .absent) :
      Serves i t ∧ t.vm = .absent :=
    ⟨h.1.rely rely, (rely.2.server h.1.server).2.2.1 h.2⟩
  refine call_wp (fun _ _ _ _ => trivial) fun t e a u inv rely _ ran inv' => ?_
  obtain ⟨h, absent⟩ := kept rely ⟨h, absent⟩
  cases Option.some.inj ran
  cases e.ok with
  | false => exact .ret h.server
  | true =>
  have h : Serves i { t with listening := true } := ⟨h.server, h.unwritten, h.open_⟩
  refine call_wp (fun _ _ _ _ => trivial) fun t e a u inv rely _ ran inv' => ?_
  obtain ⟨h, absent⟩ := kept rely ⟨h, absent⟩
  cases Option.some.inj ran
  cases e.ok with
  | false =>
    refine .call (fun t _ rely _ => (rely.2.server h.server).1)
      fun t e a u inv rely _ ran inv' => .ret ?_
    have server := (rely.2.server h.server).1
    cases Option.some.inj (exec_perform ran).2
    exact server
  | true =>
  have h : Serves i { t with pidFile := some (itoa t.pid ++ "\n") } :=
    ⟨h.server, h.unwritten, h.open_⟩
  refine call_wp (fun _ _ _ _ => trivial) fun t e a u inv rely _ ran inv' => ?_
  obtain ⟨h, absent⟩ := kept rely ⟨h, absent⟩
  cases Option.some.inj ran
  have h : Serves i { t with accepting := true } := ⟨h.server, h.unwritten, h.open_⟩
  refine call_wp (fun t _ rely _ => ?_) fun t e a u inv rely _ ran inv' => ?_
  · obtain ⟨h, absent⟩ := kept rely ⟨h, absent⟩
    exact ⟨h.server, absent, h.unwritten⟩
  obtain ⟨h, absent⟩ := kept rely ⟨h, absent⟩
  cases Option.some.inj ran
  cases e.ok with
  | false =>
    have h : Serves i { t with vm := .failed } := ⟨h.server, h.unwritten, h.open_⟩
    exact report_wp h rfl
  | true =>
    have h : Serves i { t with vm := .running } := ⟨h.server, h.unwritten, h.open_⟩
    refine call_wp (fun _ _ _ _ => trivial) fun t e a u inv rely _ ran inv' => ?_
    have h := h.rely rely
    simp only [perform] at ran
    split at ran
    · rename_i st exited
      cases Option.some.inj ran
      exact report_wp h (by rw [exited]; rfl)
    · cases ran

theorem main_wp (h : Serves i s) (absent : s.vm = .absent) : WP exec spec i Correct main s := by
  refine (serve_wp h absent).bind fun _ t server => ?_
  exact call_wp (fun t _ rely _ => (rely.2.server server).1) fun _ _ _ _ _ _ _ _ _ => .ret trivial

theorem accept_wp : WP exec spec i Correct accept s := by
  have again {s : World} : WP exec spec i Correct (call .goAccept >>= fun _ => pure .shim) s :=
    call_wp (fun _ _ _ _ => trivial) fun _ _ _ _ _ _ _ _ _ => .ret trivial
  have kept {s t : World} {k : Nat} (rely : spec.Rely i s t)
      (h : s.holder k = some i ∧ (s.conns k).data = "") : t.holder k = some i ∧
      (t.conns k).data = "" := by
    obtain ⟨mine, data⟩ := rely.2.holder k h.1
    exact ⟨mine, data.trans h.2⟩
  refine call_wp (fun _ _ _ _ => trivial) fun t e a u inv rely _ ran inv' => ?_
  cases a with
  | none => exact .ret trivial
  | some k =>
    have mine : u.holder k = some i ∧ (u.conns k).data = "" := by
      simp only [perform] at ran
      split at ran
      · split at ran
        · cases ran
        · rename_i head
          cases Option.some.inj ran
          exact ⟨Function.update_self .., (accept_fits (i := i) inv head).2⟩
      · cases Option.some.inj ran
    refine call_wp (fun t _ rely _ => kept rely mine) fun t e final u inv rely _ ran inv' => ?_
    have mine := kept rely mine
    simp only [perform] at ran
    split at ran
    · cases ran
    obtain ⟨rfl, rfl⟩ := Prod.mk.inj (Option.some.inj ran)
    by_cases silent : t.final = ""
    · simp only [silent, ne_eq, not_true_eq_false, if_false]
      exact again
    · simp only [silent, ne_eq, not_false_eq_true, if_true, if_false]
      obtain ⟨c, wrote, line⟩ := inv.recorded.final silent
      refine call_wp (fun v _ rely _ => ?_) fun v e a u inv rely _ ran inv' => ?_
      · obtain ⟨held, data⟩ := kept rely mine
        exact ⟨held, data, c, rely.1.wrote c wrote, line⟩
      have wrote : v.wrote = some c := rely.1.wrote c wrote
      cases Option.some.inj ran
      refine call_wp (fun w _ rely _ => ?_) fun _ _ _ _ _ _ _ _ _ => again
      have wrote : w.wrote = some c := rely.1.wrote c wrote
      simp [may, wrote]

end Triples

theorem start_fits {i : Nat} {k : Kind} {s t : World} (inv : Sane s) (h : start i k s = some t) :
    Fits i s t ∧ WP exec spec i Correct (body k) t := by
  obtain ⟨rec, wait⟩ := inv
  cases k with
  | spawn tries =>
    simp only [start] at h
    split at h
    · rename_i unspawned
      cases h
      have absent := rec.unspawned unspawned
      refine ⟨⟨⟨⟨rec.started, rec.listens, rec.spoke, rec.file, rec.own,
        rec.final, rec.data, rec.down, rec.lapsed, rec.serves, rec.idle, nofun⟩,
        ⟨wait.queue, wait.clients, wait.fresh, wait.nodup⟩⟩,
        ⟨id, fun _ => id, fun _ => id, id, Nat.le_refl _⟩,
        fun j _ => ⟨fun x => ?_, fun x => ⟨x, rfl, id, fun x => ⟨x, rfl⟩⟩, fun _ x => ⟨x, rfl⟩⟩⟩,
        spawn_wp rfl absent⟩
      rw [unspawned] at x
      cases x
    · cases h
  | attach =>
    cases h
    exact ⟨.refl ⟨rec, wait⟩, attach_wp⟩
  | serve =>
    simp only [start] at h
    split at h
    · rename_i ready
      cases h
      obtain ⟨running, unserved⟩ : s.process = .running ∧ s.server = none := by simpa using ready
      obtain ⟨vm, wrote, lapsed⟩ := rec.idle unserved
      refine ⟨⟨⟨⟨rec.started, rec.listens, rec.spoke, rec.file, rec.own,
        rec.final, rec.data, rec.down, rec.lapsed,
        fun _ => by simp [running], nofun, rec.unspawned⟩,
        ⟨wait.queue, wait.clients, wait.fresh, wait.nodup⟩⟩,
        ⟨id, fun _ => id, fun _ => id, id, Nat.le_refl _⟩,
        fun j _ => ⟨fun x => ⟨x, id⟩, fun x => ?_, fun _ x => ⟨x, rfl⟩⟩⟩,
        main_wp ⟨rfl, wrote, fun _ => lapsed (by simp [running])⟩ vm⟩
      rw [unserved] at x
      cases x
    · cases h
  | accept =>
    simp only [start] at h
    split at h
    · cases h
      exact ⟨aside_fits ⟨rec, wait⟩ _ _ _, accept_wp⟩
    · cases h

theorem happen_fits {x : Event} {s t : World} (inv : Sane s) (h : happen x s = some t) :
    Sane t ∧ Evolves s t ∧ ∀ j, Leaves j s t := by
  cases x with
  | kill =>
    simp only [happen] at h
    split at h
    · rename_i running
      cases h
      exact ⟨die_sane inv running, die_evolves s, die_leaves running⟩
    · cases h
  | vmExits st =>
    simp only [happen] at h
    split at h
    · rename_i running
      cases h
      obtain ⟨rec, wait⟩ := inv
      have unwritten : s.wrote = none := by
        cases wrote : s.wrote with
        | none => rfl
        | some c =>
          have own := rec.own c wrote
          rw [running] at own
          cases own
      refine ⟨⟨⟨rec.started, rec.listens, rec.spoke, rec.file, fun c x => ?_, rec.final, rec.data,
        rec.down, rec.lapsed, rec.serves, fun x => ?_, rec.unspawned⟩,
        ⟨wait.queue, wait.clients, wait.fresh, wait.nodup⟩⟩,
        ⟨id, fun _ => id, fun c x => ?_, id, Nat.le_refl _⟩,
        fun j => ⟨fun x => ⟨x, id⟩, fun x => ⟨x, rfl, fun absent => ?_, fun x => ⟨x, rfl⟩⟩,
          fun _ x => ⟨x, rfl⟩⟩⟩
      · rw [unwritten] at x
        cases x
      · rw [(rec.idle x).1] at running
        cases running
      · rw [running] at x
        cases x
      · rw [running] at absent
        cases absent
    · cases h

theorem disciplined : system.Disciplined spec fun _ _ => Correct where
  sound := spec_sound
  start i k s t inv started := by
    obtain ⟨fits, wp⟩ := start_fits inv started
    exact ⟨fits.sane, fits.evolves, fits.leaves, wp⟩
  ext x s t inv _ happened := happen_fits inv happened

theorem before_sane (exitFile pidFile : Option String) (pid : Nat) :
    Sane (.before exitFile pidFile pid) :=
  ⟨⟨fun x => absurd rfl x, nofun, fun x => absurd rfl x, nofun, nofun, fun x => absurd rfl x,
    fun _ x => absurd rfl x, nofun, nofun, fun x => absurd rfl x, fun _ => ⟨rfl, rfl, fun _ => rfl⟩,
    fun _ => rfl⟩, ⟨nofun, nofun, fun _ _ => ⟨rfl, rfl⟩, List.nodup_nil, List.nodup_nil⟩⟩

/-- Whatever an earlier VM left in the directory, a handle that is done has
Firecracker's own exit code if the shim has recorded it, and an error if the
shim ended without recording it. -/
theorem handle_reports_exit {exitFile pidFile : Option String} {pid : Nat} {t : State}
    (run : system.Reaches (System.init (.before exitFile pidFile pid)) t) {i : Nat} {k : Kind}
    {code : Int} {err : Option Err} (done : t.threads i = some ⟨k, .ret (.done code err)⟩) :
    (∀ c, t.shared.wrote = some c → t.shared.vm.ownCode = some c ∧ code = c ∧ err = none) ∧
      (t.shared.wrote = none → t.shared.lapsed = true ∧ code = -1 ∧ err ≠ none) := by
  have run : system.ReachesIf spec.Cond spec.Out
    (System.init (.before exitFile pidFile pid)) t := run
  obtain ⟨w, moved, report⟩ := System.safe_results disciplined
    (before_sane exitFile pidFile pid) run done
  obtain ⟨c, wrote, own, rfl, rfl⟩ | ⟨unwritten, lapsed, rfl, error⟩ := report
  · have wrote := moved.wrote code wrote
    refine ⟨fun c' wrote' => ?_, fun unwritten => ?_⟩
    · cases wrote.symm.trans wrote'
      exact ⟨moved.own code own, rfl, rfl⟩
    · cases wrote.symm.trans unwritten
  · have lapsed := moved.lapsed lapsed
    have sane := (System.safe_reachesIf disciplined
      (System.safe_init (before_sane exitFile pidFile pid)) run).1.inv
    refine ⟨fun c' wrote' => ?_, fun _ => ⟨lapsed, rfl, error⟩⟩
    cases (sane.recorded.lapsed lapsed).symm.trans wrote'

def queued : List (Action Kind Env Event) :=
  -- Firecracker exits while the connection of the client that spawned it is still in the
  -- queue; the directory holds the exit of an earlier VM
  [.spawn (.spawn 1), .call 0 {}, .call 0 {}, .call 0 {}, .spawn .serve, .call 1 {}, .call 0 {},
    .call 1 {}, .call 1 {}, .call 1 {}, .ext (.vmExits (.exited 7)), .call 1 {}, .call 1 {},
    .call 1 {}, .call 1 {}, .call 1 {}, .call 0 {}, .call 0 {}]

def outcome? (t : State) (i : Nat) : Option (Kind × Outcome) :=
  match t.threads i with
  | some ⟨k, .ret a⟩ => some (k, a)
  | _ => none

theorem outcome?_eq {t : State} {i : Nat} {k : Kind} {a : Outcome}
    (h : outcome? t i = some (k, a)) : t.threads i = some ⟨k, .ret a⟩ := by
  unfold outcome? at h
  split at h
  · rename_i thread
    cases h
    exact thread
  · cases h

theorem handle_reports_exit_queued : ∃ t,
    system.Reaches (System.init (.before (some "3") (some "41\n") 42)) t ∧
    t.threads 0 = some ⟨.spawn 1, .ret (.done 7 none)⟩ ∧ t.shared.wrote = some 7 ∧
    t.shared.vm.ownCode = some 7 := by
  -- its handle reports the exit all the same, from the file
  have run : (system.run (System.init (.before (some "3") (some "41\n") 42)) queued).map
      (fun t => (outcome? t 0, t.shared.wrote)) = some (some (.spawn 1, .done 7 none), some 7) := by
    decide +kernel
  obtain ⟨t, ht, seen⟩ := Option.map_eq_some_iff.1 run
  obtain ⟨done, wrote⟩ := Prod.mk.inj seen
  have reached := System.reaches_of_run ht
  have own := (handle_reports_exit reached (outcome?_eq done)).1 7 wrote
  exact ⟨t, reached, outcome?_eq done, wrote, own.1⟩

end Fire2.Shim
