import Fire2.Interleaving
import Fire2.Model
import Fire2.Decimal

/-! Package shim: the process that keeps a VM alive without the worker, and the
worker's connections to it.

The shim says how Firecracker ended in two ways, by a file in the sandbox
directory and by a line to every client. The directory may hold the files of an
earlier VM, whose shim is gone. Signals only make Firecracker exit sooner, and
the temporary files that are renamed into place are read by nobody: neither is
a step of its own. -/

namespace Fire2.Shim
open Interleaving Decimal

inductive WaitStatus where
  | exited (code : Fin 256)
  | signaled (signal : Fin 128)
  deriving DecidableEq, Repr

def exitCode : WaitStatus → Int
  | .exited code => code.val
  | .signaled signal => 128 + signal.val

inductive VM where
  | absent | running | failed
  | exited (st : WaitStatus)
  deriving DecidableEq, Repr

def VM.ownCode : VM → Option Int
  -- how Firecracker ended; -1 if it could not be started
  | failed => some (-1)
  | exited st => some (exitCode st)
  | _ => none

inductive Process where
  | absent | running | gone
  deriving DecidableEq, Repr

/-- A connection as its client sees it: what has arrived, and whether more may
come. -/
structure Conn where
  data : String
  up : Bool
  deriving DecidableEq, Repr

def exitedPrefix : String := "exited "

def exitedLine (code : Int) : String := exitedPrefix ++ itoa code ++ "\n"

/-- `strings.CutPrefix`. -/
def cutPrefix (s before : String) : Option String :=
  if before.toList.isPrefixOf s.toList then
    some (String.ofList (s.toList.drop before.toList.length))
  else none

def parseExitedLine (line : String) : Except Err Int :=
  match cutPrefix (trimSpace line) (trimSpace exitedPrefix) with
  | none => .error (.new ("unexpected shim message " ++ line))
  | some rest =>
    match atoi (trimSpace rest) with
    | some code => .ok code
    | none => .error (.new ("strconv.Atoi: parsing " ++ trimSpace rest))

/-- What `ReadString` returns of the data that has arrived. -/
def firstLine (data : String) : Option String :=
  if '\n' ∈ data.toList then some (String.ofList (data.toList.takeWhile (· ≠ '\n') ++ ['\n']))
  else none

section Lines

theorem isSpace_isDigit {c : Char} (h : c.isDigit = true) : isSpace c = false := by
  simp only [Char.isDigit, Bool.and_eq_true, decide_eq_true_eq,
    UInt32.le_iff_toNat_le, ge_iff_le] at h
  have bounds : 48 ≤ c.toNat ∧ c.toNat ≤ 57 := h
  simp only [isSpace, List.mem_cons, List.not_mem_nil, or_false, Bool.or_eq_false_iff,
    decide_eq_false_iff_not, Bool.and_eq_false_imp, decide_eq_true_eq]
  omega

theorem isSpace_itoa {n : Int} {c : Char} (h : c ∈ (itoa n).toList) : isSpace c = false := by
  obtain rfl | digit := itoa_chars h
  · decide
  · exact isSpace_isDigit digit

theorem dropWhile_space {blank core : List Char} (blanks : ∀ c ∈ blank, isSpace c = true)
    (solid : ∀ c ∈ core.head?, isSpace c = false) : (blank ++ core).dropWhile isSpace = core := by
  rw [List.dropWhile_append_of_pos blanks]
  cases core with
  | nil => rfl
  | cons c cs => rw [List.dropWhile_cons_of_neg (by simpa using solid)]

theorem trimSpace_core (before core after : List Char) (blanks : ∀ c ∈ before, isSpace c = true)
    (blanks' : ∀ c ∈ after, isSpace c = true) (nonempty : core ≠ [])
    (solid : ∀ c ∈ core.head?, isSpace c = false)
    (solid' : ∀ c ∈ core.getLast?, isSpace c = false) :
    trimSpace (String.ofList (before ++ core ++ after)) = String.ofList core := by
  have left : (before ++ (core ++ after)).dropWhile isSpace = core ++ after := by
    refine dropWhile_space blanks ?_
    cases core with
    | nil => exact absurd rfl nonempty
    | cons c cs => exact solid
  have right : (after.reverse ++ core.reverse).dropWhile isSpace = core.reverse :=
    dropWhile_space (by simpa using blanks') (by simpa using solid')
  rw [trimSpace, String.toList_ofList, List.append_assoc, left, List.reverse_append, right,
    List.reverse_reverse]

theorem trimSpace_itoa_after (before : List Char)
    (blanks : ∀ c ∈ before, isSpace c = true) (n : Int) :
    trimSpace (String.ofList (before ++ (itoa n).toList)) = itoa n := by
  have core := trimSpace_core before (itoa n).toList [] blanks nofun (itoa_ne_nil n)
    (fun c h => isSpace_itoa (List.mem_of_mem_head? h))
    (fun c h => isSpace_itoa (List.mem_of_mem_getLast? h))
  simpa using core

theorem trimSpace_itoa (n : Int) : trimSpace (itoa n) = itoa n := by
  simpa using trimSpace_itoa_after [] nofun n

theorem trimSpace_exitedLine (code : Int) :
    trimSpace (exitedLine code) = String.ofList (exitedPrefix.toList ++ (itoa code).toList) := by
  have word : exitedPrefix.toList = ['e', 'x', 'i', 't', 'e', 'd', ' '] := by decide
  have line : exitedLine code =
      String.ofList ([] ++ (exitedPrefix.toList ++ (itoa code).toList) ++ ['\n']) := by
    rw [exitedLine, ← String.toList_inj]
    simp
  rw [line]
  refine trimSpace_core _ _ _ nofun (by simp [isSpace]) ?_ ?_ ?_
  · simp [word]
  · rw [word]
    simp only [List.cons_append, List.head?_cons, Option.mem_some_iff]
    rintro c rfl
    decide
  · intro c h
    rw [List.getLast?_append_of_ne_nil _ (itoa_ne_nil code)] at h
    exact isSpace_itoa (List.mem_of_mem_getLast? h)

theorem parseExitedLine_exitedLine {code : Int} (h : int64 code) :
    parseExitedLine (exitedLine code) = .ok code := by
  have word : trimSpace exitedPrefix = "exited" := by decide
  have cut : cutPrefix (String.ofList (exitedPrefix.toList ++ (itoa code).toList)) "exited" =
      some (String.ofList ([' '] ++ (itoa code).toList)) := by
    simp [cutPrefix, exitedPrefix]
  simp only [parseExitedLine, trimSpace_exitedLine, word, cut,
    trimSpace_itoa_after [' '] (by simp [isSpace]) code, atoi_itoa h]

theorem firstLine_cut {code : Int} {n : Nat} {line : String}
    (h : firstLine (String.ofList ((exitedLine code).toList.take n)) = some line) :
    line = exitedLine code := by
  have chars : (exitedLine code).toList = (exitedPrefix.toList ++ (itoa code).toList) ++
      ['\n'] := by
    simp [exitedLine]
  have inside : ∀ c ∈ exitedPrefix.toList ++ (itoa code).toList, c ≠ '\n' := by
    rintro c mem rfl
    obtain mem | mem := List.mem_append.1 mem
    · exact absurd mem (by decide)
    · exact absurd (isSpace_itoa mem) (by decide)
  rw [firstLine, String.toList_ofList] at h
  split at h
  · rename_i mem
    have whole : (exitedLine code).toList.take n = (exitedLine code).toList := by
      refine List.take_of_length_le ?_
      rw [chars, List.take_append, List.mem_append] at mem
      have here := mem.resolve_left fun m => inside _ (List.mem_of_mem_take m) rfl
      rw [chars, List.length_append]
      by_contra short
      have none : n - (exitedPrefix.toList ++ (itoa code).toList).length = 0 := by
        simp only [List.length_singleton] at short
        omega
      rw [none] at here
      cases here
    have before : (exitedLine code).toList.takeWhile (· ≠ '\n') =
        exitedPrefix.toList ++ (itoa code).toList := by
      rw [chars, List.takeWhile_append_of_pos (by simpa using inside)]
      simp
    rw [whole, before, ← chars, String.ofList_toList] at h
    exact (Option.some.inj h).symm
  · cases h

end Lines

/-- `holder` is the shim's thread that has taken a connection, `cleared` says
that Spawn has removed the exit file, `wrote` what the shim has recorded, and
`lapsed` that it will record nothing any more, having recorded nothing. -/
structure World where
  exitFile : Option String
  pidFile : Option String
  pid : Nat
  process : Process
  vm : VM
  listening : Bool
  queue : List Nat
  conns : Nat → Conn
  dialed : Nat
  clients : List Nat
  final : String
  locked : Bool
  accepting : Bool
  spawner : Option Nat
  server : Option Nat
  holder : Nat → Option Nat
  cleared : Bool
  wrote : Option Int
  lapsed : Bool

inductive Call where
  | listen | writePid | goAccept | startVM | waitVM
  | writeExit (code : Int)
  | finish (line : String)
  | write (conn : Nat) (line : String)
  | close (conn : Nat)
  | unlock | closeListener | exit
  | accept
  | enlist (conn : Nat)
  | openLog | removeExit | startShim | dial | exited | readExit | killShim | readPid
  | isShimOf (pid : Int)
  | readLine (conn : Nat)

abbrev Call.Answer : Call → Type
  | listen | writePid | startVM | openLog | removeExit | startShim | exited | isShimOf _ => Bool
  | goAccept | writeExit _ | write .. | close _ | unlock | closeListener | exit | killShim => Unit
  | waitVM => Int
  | finish _ => List Nat
  | accept | dial => Option Nat
  | enlist _ => String
  | readExit => Except Err Int
  | readPid => Option Int
  | readLine _ => Option String

/-- `cut` is how much of a line is written, all of it if there is none. -/
structure Env where
  ok : Bool := true
  cut : Option Nat := none

def readExit (s : World) : Except Err Int :=
  match s.exitFile with
  | none => .error (.new "open shim.exit: no such file or directory")
  | some text =>
    match atoi (trimSpace text) with
    | some code => .ok code
    | none => .error (.new ("strconv.Atoi: parsing " ++ trimSpace text))

def readPid (s : World) : Option Int :=
  s.pidFile.bind fun text => (atoi (trimSpace text)).filter fun pid => 0 < pid

namespace World

def hangUp (s : World) : World :=
  -- a listener that closes drops what is still in its queue
  { s with
    listening := false
    queue := []
    conns := fun k => if k ∈ s.queue then { s.conns k with up := false } else s.conns k
    lapsed := s.lapsed || s.wrote.isNone }

def die (s : World) : World :=
  { s with
    process := .gone
    listening := false
    queue := []
    conns := fun k => { s.conns k with up := false }
    lapsed := s.lapsed || s.wrote.isNone }

def write (s : World) (conn : Nat) (text : String) : World :=
  { s with conns := Function.update s.conns conn ⟨(s.conns conn).data ++ text, (s.conns conn).up⟩ }

end World

def Call.ofShim : Call → Bool
  | listen | writePid | goAccept | startVM | waitVM | writeExit _ | finish _ | write .. | close _
  | unlock | closeListener | exit | accept | enlist _ => true
  | _ => false

def cutLine (e : Env) (line : String) : String :=
  match e.cut with
  | none => line
  | some n => String.ofList (line.toList.take n)

def perform (i : Nat) : (c : Call) → Env → World → Option (c.Answer × World)
  -- one step of thread `i`; `none` while it has to wait
  | .listen, e, s => some (e.ok, if e.ok then { s with listening := true } else s)
  | .writePid, e, s =>
      some (e.ok, if e.ok then { s with pidFile := some (itoa s.pid ++ "\n") } else s)
  | .goAccept, _, s => some ((), { s with accepting := true })
  | .startVM, e, s => some (e.ok, { s with vm := if e.ok then .running else .failed })
  | .waitVM, _, s =>
      match s.vm with
      | .exited st => some (exitCode st, s)
      | _ => none
  | .writeExit code, _, s => some ((), { s with exitFile := some (itoa code), wrote := some code })
  | .finish line, _, s => some (s.clients,
      { s with
        final := line
        locked := true
        clients := []
        holder := fun k => if k ∈ s.clients then some i else s.holder k })
  | .write conn line, e, s => some ((), s.write conn (cutLine e line))
  | .close conn, _, s =>
      some ((), { s with conns := Function.update s.conns conn ⟨(s.conns conn).data, false⟩ })
  | .unlock, _, s => some ((), { s with locked := false })
  | .closeListener, _, s => some ((), s.hangUp)
  | .exit, _, s => some ((), s.die)
  | .accept, _, s =>
      if s.listening then
        match s.queue with
        | [] => none
        | conn :: rest => some (some conn,
            { s with queue := rest, holder := Function.update s.holder conn (some i) })
      else some (none, s)
  | .enlist conn, _, s =>
      if s.locked then none
      else some (s.final, if s.final = "" then
          { s with clients := s.clients ++ [conn], holder := Function.update s.holder conn none }
        else s)
  | .openLog, e, s => some (e.ok, s)
  | .removeExit, e, s =>
    some (e.ok, if e.ok then { s with exitFile := none, cleared := true } else s)
  | .startShim, e, s => some (e.ok, if e.ok then { s with process := .running } else s)
  | .dial, e, s =>
      if e.ok && s.listening then some (some s.dialed,
        { s with
          queue := s.queue ++ [s.dialed]
          conns := Function.update s.conns s.dialed ⟨"", true⟩
          dialed := s.dialed + 1 })
      else some (none, s)
  | .exited, e, s => some (e.ok && s.process = .gone, s)
  | .readExit, _, s => some (readExit s, s)
  | .killShim, _, s => some ((), if s.process = .running then s.die else s)
  | .readPid, _, s => some (readPid s, s)
  | .isShimOf pid, _, s => some (s.process = .running && pid = s.pid, s)
  | .readLine conn, _, s =>
      match firstLine (s.conns conn).data with
      | some line => some (some line, s)
      | none => if (s.conns conn).up then none else some (none, s)

def exec : Exec Call Env World Call.Answer := fun i c e s =>
  if c.ofShim && s.process ≠ .running then none else perform i c e s

/-- What became of a thread: the shim's own return nothing, a client got no
handle, or its handle is done with a code and an error. -/
inductive Outcome where
  | shim
  | noHandle (err : Err)
  | done (code : Int) (err : Option Err)
  deriving DecidableEq, Repr

abbrev M := Prog Call Call.Answer

def call (c : Call) : M c.Answer := Prog.perform c

def disconnect (line : String) : List Nat → M Unit
  | [] => return ()
  | conn :: conns => do
    call (.write conn line)
    call (.close conn)
    disconnect line conns

def finish (line : String) : M Unit := do
  -- `server.finish`: it writes under the lock
  let clients ← call (.finish line)
  disconnect line clients
  call .unlock

def report (code : Int) : M Unit := do
  -- the end of `serve`, once Firecracker's exit is known
  call (.writeExit code)
  finish (exitedLine code)
  call .closeListener

def serve : M Unit := do
  if !(← call .listen) then return ()
  else if !(← call .writePid) then call .closeListener
  else
    call .goAccept
    if ← call .startVM then
      let code ← call .waitVM
      report code
    else report (-1)

/-- `Main`: the process ends when `serve` returns. -/
def main : M Outcome := do
  serve
  call .exit
  return .shim

def accept : M Outcome := do
  -- one turn of `server.accept`
  match ← call .accept with
  | none => return .shim
  | some conn => do
    let final ← call (.enlist conn)
    if final ≠ "" then
      call (.write conn final)
      call (.close conn)
    call .goAccept
    return .shim

/-- `Handle.read`. -/
def read (conn : Nat) : M Outcome := do
  match ← call (.readLine conn) with
  | some line =>
    match parseExitedLine line with
    | .ok code => return .done code none
    | .error err => fallback err
  | none => fallback (.new "shim died without reporting an exit")
where
  fallback (err : Err) : M Outcome := do
    match ← call .readExit with
    | .ok code => return .done code none
    | .error _ => return .done (-1) (some err)

/-- The loop of `Spawn`, with as many dials as the deadline leaves time for. -/
def connect : Nat → M Outcome
  | 0 => do
    call .killShim
    return .noHandle (.new "shim did not listen within 3s")
  | tries + 1 => do
    match ← call .dial with
    | some conn => read conn
    | none =>
      if ← call .exited then
        match ← call .readExit with
        | .ok code => return .done code none
        | .error err => return .noHandle (.wrap "shim exited before accepting connections" err)
      else connect tries

def spawn (tries : Nat) : M Outcome := do
  if !(← call .openLog) then return .noHandle (.new "open shim log")
  else if !(← call .removeExit) then return .noHandle (.new "remove stale exit file")
  else if !(← call .startShim) then return .noHandle (.new "start shim")
  else connect tries

def attach : M Outcome := do
  match ← call .readPid with
  | none => return gone
  | some pid =>
    if !(← call (.isShimOf pid)) then return gone
    else
      match ← call .readExit with
      | .ok _ => return gone
      | .error _ =>
        match ← call .dial with
        | none => return gone
        | some conn => read conn
where
  gone : Outcome := .noHandle (.new "no live shim")

inductive Kind where
  | spawn (tries : Nat)
  | attach
  | serve
  | accept
  deriving DecidableEq, Repr

def body : Kind → M Outcome
  | .spawn tries => spawn tries
  | .attach => attach
  | .serve => main
  | .accept => accept

/-- There is one Spawn for the VM; the process it starts serves, and accepts
one connection after the other. -/
def start (i : Nat) : Kind → World → Option World
  | .spawn _, s => if s.spawner = none then some { s with spawner := some i } else none
  | .attach, s => some s
  | .serve, s =>
      if s.process = .running && s.server = none then some { s with server := some i } else none
  | .accept, s => if s.accepting then some { s with accepting := false } else none

inductive Event where
  | kill
  | vmExits (st : WaitStatus)
  deriving DecidableEq, Repr

def happen : Event → World → Option World
  | .kill, s => if s.process = .running then some s.die else none
  | .vmExits st, s => if s.vm = .running then some { s with vm := .exited st } else none

def system : System Kind Call Env Event Outcome World Call.Answer where
  -- clients may be interrupted, as their worker may crash
  exec := exec
  body := body
  start := start
  stoppable
    | .spawn _ | .attach => true
    | _ => false
  ext := happen

abbrev State := Config Kind Call Outcome World Call.Answer

def World.before (exitFile pidFile : Option String) (pid : Nat) : World where
  -- the directory before the VM is spawned, with what an earlier one left
  exitFile := exitFile
  pidFile := pidFile
  pid := pid
  process := .absent
  vm := .absent
  listening := false
  queue := []
  conns := fun _ => ⟨"", false⟩
  dialed := 0
  clients := []
  final := ""
  locked := false
  accepting := false
  spawner := none
  server := none
  holder := fun _ => none
  cleared := false
  wrote := none
  lapsed := false

end Fire2.Shim
