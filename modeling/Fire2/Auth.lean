import Fire2.Model
import Fire2.Protocols

/-! Accounts and sessions: package auth over its two tables, the handlers of
`/api/auth`, the middleware in front of the sandbox API, and the devtoken command.

One statement of the repository is one step, as is a reading of the clock, a random
draw and the hashing of a password. A statement may fail before it took effect or
after it did, and a request may be interrupted between any two steps. Times are
nanoseconds; what the database keeps of one is whole microseconds. Bodies and
headers arrive decoded: an absent body is one that is not JSON. -/

namespace Fire2.Auth
open Interleaving

/-- What is taken from libraries: `unicode.ToLower`, and bcrypt, which accepts a
password for the hashes it has made of it. -/
structure Library where
  lower : Char → Char
  hash : (salt : Nat) → (password : String) → String
  compare : (hash : String) → (password : String) → Bool
  compare_hash : ∀ salt password, compare (hash salt password) password = true

structure User where
  id : String
  email : String
  passwordHash : String
  createdAt : Int
  deriving DecidableEq, Repr

/-- A session without `expiresAt` never expires. -/
structure Session where
  token : String
  userID : String
  createdAt : Int
  expiresAt : Option Int
  deriving DecidableEq, Repr

inductive AuthErr where
  | notFound | emailTaken | invalidCreds | sessionExpired
  | other (text : String)
  | wrap (before : String) (e : AuthErr)
  deriving DecidableEq, Repr

namespace AuthErr

def text : AuthErr → String
  | notFound => "auth: not found"
  | emailTaken => "auth: email already registered"
  | invalidCreds => "auth: invalid email or password"
  | sessionExpired => "auth: session expired"
  | other text => text
  | wrap before e => before ++ ": " ++ e.text

/-- `errors.Is`. -/
def is (e target : AuthErr) : Bool :=
  match e with
  | wrap _ e => e.is target
  | e => e = target

end AuthErr

def stored (t : Int) : Int := t / 1000 * 1000

def sessionTTL : Int := 30 * 24 * 3600 * second

structure AuthRequest where
  email : String
  password : String
  deriving DecidableEq, Repr

/-- A request for `/api/auth`, one for `/api/sandboxes`, or a run of devtoken. -/
inductive Kind where
  | signUp (body : Option AuthRequest)
  | login (body : Option AuthRequest)
  | logout (authorization : String)
  | sandboxes (authorization : String)
  | devtoken (email password : String)
  deriving DecidableEq, Repr

structure Account where
  user : User
  creator : Nat
  deriving DecidableEq, Repr

structure Issue where
  session : Session
  issuer : Nat
  deriving DecidableEq, Repr

/-- The tables, and what happened so far: the requests that came, all sessions
that were ever inserted, and who has drawn which token. -/
structure Store where
  users : Table String Account
  sessions : Table String Issue
  requests : List (Nat × Kind)
  issued : List Issue
  drawn : String → Option Nat

inductive Call where
  | hash (password : String)
  | newUUID
  | timeNow
  | randomToken
  | createUser (u : User)
  | getUserByEmail (email : String)
  | getUserByID (id : String)
  | createSession (s : Session)
  | getSession (token : String)
  | deleteSession (token : String)
  deriving DecidableEq, Repr

abbrev Call.Answer : Call → Type
  | hash _ | randomToken => Except AuthErr String
  | newUUID => String
  | timeNow => Int
  | createUser _ | getUserByEmail _ | getUserByID _ => Except AuthErr User
  | createSession _ | getSession _ => Except AuthErr Session
  | deleteSession _ => Except AuthErr Unit

/-- `fault` is the text of an error, `took` says that a statement that failed took
effect all the same. -/
structure Env where
  fault : Option String := none
  took : Bool := false
  now : Int := 0
  uuid : String := ""
  token : String := ""
  salt : Nat := 0
  deriving DecidableEq, Repr

namespace Store

def byEmail (s : Store) (email : String) : Option Account :=
  (s.users.rows.find? fun row => row.2.user.email = email).map Prod.snd

def createUser (i : Nat) (u : User) (s : Store) : Except AuthErr User × Store :=
  -- INSERT INTO users. Either key being taken is a unique_violation.
  if (s.users.get? u.id).isSome || (s.byEmail u.email).isSome then (.error .emailTaken, s)
  else
    let row : User := { u with createdAt := stored u.createdAt }
    (.ok row, { s with users := s.users.set u.id ⟨row, i⟩ })

def createSession (i : Nat) (x : Session) (s : Store) : Except AuthErr Session × Store :=
  -- INSERT INTO sessions, whose user_id references users
  if (s.sessions.get? x.token).isSome then (.error (.other "duplicate key value"), s)
  else if (s.users.get? x.userID).isNone then (.error (.other "foreign key violation"), s)
  else
    let row : Session :=
      { x with createdAt := stored x.createdAt, expiresAt := x.expiresAt.map stored }
    (.ok row, { s with
      sessions := s.sessions.set x.token ⟨row, i⟩
      issued := ⟨row, i⟩ :: s.issued })

end Store

def Env.statement {α : Type} (e : Env) (s : Store) (r : Except AuthErr α × Store) :
    Except AuthErr α × Store :=
  -- a statement fails, before or after its effect, or answers
  match e.fault with
  | none => r
  | some text => (.error (.other text), if e.took then r.2 else s)

def found {α β : Type} (f : α → β) : Option α → Except AuthErr β
  | some a => .ok (f a)
  | none => .error .notFound

/-- `bcrypt.GenerateFromPassword`. -/
def generate (L : Library) (e : Env) (password : String) : Except AuthErr String :=
  if 72 < password.utf8ByteSize then .error (.other "bcrypt: password length exceeds 72 bytes")
  else
    match e.fault with
    | some text => .error (.other text)
    | none => .ok (L.hash e.salt password)

def perform (L : Library) (i : Nat) (c : Call) (e : Env) (s : Store) : c.Answer × Store :=
  match c with
  | .hash password => (generate L e password, s)
  | .newUUID => (e.uuid, s)
  | .timeNow => (e.now, s)
  | .randomToken =>
    match e.fault with
    | some text => (.error (.other text), s)
    | none => (.ok e.token, { s with drawn := Function.update s.drawn e.token (some i) })
  | .createUser u => e.statement s (s.createUser i u)
  | .getUserByEmail email => e.statement s (found Account.user (s.byEmail email), s)
  | .getUserByID id => e.statement s (found Account.user (s.users.get? id), s)
  | .createSession x => e.statement s (s.createSession i x)
  | .getSession token => e.statement s (found Issue.session (s.sessions.get? token), s)
  | .deleteSession token => e.statement s (.ok (), { s with sessions := s.sessions.erase token })

abbrev M := Prog Call Call.Answer

def ask (c : Call) : M c.Answer := Prog.perform c

namespace Service

def createSessionWithTTL (userID : String) (ttl : Option Int) : M (Except AuthErr Session) := do
  -- issues a session that expires after `ttl`, or never
  match ← ask .randomToken with
  | .error err => return .error (.wrap "generate session token" err)
  | .ok token =>
    let now ← ask .timeNow
    ask (.createSession ⟨token, userID, now, ttl.map fun d => now + d⟩)

def createSession (userID : String) : M (Except AuthErr Session) :=
  createSessionWithTTL userID (some sessionTTL)

def createNonExpiringSession (userID : String) : M (Except AuthErr Session) :=
  createSessionWithTTL userID none

def insertUser (email password : String) : M (Except AuthErr User) := do
  match ← ask (.hash password) with
  | .error err => return .error (.wrap "hash password" err)
  | .ok hash =>
    let id ← ask .newUUID
    let now ← ask .timeNow
    ask (.createUser ⟨id, email, hash, now⟩)

def signUp (email password : String) : M (Except AuthErr (User × Session)) := do
  match ← insertUser email password with
  | .error err => return .error err
  | .ok user =>
    match ← createSession user.id with
    | .error err => return .error err
    | .ok session => return .ok (user, session)

def login (L : Library) (email password : String) : M (Except AuthErr (User × Session)) := do
  match ← ask (.getUserByEmail email) with
  | .error err => if err.is .notFound then return .error .invalidCreds else return .error err
  | .ok user =>
    if L.compare user.passwordHash password then
      match ← createSession user.id with
      | .error err => return .error err
      | .ok session => return .ok (user, session)
    else return .error .invalidCreds

def owner (session : Session) (checkedAt : Option Int) :
    M (Except AuthErr (User × Session × Option Int)) := do
  match ← ask (.getUserByID session.userID) with
  | .error err => return .error err
  | .ok user => return .ok (user, session, checkedAt)

/-- Authenticate returns the user alone; the session and the time it was checked
at are kept here to speak of them. The clock is only read for a session that can
expire. -/
def authenticate (token : String) : M (Except AuthErr (User × Session × Option Int)) := do
  match ← ask (.getSession token) with
  | .error err => return .error err
  | .ok session =>
    match session.expiresAt with
    | none => owner session none
    | some expiresAt =>
      let now ← ask .timeNow
      if expiresAt < now then return .error .sessionExpired else owner session (some now)

def logout (token : String) : M (Except AuthErr Unit) := ask (.deleteSession token)

def ensureUser (email password : String) : M (Except AuthErr User) := do
  match ← ask (.getUserByEmail email) with
  | .ok user => return .ok user
  | .error err => if err.is .notFound then insertUser email password else return .error err

end Service

/-- What a request is answered with. `next` is the user RequireAuth puts into the
context of the handler behind it; devtoken prints a token or dies. -/
inductive Reply where
  | text (code : Nat) (body : String)
  | session (code : Nat) (token userID email : String)
  | noContent
  | next (user : User) (session : Session) (checkedAt : Option Int)
  | printed (token : String)
  | fatal (text : String)
  deriving DecidableEq, Repr

/-- `strings.TrimSpace(strings.ToLower(email))`. -/
def normalize (L : Library) (email : String) : String :=
  trimSpace (String.ofList (email.toList.map L.lower))

def decodeAuthRequest (L : Library) : Option AuthRequest → Except Reply AuthRequest
  | none => .error (.text 400 "invalid JSON body")
  | some body =>
    let email := normalize L body.email
    if email = "" ∨ body.password = "" then .error (.text 400 "email and password are required")
    else .ok ⟨email, body.password⟩

def bearer : String := "Bearer "

def bearerToken (authorization : String) : String :=
  if bearer.toList.isPrefixOf authorization.toList then
    String.ofList (authorization.toList.drop bearer.toList.length)
  else ""

namespace Handlers

def signUp (L : Library) (body : Option AuthRequest) : M Reply :=
  match decodeAuthRequest L body with
  | .error reply => return reply
  | .ok body =>
    if '@' ∉ body.email.toList then return .text 400 "valid email is required"
    else if body.password.utf8ByteSize < 8 then
      return .text 400 "password must be at least 8 characters"
    else do
      match ← Service.signUp body.email body.password with
      | .ok (user, session) => return .session 201 session.token user.id user.email
      | .error err =>
        if err.is .emailTaken then return .text 409 "email already registered"
        else return .text 500 "signup failed"

def login (L : Library) (body : Option AuthRequest) : M Reply :=
  match decodeAuthRequest L body with
  | .error reply => return reply
  | .ok body => do
    match ← Service.login L body.email body.password with
    | .ok (user, session) => return .session 200 session.token user.id user.email
    | .error err =>
      if err.is .invalidCreds then return .text 401 "invalid email or password"
      else return .text 500 "login failed"

def logout (authorization : String) : M Reply :=
  let token := bearerToken authorization
  if token = "" then return .noContent
  else do
    let _ ← Service.logout token
    return .noContent

def requireAuth (authorization : String) : M Reply :=
  let token := bearerToken authorization
  if token = "" then return .text 401 "missing bearer token"
  else do
    match ← Service.authenticate token with
    | .error _ => return .text 401 "invalid or expired session"
    | .ok (user, session, now) => return .next user session now

end Handlers

def devtoken (email password : String) : M Reply := do
  match ← Service.ensureUser email password with
  | .error err => return .fatal ("ensure dev user: " ++ err.text)
  | .ok user =>
    match ← Service.createNonExpiringSession user.id with
    | .error err => return .fatal ("create non-expiring session: " ++ err.text)
    | .ok session => return .printed session.token

def body (L : Library) : Kind → M Reply
  | .signUp body => Handlers.signUp L body
  | .login body => Handlers.login L body
  | .logout authorization => Handlers.logout authorization
  | .sandboxes authorization => Handlers.requireAuth authorization
  | .devtoken email password => devtoken email password

def begin (i : Nat) (k : Kind) (s : Store) : Option Store :=
  some { s with requests := (i, k) :: s.requests }

def exec (L : Library) : Exec Call Env Store Call.Answer := fun i c e s => some (perform L i c e s)

def system (L : Library) : System Kind Call Env Empty Reply Store Call.Answer where
  exec := exec L
  body := body L
  start := begin
  stoppable _ := true
  ext x := x.elim

abbrev State := Config Kind Call Reply Store Call.Answer

def blank : Store where
  users := .empty
  sessions := .empty
  requests := []
  issued := []
  drawn := fun _ => none

def Founds (L : Library) (u : User) : Kind → Prop
  | .signUp (some body) => u.email = normalize L body.email ∧ '@' ∈ u.email.toList ∧
      8 ≤ body.password.utf8ByteSize ∧ L.compare u.passwordHash body.password = true
  | .devtoken email password => u.email = email ∧ L.compare u.passwordHash password = true
  | _ => False

/-- The request shows who it comes from: it has the e-mail and the password of the
user. Devtoken needs no password of a user that exists. -/
def Vouches (L : Library) (u : User) : Kind → Prop
  | .signUp (some body) | .login (some body) =>
    u.email = normalize L body.email ∧ L.compare u.passwordHash body.password = true
  | .devtoken email _ => u.email = email
  | _ => False

def Kind.ttl : Kind → Option Int
  | .devtoken _ _ => none
  | _ => some sessionTTL

def Issued (L : Library) (s : Store) (x : Issue) : Prop :=
  ∃ k a, (x.issuer, k) ∈ s.requests ∧ s.users.get? x.session.userID = some a ∧ Vouches L a.user k ∧
    x.session.expiresAt = k.ttl.map fun d => x.session.createdAt + d

/-- `fresh` says that no token is drawn twice. -/
structure Sane (L : Library) (fresh : Prop) (s : Store) : Prop where
  keyed : ∀ id a, s.users.get? id = some a → a.user.id = id
  emails : ∀ id id' a a', s.users.get? id = some a → s.users.get? id' = some a' →
    a.user.email = a'.user.email → id = id'
  founded : ∀ id a, s.users.get? id = some a → ∃ k, (a.creator, k) ∈ s.requests ∧ Founds L a.user k
  listed : ∀ token x, s.sessions.get? token = some x → x ∈ s.issued ∧ x.session.token = token
  issued : ∀ x ∈ s.issued, Issued L s x
  drawn : fresh → ∀ x ∈ s.issued, s.drawn x.session.token ≠ none

structure Evolves (fresh : Prop) (s t : Store) : Prop where
  users : ∀ id a, s.users.get? id = some a → t.users.get? id = some a
  issued : ∀ x ∈ s.issued, x ∈ t.issued
  requests : ∀ x ∈ s.requests, x ∈ t.requests
  gone : fresh → ∀ x ∈ s.issued, s.sessions.get? x.session.token = none →
    t.sessions.get? x.session.token = none

def Keeps (fresh : Prop) (i : Nat) (s t : Store) : Prop :=
  fresh → ∀ token, s.drawn token = some i → t.drawn token = some i ∧
    ∀ x ∈ t.issued, x.session.token = token → x ∈ s.issued

def may (L : Library) (fresh : Prop) (i : Nat) (s : Store) : Call → Prop
  | .createUser u => ∃ k, (i, k) ∈ s.requests ∧ Founds L u k
  | .createSession x =>
    (∃ k a, (i, k) ∈ s.requests ∧ s.users.get? x.userID = some a ∧ Vouches L a.user k ∧
      x.expiresAt = k.ttl.map fun d => x.createdAt + d) ∧
      (fresh → s.drawn x.token = some i ∧ ∀ y ∈ s.issued, y.session.token ≠ x.token)
  | _ => True

def newDraw (_ : Nat) (c : Call) (e : Env) (s : Store) : Bool :=
  -- the random draw is one that was not made before
  match c with
  | .randomToken => e.fault.isSome || (s.drawn e.token).isNone
  | _ => true

def spec (L : Library) (fresh : Prop) : Spec Call Env Empty Store where
  Inv := Sane L fresh
  Evolves := Evolves fresh
  Keeps := Keeps fresh
  Pre i c s := may L fresh i s c
  Cond i c e s := fresh → newDraw i c e s = true
  Out _ _ := True

section Steps
variable {L : Library} {fresh : Prop} {i : Nat} {s t u : Store} {e : Env}

theorem Evolves.refl (s : Store) : Evolves fresh s s :=
  ⟨fun _ _ h => h, fun _ h => h, fun _ h => h, fun _ _ _ h => h⟩

theorem Evolves.trans (h : Evolves fresh s t) (k : Evolves fresh t u) : Evolves fresh s u :=
  ⟨fun id a x => k.users id a (h.users id a x), fun x mem => k.issued x (h.issued x mem),
    fun x mem => k.requests x (h.requests x mem),
    fun new x mem none => k.gone new x (h.issued x mem) (h.gone new x mem none)⟩

theorem Keeps.refl (i : Nat) (s : Store) : Keeps fresh i s s :=
  fun _ _ mine => ⟨mine, fun _ mem _ => mem⟩

theorem Keeps.trans (h : Keeps fresh i s t) (k : Keeps fresh i t u) : Keeps fresh i s u := by
  intro new token mine
  obtain ⟨mine', only⟩ := h new token mine
  obtain ⟨mine'', only'⟩ := k new token mine'
  exact ⟨mine'', fun x mem eq => only x (only' x mem eq) eq⟩

structure Fits (L : Library) (fresh : Prop) (i : Nat) (s t : Store) : Prop where
  sane : Sane L fresh t
  evolves : Evolves fresh s t
  keeps : ∀ j, j ≠ i → Keeps fresh j s t

theorem Fits.refl (sane : Sane L fresh s) : Fits L fresh i s s :=
  ⟨sane, .refl s, fun j _ => .refl j s⟩

theorem Issued.mono (h : Evolves fresh s t) {x : Issue} (issued : Issued L s x) : Issued L t x := by
  obtain ⟨k, a, mem, found, vouched, ttl⟩ := issued
  exact ⟨k, a, h.requests _ mem, h.users _ a found, vouched, ttl⟩

theorem byEmail_eq_some {email : String} {a : Account} (h : s.byEmail email = some a) :
    ∃ id, s.users.get? id = some a ∧ a.user.email = email := by
  obtain ⟨⟨id, b⟩, found, rfl⟩ := Option.map_eq_some_iff.1 h
  have mem := List.mem_of_find?_eq_some found
  have same := List.find?_some found
  exact ⟨id, (s.users.get?_eq_some_iff id b).2 mem, of_decide_eq_true same⟩

theorem byEmail_eq_none {email : String} (h : s.byEmail email = none) {id : String} {a : Account}
    (found : s.users.get? id = some a) : a.user.email ≠ email := by
  have none := List.find?_eq_none.1 (Option.map_eq_none_iff.1 h)
  simpa using none (id, a) ((s.users.get?_eq_some_iff id a).1 found)

theorem createUser_fits {v : User} (sane : Sane L fresh s) (ok : may L fresh i s (.createUser v)) :
    Fits L fresh i s (s.createUser i v).2 := by
  unfold Store.createUser
  split
  · exact .refl sane
  rename_i free
  simp only [Bool.or_eq_true, not_or, Bool.not_eq_true, Option.isSome_eq_false_iff,
    Option.isNone_iff_eq_none] at free
  obtain ⟨noID, noEmail⟩ := free
  obtain ⟨k, mem, founds⟩ := ok
  let row : User := { v with createdAt := stored v.createdAt }
  have users (id : String) : (s.users.set v.id ⟨row, i⟩).get? id =
      if id = v.id then some ⟨row, i⟩ else s.users.get? id := by
    rw [Table.get?_set]
  -- a row of the new table is the new one or was there
  have split {id : String} {a : Account} (h : (s.users.set v.id ⟨row, i⟩).get? id = some a) :
      id = v.id ∧ a = ⟨row, i⟩ ∨ id ≠ v.id ∧ s.users.get? id = some a := by
    rw [users] at h
    split at h
    · exact .inl ⟨by assumption, (Option.some.inj h).symm⟩
    · exact .inr ⟨by assumption, h⟩
  have evolves : Evolves fresh s { s with users := s.users.set v.id ⟨row, i⟩ } := by
    refine ⟨fun id a h => ?_, fun _ h => h, fun _ h => h, fun _ _ _ h => h⟩
    have other : id ≠ v.id := by
      rintro rfl
      cases noID.symm.trans h
    exact (users id).trans ((if_neg other).trans h)
  refine ⟨⟨fun id a h => ?_, fun id id' a a' h h' same => ?_, fun id a h => ?_, sane.listed,
    fun x mem => (sane.issued x mem).mono evolves, sane.drawn⟩, evolves, fun j _ => .refl j _⟩
  · obtain ⟨rfl, rfl⟩ | ⟨-, old⟩ := split h
    · rfl
    · exact sane.keyed id a old
  · obtain ⟨rfl, rfl⟩ | ⟨-, old⟩ := split h <;> obtain ⟨rfl, rfl⟩ | ⟨-, old'⟩ := split h'
    · rfl
    · exact absurd same.symm (byEmail_eq_none noEmail old')
    · exact absurd same (byEmail_eq_none noEmail old)
    · exact sane.emails id id' a a' old old' same
  · obtain ⟨-, rfl⟩ | ⟨-, old⟩ := split h
    · refine ⟨k, mem, ?_⟩
      cases k <;> exact founds
    · exact sane.founded id a old

theorem stored_add_ttl (t : Int) : stored (t + sessionTTL) = stored t + sessionTTL := by
  simp only [stored, sessionTTL, second]
  omega

theorem createSession_fits {x : Session} (sane : Sane L fresh s)
    (ok : may L fresh i s (.createSession x)) : Fits L fresh i s (s.createSession i x).2 := by
  unfold Store.createSession
  split
  · exact .refl sane
  split
  · exact .refl sane
  rename_i free _
  obtain ⟨⟨k, a, mem, found, vouched, ttl⟩, drew⟩ := ok
  let row : Session :=
    { x with createdAt := stored x.createdAt, expiresAt := x.expiresAt.map stored }
  let s' : Store :=
    { s with sessions := s.sessions.set x.token ⟨row, i⟩, issued := ⟨row, i⟩ :: s.issued }
  have expires : row.expiresAt = k.ttl.map fun d => row.createdAt + d := by
    change x.expiresAt.map stored = _
    rw [ttl]
    cases k with
    | devtoken => rfl
    | signUp | login | logout | sandboxes => exact congrArg some (stored_add_ttl _)
  have evolves : Evolves fresh s s' := by
    refine ⟨fun _ _ h => h, fun _ h => List.mem_cons_of_mem _ h, fun _ h => h,
      fun new y mem none => ?_⟩
    have other : y.session.token ≠ x.token := (drew new).2 y mem
    exact (Table.get?_set _ _ _ _).trans ((if_neg other).trans none)
  refine ⟨⟨sane.keyed, sane.emails, sane.founded, fun token y h => ?_, fun y mem' => ?_,
    fun new y mem' => ?_⟩, evolves, fun j other new token mine => ⟨mine, fun y mem' same => ?_⟩⟩
  · have h : (s.sessions.set x.token ⟨row, i⟩).get? token = some y := h
    rw [Table.get?_set] at h
    split at h
    · rename_i same
      cases h
      exact ⟨List.mem_cons_self, same.symm⟩
    · obtain ⟨listed, same⟩ := sane.listed token y h
      exact ⟨List.mem_cons_of_mem _ listed, same⟩
  · obtain rfl | old := List.mem_cons.1 mem'
    · exact ⟨k, a, mem, found, vouched, expires⟩
    · exact (sane.issued y old).mono evolves
  · obtain rfl | old := List.mem_cons.1 mem'
    · intro none
      cases none.symm.trans (drew new).1
    · exact sane.drawn new y old
  · obtain rfl | old := List.mem_cons.1 mem'
    · have drew := (drew new).1
      subst same
      cases drew.symm.trans mine
      exact absurd rfl other
    · exact old

theorem deleteSession_fits {token : String} (sane : Sane L fresh s) :
    Fits L fresh i s { s with sessions := s.sessions.erase token } := by
  have evolves : Evolves fresh s { s with sessions := s.sessions.erase token } := by
    refine ⟨fun _ _ h => h, fun _ h => h, fun _ h => h, fun _ x _ none => ?_⟩
    refine (Table.get?_erase _ _ _).trans ?_
    split
    · rfl
    · exact none
  refine ⟨⟨sane.keyed, sane.emails, sane.founded, fun token' x h => ?_, sane.issued,
    sane.drawn⟩, evolves, fun j _ => .refl j _⟩
  have h : (s.sessions.erase token).get? token' = some x := h
  rw [Table.get?_erase] at h
  split at h
  · cases h
  · exact sane.listed token' x h

theorem draw_fits {token : String} (sane : Sane L fresh s) (new : fresh → s.drawn token = none) :
    Fits L fresh i s { s with drawn := Function.update s.drawn token (some i) } := by
  refine ⟨⟨sane.keyed, sane.emails, sane.founded, sane.listed, sane.issued, fun f x mem => ?_⟩,
    ⟨fun _ _ h => h, fun _ h => h, fun _ h => h, fun _ _ _ h => h⟩, fun j other f token' mine =>
    ⟨?_, fun _ mem _ => mem⟩⟩
  · by_cases same : x.session.token = token
    · rw [same]
      simp
    · exact fun none => sane.drawn f x mem ((Function.update_of_ne same _ _).symm.trans none)
  · have differ : token' ≠ token := by
      rintro rfl
      cases (new f).symm.trans mine
    exact (Function.update_of_ne differ _ _).trans mine

theorem statement_fits {α : Type} {r : Except AuthErr α × Store} (sane : Sane L fresh s)
    (fits : Fits L fresh i s r.2) : Fits L fresh i s (e.statement s r).2 := by
  unfold Env.statement
  split
  · exact fits
  · dsimp only
    split
    · exact fits
    · exact .refl sane

theorem perform_fits {c : Call} (sane : Sane L fresh s) (ok : may L fresh i s c)
    (new : fresh → newDraw i c e s = true) : Fits L fresh i s (perform L i c e s).2 := by
  cases c with
  | hash | newUUID | timeNow => exact .refl sane
  | randomToken =>
    simp only [perform]
    split
    · exact .refl sane
    · rename_i fault
      exact draw_fits sane fun f => by simpa [newDraw, fault] using new f
  | createUser v => exact statement_fits sane (createUser_fits sane ok)
  | createSession x => exact statement_fits sane (createSession_fits sane ok)
  | deleteSession token => exact statement_fits sane (deleteSession_fits sane)
  | getUserByEmail | getUserByID | getSession => exact statement_fits sane (.refl sane)

theorem spec_sound (L : Library) (fresh : Prop) : (spec L fresh).Sound (exec L) where
  evolves_refl := Evolves.refl
  evolves_trans := Evolves.trans
  keeps_refl := Keeps.refl
  keeps_trans := Keeps.trans
  step {i c e s a t} sane ok new ran := by
    obtain rfl : (perform L i c e s).2 = t := congrArg Prod.snd (Option.some.inj ran)
    have fits := perform_fits sane ok new
    exact ⟨fits.sane, fits.evolves, fits.keeps⟩

end Steps

def Answers (L : Library) (i : Nat) (k : Kind) (r : Reply) (s : Store) : Prop :=
  match r with
  | .next u x checkedAt =>
    (∃ authorization, k = .sandboxes authorization ∧ bearerToken authorization = x.token) ∧
      x.token ≠ "" ∧ (∃ y ∈ s.issued, y.session = x) ∧
      (∃ a, s.users.get? x.userID = some a ∧ a.user = u) ∧
      ∀ t, x.expiresAt = some t → ∃ now, checkedAt = some now ∧ now ≤ t
  | .session code _ id email => ∃ b a, (code = 201 ∧ k = .signUp (some b) ∧ a.creator = i ∨
      code = 200 ∧ k = .login (some b)) ∧ s.users.get? id = some a ∧ a.user.email = email ∧
      decodeAuthRequest L (some b) = .ok ⟨email, b.password⟩ ∧
      L.compare a.user.passwordHash b.password = true
  | _ => True

section Programs
variable {L : Library} {fresh : Prop} {i : Nat} {s : Store} {α : Type} {e : Env} {k : Kind}
  {authorization email password : String} {b : Option AuthRequest}

theorem ask_wp {c : Call} {f : c.Answer → M α} {Q : α → Store → Prop}
    (next : ∀ t, Sane L fresh t → Evolves fresh s t → Keeps fresh i s t → may L fresh i t c ∧
      ∀ e, (fresh → newDraw i c e t = true) → Sane L fresh (perform L i c e t).2 →
        Evolves fresh s (perform L i c e t).2 → Evolves fresh t (perform L i c e t).2 →
        WP (exec L) (spec L fresh) i Q (f (perform L i c e t).1) (perform L i c e t).2) :
    WP (exec L) (spec L fresh) i Q (ask c >>= f) s := by
  refine .step (spec_sound L fresh) fun t sane rely => ?_
  obtain ⟨ok, rest⟩ := next t sane rely.1 rely.2
  refine ⟨ok, fun e a u new ran sane' evolves => ?_⟩
  obtain rfl : (perform L i c e t).2 = u := congrArg Prod.snd (Option.some.inj ran)
  obtain rfl : (perform L i c e t).1 = a := congrArg Prod.fst (Option.some.inj ran)
  exact rest e new sane' evolves (perform_fits sane ok new).evolves

theorem createUser_ok {v u : User} (h : (e.statement s (s.createUser i v)).1 = .ok u) :
    u = { v with createdAt := stored v.createdAt } ∧
      (e.statement s (s.createUser i v)).2.users.get? u.id = some ⟨u, i⟩ := by
  unfold Env.statement at h ⊢
  split at h
  · unfold Store.createUser at h ⊢
    split at h
    · cases h
    · rename_i free
      cases h
      refine ⟨rfl, ?_⟩
      rw [if_neg free]
      exact (Table.get?_set _ _ _ _).trans (if_pos rfl)
  · cases h

theorem createSessionWithTTL_wp {a : Account} {userID : String} (mem : (i, k) ∈ s.requests)
    (found : s.users.get? userID = some a) (vouched : Vouches L a.user k) :
    WP (exec L) (spec L fresh) i (fun _ _ => True)
    (Service.createSessionWithTTL userID k.ttl) s := by
  refine ask_wp fun t sane evolves keeps => ⟨trivial, fun e new _ evolves' _ => ?_⟩
  cases drew : e.fault with
  | some text =>
    simp only [perform, drew]
    exact .ret trivial
  | none =>
    simp only [perform, drew] at evolves' ⊢
    -- nobody has issued a session with the token that was just drawn
    have unused (f : fresh) : ∀ y ∈ t.issued, y.session.token ≠ e.token := by
      intro y mem same
      have none : t.drawn e.token = none := by simpa [newDraw, drew] using new f
      exact sane.drawn f y mem (same ▸ none)
    refine ask_wp fun u _ evolves₂ keeps₂ => ⟨trivial, fun e₂ _ _ evolves₃ _ => ?_⟩
    refine .step (spec_sound L fresh) fun v _ rely => ⟨⟨⟨k, a, ?_, ?_, vouched, rfl⟩, fun f => ?_⟩,
      fun _ _ _ _ _ _ _ => .ret trivial⟩
    · exact rely.1.requests _ (evolves₃.requests _ (evolves'.requests _ mem))
    · exact rely.1.users _ a (evolves₃.users _ a (evolves'.users _ a found))
    · obtain ⟨mine, only⟩ := (keeps₂.trans rely.2) f e.token (Function.update_self _ _ _)
      exact ⟨mine, fun y mem same => unused f y (only y mem same) same⟩

theorem insertUser_wp (mem : (i, k) ∈ s.requests)
    (founds : ∀ u : User, u.email = email → L.compare u.passwordHash password =
      true → Founds L u k) :
    WP (exec L) (spec L fresh) i (fun r t => ∀ u, r = .ok u → t.users.get? u.id =
      some ⟨u, i⟩ ∧ u.email = email ∧
      L.compare u.passwordHash password = true) (Service.insertUser email password) s := by
  refine ask_wp fun t _ evolves _ => ⟨trivial, fun e _ _ _ _ => ?_⟩
  cases hashed : generate L e password with
  | error err =>
    simp only [perform, hashed]
    exact .ret fun _ eq => by cases eq
  | ok hash =>
    simp only [perform, hashed]
    have accepted : L.compare hash password = true := by
      unfold generate at hashed
      split at hashed
      · cases hashed
      split at hashed
      · cases hashed
      · cases hashed
        exact L.compare_hash _ _
    refine ask_wp fun t' _ evolves' _ => ⟨trivial, fun e' _ _ evolves'' _ => ?_⟩
    refine ask_wp fun t'' _ evolves₃ _ => ⟨trivial, fun e'' _ _ evolves₄ _ => ?_⟩
    refine .step (spec_sound L fresh) fun v _ rely => ⟨⟨k, ?_, founds _ rfl accepted⟩,
      fun e₅ a w _ ran _ _ => .ret fun u eq => ?_⟩
    · exact rely.1.requests _ (evolves₄.requests _ (evolves''.requests _ (evolves.requests _ mem)))
    · obtain rfl : (perform L i _ e₅ v).2 = w := congrArg Prod.snd (Option.some.inj ran)
      obtain rfl : (perform L i _ e₅ v).1 = a := congrArg Prod.fst (Option.some.inj ran)
      obtain ⟨rfl, found⟩ := createUser_ok eq
      exact ⟨found, rfl, accepted⟩

theorem decode_ok {r : AuthRequest} (h : decodeAuthRequest L b = .ok r) :
    ∃ x, b = some x ∧ r.email = normalize L x.email ∧ r.password = x.password ∧ r.email ≠ "" ∧
    r.password ≠ "" := by
  cases b with
  | none => simp [decodeAuthRequest] at h
  | some x =>
    simp only [decodeAuthRequest] at h
    split at h
    · simp at h
    · rename_i given
      obtain rfl := Except.ok.inj h
      exact ⟨x, rfl, rfl, rfl, not_or.1 given⟩

theorem decode_error {r : Reply} (h : decodeAuthRequest L b = .error r) :
    ∃ body, r = .text 400 body := by
  cases b with
  | none => exact ⟨_, (Except.error.inj h).symm⟩
  | some x =>
    simp only [decodeAuthRequest] at h
    split at h
    · exact ⟨_, (Except.error.inj h).symm⟩
    · simp at h

theorem found_ok {β γ : Type} {f : β → γ} {o : Option β} {x : γ}
    (h : (e.statement s (found f o, s)).1 = .ok x) : ∃ a, o = some a ∧ f a = x := by
  unfold Env.statement at h
  split at h
  · cases o with
    | none => cases h
    | some a => exact ⟨a, rfl, Except.ok.inj h⟩
  · cases h

theorem getUserByEmail_ok {u : User} (sane : Sane L fresh s)
    (h : (perform L i (.getUserByEmail email) e s).1 = .ok u) :
    ∃ a, s.users.get? u.id = some a ∧ a.user = u ∧ u.email = email := by
  obtain ⟨a, byEmail, rfl⟩ := found_ok h
  obtain ⟨id, found, same⟩ := byEmail_eq_some byEmail
  exact ⟨a, (sane.keyed id a found).symm ▸ found, rfl, same⟩

theorem serviceSignUp_wp (mem : (i, k) ∈ s.requests) (ttl : k.ttl = some sessionTTL)
    (founds : ∀ u : User, u.email = email → L.compare u.passwordHash password = true → Founds L u k)
    (vouches : ∀ u : User, u.email = email → L.compare u.passwordHash password =
      true → Vouches L u k) :
    WP (exec L) (spec L fresh) i (fun r t => ∀ u x, r = .ok (u, x) →
      t.users.get? u.id = some ⟨u, i⟩ ∧
      u.email = email ∧ L.compare u.passwordHash password = true)
      (Service.signUp email password) s := by
  have inserted := WP.keep (spec_sound L fresh) (φ := fun t => (i, k) ∈ t.requests)
    (fun s t here evolves => evolves.requests _ here) mem (insertUser_wp mem founds)
  refine inserted.bind fun r t known => ?_
  obtain ⟨known, mem⟩ := known
  cases r with
  | error err => exact .ret fun _ _ eq => by cases eq
  | ok u =>
    obtain ⟨found, same, accepted⟩ := known u rfl
    have session := WP.keep (spec_sound L fresh) (φ := fun t => t.users.get? u.id = some ⟨u, i⟩)
      (fun s t here evolves => evolves.users _ _ here) found
      (createSessionWithTTL_wp mem found (vouches u same accepted))
    rw [ttl] at session
    refine session.bind fun r t known => ?_
    cases r with
    | error err => exact .ret fun _ _ eq => by cases eq
    | ok x =>
      refine .ret fun u' x' eq => ?_
      cases eq
      exact ⟨known.2, same, accepted⟩

theorem signUp_wp (mem : (i, .signUp b) ∈ s.requests) :
    WP (exec L) (spec L fresh) i (Answers L i (.signUp b)) (Handlers.signUp L b) s := by
  unfold Handlers.signUp
  cases decoded : decodeAuthRequest L b with
  | error reply =>
    obtain ⟨text, rfl⟩ := decode_error decoded
    exact .ret trivial
  | ok r =>
    obtain ⟨x, rfl, email, password, -⟩ := decode_ok decoded
    dsimp only
    split
    · exact .ret trivial
    rename_i valid
    split
    · exact .ret trivial
    rename_i long
    refine (serviceSignUp_wp mem rfl (fun u same accepted => ?_) (fun u same accepted => ?_)).bind
      fun r' t known => ?_
    · rw [password] at accepted long
      exact ⟨same.trans email, by rw [same]; simpa using valid, Nat.le_of_not_lt long, accepted⟩
    · rw [password] at accepted
      exact ⟨same.trans email, accepted⟩
    · cases r' with
      | error err =>
        dsimp only
        split <;> exact .ret trivial
      | ok pair =>
        obtain ⟨u, session⟩ := pair
        obtain ⟨found, same, accepted⟩ := known u session rfl
        exact .ret ⟨x, ⟨u, i⟩, .inl ⟨rfl, rfl, rfl⟩, found,
          rfl, by rw [decoded, same, ← password], password ▸ accepted⟩

theorem login_wp (mem : (i, .login b) ∈ s.requests) :
    WP (exec L) (spec L fresh) i (Answers L i (.login b)) (Handlers.login L b) s := by
  unfold Handlers.login
  cases decoded : decodeAuthRequest L b with
  | error reply =>
    obtain ⟨text, rfl⟩ := decode_error decoded
    exact .ret trivial
  | ok r =>
    obtain ⟨x, rfl, email, password, -⟩ := decode_ok decoded
    have service : WP (exec L) (spec L fresh) i (fun r' t => ∀ u y, r' = .ok (u, y) → ∃ a,
      t.users.get? u.id = some a ∧
        a.user = u ∧ u.email = r.email ∧ L.compare u.passwordHash r.password = true)
        (Service.login L r.email r.password) s := by
      refine ask_wp fun t sane evolves _ => ⟨trivial, fun e _ _ evolves' grows => ?_⟩
      cases answer : (perform L i (.getUserByEmail r.email) e t).1 with
      | error err =>
        dsimp only
        split <;> exact .ret fun _ _ eq => by cases eq
      | ok u =>
        dsimp only
        split
        · rename_i accepted
          obtain ⟨a, found, rfl, same⟩ := getUserByEmail_ok sane answer
          have found := grows.users _ a found
          have session := WP.keep (spec_sound L fresh)
            (φ := fun t => t.users.get? a.user.id = some a)
            (fun s t here evolves => evolves.users _ _ here) found
            (createSessionWithTTL_wp (evolves'.requests _ mem) found
              ⟨same.trans email, password ▸ accepted⟩)
          refine session.bind fun r' t' known => ?_
          cases r' with
          | error err => exact .ret fun _ _ eq => by cases eq
          | ok y =>
            refine .ret fun u' y' eq => ?_
            cases eq
            exact ⟨a, known.2, rfl, same, accepted⟩
        · exact .ret fun _ _ eq => by cases eq
    refine service.bind fun r' t known => ?_
    cases r' with
    | error err =>
      dsimp only
      split <;> exact .ret trivial
    | ok pair =>
      obtain ⟨u, session⟩ := pair
      obtain ⟨a, found, rfl, same, accepted⟩ := known u session rfl
      exact .ret ⟨x, a, .inr ⟨rfl, rfl⟩, found,
        rfl, by rw [decoded, same, ← password], password ▸ accepted⟩

theorem logout_wp :
    WP (exec L) (spec L fresh) i (Answers L i (.logout authorization))
    (Handlers.logout authorization) s := by
  unfold Handlers.logout
  dsimp only
  split
  · exact .ret trivial
  · exact ask_wp fun t _ _ _ => ⟨trivial, fun e _ _ _ _ => .ret trivial⟩

theorem owner_wp {x : Session} {checkedAt : Option Int}
    (presented : bearerToken authorization = x.token) (some_ : x.token ≠ "")
    (issued : ∃ y ∈ s.issued, y.session = x)
    (before : ∀ t, x.expiresAt = some t → ∃ now, checkedAt = some now ∧ now ≤ t) :
    WP (exec L) (spec L fresh) i (fun r t => ∀ u y now, r = .ok (u, y, now) →
      Answers L i (.sandboxes authorization) (.next u y now) t) (Service.owner x checkedAt) s := by
  refine ask_wp fun t sane evolves _ => ⟨trivial, fun e _ _ evolves' grows => ?_⟩
  cases answer : (perform L i (.getUserByID x.userID) e t).1 with
  | error err => exact .ret fun _ _ _ eq => by cases eq
  | ok u =>
    obtain ⟨a, found, rfl⟩ := found_ok answer
    obtain ⟨y, mem, rfl⟩ := issued
    refine .ret fun u y' now eq => ?_
    cases eq
    exact ⟨⟨authorization, rfl, presented⟩, some_, ⟨y, evolves'.issued y mem, rfl⟩,
      ⟨a, grows.users _ a found, rfl⟩, before⟩

theorem requireAuth_wp :
    WP (exec L) (spec L fresh) i (Answers L i (.sandboxes authorization))
    (Handlers.requireAuth authorization) s := by
  unfold Handlers.requireAuth
  dsimp only
  split
  · exact .ret trivial
  rename_i some_
  have service : WP (exec L) (spec L fresh) i (fun r t => ∀ u y now, r = .ok (u, y, now) →
      Answers L i (.sandboxes authorization) (.next u y now) t)
      (Service.authenticate (bearerToken authorization)) s := by
    refine ask_wp fun t sane _ _ => ⟨trivial, fun e _ _ _ grows => ?_⟩
    cases answer : (perform L i (.getSession (bearerToken authorization)) e t).1 with
    | error err => exact .ret fun _ _ _ eq => by cases eq
    | ok x =>
      obtain ⟨y, found, rfl⟩ := found_ok answer
      obtain ⟨listed, same⟩ := sane.listed _ y found
      have issued := grows.issued y listed
      have present : y.session.token ≠ "" := by rwa [same]
      dsimp only
      split
      · rename_i never
        refine owner_wp same.symm present ⟨y, issued, rfl⟩ fun t eq => ?_
        cases never.symm.trans eq
      · rename_i expiresAt expires
        refine ask_wp fun t' _ evolves' _ => ⟨trivial, fun e' _ _ evolves'' _ => ?_⟩
        split
        · exact .ret fun _ _ _ eq => by cases eq
        · rename_i inTime
          refine owner_wp same.symm present ⟨y, evolves''.issued y issued, rfl⟩ fun t eq => ?_
          cases expires.symm.trans eq
          exact ⟨_, rfl, Int.not_lt.1 inTime⟩
  refine service.bind fun r t known => ?_
  cases r with
  | error err => exact .ret trivial
  | ok r =>
    obtain ⟨u, x, now⟩ := r
    exact .ret (known u x now rfl)

theorem devtoken_wp (mem : (i, .devtoken email password) ∈ s.requests) :
    WP (exec L) (spec L fresh) i (Answers L i (.devtoken email password))
    (devtoken email password) s := by
  have ensured : WP (exec L) (spec L fresh) i (fun r t => ∀ u, r = .ok u → ∃ a,
    t.users.get? u.id = some a ∧
      a.user.email = email) (Service.ensureUser email password) s := by
    refine ask_wp fun t sane evolves _ => ⟨trivial, fun e _ _ evolves' grows => ?_⟩
    cases answer : (perform L i (.getUserByEmail email) e t).1 with
    | error err =>
      dsimp only
      split
      · refine WP.mono (fun r v known u eq => ?_)
          (insertUser_wp (evolves'.requests _ mem) fun u same accepted => ⟨same, accepted⟩)
        obtain ⟨found, same, -⟩ := known u eq
        exact ⟨_, found, same⟩
      · exact .ret fun _ eq => by cases eq
    | ok u =>
      obtain ⟨a, found, rfl, same⟩ := getUserByEmail_ok sane answer
      refine .ret fun u eq => ?_
      cases eq
      exact ⟨a, grows.users _ a found, same⟩
  have ensured := WP.keep (spec_sound L fresh)
    (φ := fun t => (i, Kind.devtoken email password) ∈ t.requests)
    (fun s t here evolves => evolves.requests _ here) mem ensured
  refine ensured.bind fun r t known => ?_
  obtain ⟨known, mem⟩ := known
  cases r with
  | error err => exact .ret trivial
  | ok u =>
    obtain ⟨a, found, same⟩ := known u rfl
    refine (createSessionWithTTL_wp (k := .devtoken email password) mem found same).bind
      fun r t _ => ?_
    cases r with
    | error err => exact .ret trivial
    | ok x => exact .ret trivial

theorem body_wp (mem : (i, k) ∈ s.requests) :
    WP (exec L) (spec L fresh) i (Answers L i k) (body L k) s := by
  cases k with
  | signUp b => exact signUp_wp mem
  | login b => exact login_wp mem
  | logout authorization => exact logout_wp
  | sandboxes authorization => exact requireAuth_wp
  | devtoken email password => exact devtoken_wp mem

end Programs

theorem begin_fits {L : Library} {fresh : Prop} {i : Nat} {k : Kind} {s t : Store}
    (sane : Sane L fresh s) (h : begin i k s = some t) :
    Sane L fresh t ∧ Evolves fresh s t ∧ ∀ j, Keeps fresh j s t := by
  cases h
  have evolves : Evolves fresh s { s with requests := (i, k) :: s.requests } :=
    ⟨fun _ _ h => h, fun _ h => h, fun _ h => List.mem_cons_of_mem _ h, fun _ _ _ h => h⟩
  refine ⟨⟨sane.keyed, sane.emails, fun id a found => ?_, sane.listed,
    fun x mem => (sane.issued x mem).mono evolves, sane.drawn⟩, evolves, fun j => .refl j _⟩
  obtain ⟨k', mem, founds⟩ := sane.founded id a found
  exact ⟨k', List.mem_cons_of_mem _ mem, founds⟩

theorem disciplined (L : Library) (fresh : Prop) :
    (system L).Disciplined (spec L fresh) (Answers L) where
  sound := spec_sound L fresh
  start i k s t sane started := by
    have started : begin i k s = some t := started
    obtain ⟨sane', evolves, keeps⟩ := begin_fits sane started
    refine ⟨sane', evolves, fun j _ => keeps j, body_wp ?_⟩
    cases started
    exact List.mem_cons_self
  ext x := x.elim

theorem blank_sane (L : Library) (fresh : Prop) : Sane L fresh blank where
  keyed _ _ h := by simp [blank] at h
  emails _ _ _ _ h := by simp [blank] at h
  founded _ _ h := by simp [blank] at h
  listed _ _ h := by simp [blank] at h
  issued _ h := by simp [blank] at h
  drawn _ _ h := by simp [blank] at h

def replied (s : State) (i : Nat) : Option (Kind × Reply) :=
  match s.threads i with
  | some ⟨k, .ret r⟩ => some (k, r)
  | _ => none

theorem replied_eq_some {s : State} {i : Nat} {k : Kind} {r : Reply}
    (h : replied s i = some (k, r)) : s.threads i = some ⟨k, .ret r⟩ := by
  unfold replied at h
  split at h
  · cases h
    assumption
  · cases h

def asks (s : State) (i : Nat) : Option (Kind × Call) :=
  match s.threads i with
  | some ⟨k, .call c _⟩ => some (k, c)
  | _ => none

theorem asks_eq_some {s : State} {i : Nat} {k : Kind} {c : Call} (h : asks s i = some (k, c)) :
    ∃ f, s.threads i = some ⟨k, .call c f⟩ := by
  unfold asks at h
  split at h
  · cases h
    exact ⟨_, by assumption⟩
  · cases h

section Example

def plain : Library where
  lower := Char.toLower
  hash _ password := password
  compare hash password := hash == password
  compare_hash _ password := beq_self_eq_true password

def devRequest : AuthRequest := ⟨" Dev@Fire.local ", "dev-local-only"⟩

def signingUp : List (Action Kind Env Empty) :=
  [.spawn (.signUp (some devRequest)), .call 0 {}, .call 0 { uuid := "user-1" },
    .call 0 {}, .call 0 {}, .call 0 { token := "token-1" }, .call 0 { now := 7000 }, .call 0 {}]

def signedUp : Kind × Reply :=
  (.signUp (some devRequest), .session 201 "token-1" "user-1" "dev@fire.local")

end Example

section Runs
variable {L : Library} {s t : State} {i j : Nat}

theorem results {k : Kind} {r : Reply} (h : (system L).Reaches (System.init blank) t)
    (done : t.threads i = some ⟨k, .ret r⟩) :
    Sane L False t.shared ∧ ∃ w, Evolves False w t.shared ∧ Answers L i k r w := by
  have run : (system L).ReachesIf (spec L False).Cond (spec L False).Out (System.init blank) t :=
    System.ReachesIf.mono (fun _ _ _ _ _ => False.elim) (fun _ _ _ => trivial) h
  have safe := (System.safe_reachesIf (disciplined L False)
    (System.safe_init (blank_sane L False)) run).1
  exact ⟨safe.inv, System.safe_results (disciplined L False) (blank_sane L False) run done⟩

/-- A request that comes through to the sandbox API bears the token of a session
that was issued to the user it comes through as. Who asked for the session knew
that user's e-mail and password, and has had it for at most thirty days, unless
devtoken made it. -/
theorem admitted_as_owner {authorization : String} {u : User} {x : Session} {checkedAt : Option Int}
    (h : (system L).Reaches (System.init blank) t)
    (done : t.threads i = some ⟨.sandboxes authorization, .ret (.next u x checkedAt)⟩) :
    bearerToken authorization = x.token ∧ x.token ≠ "" ∧ u.id = x.userID ∧
    ∃ a y k, t.shared.users.get? u.id = some a ∧ a.user = u ∧ y ∈ t.shared.issued ∧ y.session = x ∧
      (y.issuer, k) ∈ t.shared.requests ∧ Vouches L u k ∧
      ((∃ email password, k = .devtoken email password) ∨
        ∃ now, checkedAt = some now ∧ now ≤ x.createdAt + sessionTTL) := by
  obtain ⟨sane, w, evolves, ⟨auth, same, presented⟩, some_, ⟨y, mem, rfl⟩, ⟨a, found, rfl⟩,
    before⟩ := results h done
  cases same
  have found := evolves.users _ a found
  have mem := evolves.issued y mem
  have keyed := sane.keyed _ a found
  obtain ⟨k, a', asked, found', vouched, ttl⟩ := sane.issued y mem
  cases found.symm.trans found'
  refine ⟨presented, some_, keyed, a, y, k, keyed.symm ▸ found, rfl, mem, rfl, asked, vouched, ?_⟩
  cases k with
  | devtoken email password => exact .inl ⟨email, password, rfl⟩
  | signUp | login | logout | sandboxes => exact .inr (before _ ttl)

theorem admitted_as_owner_devRequest : ∃ t y k, (system plain).Reaches (System.init blank) t ∧
    replied t 1 = some (.sandboxes "Bearer token-1",
      .next ⟨"user-1", "dev@fire.local", "dev-local-only", 0⟩
      ⟨"token-1", "user-1", 7000, some (7000 + sessionTTL)⟩ (some 9000)) ∧
    y ∈ t.shared.issued ∧ (y.issuer, k) ∈ t.shared.requests ∧
    Vouches plain ⟨"user-1", "dev@fire.local", "dev-local-only", 0⟩ k := by
  have run : ((system plain).run (System.init blank)
    (signingUp ++ [.spawn (.sandboxes "Bearer token-1"), .call 1 {},
      .call 1 { now := 9000 }, .call 1 {}])).map (replied · 1) =
      some (some (.sandboxes "Bearer token-1",
        .next ⟨"user-1", "dev@fire.local", "dev-local-only", 0⟩
        ⟨"token-1", "user-1", 7000, some (7000 + sessionTTL)⟩ (some 9000))) := by
    decide +kernel
  obtain ⟨t, ht, done⟩ := Option.map_eq_some_iff.1 run
  have reached := System.reaches_of_run ht
  obtain ⟨-, -, -, a, y, k, -, -, issued, -, asked, vouched, -⟩ := admitted_as_owner reached
    (replied_eq_some done)
  exact ⟨t, y, k, reached, done, issued, asked, vouched⟩

/-- However sign-ups and log-ins interleave, an address stands for one account:
two of them are answered with the same user where their addresses come to the same,
and only one was a sign-up. -/
theorem address_registered_once {k k' : Kind} {code code' : Nat}
    {token token' id id' email email' : String} (h : (system L).Reaches (System.init blank) t)
    (done : t.threads i = some ⟨k, .ret (.session code token id email)⟩)
    (done' : t.threads j = some ⟨k', .ret (.session code' token' id' email')⟩) :
    (email = email' ↔ id = id') ∧ (email = email' → code = 201 → code' = 201 → i = j) ∧
    ∃ b, email = normalize L b.email ∧ (code = 201 ∧ k = .signUp (some b) ∨ code = 200 ∧
      k = .login (some b)) := by
  obtain ⟨sane, w, evolves, b, a, asked, found, rfl, decoded, -⟩ := results h done
  obtain ⟨-, w', evolves', b', a', asked', found', rfl, -⟩ := results h done'
  have found := evolves.users _ a found
  have found' := evolves'.users _ a' found'
  have one (same : a.user.email = a'.user.email) : id = id' :=
    sane.emails id id' a a' found found' same
  have account (same : id = id') : a = a' := Option.some.inj (found.symm.trans (same ▸ found'))
  refine ⟨⟨one, fun same => account same ▸ rfl⟩, fun same created created' => ?_, b, ?_, ?_⟩
  · obtain ⟨-, -, mine⟩ | ⟨login, -⟩ := asked
    · obtain ⟨-, -, theirs⟩ | ⟨login, -⟩ := asked'
      · rw [← mine, ← theirs, account (one same)]
      · omega
    · omega
  · obtain ⟨x, eq, email, -⟩ := decode_ok decoded
    cases eq
    exact email
  · obtain ⟨created, kind, -⟩ | login := asked
    · exact .inl ⟨created, kind⟩
    · exact .inr login

theorem address_registered_once_login : ∃ t k id id', (system plain).Reaches (System.init blank) t ∧
    replied t 0 = some (k, .session 201 "token-1" id "dev@fire.local") ∧
    replied t 1 = some (.login (some ⟨"DEV@FIRE.LOCAL", "dev-local-only"⟩),
      .session 200 "token-2" id' "dev@fire.local") ∧ id = id' := by
  have run : ((system plain).run (System.init blank) (signingUp ++
      [.spawn (.login (some ⟨"DEV@FIRE.LOCAL", "dev-local-only"⟩)), .call 1 {},
        .call 1 { token := "token-2" }, .call 1 {}, .call 1 {}])).map
        (fun t => (replied t 0, replied t 1)) =
      some (some signedUp, some (.login (some ⟨"DEV@FIRE.LOCAL", "dev-local-only"⟩),
        .session 200 "token-2" "user-1" "dev@fire.local")) := by
    decide +kernel
  simp only [Option.map_eq_some_iff, Prod.mk.injEq] at run
  obtain ⟨t, ht, created, login⟩ := run
  have reached := System.reaches_of_run ht
  exact ⟨t, _, _, _, reached, created, login,
    (address_registered_once reached (replied_eq_some created) (replied_eq_some login)).1.1 rfl⟩

end Runs

def Unlisted (token : String) : (c : Call) → c.Answer → Prop
  | .getSession token', r => token' = token → ∀ x, r ≠ .ok x
  | _, _ => True

def Refused (token : String) : Kind → Reply → Prop
  | .sandboxes authorization, r => bearerToken authorization = token → ∃ text, r = .text 401 text
  | _, _ => True

theorem perform_unlisted {L : Library} {token : String} {s : Store}
    (gone : s.sessions.get? token = none) {i : Nat} {c : Call} {e : Env} :
    Unlisted token c (perform L i c e s).1 := by
  cases c with
  | getSession token' =>
    rintro rfl x answer
    obtain ⟨y, found, -⟩ := found_ok answer
    cases gone.symm.trans found
  | hash | newUUID | timeNow | randomToken | createUser | getUserByEmail
    | getUserByID | createSession
  | deleteSession => trivial

theorem body_refused (L : Library) (token : String) (k : Kind) :
    (body L k).Until (Unlisted token) (fun _ _ => False) (Refused token k) := by
  cases k with
  | signUp | login | logout | devtoken => exact .all (fun _ => trivial) _
  | sandboxes authorization =>
    by_cases bears : bearerToken authorization = token
    · simp only [body, Handlers.requireAuth, bears]
      split
      · exact .ret fun _ => ⟨_, rfl⟩
      · refine .call fun r unlisted _ => ?_
        cases r with
        | error err => exact .ret fun _ => ⟨_, rfl⟩
        | ok x => exact absurd rfl (unlisted rfl x)
    · exact .all (fun _ h => absurd h bears) _

section Revocation
variable {L : Library} {s t u : State} {i : Nat}

def Fresh (L : Library) : State → State → Prop := (system L).ReachesWhen newDraw fun _ _ => true

theorem Fresh.safe (h : Fresh L (System.init blank) t) :
    (system L).Safe (spec L True) (Answers L) t := by
  have run : (system L).ReachesIf (spec L True).Cond (spec L True).Out (System.init blank) t :=
    System.ReachesIf.mono (fun _ _ _ _ new _ => new) (fun _ _ _ => trivial) h
  exact (System.safe_reachesIf (disciplined L True) (System.safe_init (blank_sane L True)) run).1

theorem Fresh.evolves (safe : (system L).Safe (spec L True) (Answers L) s) (h : Fresh L s t) :
    Evolves True s.shared t.shared := by
  have run : (system L).ReachesIf (spec L True).Cond (spec L True).Out s t :=
    System.ReachesIf.mono (fun _ _ _ _ new _ => new) (fun _ _ _ => trivial) h
  exact (System.safe_reachesIf (disciplined L True) safe run).2

/-- Where no token is drawn twice a log-out is final: once its DELETE took effect,
the session is never there again, and every request that starts after that and
bears the token is refused. -/
theorem logout_final {x : Issue} {authorization : String}
    {f : Except AuthErr Unit → M Reply} {e : Env}
    (h : Fresh L (System.init blank) s) (issued : x ∈ s.shared.issued)
    (leaves : s.threads i = some ⟨.logout authorization, .call (.deleteSession x.session.token) f⟩)
    (took : e.fault = none ∨ e.took = true) (left : (system L).step s (.call i e) = some t)
    (later : Fresh L t u) : u.shared.sessions.get? x.session.token = none ∧
    ∀ j authorization' r, t.next ≤ j → u.threads j = some ⟨.sandboxes authorization', .ret r⟩ →
      bearerToken authorization' = x.session.token → ∃ text, r = .text 401 text := by
  have step : Fresh L s t := by
    refine .single ⟨.call i e, fun k c f' thread => ?_, left⟩
    cases leaves.symm.trans thread
    rfl
  have reached : Fresh L (System.init blank) t := h.trans step
  have listed : x ∈ t.shared.issued := (step.evolves h.safe).issued x issued
  have gone : t.shared.sessions.get? x.session.token = none := by
    simp only [System.step, leaves, Option.map_eq_some_iff] at left
    obtain ⟨⟨r, v⟩, ran, rfl⟩ := left
    obtain rfl : (perform L i _ e s.shared).2 = v := congrArg Prod.snd (Option.some.inj ran)
    have erased : (perform L i (.deleteSession x.session.token) e s.shared).2.sessions =
        s.shared.sessions.erase x.session.token := by
      obtain none | took := took
      · simp [perform, Env.statement, none]
      · cases fault : e.fault <;> simp [perform, Env.statement, fault, took]
    change (perform L i (.deleteSession x.session.token) e s.shared).2.sessions.get?
      x.session.token = none
    rw [erased, Table.get?_erase, if_pos rfl]
  have stays {v : State} (run : Fresh L t v) : v.shared.sessions.get? x.session.token = none :=
    (run.evolves reached.safe).gone trivial x listed gone
  refine ⟨stays later, fun j authorization' r new done bears => ?_⟩
  have refused := System.returns_reachesIf (body_refused L x.session.token)
    (fun v run i c e r w ran => ?_) (fun i new => ?_) later new done
  · cases refused with
    | ret refused => exact refused bears
  · obtain rfl : (perform L i c e v.shared).1 = r := congrArg Prod.fst (Option.some.inj ran)
    exact perform_unlisted (stays run)
  · cases thread : t.threads i with
    | none => rfl
    | some th => exact absurd (System.started_of_thread reached.reaches thread) (Nat.not_lt.2 new)

theorem logout_final_devRequest : ∃ s t u, Fresh plain (System.init blank) s ∧
    replied s 0 = some signedUp ∧
    (system plain).step s (.call 1 {}) = some t ∧ Fresh plain t u ∧
    replied u 2 = some (.sandboxes "Bearer token-1", .text 401 "invalid or expired session") ∧
    u.shared.sessions.get? "token-1" = none := by
  let x : Issue := ⟨⟨"token-1", "user-1", 7000, some (7000 + sessionTTL)⟩, 0⟩
  let leaving : List (Action Kind Env Empty) := signingUp ++ [.spawn (.logout "Bearer token-1")]
  let coming : List (Action Kind Env Empty) := [.spawn (.sandboxes "Bearer token-1"), .call 2 {}]
  have run : (((system plain).runIf newDraw (fun _ _ => true)
      (System.init blank) leaving).bind fun s =>
      ((system plain).step s (.call 1 {})).bind fun t =>
        ((system plain).runIf newDraw (fun _ _ => true) t coming).map fun u =>
          (replied s 0, asks s 1, decide (x ∈ s.shared.issued), replied u 2)) =
      some (some signedUp, some (.logout "Bearer token-1", .deleteSession "token-1"), true,
        some (.sandboxes "Bearer token-1", .text 401 "invalid or expired session")) := by
    decide +kernel
  simp only [Option.bind_eq_some_iff, Option.map_eq_some_iff, Prod.mk.injEq] at run
  obtain ⟨s, hs, t, step, u, hu, created, leaves, issued, refused⟩ := run
  have before : Fresh plain (System.init blank) s := System.reachesWhen_of_runIf hs
  have later : Fresh plain t u := System.reachesWhen_of_runIf hu
  obtain ⟨f, leaves⟩ := asks_eq_some leaves
  have final := logout_final (x := x) before (of_decide_eq_true issued) leaves (.inl rfl) step later
  exact ⟨s, t, u, before, created, step, later, refused, final.1⟩

end Revocation

section RoundTrip
variable {L : Library} {t : State} {i : Nat}

theorem bearerToken_bearer (token : String) : bearerToken (bearer ++ token) = token := by
  have starts : bearer.toList.isPrefixOf (bearer.toList ++ token.toList) = true :=
    List.isPrefixOf_iff_prefix.2 (List.prefix_append _ _)
  rw [bearerToken, String.toList_append, if_pos starts, List.drop_left, String.ofList_toList]

theorem byEmail_found {s : Store} (sane : Sane L False s) {id : String} {a : Account}
    (found : s.users.get? id = some a) : s.byEmail a.user.email = some a := by
  cases byEmail : s.byEmail a.user.email with
  | none => exact absurd rfl (byEmail_eq_none byEmail found)
  | some a' =>
    obtain ⟨id', found', same⟩ := byEmail_eq_some byEmail
    cases sane.emails id' id a' a found' found same
    exact found'.symm.trans found

theorem requireAuth_alone {v : Store} {y : Issue} {a : Account} {expiresAt : Int} {j : Nat}
    {find look own : Env} (session : v.sessions.get? y.session.token = some y)
    (owner : v.users.get? y.session.userID = some a)
    (expires : y.session.expiresAt = some expiresAt) (real : y.session.token ≠ "")
    (find_ok : find.fault = none) (own_ok : own.fault = none) :
    (body L (.sandboxes (bearer ++ y.session.token))).alone (exec L) j [find, look, own] v =
      some (if expiresAt < look.now then .text 401 "invalid or expired session"
        else .next a.user y.session (some look.now), v) := by
  have finds : exec L j (.getSession y.session.token) find v = some (.ok y.session, v) := by
    simp [exec, perform, Env.statement, find_ok, session, found]
  have owns : exec L j (.getUserByID y.session.userID) own v = some (.ok a.user, v) := by
    simp [exec, perform, Env.statement, own_ok, owner, found]
  have looks : exec L j .timeNow look v = some (look.now, v) := rfl
  simp only [body, Handlers.requireAuth, bearerToken_bearer, if_neg real]
  by_cases late : expiresAt < look.now <;>
    simp [Service.authenticate, Service.owner, ask, Prog.alone, finds, looks, owns, expires, late]

/-- Who has signed up can log in with the same password, however the address is
spelled, and then comes through as the same user until thirty days have passed. -/
theorem signUp_login_round_trip {b : AuthRequest} {token id email : String}
    (h : (system L).Reaches (System.init blank) t)
    (created : t.threads i = some ⟨.signUp (some b), .ret (.session 201 token id email)⟩)
    (b' : AuthRequest) (address : normalize L b'.email = normalize L b.email)
    (password : b'.password = b.password) (read draw clock write : Env)
    (ok : ∀ e ∈ [read, draw, write], e.fault = none)
    (free : t.shared.sessions.get? draw.token = none) (real : draw.token ≠ "") (j : Nat) :
    ∃ u x v, u.id = id ∧ u.email = email ∧
      (body L (.login (some b'))).alone (exec L) j [read, draw, clock, write] t.shared =
        some (.session 200 draw.token id email, v) ∧
      ∀ j' find look own, find.fault = none → own.fault = none →
        (body L (.sandboxes (bearer ++ draw.token))).alone (exec L) j' [find, look, own] v =
          some (if stored clock.now + sessionTTL <
            look.now then .text 401 "invalid or expired session"
            else .next u x (some look.now), v) := by
  obtain ⟨sane, w, evolves, b₀, a, asked, found, rfl, decoded, accepted⟩ := results h created
  obtain ⟨-, kind, -⟩ | ⟨code, -⟩ := asked
  swap
  · omega
  cases kind
  have found := evolves.users _ a found
  have decoded' : decodeAuthRequest L (some b') = .ok ⟨a.user.email, b.password⟩ := by
    rw [← decoded]
    simp only [decodeAuthRequest, address, password]
  simp only [List.mem_cons, List.not_mem_nil, or_false, forall_eq_or_imp, forall_eq] at ok
  obtain ⟨read_ok, draw_ok, write_ok⟩ := ok
  have keyed := sane.keyed id a found
  let x : Session := ⟨draw.token, id, stored clock.now, some (stored clock.now + sessionTTL)⟩
  let v : Store := { t.shared with
    drawn := Function.update t.shared.drawn draw.token (some j)
    sessions := t.shared.sessions.set draw.token ⟨x, j⟩
    issued := ⟨x, j⟩ :: t.shared.issued }
  refine ⟨a.user, x, v, keyed, rfl, ?_, fun j' find look own find_ok own_ok => ?_⟩
  · simp [body, Handlers.login, decoded', Service.login, Service.createSession,
      Service.createSessionWithTTL, ask, Prog.perform, Prog.alone, exec, perform, Env.statement,
      read_ok, draw_ok, write_ok, byEmail_found sane found,
      Auth.found, accepted, keyed, Store.createSession, free, found, stored_add_ttl, x, v]
  · exact requireAuth_alone (y := ⟨x, j⟩)
      ((Table.get?_set _ _ _ _).trans (if_pos rfl)) found rfl real find_ok own_ok

theorem signUp_login_round_trip_devRequest :
    ∃ t u x v, (system plain).Reaches (System.init blank) t ∧
    replied t 0 = some signedUp ∧ u.id = "user-1" ∧
    (body plain (.login (some ⟨"DEV@FIRE.LOCAL", "dev-local-only"⟩))).alone (exec plain) 1
      [{}, { token := "token-2" }, {}, {}] t.shared =
        some (.session 200 "token-2" "user-1" "dev@fire.local", v) ∧
    (body plain (.sandboxes (bearer ++ "token-2"))).alone (exec plain) 2
    [{}, { now := sessionTTL }, {}] v =
      some (.next u x (some sessionTTL), v) := by
  have run : ((system plain).run (System.init blank) signingUp).map
      (fun t => (replied t 0, t.shared.sessions.get? "token-2")) = some (some signedUp, none) := by
    decide +kernel
  simp only [Option.map_eq_some_iff, Prod.mk.injEq] at run
  obtain ⟨t, ht, created, free⟩ := run
  have reached := System.reaches_of_run ht
  have address : normalize plain "DEV@FIRE.LOCAL" = normalize plain devRequest.email := by
    decide +kernel
  obtain ⟨u, x, v, same, -, login, window⟩ := signUp_login_round_trip reached
    (replied_eq_some created) ⟨"DEV@FIRE.LOCAL", "dev-local-only"⟩ address rfl {}
    { token := "token-2" } {} {} (by decide) free (by decide) 1
  exact ⟨t, u, x, v, reached, created, same, login, window 2 {} { now := sessionTTL } {} rfl rfl⟩

end RoundTrip

end Fire2.Auth
