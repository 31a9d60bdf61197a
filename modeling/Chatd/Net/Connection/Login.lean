import Mathlib.Algebra.Group.Nat.Defs
import Chatd.Library.Block
import Chatd.Protocol.Handlers
import Chatd.Protocol.MessageGrammar

/-! # The login dialogue

`handle_payload` asks for a username and a password and looks the user up or, after a
`y`, adds it to the pool. The dialogue keeps its state in thread-local variables, so
each connection has its own, and connections meet in the pool alone. The operations of
the pool are single steps; everything else that the dialogue does between two of them
touches its own connection only, and is one step as well. A logged-in connection parses
its lines and runs their handlers.
-/
namespace Chatd.Net.Connection
open Library Server Protocol

/-- A heap buffer with a line, NUL-terminated. -/
structure Buffer where
  addr : ℕ
  bytes : Bytes
  deriving DecidableEq, Repr

def Buffer.str (b : Buffer) : Bytes := cstr b.bytes 0

/-- `make_shared<User>(username, password)` -/
def makeUser (name password : Buffer) : User := ⟨name.str, password.str⟩

/-- What one connection has to itself: the thread-local variables of `handle_payload` and
`Connection::user`; the lines received and the buffers enqueued so far, where a byte that
was never written is `none`; the addresses passed to `free`, and those of stored buffers
that were read when they had been freed. -/
structure Session where
  authenticated : Bool
  newAccount : Bool
  username : Option Buffer
  password : Option Buffer
  user : Option User
  isGracefullyTerminated : Bool
  received : List Bytes
  replies : List (Block UInt8)
  freed : List ℕ
  staleReads : List ℕ
  deriving DecidableEq, Repr

namespace Session

def fresh : Session := ⟨false, false, none, none, none, false, [], [], [], []⟩

variable (s : Session)

/-- `send_strliteral` -/
def reply (text : Bytes) : Session := { s with replies := s.replies ++ [text.map some] }

/-- `send`, which drops its buffer once the connection is gracefully terminated. -/
def send (cells : Block UInt8) : Session :=
  if s.isGracefullyTerminated then s else { s with replies := s.replies ++ [cells] }

def gracefullyTerminate : Session := { s with isGracefullyTerminated := true }

def free (b : Buffer) : Session := { s with freed := s.freed ++ [b.addr] }

def read (b : Buffer) : Session :=
  if b.addr ∈ s.freed then { s with staleReads := s.staleReads ++ [b.addr] } else s

def receiveLine (line : Bytes) : Session := { s with received := s.received ++ [line] }

end Session

/-- `isalnum(c) || c == '_'`, for ASCII. -/
def isNameChar (c : UInt8) : Bool :=
  (48 ≤ c && c ≤ 57) || (65 ≤ c && c ≤ 90) || (97 ≤ c && c ≤ 122) || c == 95

/-- The index `len - 1`, which wraps around for an empty line. -/
def lastIndex (len : ℕ) : ℕ := if len = 0 then 2 ^ 64 - 1 else len - 1

/-- A final carriage return is overwritten. An empty line reads the byte in front of the
block, `before`, and writes there. -/
def dropReturn (before : UInt8) (bytes : Bytes) (len : ℕ) : Bytes × ℕ :=
  if bytes.getD (lastIndex len) before = cr then (bytes.set (lastIndex len) 0, lastIndex len)
  else (bytes, len)

/-- The first `len` bytes of a new block of `len + 1` bytes that a string is copied to. -/
def greeting (name : Bytes) (len : ℕ) : Block UInt8 :=
  ((name ++ [0]).map some ++ (Block.alloc (len + 1)).drop (name.length + 1)).take len

namespace Session

variable (s : Session)

def enterUsername (buff : Buffer) (len : ℕ) : Session :=
  if buff.str.all isNameChar = false then
    (s.reply (ascii "ERR: Username contains illegal character(s).\nERR: Try again: ")).free buff
  else if buff.str.length < 2 ∨ 20 < buff.str.length then
    (s.reply (ascii
      "ERR: Username should between 2 and 20 characters length.\nERR: Try again: ")).free buff
  else
    { ((s.reply (ascii "SRV: Hello @")).send (greeting buff.str len)).reply
        (ascii "\nSRV: Please enter your password: ") with
      username := some buff }

def enterPassword (buff : Buffer) (len : ℕ) : Session :=
  if buff.str.length ≠ len then
    (s.reply (ascii "ERR: Password contains null-byte.")).free buff
  else if len < 8 ∨ 64 < len then
    (s.reply (ascii
      "ERR: Password should between 8 and 64 characters length.\nERR: Try again: ")).free buff
  else { s with password := some buff }

/-- The step of the dialogue that the stored buffers select. -/
def enter (buff : Buffer) (len : ℕ) : Session :=
  match s.username, s.password with
  | none, _ => s.enterUsername buff len
  | some _, none => s.enterPassword buff len
  | some _, some _ => s

/-- `handle_payload(NULL, 0)` -/
def freeBuffers : Session :=
  if s.authenticated then s
  else
    let s := s.username.elim s s.free
    s.password.elim s s.free

/-- The user that `pool->get<User>(username)` has returned, or null. -/
def answer (name password : Buffer) : Option User → Session
  | some user =>
    let s := s.read password
    let s :=
      if user.password = password.str then
        -- the queue frees the username
        { (((s.reply (ascii "SRV: Hello @")).send
            (name.str.map some)).reply (ascii "!\n")).free name with
          authenticated := true
          user := some user }
      else s.reply (ascii "ERR: Invalid password! Try again: ")
    { s.free password with password := none }
  | none =>
    { s.reply (ascii "SRV: No user has found, would you like to a account? (y/n): ") with
      newAccount := true }

/-- What follows `pool->push<User>` of a user made of the two buffers. -/
def answerPush (name password : Buffer) (ok : Bool) : Session :=
  if ok then
    { ((s.reply (ascii "SRV: Hello @")).reply name.str).reply (ascii "!\n") with
      authenticated := true
      user := some (makeUser name password) }
  else
    -- the destructor of the user frees both
    (((s.reply (ascii "EXIT: Cannot create user.\n")).gracefullyTerminate).free name).free password

end Session

inductive LoginPc where
  | idle
  | lookup (name password : Buffer)
  | found (name password : Buffer) (existing : Option User)
  | register (name password : Buffer)
  | pushed (name password : Buffer) (ok : Bool)
  | parsing (bytes : Bytes)
  | handling (p : Protocol.Pc Bytes)
  deriving DecidableEq, Repr

/-- Whether the line is a confirmation, and what happens with the stored buffers. -/
def Session.decide (s : Session) (buff : Buffer) : Session × LoginPc :=
  match s.username, s.password with
  | some name, some password =>
    if s.newAccount ∧ buff.bytes.head? = some 121 then (s, .register name password)
    else if s.newAccount ∧ buff.bytes.head? = some 110 then
      ((s.reply (ascii "EXIT: Bye!\n")).gracefullyTerminate, .idle)
    else (s, .lookup name password)
  | _, _ => (s, .idle)

/-- The part of `handle_payload` for a connection that is not logged in, up to the pool. -/
def Session.dialogue (s : Session) (before : UInt8) (buff : Buffer) (len : ℕ) :
    Session × LoginPc :=
  let line := dropReturn before buff.bytes len
  let buff := { buff with bytes := line.1 }
  (s.enter buff line.2).decide buff

/-- The handler that a payload is passed to; none for `/logout`. -/
def lineOf : Payload → Option Line
  | .command cmd =>
    match cmd.kind, cmd.argStrings with
    | .subscribe, name :: password :: _ => some (.subscribe name password)
    | .unsubscribe, name :: _ => some (.unsubscribe name)
    | .delete, name :: _ => some (.delete name)
    | .listUsers, name :: _ => some (.listUsers name)
    | _, _ => none
  | p => p.message.map .message

/-- What the connections share, and a record of what has happened: each call of
`push<User>`, each connection that logged in with a user of its own, and the user that
a connection had whenever a line of it was parsed or a message was enqueued to it. -/
structure LoginState (κ : Type*) where
  users : List User
  conns : List κ
  session : κ → Session
  next : ℕ
  attempts : List (κ × User × Bool)
  created : List (κ × User)
  parsed : List (κ × Option User)
  enqueued : List (κ × Option User)
  shared : Shared κ Bytes

/-- The pool accepts and collects connections; every connection has its `rx_thread`. -/
inductive LoginThread (κ : Type*) where
  | pool
  | conn (k : κ)
  deriving DecidableEq, Repr

/-- What the program leaves open: connections coming and going, and the calls of
`handle_payload`, with the byte in front of the buffer. -/
inductive LoginInput (κ : Type*) where
  | accept (k : κ)
  | collect (k : κ)
  | line (before : UInt8) (bytes : Bytes)
  | null
  deriving DecidableEq, Repr

/-- User names stand for users, as `push<User>` keeps them distinct. -/
def byName : Accounts Bytes := ⟨id, Function.injective_id⟩

section Program

variable {κ : Type*} [DecidableEq κ] (d : LoginState κ) (k : κ)

def LoginState.setSession (s : Session) : LoginState κ :=
  { d with session := Function.update d.session k s }

/-- `ConnectionPool::send_msg` -/
def LoginState.sendMsg (username : Bytes) : List (κ × Option User) :=
  (d.conns.filter fun j => (d.session j).user.any fun user => user.name == username).map
    fun j => (j, (d.session j).user)

/-- A step of a handler; the calls of `send_msg` that it makes enqueue a message. -/
def LoginState.setShared (shared : Shared κ Bytes) : LoginState κ :=
  { d with
    shared := shared
    enqueued := d.enqueued ++
      (shared.visits.drop d.shared.visits.length).flatMap fun visit => d.sendMsg visit.2 }

/-- What `Payload::parse` returns for a line, and what becomes of it. -/
def LoginState.parseLine (bytes : Bytes) : Act (Protocol.Mutex Bytes) (LoginState κ) LoginPc :=
  match parse (bytes ++ [0]) bytes.length with
  | .error _ => .halt
  | .ok (.null _) =>
    .act (d.setSession k ((d.session k).reply (ascii "ERR: Invalid command!\n"))) .idle
  | .ok (.payload payload) =>
    match lineOf payload with
    | some line => .act d (.handling (Protocol.enter line))
    | none =>
      .act (d.setSession k ((d.session k).reply (ascii "SRV: Bye!\n")).gracefullyTerminate) .idle

/-- The calls of `handle_payload` of one connection. -/
def connNext (a : LoginInput κ) : LoginPc → Act (Protocol.Mutex Bytes) (LoginState κ) LoginPc
  | .idle =>
    match a with
    | .null => .act (d.setSession k (d.session k).freeBuffers) .idle
    | .line before bytes =>
      let s := (d.session k).receiveLine bytes
      if s.authenticated then
        .act ({ d with parsed := d.parsed ++ [(k, s.user)] }.setSession k s) (.parsing bytes)
      else
        let r := s.dialogue before ⟨d.next, bytes ++ [0]⟩ bytes.length
        .act ({ d with next := d.next + 1 }.setSession k r.1) r.2
    | _ => .halt
  | .lookup name password =>
    .act (d.setSession k ((d.session k).read name))
      (.found name password (ConnectionPool.get User.name d.users name.str))
  | .found name password existing =>
    .act (d.setSession k ((d.session k).answer name password existing)) .idle
  | .register name password =>
    let user := makeUser name password
    let pushed := ConnectionPool.push User.name d.users user
    .act ({ d with users := pushed.1, attempts := d.attempts ++ [(k, user, pushed.2)] }.setSession k
      ((d.session k).read name)) (.pushed name password pushed.2)
  | .pushed name password ok =>
    .act ({ d with
        created := d.created ++ if ok then [(k, makeUser name password)] else [] }.setSession k
      ((d.session k).answerPush name password ok)) .idle
  | .parsing bytes => d.parseLine k bytes
  | .handling p =>
    if p = .idle then .act d .idle
    else
      match (d.session k).user with
      | none => .halt
      | some user => ((handle byName k user.name d.shared p).map .handling).mapData d.setShared

/-- `ConnectionPool::push` of a connection, and its removal by the garbage collector. -/
def poolNext (a : LoginInput κ) : LoginPc → Act (Protocol.Mutex Bytes) (LoginState κ) LoginPc
  | .idle =>
    match a with
    | .accept k => if k ∈ d.conns then .halt else .act { d with conns := d.conns ++ [k] } .idle
    | .collect k => .act { d with conns := d.conns.erase k } .idle
    | _ => .halt
  | _ => .halt

end Program

def loginProg (κ : Type*) [DecidableEq κ] :
    Prog (LoginThread κ) (LoginInput κ) (Protocol.Mutex Bytes) (LoginState κ) LoginPc :=
    fun t a d p =>
  match t with
  | .pool => poolNext d a p
  | .conn k => connNext d k a p

abbrev LoginConfig (κ : Type*) :=
  Config (LoginThread κ) (Protocol.Mutex Bytes) (LoginState κ) LoginPc

def unregistered (κ : Type*) : LoginConfig κ where
  data := ⟨[], [], fun _ => .fresh, 0, [], [], [], [], ⟨.empty, [], []⟩⟩
  pc _ := .idle
  owner _ := none

end Chatd.Net.Connection
