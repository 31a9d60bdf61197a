import Chatd.Library.LockMachine
import Chatd.Protocol.Delete
import Chatd.Protocol.Dispatch

/-! # The handlers as threads

Each command and each kind of chat message is a thread program over the user, channel
and pool lists. A program point is one point of the source between two critical
sections or updates; every `lock_guard` is an acquisition and a release, and a guard
releases at the end of its scope. A read that the source makes outside of any critical
section, of `channel->users` in a global message, is one step for each element.
-/
namespace Chatd.Protocol
open Library Net.Server

/-- The mutexes of users, channels and the pool. No handler takes `m_users_m`. -/
inductive Mutex (υ : Type*) where
  | channelsM (u : υ)
  | usersM (c : ChannelRef)
  | mChannelsM
  | mUsersM
  | mConnsM
  deriving DecidableEq, Repr

/-- The lists, the replies of each connection, and the names each connection has
called `send_msg` with. -/
structure Shared (ι υ : Type*) where
  world : World υ
  replies : List (ι × Bytes)
  visits : List (ι × Bytes)

section Shared

variable {ι υ : Type*} (d : Shared ι υ) (t : ι)

def Shared.setWorld (w : World υ) : Shared ι υ := { d with world := w }

/-- `send_strliteral` -/
def Shared.reply (text : Bytes) : Shared ι υ := { d with replies := d.replies ++ [(t, text)] }

/-- `m_pool->send_msg(username, msg)` -/
def Shared.sendMsg (username : Bytes) : Shared ι υ :=
  { d with visits := d.visits ++ [(t, username)] }

@[simp] theorem Shared.setWorld_world (w : World υ) : (d.setWorld w).world = w := rfl

@[simp] theorem Shared.reply_world (text : Bytes) : (d.reply t text).world = d.world := rfl

@[simp] theorem Shared.sendMsg_world (username : Bytes) :
    (d.sendMsg t username).world = d.world := rfl

abbrev HandlerAct (ι υ π : Type*) := Act (Mutex υ) (Shared ι υ) (Option π)

def heldAt {π : Type*} (held : π → List (Mutex υ)) : Option π → List (Mutex υ)
  | none => []
  | some p => held p

end Shared

variable {ι υ : Type*} [DecidableEq υ] (accounts : Accounts υ) (t : ι) (u : υ) (d : Shared ι υ)

namespace Subscribe

inductive Pc where
  | lockUser (name password : Bytes)
  | scan (name password : Bytes)
  | lockGet (name password : Bytes)
  | get (name password : Bytes)
  | found (name password : Bytes) (channel : Option ChannelRef)
  | lockPush (newChannel : ChannelRef)
  | push (newChannel : ChannelRef)
  | pushed (newChannel : ChannelRef) (ok : Bool)
  | join (joined : ChannelRef)
  | lockUsers (joined : ChannelRef)
  | addUser (joined : ChannelRef)
  | unlockUser
  deriving DecidableEq, Repr

/-- `cmd::Subscribe::operator()` -/
def next : Pc → HandlerAct ι υ Pc
  | .lockUser name password => .lock (.channelsM u) (some (.scan name password))
  | .scan name password =>
    if (d.world.find (d.world.channels u) name).isSome then
      .act (d.reply t (ascii "ERR: You are already in the channel!\n")) (some .unlockUser)
    else .act d (some (.lockGet name password))
  | .lockGet name password => .lock .mChannelsM (some (.get name password))
  | .get name password =>
    .unlock .mChannelsM d
      (some (.found name password (ConnectionPool.get d.world.name d.world.pool name)))
  | .found name password channel =>
    match channel with
    | some channel =>
      if password = (d.world.channel channel).password then
        .act (d.reply t (ascii "SRV: Joined to the channel.\n")) (some (.join channel))
      else .act (d.reply t (ascii "ERR: Invalid password!\n")) (some .unlockUser)
    | none => .act (d.setWorld (d.world.newChannel name password)) (some (.lockPush d.world.next))
  | .lockPush newChannel => .lock .mChannelsM (some (.push newChannel))
  | .push newChannel =>
    .unlock .mChannelsM
      (d.setWorld { d.world with
        pool := (ConnectionPool.push d.world.name d.world.pool newChannel).1 })
      (some (.pushed newChannel (ConnectionPool.push d.world.name d.world.pool newChannel).2))
  | .pushed newChannel ok =>
    if ok then .act (d.reply t (ascii "SRV: Channel created.\n")) (some (.join newChannel))
    else .act (d.reply t (ascii "ERR: Could not create channel.\n")) (some .unlockUser)
  | .join joined =>
    .act (d.setWorld (d.world.setChannels u (d.world.channels u ++ [joined])))
      (some (.lockUsers joined))
  | .lockUsers joined => .lock (.usersM joined) (some (.addUser joined))
  | .addUser joined =>
    .unlock (.usersM joined) (d.setWorld (d.world.setUsers joined (d.world.users joined ++ [u])))
      (some .unlockUser)
  | .unlockUser => .unlock (.channelsM u) d none

def held : Pc → List (Mutex υ)
  | .lockUser _ _ => []
  | .get _ _ | .push _ => [.mChannelsM, .channelsM u]
  | .addUser joined => [.usersM joined, .channelsM u]
  | _ => [.channelsM u]

end Subscribe

namespace Unsubscribe

inductive Pc where
  | lockUser (name : Bytes)
  | scan (name : Bytes) (i : ℕ)
  | test (name : Bytes) (i : ℕ) (channel : ChannelRef)
  | eraseUser (channel : ChannelRef)
  | testEmpty (channel : ChannelRef)
  | poolRemove (channel : ChannelRef)
  | unlockUsers (channel : ChannelRef)
  | unlockUser
  deriving DecidableEq, Repr

/-- `cmd::Unsubscribe::operator()` -/
def next : Pc → HandlerAct ι υ Pc
  | .lockUser name => .lock (.channelsM u) (some (.scan name 0))
  | .scan name i =>
    match (d.world.channels u)[i]? with
    | some channel => .lock (.usersM channel) (some (.test name i channel))
    | none => .act (d.reply t (ascii "ERR: You not in the channel!\n")) (some .unlockUser)
  | .test name i channel =>
    if d.world.name channel = name then
      .act (d.setWorld (d.world.setChannels u ((d.world.channels u).eraseIdx i)))
        (some (.eraseUser channel))
    else .unlock (.usersM channel) d (some (.scan name (i + 1)))
  | .eraseUser channel =>
    .act (d.setWorld (d.world.setUsers channel
        ((d.world.users channel).eraseP fun chUser => accounts.name chUser == accounts.name u)))
      (some (.testEmpty channel))
  | .testEmpty channel =>
    if d.world.users channel = [] then .lock .mChannelsM (some (.poolRemove channel))
    else .act d (some (.unlockUsers channel))
  | .poolRemove channel =>
    .unlock .mChannelsM
      (d.setWorld { d.world with
        pool := (ConnectionPool.remove d.world.name d.world.pool (d.world.name channel)).1 })
      (some (.unlockUsers channel))
  | .unlockUsers channel =>
    .unlock (.usersM channel) (d.reply t (ascii "SRV: Unsubscribed!\n")) (some .unlockUser)
  | .unlockUser => .unlock (.channelsM u) d none

def held : Pc → List (Mutex υ)
  | .lockUser _ => []
  | .scan _ _ | .unlockUser => [.channelsM u]
  | .test _ _ channel | .eraseUser channel | .testEmpty channel | .unlockUsers channel =>
    [.usersM channel, .channelsM u]
  | .poolRemove channel => [.mChannelsM, .usersM channel, .channelsM u]

end Unsubscribe

namespace Delete

inductive Pc (υ : Type*) where
  | lockUser (name : Bytes)
  | scan (name : Bytes) (i : ℕ)
  | test (name : Bytes) (i : ℕ) (channel : ChannelRef)
  | unlockUser (name : Bytes) (channel : ChannelRef)
  | lockUsers (name : Bytes) (channel : ChannelRef)
  | members (name : Bytes) (channel : ChannelRef) (i : ℕ)
  | member (name : Bytes) (channel : ChannelRef) (i : ℕ) (chUser : υ)
  | poolRemove (name : Bytes) (channel : ChannelRef)
  | unlockUsers (channel : ChannelRef)
  deriving DecidableEq, Repr

/-- `cmd::Delete::operator()` -/
def next : Pc υ → HandlerAct ι υ (Pc υ)
  | .lockUser name => .lock (.channelsM u) (some (.scan name 0))
  | .scan name i =>
    match (d.world.channels u)[i]? with
    | some channel => .lock (.usersM channel) (some (.test name i channel))
    | none =>
      .unlock (.channelsM u) (d.reply t (ascii "ERR: You not in the channel!\n")) none
  | .test name i channel =>
    if d.world.name channel = name then
      .unlock (.usersM channel) d (some (.unlockUser name channel))
    else .unlock (.usersM channel) d (some (.scan name (i + 1)))
  | .unlockUser name channel => .unlock (.channelsM u) d (some (.lockUsers name channel))
  | .lockUsers name channel => .lock (.usersM channel) (some (.members name channel 0))
  | .members name channel i =>
    match (d.world.users channel)[i]? with
    | some chUser => .lock (.channelsM chUser) (some (.member name channel i chUser))
    | none => .lock .mChannelsM (some (.poolRemove name channel))
  | .member name channel i chUser =>
    match removeFromUser d.world channel name chUser (d.world.channels u).length 0 with
    | .ok w => .unlock (.channelsM chUser) (d.setWorld w) (some (.members name channel (i + 1)))
    | .error _ => .halt
  | .poolRemove name channel =>
    .unlock .mChannelsM
      (d.setWorld { d.world with
        pool := (ConnectionPool.remove d.world.name d.world.pool name).1 })
      (some (.unlockUsers channel))
  | .unlockUsers channel =>
    .unlock (.usersM channel) (d.reply t (ascii "SRV: Channel deleted.\n")) none

def held : Pc υ → List (Mutex υ)
  | .lockUser _ | .lockUsers _ _ => []
  | .scan _ _ | .unlockUser _ _ => [.channelsM u]
  | .test _ _ channel => [.usersM channel, .channelsM u]
  | .members _ channel _ | .unlockUsers channel => [.usersM channel]
  | .member _ channel _ chUser => [.channelsM chUser, .usersM channel]
  | .poolRemove _ channel => [.mChannelsM, .usersM channel]

end Delete

namespace ListUsers

inductive Pc where
  | lockUser (name : Bytes)
  | scan (name : Bytes) (i : ℕ)
  | test (name : Bytes) (i : ℕ) (channel : ChannelRef)
  | lockUsers (channel : ChannelRef)
  | list (channel : ChannelRef)
  | unlockUser
  deriving DecidableEq, Repr

/-- What `cmd::ListUsers` sends for a list of subscribers. -/
def listing (users : List υ) : Bytes :=
  ascii "SRV: Users subscribed to the channel: " ++
    (ascii ", ").intercalate (users.map accounts.name) ++ ascii "\n"

/-- `cmd::ListUsers::operator()` -/
def next : Pc → HandlerAct ι υ Pc
  | .lockUser name => .lock (.channelsM u) (some (.scan name 0))
  | .scan name i =>
    match (d.world.channels u)[i]? with
    | some channel => .lock (.usersM channel) (some (.test name i channel))
    | none => .act (d.reply t (ascii "ERR: You not in the channel!\n")) (some .unlockUser)
  | .test name i channel =>
    if d.world.name channel = name then .unlock (.usersM channel) d (some (.lockUsers channel))
    else .unlock (.usersM channel) d (some (.scan name (i + 1)))
  | .lockUsers channel => .lock (.usersM channel) (some (.list channel))
  | .list channel =>
    .unlock (.usersM channel) (d.reply t (listing accounts (d.world.users channel)))
      (some .unlockUser)
  | .unlockUser => .unlock (.channelsM u) d none

def held : Pc → List (Mutex υ)
  | .lockUser _ => []
  | .scan _ _ | .lockUsers _ | .unlockUser => [.channelsM u]
  | .test _ _ channel | .list channel => [.usersM channel, .channelsM u]

end ListUsers

namespace Chat

inductive Pc (υ : Type*) where
  | lockConns (to_ : Bytes)
  | send (to_ : Bytes)
  -- a group message
  | lockGet (to_ : Bytes)
  | get (to_ : Bytes)
  | found (channel : Option ChannelRef)
  | test (channel : ChannelRef)
  | groupLoop (channel : ChannelRef) (i : ℕ)
  | groupSend (channel : ChannelRef) (i : ℕ) (chUser : υ)
  -- a global message
  | lockUser
  | start
  | globalLoop (i j : ℕ)
  | globalSend (i j : ℕ) (chUser : υ)
  deriving DecidableEq, Repr

/-- The message branch of `Connection::handle_payload`. -/
def next : Pc υ → HandlerAct ι υ (Pc υ)
  | .lockConns to_ => .lock .mConnsM (some (.send to_))
  | .send to_ => .unlock .mConnsM (d.sendMsg t to_) none
  | .lockGet to_ => .lock .mChannelsM (some (.get to_))
  | .get to_ =>
    .unlock .mChannelsM d (some (.found (ConnectionPool.get d.world.name d.world.pool to_)))
  | .found channel =>
    match channel with
    | none => .act (d.reply t (ascii "ERR: Channel not found!\n")) none
    | some channel => .lock (.usersM channel) (some (.test channel))
  | .test channel =>
    if isInChannel accounts d.world u channel then .act d (some (.groupLoop channel 0))
    else .unlock (.usersM channel) (d.reply t (ascii "ERR: Channel not found!\n")) none
  | .groupLoop channel i =>
    match (d.world.users channel)[i]? with
    | none => .unlock (.usersM channel) d none
    | some chUser =>
      if accounts.name u = accounts.name chUser then .act d (some (.groupLoop channel (i + 1)))
      else .lock .mConnsM (some (.groupSend channel i chUser))
  | .groupSend channel i chUser =>
    .unlock .mConnsM (d.sendMsg t (accounts.name chUser)) (some (.groupLoop channel (i + 1)))
  | .lockUser => .lock (.channelsM u) (some .start)
  | .start =>
    if d.world.channels u = [] then
      .act (d.reply t (ascii "ERR: You are not subscribed to any channel!\n"))
        (some (.globalLoop 0 0))
    else .act d (some (.globalLoop 0 0))
  | .globalLoop i j =>
    match (d.world.channels u)[i]? with
    | none => .unlock (.channelsM u) d none
    | some channel =>
      match (d.world.users channel)[j]? with
      | none => .act d (some (.globalLoop (i + 1) 0))
      | some chUser =>
        if accounts.name u = accounts.name chUser then .act d (some (.globalLoop i (j + 1)))
        else .lock .mConnsM (some (.globalSend i j chUser))
  | .globalSend i j chUser =>
    .unlock .mConnsM (d.sendMsg t (accounts.name chUser)) (some (.globalLoop i (j + 1)))

def held : Pc υ → List (Mutex υ)
  | .lockConns _ | .lockGet _ | .found _ | .lockUser => []
  | .send _ => [.mConnsM]
  | .get _ => [.mChannelsM]
  | .test channel | .groupLoop channel _ => [.usersM channel]
  | .groupSend channel _ _ => [.mConnsM, .usersM channel]
  | .start | .globalLoop _ _ => [.channelsM u]
  | .globalSend _ _ _ => [.mConnsM, .channelsM u]

end Chat

/-- The lines that a logged-in client sends. `/logout` takes no mutex of this model. -/
inductive Line where
  | subscribe (name password : Bytes)
  | unsubscribe (name : Bytes)
  | delete (name : Bytes)
  | listUsers (name : Bytes)
  | message (msg : Message)
  deriving DecidableEq, Repr

inductive Pc (υ : Type*) where
  | idle
  | subscribe (p : Subscribe.Pc)
  | unsubscribe (p : Unsubscribe.Pc)
  | delete (p : Delete.Pc υ)
  | listUsers (p : ListUsers.Pc)
  | chat (p : Chat.Pc υ)
  deriving DecidableEq, Repr

def enter : Line → Pc υ
  | .subscribe name password => .subscribe (.lockUser name password)
  | .unsubscribe name => .unsubscribe (.lockUser name)
  | .delete name => .delete (.lockUser name)
  | .listUsers name => .listUsers (.lockUser name)
  | .message (.direct to_ _) => .chat (.lockConns to_)
  | .message (.group to_ _) => .chat (.lockGet to_)
  | .message (.global _) => .chat .lockUser

/-- A handler that has ended leaves its connection idle. -/
def place {π : Type*} (f : π → Pc υ) (p : Option π) : Pc υ := p.elim .idle f

def handle : Pc υ → Act (Mutex υ) (Shared ι υ) (Pc υ)
  | .idle => .halt
  | .subscribe p => (Subscribe.next t u d p).map (place .subscribe)
  | .unsubscribe p => (Unsubscribe.next accounts t u d p).map (place .unsubscribe)
  | .delete p => (Delete.next t u d p).map (place .delete)
  | .listUsers p => (ListUsers.next accounts t u d p).map (place .listUsers)
  | .chat p => (Chat.next accounts t u d p).map (place .chat)

/-- What a connection of `u` does next, the line being its choice when it is idle. -/
def next (line : Line) : Pc υ → Act (Mutex υ) (Shared ι υ) (Pc υ)
  | .idle => .act d (enter line)
  | p => handle accounts t u d p

def held : Pc υ → List (Mutex υ)
  | .idle => []
  | .subscribe p => Subscribe.held u p
  | .unsubscribe p => Unsubscribe.held u p
  | .delete p => Delete.held u p
  | .listUsers p => ListUsers.held u p
  | .chat p => Chat.held u p

/-- Connections logged in as users, each handling one line after another. -/
def handlers (session : ι → υ) : Prog ι Line (Mutex υ) (Shared ι υ) (Pc υ) :=
  fun t line d p => next accounts t (session t) d line p

abbrev HandlerState (ι υ : Type*) := Config ι (Mutex υ) (Shared ι υ) (Pc υ)

def started (ι υ : Type*) : HandlerState ι υ where
  data := ⟨.empty, [], []⟩
  pc _ := .idle
  owner _ := none

section Locks

variable {accounts t u d}

theorem Subscribe.next_keeps (p : Subscribe.Pc) :
    (Subscribe.next t u d p).Keeps (heldAt (Subscribe.held u)) (Subscribe.held u p) := by
  cases p with
  | found name password channel =>
    cases channel <;> grind [Subscribe.next, Subscribe.held, heldAt, Act.Keeps]
  | _ => grind [Subscribe.next, Subscribe.held, heldAt, Act.Keeps]

theorem Unsubscribe.next_keeps (p : Unsubscribe.Pc) :
    (Unsubscribe.next accounts t u d p).Keeps (heldAt (Unsubscribe.held u))
      (Unsubscribe.held u p) := by
  cases p <;> grind [Unsubscribe.next, Unsubscribe.held, heldAt, Act.Keeps]

theorem Delete.next_keeps (p : Delete.Pc υ) :
    (Delete.next t u d p).Keeps (heldAt (Delete.held u)) (Delete.held u p) := by
  cases p <;> grind [Delete.next, Delete.held, heldAt, Act.Keeps]

omit [DecidableEq υ] in
theorem ListUsers.next_keeps (p : ListUsers.Pc) :
    (ListUsers.next accounts t u d p).Keeps (heldAt (ListUsers.held u)) (ListUsers.held u p) := by
  cases p <;> grind [ListUsers.next, ListUsers.held, heldAt, Act.Keeps]

omit [DecidableEq υ] in
theorem Chat.next_keeps (p : Chat.Pc υ) :
    (Chat.next accounts t u d p).Keeps (heldAt (Chat.held u)) (Chat.held u p) := by
  cases p with
  | found channel => cases channel <;> grind [Chat.next, Chat.held, heldAt, Act.Keeps]
  | _ => grind [Chat.next, Chat.held, heldAt, Act.Keeps]

omit [DecidableEq υ] in
theorem held_comp_place {π : Type*} (f : π → Pc υ) :
    held u ∘ place f = heldAt fun p => held u (f p) := by
  funext p
  cases p <;> rfl

omit [DecidableEq υ] in
theorem held_enter (line : Line) : held u (enter line) = [] := by
  cases line with
  | message msg => cases msg <;> rfl
  | _ => rfl

theorem handle_keeps (p : Pc υ) : (handle accounts t u d p).Keeps (held u) (held u p) := by
  cases p with
  | idle => trivial
  | subscribe p => exact Act.keeps_map.mpr (by rw [held_comp_place]; exact Subscribe.next_keeps p)
  | unsubscribe p =>
    exact Act.keeps_map.mpr (by rw [held_comp_place]; exact Unsubscribe.next_keeps p)
  | delete p => exact Act.keeps_map.mpr (by rw [held_comp_place]; exact Delete.next_keeps p)
  | listUsers p => exact Act.keeps_map.mpr (by rw [held_comp_place]; exact ListUsers.next_keeps p)
  | chat p => exact Act.keeps_map.mpr (by rw [held_comp_place]; exact Chat.next_keeps p)

theorem handlers_scoped (session : ι → υ) :
    Scoped (handlers accounts session) fun t => held (session t) := by
  apply Scoped.of_keeps
  intro t line d p
  have hkeeps (q : Pc υ) : (handle accounts t (session t) d q).Keeps (held (session t))
      (held (session t) q) := handle_keeps q
  cases p with
  | idle => exact held_enter line
  | _ => exact hkeeps _

/-- The owner map of the handlers is the one that their program points say. -/
theorem handlers_owned_of_reach [DecidableEq ι] {session : ι → υ} {c : HandlerState ι υ}
    {ok : HandlerState ι υ → ι × Line → HandlerState ι υ → Prop}
    (h : Reach (step (handlers accounts session)) ok (· = started ι υ) c) :
    Owned (fun t => held (session t)) c := by
  refine Owned.of_reach (handlers_scoped session) ?_ h
  rintro _ rfl
  exact owned_of_free (fun t => rfl) fun m => rfl

end Locks

section Schedules

def pair : Accounts Bool where
  name b := if b then ascii "alice" else ascii "bob"
  name_injective a b := by revert a b; decide

/-- A connection enters the handler of a line and takes some of its steps. -/
def lineSteps {ι : Type*} (t : ι) (line : Line) (n : ℕ) : List (ι × Line) :=
  List.replicate (n + 1) (t, line)

def bothSubscribed : List (Bool × Line) :=
  lineSteps true (.subscribe (ascii "room") (ascii "pw")) 12 ++
    lineSteps false (.subscribe (ascii "room") (ascii "pw")) 9

end Schedules

end Chatd.Protocol
