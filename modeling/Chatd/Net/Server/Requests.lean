import Chatd.Library.Reach
import Chatd.Protocol.Execute

/-! # A server that handles one request after the other

Connections come and go, log in with a new or an existing user, and send lines; each of
these is handled to its end before the next one. Users, like channels, are numbered in
the order of their allocation, and `send_msg` finds the connections of a user by name.
-/
namespace Chatd.Net.Server
open Library Protocol

/-- `ConnectionPool` with the user of each connection; `users` is `m_users`, the
channels of `world` are `m_channels` and `conns` is `m_conns`. -/
structure Pool (κ : Type*) where
  user : UserRef → User
  users : List UserRef
  nextUser : UserRef
  world : World UserRef
  conns : List κ
  session : κ → Option UserRef

/-- What is enqueued to a connection: the text of a reply, or a message of a user with
the channel it is sent for. -/
inductive Output (κ : Type*) where
  | reply (k : κ) (text : Bytes)
  | message (k : κ) (cause : Option ChannelRef) (sender : UserRef) (msg : Message)
  deriving DecidableEq, Repr

def Output.receiver {κ : Type*} : Output κ → κ
  | .reply k _ => k
  | .message k _ _ _ => k

inductive Request (κ : Type*) where
  | connect (k : κ)
  | close (k : κ)
  | register (k : κ) (name password : Bytes)
  | login (k : κ) (name password : Bytes)
  | command (k : κ) (line : Line)
  deriving DecidableEq, Repr

namespace Pool

variable {κ : Type*} [DecidableEq κ] (p : Pool κ)

def userName (u : UserRef) : Bytes := (p.user u).name

def empty : Pool κ := ⟨fun _ => ⟨[], []⟩, [], 0, .empty, [], fun _ => none⟩

/-- The connections that `ConnectionPool::send_msg` enqueues a message to. -/
def recipients (username : Bytes) : List κ :=
  p.conns.filter fun k => (p.session k).any fun u => p.userName u == username

/-- The end of the login dialogue after the answer `y`. -/
def register (k : κ) (name password : Bytes) : Pool κ × List (Output κ) :=
  let user := Function.update p.user p.nextUser ⟨name, password⟩
  let pushed := ConnectionPool.push (fun u => (user u).name) p.users p.nextUser
  if pushed.2 then
    ({ p with
        user := user
        users := pushed.1
        nextUser := p.nextUser + 1
        session := Function.update p.session k (some p.nextUser) },
      [.reply k (ascii "SRV: Hello @" ++ name ++ ascii "!\n")])
  else (p, [.reply k (ascii "EXIT: Cannot create user.\n")])

/-- The end of the login dialogue when the user is looked up. -/
def login (k : κ) (name password : Bytes) : Pool κ × List (Output κ) :=
  match ConnectionPool.get p.userName p.users name with
  | some u =>
    if (p.user u).password = password then
      ({ p with session := Function.update p.session k (some u) },
        [.reply k (ascii "SRV: Hello @" ++ name ++ ascii "!\n")])
    else (p, [.reply k (ascii "ERR: Invalid password! Try again: ")])
  | none =>
    (p, [.reply k (ascii "SRV: No user has found, would you like to a account? (y/n): ")])

/-- A message to the recipients of each call of `send_msg`. -/
def deliver (u : UserRef) (msg : Message) (sends : List (Option ChannelRef × Bytes)) :
    List (Output κ) :=
  sends.flatMap fun send => (p.recipients send.2).map fun k => .message k send.1 u msg

/-- The message that a line is parsed to, if it is one. -/
def outputs (k : κ) (u : UserRef) (line : Line) (e : Effect UserRef) : List (Output κ) :=
  (e.reply.map (Output.reply k)).toList ++
    match line with
    | .message msg => p.deliver u msg e.sends
    | _ => []

/-- A request handled to its end; none where it is not possible, or faults. -/
def serve : Request κ → Option (Pool κ × List (Output κ))
  | .connect k =>
    if k ∉ p.conns ∧ p.session k = none then
      some ({ p with conns := p.conns ++ [k] },
        [.reply k (ascii "Welcome to the chat relay!\nPlease enter your username: ")])
    else none
  | .close k => if k ∈ p.conns then some ({ p with conns := p.conns.erase k }, []) else none
  | .register k name password =>
    if k ∈ p.conns ∧ p.session k = none then some (p.register k name password) else none
  | .login k name password =>
    if k ∈ p.conns ∧ p.session k = none then some (p.login k name password) else none
  | .command k line =>
    match p.session k with
    | none => none
    | some u =>
      match execute p.userName p.world u line with
      | .error _ => none
      | .ok e => some ({ p with world := e.world }, p.outputs k u line e)

def step (p : Pool κ) (r : Request κ) : Option (Pool κ) := (p.serve r).map Prod.fst

def addUser (k : κ) (name password : Bytes) : Pool κ :=
  { p with
    user := Function.update p.user p.nextUser ⟨name, password⟩
    users := p.users ++ [p.nextUser]
    nextUser := p.nextUser + 1
    session := Function.update p.session k (some p.nextUser) }

def setSession (k : κ) (u : UserRef) : Pool κ :=
  { p with session := Function.update p.session k (some u) }

/-- What holds of a server after any requests. -/
structure Accounted (p : Pool κ) : Prop where
  users_lt : ∀ u ∈ p.users, u < p.nextUser
  names_nodup : (p.users.map p.userName).Nodup
  session_mem : ∀ k u, p.session k = some u → u ∈ p.users
  conns_nodup : p.conns.Nodup
  channels_mem : ∀ u, ∀ c ∈ p.world.channels u, u ∈ p.users
  users_mem : ∀ u c, u ∈ p.world.users c → u ∈ p.users
  allocated : Allocated p.world

section Cases

variable {p} {p' : Pool κ} {r : Request κ} {k : κ} {u : UserRef} {name password : Bytes}
  {line : Line} {outs : List (Output κ)}

theorem addUser_userName_of_lt (h : u < p.nextUser) :
    (p.addUser k name password).userName u = p.userName u := by
  simp [userName, addUser, Function.update_of_ne (Nat.ne_of_lt h)]

theorem addUser_userName_next : (p.addUser k name password).userName p.nextUser = name := by
  simp [userName, addUser]

theorem addUser_session (j : κ) : (p.addUser k name password).session j =
    if j = k then some p.nextUser else p.session j := Function.update_apply ..

theorem setSession_session (j : κ) : (p.setSession k u).session j =
    if j = k then some u else p.session j := Function.update_apply ..

theorem Accounted.map_addUser (hp : Accounted p) (k : κ) (name password : Bytes) :
    p.users.map (p.addUser k name password).userName = p.users.map p.userName :=
  List.map_congr_left fun u hu => addUser_userName_of_lt (hp.users_lt u hu)

theorem Accounted.register_cases (hp : Accounted p) (k : κ) (name password : Bytes) :
    p.register k name password = (p, [.reply k (ascii "EXIT: Cannot create user.\n")]) ∨
      name ∉ p.users.map p.userName ∧ p.register k name password =
        (p.addUser k name password, [.reply k (ascii "SRV: Hello @" ++ name ++ ascii "!\n")]) := by
  let user := Function.update p.user p.nextUser ⟨name, password⟩
  rcases ConnectionPool.push_cases (fun u => (user u).name) p.users p.nextUser with
    hpush | ⟨hpush, hfresh⟩
  · left
    simp only [register, user] at hpush ⊢
    rw [hpush]
    rfl
  · right
    have hmap : p.users.map (fun u => (user u).name) = p.users.map p.userName :=
      hp.map_addUser k name password
    constructor
    · rw [hmap] at hfresh
      simpa [user] using hfresh
    · simp only [register, user] at hpush ⊢
      rw [hpush]
      rfl

theorem login_cases (p : Pool κ) (k : κ) (name password : Bytes) :
    (∃ text, p.login k name password = (p, [.reply k text])) ∨
      ∃ u ∈ p.users, p.userName u = name ∧ (p.user u).password = password ∧
        p.login k name password =
          (p.setSession k u, [.reply k (ascii "SRV: Hello @" ++ name ++ ascii "!\n")]) := by
  rw [login]
  cases hget : ConnectionPool.get p.userName p.users name with
  | none => exact .inl ⟨_, rfl⟩
  | some u =>
    dsimp only
    by_cases hpassword : (p.user u).password = password
    · rw [if_pos hpassword]
      exact .inr ⟨u, ConnectionPool.mem_of_get _ hget, ConnectionPool.nameOf_of_get _ hget,
        hpassword, rfl⟩
    · rw [if_neg hpassword]
      exact .inl ⟨_, rfl⟩

omit [DecidableEq κ] in
theorem mem_recipients {j : κ} :
    j ∈ p.recipients name ↔ j ∈ p.conns ∧ ∃ v, p.session j = some v ∧ p.userName v = name := by
  rw [recipients, List.mem_filter]
  cases p.session j <;> simp

omit [DecidableEq κ] in
theorem message_mem_outputs {j : κ} {cause : Option ChannelRef} {sender : UserRef}
    {msg : Message} {e : Effect UserRef} (h : .message j cause sender msg ∈ p.outputs k u line e) :
    line = .message msg ∧ sender = u ∧ ∃ name, (cause, name) ∈ e.sends ∧ j ∈ p.recipients name := by
  rcases List.mem_append.mp h with h | h
  · simp at h
  · cases line with
    | message msg' =>
      obtain ⟨send, hsend, h⟩ := List.mem_flatMap.mp h
      obtain ⟨i, hi, heq⟩ := List.mem_map.mp h
      cases heq
      exact ⟨rfl, rfl, send.2, hsend, hi⟩
    | _ => cases h

omit [DecidableEq κ] in
theorem reply_mem_outputs {j : κ} {text : Bytes} {e : Effect UserRef} :
    .reply j text ∈ p.outputs k u line e ↔ j = k ∧ e.reply = some text := by
  have hreply : Output.reply j text ∈ (e.reply.map (Output.reply k)).toList ↔
      j = k ∧ e.reply = some text := by
    cases e.reply with
    | none => simp
    | some reply => simp [eq_comm]
  cases line with
  | message msg => simp [outputs, deliver, hreply]
  | _ => simpa only [outputs, List.append_nil] using hreply

theorem serve_command (h : p.serve (.command k line) = some (p', outs)) :
    ∃ u e, p.session k = some u ∧ execute p.userName p.world u line = .ok e ∧
      p' = { p with world := e.world } ∧ outs = p.outputs k u line e := by
  rw [serve] at h
  cases hk : p.session k with
  | none =>
    rw [hk] at h
    cases h
  | some u =>
    rw [hk] at h
    dsimp only at h
    cases he : execute p.userName p.world u line with
    | error fault =>
      rw [he] at h
      cases h
    | ok e =>
      rw [he] at h
      cases h
      exact ⟨u, e, rfl, he, rfl, rfl⟩

/-- Everything a request can do. -/
theorem Accounted.serve_cases (hp : Accounted p) (h : p.serve r = some (p', outs)) :
    (∃ k, k ∉ p.conns ∧ p' = { p with conns := p.conns ++ [k] } ∧ outs = [.reply k
      (ascii "Welcome to the chat relay!\nPlease enter your username: ")]) ∨
    (∃ k, p' = { p with conns := p.conns.erase k } ∧ outs = []) ∨
    p' = p ∨
    (∃ k name password, name ∉ p.users.map p.userName ∧ p' = p.addUser k name password ∧
      outs = [.reply k (ascii "SRV: Hello @" ++ name ++ ascii "!\n")]) ∨
    (∃ k u name, u ∈ p.users ∧ p' = p.setSession k u ∧
      outs = [.reply k (ascii "SRV: Hello @" ++ name ++ ascii "!\n")]) ∨
    (∃ k line u e, r = .command k line ∧ p.session k = some u ∧
      execute p.userName p.world u line = .ok e ∧ p' = { p with world := e.world } ∧
      outs = p.outputs k u line e) := by
  cases r with
  | connect k =>
    obtain ⟨hk, h⟩ := Option.ite_none_right_eq_some.mp h
    cases h
    exact .inl ⟨k, hk.1, rfl, rfl⟩
  | close k =>
    obtain ⟨-, h⟩ := Option.ite_none_right_eq_some.mp h
    cases h
    exact .inr (.inl ⟨k, rfl, rfl⟩)
  | register k name password =>
    obtain ⟨-, h⟩ := Option.ite_none_right_eq_some.mp h
    rcases hp.register_cases k name password with hreg | ⟨hname, hreg⟩
    · rw [hreg] at h
      cases h
      exact .inr (.inr (.inl rfl))
    · rw [hreg] at h
      cases h
      exact .inr (.inr (.inr (.inl ⟨k, name, password, hname, rfl, rfl⟩)))
  | login k name password =>
    obtain ⟨-, h⟩ := Option.ite_none_right_eq_some.mp h
    rcases login_cases p k name password with ⟨text, hlog⟩ | ⟨u, hu, -, -, hlog⟩
    · rw [hlog] at h
      cases h
      exact .inr (.inr (.inl rfl))
    · rw [hlog] at h
      cases h
      exact .inr (.inr (.inr (.inr (.inl ⟨k, u, name, hu, rfl, rfl⟩))))
  | command k line =>
    obtain ⟨u, e, hk, he, rfl, rfl⟩ := serve_command h
    exact .inr (.inr (.inr (.inr (.inr ⟨k, line, u, e, rfl, hk, he, rfl, rfl⟩))))

end Cases

section Invariant

variable {p} {p' : Pool κ} {r : Request κ} {k : κ} {u : UserRef} {name password : Bytes}
  {outs : List (Output κ)}

omit [DecidableEq κ] in
theorem accounted_empty : (empty : Pool κ).Accounted where
  users_lt _ h := by cases h
  names_nodup := List.nodup_nil
  session_mem _ _ h := by cases h
  conns_nodup := List.nodup_nil
  channels_mem _ _ h := by cases h
  users_mem _ _ h := by cases h
  allocated := allocated_empty

theorem Accounted.setSession (hp : Accounted p) (hu : u ∈ p.users) :
    Accounted (p.setSession k u) := by
  refine ⟨hp.users_lt, hp.names_nodup, fun j v hj => ?_, hp.conns_nodup, hp.channels_mem,
    hp.users_mem, hp.allocated⟩
  by_cases hjk : j = k
  · rw [setSession_session, if_pos hjk] at hj
    cases hj
    exact hu
  · rw [setSession_session, if_neg hjk] at hj
    exact hp.session_mem j v hj

theorem Accounted.addUser (hp : Accounted p) (hname : name ∉ p.users.map p.userName) :
    Accounted (p.addUser k name password) := by
  have hold (v : UserRef) (hv : v ∈ p.users) : v ∈ (p.addUser k name password).users :=
    List.mem_append_left _ hv
  have hnew : p.nextUser ∈ (p.addUser k name password).users :=
    List.mem_append_right _ (List.mem_singleton_self _)
  constructor
  case users_lt =>
    intro v hv
    rcases List.mem_append.mp hv with hv | hv
    · exact Nat.lt_succ_of_lt (hp.users_lt v hv)
    · rw [List.mem_singleton.mp hv]
      exact Nat.lt_succ_self _
  case names_nodup =>
    rw [show (p.addUser k name password).users = p.users ++ [p.nextUser] from rfl,
      List.map_append, hp.map_addUser, List.map_singleton, addUser_userName_next]
    exact hp.names_nodup.append (List.nodup_singleton name) (by simpa using hname)
  case session_mem =>
    intro j v hj
    by_cases hjk : j = k
    · rw [addUser_session, if_pos hjk] at hj
      cases hj
      exact hnew
    · rw [addUser_session, if_neg hjk] at hj
      exact hold v (hp.session_mem j v hj)
  case conns_nodup => exact hp.conns_nodup
  case channels_mem => exact fun v c hc => hold v (hp.channels_mem v c hc)
  case users_mem => exact fun v c hv => hold v (hp.users_mem v c hv)
  case allocated => exact hp.allocated

omit [DecidableEq κ] in
theorem Accounted.setConns (hp : Accounted p) {conns : List κ} (h : conns.Nodup) :
    Accounted { p with conns := conns } :=
  ⟨hp.users_lt, hp.names_nodup, hp.session_mem, h, hp.channels_mem, hp.users_mem, hp.allocated⟩

omit [DecidableEq κ] in
theorem Accounted.evolves (hp : Accounted p) {line : Line} {w : World UserRef}
    (hu : u ∈ p.users) (h : Evolves u line p.world w) : Accounted { p with world := w } := by
  refine ⟨hp.users_lt, hp.names_nodup, hp.session_mem, hp.conns_nodup, fun v c hc => ?_,
    fun v c hv => ?_, h.allocated⟩
  · rcases h.channels v c hc with hc | ⟨rfl, -⟩
    · exact hp.channels_mem v c hc
    · exact hu
  · rcases h.users v c hv with hv | ⟨rfl, -⟩
    · exact hp.users_mem v c hv
    · exact hu

/-- The step lemma, for every request. -/
theorem Accounted.serve (hp : Accounted p) (h : p.serve r = some (p', outs)) : Accounted p' := by
  rcases hp.serve_cases h with ⟨k, hk, rfl, -⟩ | ⟨k, rfl, -⟩ | rfl |
    ⟨k, name, password, hname, rfl, -⟩ | ⟨k, u, name, hu, rfl, -⟩ |
    ⟨k, line, u, e, -, hk, he, rfl, -⟩
  · exact hp.setConns (hp.conns_nodup.append (List.nodup_singleton k) (by simpa using hk))
  · exact hp.setConns (hp.conns_nodup.erase k)
  · exact hp
  · exact hp.addUser hname
  · exact hp.setSession hu
  · exact hp.evolves (hp.session_mem k u hk) (execute_evolves hp.allocated he)

theorem Accounted.step (hp : Accounted p) (h : step p r = some p') : Accounted p' := by
  obtain ⟨⟨q, outs⟩, hserve, rfl⟩ := Option.map_eq_some_iff.mp h
  exact hp.serve hserve

/-- Every server reached by requests is accounted for, whatever they are. -/
theorem accounted_of_reach {ok : Pool κ → Request κ → Pool κ → Prop}
    (h : Reach Pool.step ok (· = empty) p) : Accounted p :=
  h.invariant (fun _ h0 => h0 ▸ accounted_empty) fun _ _ _ hp hstep _ => hp.step hstep

omit [DecidableEq κ] in
theorem Accounted.userName_inj (hp : Accounted p) {v : UserRef} (hu : u ∈ p.users)
    (hv : v ∈ p.users) (h : p.userName u = p.userName v) : u = v :=
  List.inj_on_of_nodup_map hp.names_nodup hu hv h

theorem Accounted.serve_world (hp : Accounted p) (h : p.serve r = some (p', outs)) :
    p'.world = p.world ∨ ∃ k u line e, r = .command k line ∧ p.session k = some u ∧
      execute p.userName p.world u line = .ok e ∧ p'.world = e.world := by
  rcases hp.serve_cases h with ⟨k, -, rfl, -⟩ | ⟨k, rfl, -⟩ | rfl | ⟨k, name, password, -, rfl, -⟩ |
    ⟨k, u, name, -, rfl, -⟩ | ⟨k, line, u, e, hr, hk, he, rfl, -⟩
  · exact .inl rfl
  · exact .inl rfl
  · exact .inl rfl
  · exact .inl rfl
  · exact .inl rfl
  · exact .inr ⟨k, u, line, e, hr, hk, he, rfl⟩

end Invariant

section Schedules

def bothJoin : List (Request Bool) :=
  [.connect true, .connect false,
    .register true (ascii "alice") (ascii "wonderland"),
    .register false (ascii "bob") (ascii "builder42"),
    .command true (.subscribe (ascii "room") (ascii "pw")),
    .command false (.subscribe (ascii "room") (ascii "pw"))]

end Schedules

end Pool

end Chatd.Net.Server
