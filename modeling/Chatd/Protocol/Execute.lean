import Chatd.Protocol.Handlers
import Chatd.Protocol.Subscriptions

/-! # A line handled to its end

What each line of a logged-in user does to the lists, which calls of `send_msg` it makes
and what it is answered when nothing else runs. A subscription grows the lists by one
membership, and every other line only shrinks them or leaves them alone.
-/
namespace Chatd.Protocol
open Library Net.Server

variable {υ : Type*} [DecidableEq υ] (userName : υ → Bytes) (w : World υ) (u : υ)
  (name password : Bytes)

omit [DecidableEq υ] in
/-- What `cmd::ListUsers` sends to `u`. -/
def listUsers : Bytes :=
  match w.find (w.channels u) name with
  | some channel =>
    ascii "SRV: Users subscribed to the channel: " ++
      (ascii ", ").intercalate ((w.users channel).map userName) ++ ascii "\n"
  | none => ascii "ERR: You not in the channel!\n"

/-- The calls of `send_msg` for the other subscribers of a channel. -/
def sendsTo (c : ChannelRef) : List (Option ChannelRef × Bytes) :=
  (((w.users c).map userName).filter fun name => userName u != name).map (some c, ·)

/-- The calls of `send_msg` for a message, each with the channel it is made for, and
the reply to the sender. -/
def sends : Message → List (Option ChannelRef × Bytes) × Option Bytes
  | .direct to_ _ => ([(none, to_)], none)
  | .group to_ _ =>
    match ConnectionPool.get w.name w.pool to_ with
    | none => ([], some (ascii "ERR: Channel not found!\n"))
    | some c =>
      if (w.users c).any fun chUser => userName u == userName chUser then
        (sendsTo userName w u c, none)
      else ([], some (ascii "ERR: Channel not found!\n"))
  | .global _ =>
    ((w.channels u).flatMap (sendsTo userName w u),
      if w.channels u = [] then
        some (ascii "ERR: You are not subscribed to any channel!\n")
      else none)

/-- What the handler of a line leaves behind: the lists, the calls of `send_msg` and
the reply to the sender. -/
structure Effect (υ : Type*) where
  world : World υ
  sends : List (Option ChannelRef × Bytes)
  reply : Option Bytes

/-- The handler of a line of `u`, from its start to its end. -/
def execute : Line → Except Fault (Effect υ)
  | .subscribe name password =>
    .ok ⟨(subscribe w u name password).1, [], some (subscribe w u name password).2⟩
  | .unsubscribe name =>
    .ok ⟨(unsubscribe userName w u name).1, [], some (unsubscribe userName w u name).2⟩
  | .delete name => do
    let (w, reply) ← delete w u name
    .ok ⟨w, [], some reply⟩
  | .listUsers name => .ok ⟨w, [], some (listUsers userName w u name)⟩
  | .message msg => .ok ⟨w, (sends userName w u msg).1, (sends userName w u msg).2⟩

section Sends

variable {userName w u} {c : ChannelRef} {cause : Option ChannelRef} {called : Bytes}
  {msg : Message}

omit [DecidableEq υ] in
theorem mem_sendsTo (h : (cause, called) ∈ sendsTo userName w u c) :
    cause = some c ∧ ∃ v ∈ w.users c, userName v = called := by
  obtain ⟨name, hname, heq⟩ := List.mem_map.mp h
  cases heq
  exact ⟨rfl, List.mem_map.mp (List.mem_filter.mp hname).1⟩

omit [DecidableEq υ] in
theorem mem_sends (h : (cause, called) ∈ (sends userName w u msg).1) :
    (∃ content, msg = .direct called content ∧ cause = none) ∨
      msg.isDirect = false ∧ ∃ c, cause = some c ∧ (∃ v ∈ w.users c, userName v = called) ∧
        (c ∈ w.channels u ∨ ∃ v ∈ w.users c, userName v = userName u) := by
  cases msg with
  | direct to_ content =>
    cases List.mem_singleton.mp h
    exact .inl ⟨content, rfl, rfl⟩
  | group to_ content =>
    rw [sends] at h
    cases hget : ConnectionPool.get w.name w.pool to_ with
    | none =>
      rw [hget] at h
      cases h
    | some c =>
      rw [hget] at h
      dsimp only at h
      by_cases hin : ((w.users c).any fun chUser => userName u == userName chUser) = true
      · rw [if_pos hin] at h
        obtain ⟨hcause, hcalled⟩ := mem_sendsTo h
        obtain ⟨v, hv, hname⟩ := List.any_eq_true.mp hin
        exact .inr ⟨rfl, c, hcause, hcalled, .inr ⟨v, hv, (beq_iff_eq.mp hname).symm⟩⟩
      · rw [if_neg hin] at h
        cases h
  | global content =>
    obtain ⟨c, hc, h⟩ := List.mem_flatMap.mp h
    obtain ⟨hcause, hcalled⟩ := mem_sendsTo h
    exact .inr ⟨rfl, c, hcause, hcalled, .inl hc⟩

end Sends

structure Shrinks (w w' : World υ) : Prop where
  pool : w'.pool ⊆ w.pool
  channels : ∀ u, w'.channels u ⊆ w.channels u
  users : ∀ c, w'.users c ⊆ w.users c
  name : w'.name = w.name
  password : ∀ c, (w'.channel c).password = (w.channel c).password
  next : w'.next = w.next

section Shrinks

variable {userName w u name} {w' w'' : World υ} {c : ChannelRef}

omit [DecidableEq υ] in
theorem Shrinks.refl (w : World υ) : Shrinks w w :=
  ⟨fun _ => id, fun _ _ => id, fun _ _ => id, rfl, fun _ => rfl, rfl⟩

omit [DecidableEq υ] in
theorem Shrinks.trans (h : Shrinks w w') (h' : Shrinks w' w'') : Shrinks w w'' where
  pool := List.Subset.trans h'.pool h.pool
  channels u := List.Subset.trans (h'.channels u) (h.channels u)
  users c := List.Subset.trans (h'.users c) (h.users c)
  name := h'.name.trans h.name
  password c := (h'.password c).trans (h.password c)
  next := h'.next.trans h.next

theorem Shrinks.setChannels {cs : List ChannelRef} (h : cs ⊆ w.channels u) :
    Shrinks w (w.setChannels u cs) := by
  refine ⟨fun _ => id, fun v => ?_, fun _ _ => id, rfl, fun _ => rfl, rfl⟩
  by_cases hv : v = u
  · subst hv
    rw [World.setChannels_channels_self]
    exact h
  · rw [World.setChannels_channels_of_ne _ hv]
    exact fun _ => id

omit [DecidableEq υ] in
theorem Shrinks.setUsers {us : List υ} (h : us ⊆ w.users c) : Shrinks w (w.setUsers c us) := by
  refine ⟨fun _ => id, fun _ _ => id, fun d => ?_, World.setUsers_name .., fun d =>
    World.setUsers_password .., rfl⟩
  by_cases hd : d = c
  · subst hd
    rw [World.setUsers_users_self]
    exact h
  · rw [World.setUsers_users_of_ne _ hd]
    exact fun _ => id

omit [DecidableEq υ] in
theorem Shrinks.setPool {pool : List ChannelRef} (h : pool ⊆ w.pool) :
    Shrinks w { w with pool := pool } :=
  ⟨h, fun _ _ => id, fun _ _ => id, rfl, fun _ => rfl, rfl⟩

theorem leave_shrinks : Shrinks w (leave userName w u name c) := by
  have hchannels : Shrinks w
      (w.setChannels u (ConnectionPool.remove w.name (w.channels u) name).1) :=
    Shrinks.setChannels List.eraseP_subset
  have husers : Shrinks w
      ((w.setChannels u (ConnectionPool.remove w.name (w.channels u) name).1).setUsers c
        (ConnectionPool.remove userName (w.users c) (userName u)).1) :=
    hchannels.trans (Shrinks.setUsers List.eraseP_subset)
  unfold leave
  dsimp only
  split
  · exact husers.trans (Shrinks.setPool List.eraseP_subset)
  · exact husers

theorem removeFromUser_shrinks {v : υ} {n j : ℕ}
    (h : removeFromUser w c name v n j = .ok w') : Shrinks w w' := by
  induction n generalizing j with
  | zero =>
    cases h
    exact .refl w
  | succ n ih =>
    rw [removeFromUser] at h
    split at h
    · cases h
    · split at h
      · cases h
        exact Shrinks.setChannels (List.eraseIdx_subset ..)
      · exact ih h

theorem removeFromUsers_shrinks {users : List υ}
    (h : removeFromUsers u c name w users = .ok w') : Shrinks w w' := by
  induction users generalizing w with
  | nil =>
    cases h
    exact .refl _
  | cons v users ih =>
    obtain ⟨w1, hw1, hrest⟩ := bind_eq_ok h
    exact (removeFromUser_shrinks hw1).trans (ih hrest)

theorem delete_shrinks {reply : Bytes} (h : delete w u name = .ok (w', reply)) :
    Shrinks w w' := by
  rw [delete] at h
  split at h
  · cases h
    exact .refl w
  · obtain ⟨w1, hw1, hrest⟩ := bind_eq_ok h
    cases hrest
    exact (removeFromUsers_shrinks hw1).trans (Shrinks.setPool List.eraseP_subset)

omit [DecidableEq υ] in
theorem Shrinks.allocated (h : Shrinks w w') (hw : Allocated w) : Allocated w' where
  pool c hc := h.next ▸ hw.pool c (h.pool hc)
  channels u c hc := h.next ▸ hw.channels u c (h.channels u hc)
  users u c hu := h.next ▸ hw.users u c (h.users c hu)

end Shrinks

/-- What a line of `u` does to the lists: a membership that was not there before is
the one that a `/subscribe` with the name and the password of the channel grants. -/
structure Evolves (u : υ) (line : Line) (w w' : World υ) : Prop where
  allocated : Allocated w'
  channels : ∀ v, ∀ c ∈ w'.channels v, c ∈ w.channels v ∨
    v = u ∧ line = .subscribe (w'.name c) (w'.channel c).password
  users : ∀ v c, v ∈ w'.users c → v ∈ w.users c ∨
    v = u ∧ line = .subscribe (w'.name c) (w'.channel c).password
  name : ∀ c < w.next, w'.name c = w.name c
  password : ∀ c < w.next, (w'.channel c).password = (w.channel c).password

section Execute

variable {userName w u} {w' : World υ} {line : Line} {e : Effect υ}

omit [DecidableEq υ] in
theorem Shrinks.evolves (h : Shrinks w w') (hw : Allocated w) : Evolves u line w w' where
  allocated := h.allocated hw
  channels v c hc := .inl (h.channels v hc)
  users v c hv := .inl (h.users c hv)
  name c _ := by rw [h.name]
  password c _ := h.password c

theorem subscribe_evolves (hw : Allocated w) {name password : Bytes} :
    Evolves u (.subscribe name password) w (subscribe w u name password).1 := by
  rcases subscribe_cases hw u name password with
    ⟨text, h⟩ | ⟨c, hc, hname, hpassword, -, h⟩ | ⟨-, -, h⟩
  · rw [h]
    exact (Shrinks.refl w).evolves hw
  · rw [h]
    constructor
    case allocated => exact join_allocated hw (hw.pool c hc)
    case channels =>
      intro v d hd
      refine (mem_join_channels.mp hd).imp_right ?_
      rintro ⟨rfl, rfl⟩
      exact ⟨rfl, by rw [join_name, join_password, hname, hpassword]⟩
    case users =>
      intro v d hv
      refine (mem_join_users.mp hv).imp_right ?_
      rintro ⟨rfl, rfl⟩
      exact ⟨rfl, by rw [join_name, join_password, hname, hpassword]⟩
    case name => exact fun d _ => by rw [join_name]
    case password => exact fun d _ => join_password
  · rw [h]
    have hnext : (createChannel w name password).name w.next = name := by
      rw [World.name, createChannel_channel_next]
    constructor
    case allocated =>
      exact join_allocated (createChannel_allocated hw) (Nat.lt_succ_self w.next)
    case channels =>
      intro v d hd
      refine (mem_join_channels.mp hd).imp_right ?_
      rintro ⟨rfl, rfl⟩
      exact ⟨rfl, by rw [join_name, join_password, hnext, createChannel_channel_next]⟩
    case users =>
      intro v d hv
      rw [← createChannel_users hw name password]
      refine (mem_join_users.mp hv).imp_right ?_
      rintro ⟨rfl, rfl⟩
      exact ⟨rfl, by rw [join_name, join_password, hnext, createChannel_channel_next]⟩
    case name => exact fun d hd => by rw [join_name, createChannel_name_of_lt hd]
    case password => exact fun d hd => by rw [join_password, createChannel_channel_of_lt hd]

/-- The step lemma of the lists, for every line. -/
theorem execute_evolves (hw : Allocated w) (h : execute userName w u line = .ok e) :
    Evolves u line w e.world := by
  cases line with
  | subscribe name password =>
    cases h
    exact subscribe_evolves hw
  | unsubscribe name =>
    cases h
    rcases unsubscribe_cases userName w u name with ⟨text, h⟩ | ⟨c, -, -, h⟩
    · rw [h]
      exact (Shrinks.refl w).evolves hw
    · rw [h]
      exact leave_shrinks.evolves hw
  | delete name =>
    obtain ⟨⟨w', reply⟩, hdelete, hrest⟩ := bind_eq_ok h
    cases hrest
    exact (delete_shrinks hdelete).evolves hw
  | listUsers name =>
    cases h
    exact (Shrinks.refl w).evolves hw
  | message msg =>
    cases h
    exact (Shrinks.refl w).evolves hw

/-- Every line but `/delete` keeps the two sides of the subscriptions in agreement. -/
theorem execute_consistent (ha : Allocated w) (hw : Consistent w)
    (hn : ∀ c, ((w.users c).map userName).Nodup) (hline : ∀ name, line ≠ .delete name)
    (h : execute userName w u line = .ok e) : Consistent e.world := by
  cases line with
  | subscribe name password =>
    cases h
    exact subscribe_consistent ha hw
  | unsubscribe name =>
    cases h
    exact unsubscribe_consistent hw hn
  | delete name => exact absurd rfl (hline name)
  | listUsers name | message msg =>
    cases h
    exact hw

theorem not_error_of_head {reply text : Bytes} (b : UInt8) (h : reply.head? = some b)
    (hb : b ≠ 69) : reply ≠ ascii "ERR" ++ text := by
  rintro rfl
  exact hb (Option.some.inj h).symm

/-- A line that is answered with an error changes nothing. -/
theorem execute_error (ha : Allocated w) (h : execute userName w u line = .ok e) {text : Bytes}
    (htext : e.reply = some (ascii "ERR" ++ text)) : e.world = w := by
  cases line with
  | subscribe name password =>
    cases h
    have hreply := Option.some.inj htext
    rcases subscribe_cases ha u name password with
      ⟨text, h⟩ | ⟨c, -, -, -, -, h⟩ | ⟨-, -, h⟩
    · rw [h]
    · rw [h] at hreply
      exact absurd hreply (not_error_of_head 83 rfl (by decide))
    · rw [h] at hreply
      exact absurd hreply (not_error_of_head 83 rfl (by decide))
  | unsubscribe name =>
    cases h
    have hreply := Option.some.inj htext
    rcases unsubscribe_cases userName w u name with ⟨text, h⟩ | ⟨c, -, -, h⟩
    · rw [h]
    · rw [h] at hreply
      exact absurd hreply (not_error_of_head 83 rfl (by decide))
  | delete name =>
    obtain ⟨⟨w', reply⟩, hdelete, hrest⟩ := bind_eq_ok h
    cases hrest
    have hreply := Option.some.inj htext
    rw [delete] at hdelete
    split at hdelete
    · cases hdelete
      rfl
    · obtain ⟨w1, -, hrest⟩ := bind_eq_ok hdelete
      cases hrest
      exact absurd hreply (not_error_of_head 83 rfl (by decide))
  | listUsers name | message msg =>
    cases h
    rfl

end Execute

end Chatd.Protocol
