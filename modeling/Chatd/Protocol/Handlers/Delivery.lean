import Chatd.Library.Grouped
import Chatd.Library.Logged
import Chatd.Protocol.Handlers

/-! # The order of deliveries

`send_msg` enqueues a message to the connections of one name in one critical section, and a
handler calls it once for each subscriber. Between two calls for one group message others may
call it too, but not for the same channel: the loop keeps `users_m` of the channel. So the
subscribers of a channel get its messages in one order.
-/
namespace Chatd.Protocol
open Library Net.Server

/-- One call of `send_msg`: the connection and the number of its line, the channel whose
subscribers a group message goes to, and the name. -/
structure Delivery (ι : Type*) where
  connection : ι
  line : ℕ
  channel : Option ChannelRef
  to_ : Bytes
  deriving DecidableEq, Repr

inductive Event (ι : Type*) where
  | takeLine (t : ι)
  | sendMsg (e : Delivery ι)
  deriving DecidableEq, Repr

section Record

variable {ι υ : Type*} [DecidableEq ι] [DecidableEq υ] (accounts : Accounts υ) (session : ι → υ)

/-- The call of `send_msg` that ends a critical section of `m_conns_m`. -/
def sendsAt : Pc υ → Option (Option ChannelRef × Bytes)
  | .chat (.send to_) => some (none, to_)
  | .chat (.groupSend channel _ chUser) => some (some channel, accounts.name chUser)
  | .chat (.globalSend _ _ chUser) => some (none, accounts.name chUser)
  | _ => none

def linesTaken (log : List (Event ι)) (t : ι) : ℕ := log.count (.takeLine t)

def deliveries (log : List (Event ι)) : List (Delivery ι) :=
  log.filterMap fun
    | .takeLine _ => none
    | .sendMsg e => some e

def handlerEvents (log : List (Event ι)) (c : HandlerState ι υ) (l : ι × Line)
    (_ : HandlerState ι υ) : List (Event ι) :=
  if c.pc l.1 = .idle then [.takeLine l.1]
  else ((sendsAt accounts (c.pc l.1)).map fun send =>
    .sendMsg ⟨l.1, linesTaken log l.1, send.1, send.2⟩).toList

abbrev deliveryStep (r : Logged (HandlerState ι υ) (Event ι)) (l : ι × Line) :
    Option (Logged (HandlerState ι υ) (Event ι)) :=
  logged (step (handlers accounts session)) (handlerEvents accounts) r l

/-- The states of the handlers that some run reaches, with its record. -/
abbrev Delivered (r : Logged (HandlerState ι υ) (Event ι)) : Prop :=
  Reach (deliveryStep accounts session) (onState anyStep) (unlogged (· = started ι υ)) r

/-- The messages that a name gets through a channel, each named by its connection and the
number of its line. -/
def throughChannel (log : List (Event ι)) (channel : ChannelRef) (name : Bytes) : List (ι × ℕ) :=
  ((deliveries log).filter fun e => e.channel = some channel ∧ e.to_ = name).map
    fun e => (e.connection, e.line)

/-- All messages sent through a channel, once for each name. -/
def channelLog (log : List (Event ι)) (channel : ChannelRef) : List (ι × ℕ) :=
  ((deliveries log).filter fun e => e.channel = some channel).map fun e => (e.connection, e.line)

end Record

/-- The handler of a group message has not sent anything yet. -/
def BeforeLoop {υ : Type*} : Pc υ → Prop
  | .chat (.lockGet _) | .chat (.get _) | .chat (.found _) | .chat (.test _) => True
  | _ => False

/-- The handler of a group message is in its loop over the subscribers. -/
def InLoop {υ : Type*} (channel : ChannelRef) : Pc υ → Prop
  | .chat (.groupLoop c _) | .chat (.groupSend c _ _) => c = channel
  | _ => False

section Steps

variable {ι υ : Type*} [DecidableEq υ] {accounts : Accounts υ} {t : ι} {u : υ}
  {d d' : Shared ι υ} {p q : Pc υ} {channel : ChannelRef}

omit [DecidableEq υ] in
theorem held_of_inLoop (h : InLoop channel p) : .usersM channel ∈ held u p := by
  cases p with
  | chat p =>
    cases p with
    | groupLoop c i => obtain rfl : c = channel := h; exact List.mem_singleton_self _
    | groupSend c i chUser => obtain rfl : c = channel := h; simp [held, Chat.held]
    | _ => exact h.elim
  | _ => exact h.elim

/-- Where a step of a handler leads, as far as the loop of a group message goes. -/
theorem loop_of_moves (h : (handle accounts t u d p).Moves d d' q) :
    (BeforeLoop q → BeforeLoop p) ∧
      ∀ channel, InLoop channel q → InLoop channel p ∨ p = .chat (.test channel) := by
  cases p with
  | chat p =>
    rw [handle, Act.moves_map] at h
    obtain ⟨r, hm, rfl⟩ := h
    cases p with
    | found c => cases c <;> grind [Chat.next, Act.Moves, BeforeLoop, InLoop, place]
    | _ => grind [Chat.next, Act.Moves, BeforeLoop, InLoop, place]
  | _ =>
    rw [handle] at h
    first
      | exact h.elim
      | rw [Act.moves_map] at h
        obtain ⟨r, -, rfl⟩ := h
        cases r <;> exact ⟨False.elim, fun _ => False.elim⟩

omit [DecidableEq υ] in
theorem loop_of_sendsAt {ch : Option ChannelRef} {name : Bytes}
    (h : sendsAt accounts p = some (ch, name)) :
    ¬ BeforeLoop p ∧ ∀ channel, InLoop channel p ↔ ch = some channel := by
  cases p with
  | chat p =>
    cases p with
    | send to_ => cases h; exact ⟨id, fun channel => ⟨False.elim, fun h => by cases h⟩⟩
    | groupSend c i chUser =>
      cases h
      exact ⟨id, fun channel => ⟨fun h => congrArg some h, fun h => Option.some.inj h⟩⟩
    | globalSend i j chUser => cases h; exact ⟨id, fun channel => ⟨False.elim, fun h => by cases h⟩⟩
    | _ => cases h
  | _ => cases h

theorem visits_of_moves (h : (handle accounts t u d p).Moves d d' q) :
    d'.visits = d.visits ++ ((sendsAt accounts p).map fun send => (t, send.2)).toList := by
  cases p with
  | idle => exact h.elim
  | chat p =>
    rw [handle, Act.moves_map] at h
    obtain ⟨r, hm, rfl⟩ := h
    cases p with
    | found c => cases c <;> grind [Chat.next, Act.Moves, sendsAt, Shared.reply]
    | _ => grind [Chat.next, Act.Moves, sendsAt, Shared.reply, Shared.sendMsg]
  | subscribe p =>
    rw [handle, Act.moves_map] at h
    obtain ⟨r, hm, rfl⟩ := h
    cases p with
    | found name password c =>
      cases c <;> grind [Subscribe.next, Act.Moves, sendsAt, Shared.reply, Shared.setWorld]
    | _ => grind [Subscribe.next, Act.Moves, sendsAt, Shared.reply, Shared.setWorld]
  | unsubscribe p =>
    rw [handle, Act.moves_map] at h
    obtain ⟨r, hm, rfl⟩ := h
    cases p <;> grind [Unsubscribe.next, Act.Moves, sendsAt, Shared.reply, Shared.setWorld]
  | delete p =>
    rw [handle, Act.moves_map] at h
    obtain ⟨r, hm, rfl⟩ := h
    cases p <;> grind [Delete.next, Act.Moves, sendsAt, Shared.reply, Shared.setWorld]
  | listUsers p =>
    rw [handle, Act.moves_map] at h
    obtain ⟨r, hm, rfl⟩ := h
    cases p <;> grind [ListUsers.next, Act.Moves, sendsAt, Shared.reply]

end Steps

section Order

variable {ι υ : Type*} [DecidableEq ι] [DecidableEq υ] {accounts : Accounts υ} {session : ι → υ}
  {r r' : Logged (HandlerState ι υ) (Event ι)} {t : ι} {line : Line} {log : List (Event ι)}
  {e : Delivery ι} {channel : ChannelRef}

theorem linesTaken_takeLine (log : List (Event ι)) (s t : ι) :
    linesTaken (log ++ [.takeLine s]) t = linesTaken log t + if s = t then 1 else 0 := by
  simp [linesTaken, List.count_append, List.count_singleton]

theorem linesTaken_sendMsg (log : List (Event ι)) (e : Delivery ι) (t : ι) :
    linesTaken (log ++ [.sendMsg e]) t = linesTaken log t := by
  simp [linesTaken, List.count_append]

omit [DecidableEq ι] in
theorem deliveries_takeLine (log : List (Event ι)) (s : ι) :
    deliveries (log ++ [.takeLine s]) = deliveries log := by
  simp [deliveries]

omit [DecidableEq ι] in
theorem deliveries_sendMsg (log : List (Event ι)) (e : Delivery ι) :
    deliveries (log ++ [.sendMsg e]) = deliveries log ++ [e] := by
  simp [deliveries]

omit [DecidableEq ι] in
theorem channelLog_sendMsg (log : List (Event ι)) (e : Delivery ι) (channel : ChannelRef) :
    channelLog (log ++ [.sendMsg e]) channel = channelLog log channel ++
      if e.channel = some channel then [(e.connection, e.line)] else [] := by
  rw [channelLog, deliveries_sendMsg, List.filter_append, List.map_append, channelLog]
  congr 1
  split <;> simp [*]

/-- Everything a step with a record can do. -/
theorem deliveryStep_cases (h : deliveryStep accounts session r (t, line) = some r') :
    (∀ s, s ≠ t → r'.state.pc s = r.state.pc s) ∧
    (r.state.pc t = .idle ∧ r'.state.pc t = enter line ∧ r'.state.data = r.state.data ∧
        r'.log = r.log ++ [.takeLine t] ∨
      (handle accounts t (session t) r.state.data (r.state.pc t)).Moves r.state.data r'.state.data
          (r'.state.pc t) ∧
        ((∃ channel name, sendsAt accounts (r.state.pc t) = some (channel, name) ∧
            r'.log = r.log ++ [.sendMsg ⟨t, linesTaken r.log t, channel, name⟩]) ∨
          sendsAt accounts (r.state.pc t) = none ∧ r'.log = r.log)) := by
  obtain ⟨hstep, hlog⟩ := logged_cases h
  obtain ⟨hmoves, hother⟩ := step_moves hstep
  refine ⟨hother, ?_⟩
  rw [handlerEvents] at hlog
  cases hp : r.state.pc t with
  | idle =>
    rw [handlers, hp] at hmoves
    rw [if_pos hp] at hlog
    exact .inl ⟨rfl, hmoves.2, hmoves.1, hlog⟩
  | _ =>
    rw [handlers, hp] at hmoves
    rw [if_neg (by simp [hp]), hp] at hlog
    refine .inr ⟨hmoves, ?_⟩
    cases hsend : sendsAt accounts _ with
    | none =>
      rw [hsend] at hlog
      exact .inr ⟨rfl, by simpa using hlog⟩
    | some send =>
      rw [hsend] at hlog
      exact .inl ⟨send.1, send.2, rfl, hlog⟩

structure InOrder (c : HandlerState ι υ) (log : List (Event ι)) : Prop where
  le : ∀ e ∈ deliveries log, e.line ≤ linesTaken log e.connection
  before : ∀ t, BeforeLoop (c.pc t) →
    ∀ e ∈ deliveries log, e.connection = t → e.line ≠ linesTaken log t
  last : ∀ t channel, InLoop channel (c.pc t) →
    (t, linesTaken log t) ∈ channelLog log channel →
      (channelLog log channel).getLast? = some (t, linesTaken log t)
  grouped : ∀ channel, Grouped (channelLog log channel)

omit [DecidableEq ι] in
theorem mem_channelLog {m : ι × ℕ} (h : m ∈ channelLog log channel) :
    ∃ e ∈ deliveries log, (e.connection, e.line) = m := by
  obtain ⟨e, he, rfl⟩ := List.mem_map.mp h
  exact ⟨e, List.mem_of_mem_filter he, rfl⟩

omit [DecidableEq υ] in
theorem inOrder_started : InOrder (started ι υ) [] where
  le e he := by cases he
  before t ht := ht.elim
  last t channel ht := ht.elim
  grouped channel := grouped_nil

omit [DecidableEq υ] in
theorem InOrder.takeLine {c c' : HandlerState ι υ} (h : InOrder c log)
    (hother : ∀ s, s ≠ t → c'.pc s = c.pc s) (ht : c'.pc t = enter line) :
    InOrder c' (log ++ [.takeLine t]) := by
  constructor
  case le =>
    intro e he
    rw [deliveries_takeLine] at he
    rw [linesTaken_takeLine]
    exact Nat.le_add_right_of_le (h.le e he)
  case before =>
    rintro s hs e he rfl
    rw [deliveries_takeLine] at he
    rw [linesTaken_takeLine]
    by_cases hst : e.connection = t
    · have hle := h.le e he
      rw [if_pos hst.symm]
      omega
    · rw [hother _ hst] at hs
      rw [if_neg (Ne.symm hst)]
      exact h.before _ hs e he rfl
  case last =>
    intro s channel hs
    have hst : s ≠ t := by
      rintro rfl
      rw [ht] at hs
      cases line with
      | message msg => cases msg <;> exact hs
      | _ => exact hs
    rw [hother s hst] at hs
    rw [linesTaken_takeLine, if_neg (Ne.symm hst), channelLog, deliveries_takeLine]
    exact h.last s channel hs
  case grouped =>
    intro channel
    rw [channelLog, deliveries_takeLine]
    exact h.grouped channel

theorem InOrder.quiet {c c' : HandlerState ι υ} (h : InOrder c log)
    (hother : ∀ s, s ≠ t → c'.pc s = c.pc s)
    (hmoves : (handle accounts t (session t) c.data (c.pc t)).Moves c.data c'.data (c'.pc t)) :
    InOrder c' log := by
  obtain ⟨hbefore, hloop⟩ := loop_of_moves hmoves
  refine ⟨h.le, fun s hs => ?_, fun s channel hs hmem => ?_, h.grouped⟩
  · by_cases hst : s = t
    · subst hst
      exact h.before s (hbefore hs)
    · rw [hother s hst] at hs
      exact h.before s hs
  · by_cases hst : s = t
    · subst hst
      rcases hloop channel hs with hs | htest
      · exact h.last s channel hs hmem
      · -- the loop begins, and the line has sent nothing yet
        obtain ⟨e, he, heq⟩ := mem_channelLog hmem
        have hline := h.before s (by rw [htest]; trivial) e he (congrArg Prod.fst heq)
        exact absurd (congrArg Prod.snd heq) hline
    · rw [hother s hst] at hs
      exact h.last s channel hs hmem

/-- A call of `send_msg`. Where it belongs to a channel, its thread alone is in a loop over
the subscribers of this channel. -/
theorem InOrder.sendMsg {c c' : HandlerState ι υ} (h : InOrder c log)
    (howned : Owned (fun t => held (session t)) c)
    (hother : ∀ s, s ≠ t → c'.pc s = c.pc s)
    (hmoves : (handle accounts t (session t) c.data (c.pc t)).Moves c.data c'.data (c'.pc t))
    {ch : Option ChannelRef} {name : Bytes} (hsend : sendsAt accounts (c.pc t) = some (ch, name)) :
    InOrder c' (log ++ [.sendMsg ⟨t, linesTaken log t, ch, name⟩]) := by
  obtain ⟨hnew, hloop⟩ := loop_of_sendsAt hsend
  obtain ⟨hbefore, hstays⟩ := loop_of_moves hmoves
  have hcount (s : ι) : linesTaken (log ++ [.sendMsg ⟨t, linesTaken log t, ch, name⟩]) s =
      linesTaken log s := linesTaken_sendMsg ..
  have hlog (channel : ChannelRef) :
      channelLog (log ++ [.sendMsg ⟨t, linesTaken log t, ch, name⟩]) channel =
        channelLog log channel ++ if ch = some channel then [(t, linesTaken log t)] else [] :=
    channelLog_sendMsg ..
  constructor
  case le =>
    intro e he
    rw [deliveries_sendMsg] at he
    rw [hcount]
    rcases List.mem_append.mp he with he | he
    · exact h.le e he
    · obtain rfl := List.mem_singleton.mp he
      exact Nat.le_refl _
  case before =>
    intro s hs e he heq
    have hst : s ≠ t := by
      rintro rfl
      exact hnew (hbefore hs)
    rw [hother s hst] at hs
    rw [deliveries_sendMsg] at he
    rw [hcount]
    rcases List.mem_append.mp he with he | he
    · exact h.before s hs e he heq
    · rw [List.mem_singleton.mp he] at heq
      exact absurd heq.symm hst
  case last =>
    intro s channel hs hmem
    rw [hcount, hlog] at hmem ⊢
    by_cases hch : ch = some channel
    · have ht : InLoop channel (c.pc t) := (hloop channel).mpr hch
      have hst : s = t := by
        by_contra hst
        rw [hother s hst] at hs
        exact hst (howned.unique (held_of_inLoop hs) (held_of_inLoop ht))
      rw [if_pos hch, hst, List.getLast?_concat]
    · rw [if_neg hch, List.append_nil] at hmem ⊢
      have hs' : InLoop channel (c.pc s) := by
        by_cases hst : s = t
        · subst hst
          rcases hstays channel hs with hs | htest
          · exact hs
          · rw [htest] at hsend
            cases hsend
        · rwa [hother s hst] at hs
      exact h.last s channel hs' hmem
  case grouped =>
    intro channel
    rw [hlog]
    by_cases hch : ch = some channel
    · rw [if_pos hch]
      exact (h.grouped channel).append_singleton (h.last t channel ((hloop channel).mpr hch))
    · rw [if_neg hch, List.append_nil]
      exact h.grouped channel

theorem inOrder_of_delivered (h : Delivered accounts session r) : InOrder r.state r.log := by
  apply Reach.invariant_reached (I := fun r => InOrder r.state r.log) _ _ h
  · rintro ⟨c, log⟩ ⟨rfl, rfl⟩
    exact inOrder_started
  · rintro r ⟨t, line⟩ r' hr hI hstep -
    have howned := handlers_owned_of_reach hr.state
    obtain ⟨hother, hcases⟩ := deliveryStep_cases hstep
    rcases hcases with ⟨-, ht, -, hlog⟩ | ⟨hmoves, ⟨ch, name, hsend, hlog⟩ | ⟨-, hlog⟩⟩
    · exact hlog ▸ hI.takeLine hother ht
    · exact hlog ▸ hI.sendMsg howned hother hmoves hsend
    · exact hlog ▸ hI.quiet hother hmoves

theorem deliveries_eq_visits (h : Delivered accounts session r) :
    (deliveries r.log).map (fun e => (e.connection, e.to_)) = r.state.data.visits := by
  apply Reach.invariant (I := fun r : Logged (HandlerState ι υ) (Event ι) =>
    (deliveries r.log).map (fun e => (e.connection, e.to_)) = r.state.data.visits) _ _ h
  · rintro ⟨c, log⟩ ⟨rfl, rfl⟩
    rfl
  · rintro r ⟨t, line⟩ r' hI hstep -
    obtain ⟨-, hcases⟩ := deliveryStep_cases hstep
    rcases hcases with ⟨-, -, hdata, hlog⟩ | ⟨hmoves, ⟨ch, name, hsend, hlog⟩ | ⟨hsend, hlog⟩⟩
    · rw [hlog, hdata, deliveries_takeLine, hI]
    · rw [hlog, visits_of_moves hmoves, hsend, deliveries_sendMsg, List.map_append, hI]
      rfl
    · rw [hlog, visits_of_moves hmoves, hsend, hI]
      exact (List.append_nil _).symm

end Order

def threeUsers : Accounts (Fin 3) where
  name
    | 0 => ascii "alice"
    | 1 => ascii "bob"
    | 2 => ascii "carol"
  name_injective a b := by revert a b; decide

/-- All three subscribe, the first two send a message each, where the second one waits for the
first one's loop over the subscribers, and the first one writes to the third. -/
def crossingMessages {ι : Type*} (x y z : ι) : List (ι × Line) :=
  lineSteps x (.subscribe (ascii "room") (ascii "pw")) 12 ++
    lineSteps y (.subscribe (ascii "room") (ascii "pw")) 9 ++
    lineSteps z (.subscribe (ascii "room") (ascii "pw")) 9 ++
    lineSteps x (.message (.group (ascii "room") (ascii "hi"))) 5 ++
    lineSteps y (.message (.group (ascii "room") (ascii "yo"))) 2 ++
    lineSteps x (.message (.group (ascii "room") (ascii "hi"))) 4 ++
    lineSteps y (.message (.group (ascii "room") (ascii "yo"))) 7 ++
    lineSteps x (.message (.direct (ascii "carol") (ascii "hi"))) 2

section Agreement

variable {ι υ : Type*} [DecidableEq ι] [DecidableEq υ] {accounts : Accounts υ} {session : ι → υ}
  {r : Logged (HandlerState ι υ) (Event ι)}

/-- In every interleaving two messages of a channel reach all its subscribers in the same
order, whoever sends them. -/
theorem channel_order_agrees (h : Delivered accounts session r) :
    (deliveries r.log).map (fun e => (e.connection, e.to_)) = r.state.data.visits ∧
      ∀ (channel : ChannelRef) (name name' : Bytes) (m m' : ι × ℕ), m ≠ m' →
        List.Sublist [m, m'] (throughChannel r.log channel name) →
          ¬ List.Sublist [m', m] (throughChannel r.log channel name') := by
  refine ⟨deliveries_eq_visits h, fun channel name name' m m' hne hm hm' => ?_⟩
  have hsub (name : Bytes) :
      (throughChannel r.log channel name).Sublist (channelLog r.log channel) :=
    (List.monotone_filter_right _ fun e he => by simp_all).map _
  have hgrouped := (inOrder_of_delivered h).grouped channel
  exact hgrouped.not_swapped hne (hm.trans (hsub name)) (hm'.trans (hsub name'))

theorem channel_order_agrees_three : ∃ r, Delivered threeUsers id r ∧
    List.Sublist [(0, 2), (1, 2)] (throughChannel r.log 0 (ascii "carol")) ∧
    ∀ name, ¬ List.Sublist [(1, 2), (0, 2)] (throughChannel r.log 0 name) := by
  have hrun : ∃ r, Delivered threeUsers id r ∧
      decide (List.Sublist [(0, 2), (1, 2)] (throughChannel r.log 0 (ascii "carol"))) = true :=
    exists_reach_of_run (s := ⟨started (Fin 3) (Fin 3), []⟩) ⟨rfl, rfl⟩ (crossingMessages 0 1 2)
      (by decide +kernel)
  obtain ⟨r, hr, hP⟩ := hrun
  have hcarol := of_decide_eq_true hP
  exact ⟨r, hr, hcarol, fun name =>
    (channel_order_agrees hr).2 0 (ascii "carol") name (0, 2) (1, 2) (by decide) hcarol⟩

end Agreement

end Chatd.Protocol
