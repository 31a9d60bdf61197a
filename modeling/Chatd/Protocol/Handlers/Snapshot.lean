import Chatd.Protocol.Handlers.Delivery
import Chatd.Protocol.Handlers.Races
import Chatd.Protocol.Handlers.Sequential

/-! # Group messages go to a snapshot

The handler of a group message keeps `users_m` of the channel from the test whether its user is
subscribed to the end of its loop. Whatever the other handlers do meanwhile, it sends to the
subscribers that the channel had when it took the mutex.
-/
namespace Chatd.Protocol
open Library Net.Server

/-- The channel whose `users_m` the handler of a group message holds. -/
def sectionOf {υ : Type*} : Pc υ → Option ChannelRef
  | .chat (.test channel) | .chat (.groupLoop channel _) | .chat (.groupSend channel _ _) =>
    some channel
  | _ => none

/-- The handler of a group message holds `users_m` of the channel. -/
abbrev AtChannel {υ : Type*} (channel : ChannelRef) (p : Pc υ) : Prop :=
  sectionOf p = some channel

/-- The channels that a handler will list in the pool or send a message to. -/
def refs {υ : Type*} : Pc υ → List ChannelRef
  | .subscribe (.lockPush channel) | .subscribe (.push channel) => [channel]
  | .chat (.found channel) => channel.toList
  | .chat (.test channel) | .chat (.groupLoop channel _) | .chat (.groupSend channel _ _) =>
    [channel]
  | _ => []

section Steps

variable {ι υ : Type*} [DecidableEq υ] {accounts : Accounts υ} {t : ι} {u : υ}
  {d d' : Shared ι υ} {p q : Pc υ} {channel : ChannelRef}

omit [DecidableEq υ] in
theorem AtChannel.cases (h : AtChannel channel p) :
    p = .chat (.test channel) ∨ InLoop channel p := by
  cases p with
  | chat p =>
    cases p with
    | test c => exact .inl (by rw [Option.some.inj h])
    | groupLoop c i => exact .inr (Option.some.inj h)
    | groupSend c i chUser => exact .inr (Option.some.inj h)
    | _ => cases h
  | _ => cases h

omit [DecidableEq υ] in
theorem held_of_atChannel (h : AtChannel channel p) : .usersM channel ∈ held u p := by
  rcases h.cases with rfl | h
  · exact List.mem_singleton_self _
  · exact held_of_inLoop h

omit [DecidableEq υ] in
theorem mem_refs_of_atChannel (h : AtChannel channel p) : channel ∈ refs p := by
  cases p with
  | chat p =>
    cases p with
    | test c => exact List.mem_singleton.mpr (Option.some.inj h).symm
    | groupLoop c i => exact List.mem_singleton.mpr (Option.some.inj h).symm
    | groupSend c i chUser => exact List.mem_singleton.mpr (Option.some.inj h).symm
    | _ => cases h
  | _ => cases h

omit [DecidableEq υ] in
theorem refs_enter (line : Line) : refs (enter line : Pc υ) = [] := by
  cases line with
  | message msg => cases msg <;> rfl
  | _ => rfl

theorem removeFromUser_pool {w w' : World υ} {name : Bytes} {chUser : υ} {n j : ℕ}
    (h : removeFromUser w channel name chUser n j = .ok w') :
    w'.next = w.next ∧ w'.pool = w.pool := by
  induction n generalizing j with
  | zero =>
    cases h
    exact ⟨rfl, rfl⟩
  | succ n ih =>
    rw [removeFromUser] at h
    cases hj : (w.channels chUser)[j]? with
    | none =>
      rw [hj] at h
      cases h
    | some c =>
      rw [hj] at h
      dsimp only at h
      split at h
      · cases h
        exact ⟨rfl, rfl⟩
      · exact ih h

/-- A step refers to channels it has found in the pool or created, and lists no others. -/
theorem refs_of_moves (h : (handle accounts t u d p).Moves d d' q) :
    d.world.next ≤ d'.world.next ∧
      (∀ c ∈ d'.world.pool, c ∈ d.world.pool ∨ c ∈ refs p) ∧
      ∀ c ∈ refs q, c ∈ refs p ∨ c ∈ d.world.pool ∨ c < d'.world.next := by
  cases p with
  | idle => exact h.elim
  | chat p =>
    rw [handle, Act.moves_map] at h
    obtain ⟨r, hm, rfl⟩ := h
    cases p with
    | found c => cases c <;> grind [Chat.next, Act.Moves, refs, place, Shared.reply]
    | get to_ =>
      obtain ⟨rfl, rfl⟩ := hm
      refine ⟨Nat.le_refl _, fun c hc => .inl hc, fun c hc => .inr (.inl ?_)⟩
      exact List.mem_of_find?_eq_some (Option.mem_toList.mp hc)
    | _ => grind [Chat.next, Act.Moves, refs, place, Shared.reply, Shared.sendMsg]
  | subscribe p =>
    rw [handle, Act.moves_map] at h
    obtain ⟨r, hm, rfl⟩ := h
    cases p with
    | found name password c =>
      cases c <;> grind [Subscribe.next, Act.Moves, refs, place, Shared.reply, Shared.setWorld,
        World.newChannel]
    | push newChannel =>
      obtain ⟨rfl, rfl⟩ := hm
      refine ⟨Nat.le_refl _, fun c hc => ?_, fun c hc => absurd hc List.not_mem_nil⟩
      grind [Shared.setWorld, ConnectionPool.push, refs]
    | _ => grind [Subscribe.next, Act.Moves, refs, place, Shared.reply, Shared.setWorld,
        World.setChannels, World.setUsers]
  | unsubscribe p =>
    rw [handle, Act.moves_map] at h
    obtain ⟨r, hm, rfl⟩ := h
    cases p with
    | poolRemove c =>
      obtain ⟨rfl, rfl⟩ := hm
      refine ⟨Nat.le_refl _, fun c hc => .inl ?_, fun c hc => absurd hc List.not_mem_nil⟩
      exact List.eraseP_sublist.subset hc
    | _ => grind [Unsubscribe.next, Act.Moves, refs, place, Shared.reply, Shared.setWorld,
        World.setChannels, World.setUsers]
  | delete p =>
    rw [handle, Act.moves_map] at h
    obtain ⟨r, hm, rfl⟩ := h
    cases p with
    | member name channel i chUser =>
      rw [Delete.next] at hm
      cases hw : removeFromUser d.world channel name chUser (d.world.channels u).length 0 with
      | error fault =>
        rw [hw] at hm
        exact hm.elim
      | ok w =>
        rw [hw] at hm
        obtain ⟨rfl, rfl⟩ := hm
        obtain ⟨hnext, hpool⟩ := removeFromUser_pool hw
        exact ⟨Nat.le_of_eq hnext.symm, fun c hc => .inl (hpool ▸ hc),
          fun c hc => absurd hc List.not_mem_nil⟩
    | poolRemove name channel =>
      obtain ⟨rfl, rfl⟩ := hm
      refine ⟨Nat.le_refl _, fun c hc => .inl ?_, fun c hc => absurd hc List.not_mem_nil⟩
      exact List.eraseP_sublist.subset hc
    | _ => grind [Delete.next, Act.Moves, refs, place, Shared.reply]
  | listUsers p =>
    rw [handle, Act.moves_map] at h
    obtain ⟨r, hm, rfl⟩ := h
    cases p <;> grind [ListUsers.next, Act.Moves, refs, place, Shared.reply]

theorem users_of_moves (h : (handle accounts t u d p).Moves d d' q)
    (hlt : channel < d.world.next) (hfree : .usersM channel ∉ held u p) :
    d'.world.users channel = d.world.users channel := by
  by_contra hne
  exact hfree (guard_of_changes (x := .users channel) hlt ⟨d', q, h, hne⟩)

/-- The names that a group message of a user goes to: those of the other subscribers, if the
user is one. -/
def recipients (accounts : Accounts υ) (w : World υ) (u : υ) (channel : ChannelRef) : List Bytes :=
  if isInChannel accounts w u channel then otherNames accounts w u channel else []

/-- What the handler has sent to by the point it is at, since it took the mutex in `w`. -/
def SentTo (accounts : Accounts υ) (w : World υ) (u : υ) (channel : ChannelRef)
    (sent : List Bytes) : Pc υ → Prop
  | .chat (.test c) => c = channel ∧ sent = []
  | .chat (.groupLoop c i) => c = channel ∧ isInChannel accounts w u channel = true ∧
    sent = otherNamesOf accounts u ((w.users channel).take i)
  | .chat (.groupSend c i chUser) => c = channel ∧ isInChannel accounts w u channel = true ∧
    (w.users channel)[i]? = some chUser ∧ accounts.name u ≠ accounts.name chUser ∧
    sent = otherNamesOf accounts u ((w.users channel).take i)
  | _ => sent = recipients accounts w u channel

omit [DecidableEq υ] in
theorem otherNamesOf_take_succ {users : List υ} {i : ℕ} {chUser : υ}
    (h : users[i]? = some chUser) :
    otherNamesOf accounts u (users.take (i + 1)) = otherNamesOf accounts u (users.take i) ++
      if accounts.name u = accounts.name chUser then [] else [accounts.name chUser] := by
  rw [List.take_add_one, h, Option.toList_some, otherNamesOf, List.map_append, List.filter_append,
    otherNamesOf]
  congr 1
  by_cases hname : accounts.name u = accounts.name chUser <;> simp [hname]

theorem SentTo.moves {w : World υ} {sent : List Bytes} (h : SentTo accounts w u channel sent p)
    (hp : AtChannel channel p) (husers : d.world.users channel = w.users channel)
    (hm : (handle accounts t u d p).Moves d d' q) :
    SentTo accounts w u channel (sent ++ ((sendsAt accounts p).map Prod.snd).toList) q := by
  rcases hp.cases with rfl | hp
  · obtain ⟨-, rfl⟩ := h
    rw [handle, Act.moves_map] at hm
    obtain ⟨r, hm, rfl⟩ := hm
    have hin : isInChannel accounts d.world u channel = isInChannel accounts w u channel := by
      rw [isInChannel, isInChannel, husers]
    rw [Chat.next, hin] at hm
    by_cases hmember : isInChannel accounts w u channel = true
    · rw [if_pos hmember] at hm
      obtain ⟨-, rfl⟩ := hm
      exact ⟨rfl, hmember, rfl⟩
    · rw [if_neg hmember] at hm
      obtain ⟨-, rfl⟩ := hm
      exact (if_neg hmember).symm
  · cases p with
    | chat p =>
      rw [handle, Act.moves_map] at hm
      obtain ⟨r, hm, rfl⟩ := hm
      cases p with
      | groupLoop c i =>
        obtain ⟨rfl, hmember, rfl⟩ := h
        have hnone : sendsAt accounts (.chat (.groupLoop c i)) = none := rfl
        rw [hnone, Option.map_none, Option.toList_none, List.append_nil]
        rw [Chat.next, husers] at hm
        cases hi : (w.users c)[i]? with
        | none =>
          rw [hi] at hm
          obtain ⟨-, rfl⟩ := hm
          have hall : (w.users c).take i = w.users c :=
            List.take_of_length_le (List.getElem?_eq_none_iff.mp hi)
          rw [hall]
          exact (if_pos hmember).symm
        | some chUser =>
          rw [hi] at hm
          dsimp only at hm
          by_cases hname : accounts.name u = accounts.name chUser
          · rw [if_pos hname] at hm
            obtain ⟨-, rfl⟩ := hm
            refine ⟨rfl, hmember, ?_⟩
            rw [otherNamesOf_take_succ hi, if_pos hname, List.append_nil]
          · rw [if_neg hname] at hm
            obtain ⟨-, rfl⟩ := hm
            exact ⟨rfl, hmember, hi, hname, rfl⟩
      | groupSend c i chUser =>
        obtain ⟨rfl, hmember, hi, hname, rfl⟩ := h
        obtain ⟨-, rfl⟩ := hm
        refine ⟨rfl, hmember, ?_⟩
        rw [otherNamesOf_take_succ hi, if_neg hname]
        rfl
      | _ => exact hp.elim
    | _ => exact hp.elim

omit [DecidableEq υ] in
theorem SentTo.prefix_recipients {w : World υ} {sent : List Bytes}
    (h : SentTo accounts w u channel sent p) : sent <+: recipients accounts w u channel := by
  have hpart (i : ℕ) (hmember : isInChannel accounts w u channel = true) :
      otherNamesOf accounts u ((w.users channel).take i) <+:
        recipients accounts w u channel := by
    rw [recipients, if_pos hmember]
    exact ((List.take_prefix i _).map _).filter _
  have hall (h : sent = recipients accounts w u channel) :
      sent <+: recipients accounts w u channel := h ▸ List.prefix_refl _
  cases p with
  | chat p =>
    cases p with
    | test c => exact h.2 ▸ List.nil_prefix
    | groupLoop c i => exact h.2.2 ▸ hpart i h.2.1
    | groupSend c i chUser => exact h.2.2.2.2 ▸ hpart i h.2.1
    | _ => exact hall h
  | _ => exact hall h

omit [DecidableEq υ] in
theorem SentTo.eq_recipients {w : World υ} {sent : List Bytes}
    (h : SentTo accounts w u channel sent p) (hp : ¬ AtChannel channel p) :
    sent = recipients accounts w u channel := by
  cases p with
  | chat p =>
    cases p with
    | test c => exact absurd (congrArg some h.1) hp
    | groupLoop c i => exact absurd (congrArg some h.1) hp
    | groupSend c i chUser => exact absurd (congrArg some h.1) hp
    | _ => exact h
  | _ => exact h

theorem world_of_atChannel (hp : AtChannel channel p)
    (hm : (handle accounts t u d p).Moves d d' q) : d'.world = d.world := by
  rcases hp.cases with rfl | hp
  · rw [handle, Act.moves_map] at hm
    obtain ⟨r, hm, rfl⟩ := hm
    grind [Chat.next, Act.Moves, Shared.reply]
  · cases p with
    | chat p =>
      rw [handle, Act.moves_map] at hm
      obtain ⟨r, hm, rfl⟩ := hm
      cases p with
      | groupLoop c i => grind [Chat.next, Act.Moves]
      | groupSend c i chUser => grind [Chat.next, Act.Moves, Shared.sendMsg]
      | _ => exact hp.elim
    | _ => exact hp.elim

end Steps

section Runs

variable {ι υ : Type*} [DecidableEq ι] [DecidableEq υ] {accounts : Accounts υ} {session : ι → υ}
  {r r' : Logged (HandlerState ι υ) (Event ι)} {t : ι} {channel : ChannelRef}

structure Created (c : HandlerState ι υ) : Prop where
  pool : ∀ channel ∈ c.data.world.pool, channel < c.data.world.next
  refs : ∀ t, ∀ channel ∈ refs (c.pc t), channel < c.data.world.next

theorem created_of_delivered (h : Delivered accounts session r) : Created r.state := by
  apply h.invariant (I := fun r => Created r.state)
  · rintro r ⟨hstart, -⟩
    rw [hstart]
    exact ⟨fun _ hc => absurd hc List.not_mem_nil, fun _ _ hc => absurd hc List.not_mem_nil⟩
  · rintro r ⟨t, line⟩ r' hI hs -
    obtain ⟨hother, ⟨-, hpc, hdata, -⟩ | ⟨hmoves, -⟩⟩ := deliveryStep_cases hs
    · refine ⟨hdata ▸ hI.pool, fun s channel hc => ?_⟩
      rw [hdata]
      by_cases hst : s = t
      · rw [hst, hpc, refs_enter] at hc
        exact absurd hc List.not_mem_nil
      · rw [hother s hst] at hc
        exact hI.refs s channel hc
    · obtain ⟨hnext, hpool, hrefs⟩ := refs_of_moves hmoves
      refine ⟨fun channel hc => ?_, fun s channel hc => ?_⟩
      · exact Nat.lt_of_lt_of_le ((hpool channel hc).elim (hI.pool channel) (hI.refs t channel))
          hnext
      · by_cases hst : s = t
        · rw [hst] at hc
          rcases hrefs channel hc with hc | hc | hlt
          · exact Nat.lt_of_lt_of_le (hI.refs t channel hc) hnext
          · exact Nat.lt_of_lt_of_le (hI.pool channel hc) hnext
          · exact hlt
        · rw [hother s hst] at hc
          exact Nat.lt_of_lt_of_le (hI.refs s channel hc) hnext

/-- The names that the line which a connection is handling was sent to. -/
def sentByLine (log : List (Event ι)) (t : ι) : List Bytes :=
  ((deliveries log).filter fun e => e.connection = t ∧ e.line = linesTaken log t).map Delivery.to_

theorem sentByLine_takeLine {log : List (Event ι)} {s : ι} (hst : s ≠ t) :
    sentByLine (log ++ [.takeLine s]) t = sentByLine log t := by
  rw [sentByLine, deliveries_takeLine, linesTaken_takeLine, if_neg hst, Nat.add_zero, sentByLine]

theorem sentByLine_sendMsg {log : List (Event ι)} {s : ι} {ch : Option ChannelRef}
    {name : Bytes} :
    sentByLine (log ++ [.sendMsg ⟨s, linesTaken log s, ch, name⟩]) t =
      sentByLine log t ++ if s = t then [name] else [] := by
  rw [sentByLine, deliveries_sendMsg, linesTaken_sendMsg, List.filter_append, List.map_append,
    sentByLine]
  congr 1
  by_cases hst : s = t
  · subst hst
    simp
  · simp [hst]

def inSection (channel : ChannelRef) (t : ι) (r : Logged (HandlerState ι υ) (Event ι))
    (_ : ι × Line) (_ : Logged (HandlerState ι υ) (Event ι)) : Prop :=
  AtChannel channel (r.state.pc t)

/-- A step of anybody while the handler holds the mutex. -/
theorem section_step {w : World υ} (h : Delivered accounts session r)
    (hp : AtChannel channel (r.state.pc t))
    (husers : r.state.data.world.users channel = w.users channel)
    (hsent : SentTo accounts w (session t) channel (sentByLine r.log t) (r.state.pc t))
    {l : ι × Line} (hs : deliveryStep accounts session r l = some r') :
    r'.state.data.world.users channel = w.users channel ∧
      SentTo accounts w (session t) channel (sentByLine r'.log t) (r'.state.pc t) := by
  have hlt := (created_of_delivered h).refs t channel (mem_refs_of_atChannel hp)
  obtain ⟨s, line⟩ := l
  obtain ⟨hother, ⟨hidle, hpc, hdata, hlog⟩ | ⟨hmoves, hlog⟩⟩ := deliveryStep_cases hs
  · have hst : s ≠ t := by
      rintro rfl
      rw [hidle] at hp
      cases hp
    rw [hdata, hlog, sentByLine_takeLine hst, hother t (Ne.symm hst)]
    exact ⟨husers, hsent⟩
  · have hsend : sentByLine r'.log t = sentByLine r.log t ++
        if s = t then ((sendsAt accounts (r.state.pc s)).map Prod.snd).toList else [] := by
      rcases hlog with ⟨ch, name, hsend, hlog⟩ | ⟨hnone, hlog⟩
      · rw [hlog, sentByLine_sendMsg, hsend]
        rfl
      · rw [hlog, hnone]
        split <;> exact (List.append_nil _).symm
    by_cases hst : s = t
    · subst hst
      rw [hsend, if_pos rfl]
      exact ⟨by rw [world_of_atChannel hp hmoves, husers], hsent.moves hp husers hmoves⟩
    · rw [hsend, if_neg hst, List.append_nil, hother t (Ne.symm hst),
        users_of_moves hmoves hlt fun hheld => hst ?_]
      · exact ⟨husers, hsent⟩
      · exact (handlers_owned_of_reach h.state).unique hheld (held_of_atChannel hp)

/-- Once the handler of a group message has taken `users_m` of the channel, nobody changes the
subscribers until it is through, and it sends to these and to nobody else, once for each entry
and in their order, if its own user is one of them. -/
theorem group_message_to_snapshot (h : Delivered accounts session r)
    (ht : r.state.pc t = .chat (.test channel))
    (hrun : Reach (deliveryStep accounts session) (inSection channel t) (· = r) r') :
    (deliveries r'.log).map (fun e => (e.connection, e.to_)) = r'.state.data.visits ∧
      r'.state.data.world.users channel = r.state.data.world.users channel ∧
      sentByLine r'.log t <+: recipients accounts r.state.data.world (session t) channel ∧
      (¬ AtChannel channel (r'.state.pc t) →
        sentByLine r'.log t = recipients accounts r.state.data.world (session t) channel) := by
  have hempty : sentByLine r.log t = [] := by
    rw [sentByLine, List.filter_eq_nil_iff.mpr, List.map_nil]
    intro e he heq
    obtain ⟨hconn, hline⟩ := of_decide_eq_true heq
    exact (inOrder_of_delivered h).before t (by rw [ht]; trivial) e he hconn hline
  obtain ⟨hr', husers, hsent⟩ := hrun.invariant (I := fun r' =>
    Delivered accounts session r' ∧
      r'.state.data.world.users channel = r.state.data.world.users channel ∧
      SentTo accounts r.state.data.world (session t) channel (sentByLine r'.log t)
        (r'.state.pc t)) (by
    rintro _ rfl
    refine ⟨h, rfl, ?_⟩
    rw [ht, hempty]
    exact ⟨rfl, rfl⟩) (by
    rintro r₁ l r₂ ⟨hr₁, husers, hsent⟩ hs hp
    exact ⟨hr₁.next hs trivial, section_step hr₁ hp husers hsent hs⟩)
  exact ⟨deliveries_eq_visits hr', husers, hsent.prefix_recipients, hsent.eq_recipients⟩

end Runs

/-- The first user sends to the channel while the second one is about to leave it. -/
theorem group_message_to_snapshot_leaving :
    ∃ r r' : Logged (HandlerState (Fin 3) (Fin 3)) (Event (Fin 3)),
      r.state.pc 0 = .chat (.test 0) ∧ r'.state.pc 0 = .idle ∧
      r'.state.pc 1 = .unsubscribe (.scan (ascii "room") 0) ∧
      sentByLine r'.log 0 = recipients threeUsers r.state.data.world 0 0 ∧
      recipients threeUsers r.state.data.world 0 0 = [ascii "bob", ascii "carol"] := by
  have hrun : ∃ r, Delivered threeUsers id r ∧ decide (r.state.pc 0 = .chat (.test 0) ∧
      recipients threeUsers r.state.data.world 0 0 = [ascii "bob", ascii "carol"] ∧
      (checkedRun (deliveryStep threeUsers id) (fun r _ => decide (AtChannel 0 (r.state.pc 0))) r
        (lineSteps 1 (.unsubscribe (ascii "room")) 1 ++
          lineSteps 0 (.message (.group (ascii "room") (ascii "hi"))) 6)).any
        (fun r' => decide (r'.state.pc 0 = .idle ∧
          r'.state.pc 1 = .unsubscribe (.scan (ascii "room") 0))) = true) = true :=
    exists_reach_of_run (s := ⟨started (Fin 3) (Fin 3), []⟩) ⟨rfl, rfl⟩
      (lineSteps 0 (.subscribe (ascii "room") (ascii "pw")) 12 ++
        lineSteps 1 (.subscribe (ascii "room") (ascii "pw")) 9 ++
        lineSteps 2 (.subscribe (ascii "room") (ascii "pw")) 9 ++
        lineSteps 0 (.message (.group (ascii "room") (ascii "hi"))) 3)
      (by decide +kernel)
  obtain ⟨r, hr, hP⟩ := hrun
  obtain ⟨htest, hnames, hrest⟩ := of_decide_eq_true hP
  have hsection : ∃ r', Reach (deliveryStep threeUsers id) (inSection 0 0) (· = r) r' ∧
      decide (r'.state.pc 0 = .idle ∧
        r'.state.pc 1 = .unsubscribe (.scan (ascii "room") 0)) = true :=
    exists_reach_of_checkedRun (fun _ _ _ hc _ => by rw [inSection]; exact of_decide_eq_true hc)
      rfl _ hrest
  obtain ⟨r', hr', hP'⟩ := hsection
  obtain ⟨hidle, hscan⟩ := of_decide_eq_true hP'
  refine ⟨r, r', htest, hidle, hscan, ?_, hnames⟩
  exact (group_message_to_snapshot hr htest hr').2.2.2 (by rw [hidle]; nofun)

end Chatd.Protocol
