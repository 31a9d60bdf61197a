import Chatd.Protocol.Handlers

/-! # The lock order of the handlers

Every handler takes the mutex of its user before that of a channel, and a mutex of the
pool last, except for the member loop of `/delete`, which takes the mutexes of the
users while it holds that of the channel. A circular wait therefore runs through such
a loop and through a command that the loop and the channel's mutex close in.
-/
namespace Chatd.Protocol
open Library Net.Server

variable {ι υ : Type*}

def isPool : Mutex υ → Bool
  | .mChannelsM | .mUsersM | .mConnsM => true
  | _ => false

/-- A handler of `u` that holds `h` may wait for the mutex. -/
def Ordered (u : υ) (h : List (Mutex υ)) : Mutex υ → Prop
  | .channelsM _ => h = []
  | .usersM _ => h = [] ∨ h = [.channelsM u]
  | _ => ∀ m ∈ h, isPool m = false

/-- The `/delete` is in its member loop over the channel. -/
def inMemberLoop (channel : ChannelRef) : Pc υ → Prop
  | .delete (.members _ ch _) | .delete (.member _ ch _ _) => ch = channel
  | _ => False

/-- The `/delete` is in its member loop and still has to lock the user's channels. -/
def ahead (w : World υ) (u : υ) : Pc υ → Prop
  | .delete (.members _ ch i) => u ∈ (w.users ch).drop i
  | .delete (.member _ ch i _) => u ∈ (w.users ch).drop (i + 1)
  | _ => False

theorem Ordered.held_cases {u : υ} {h : List (Mutex υ)} {m n : Mutex υ} (ho : Ordered u h m)
    (hn : n ∈ h) :
    isPool m = true ∧ isPool n = false ∨ (∃ channel, m = .usersM channel) ∧ n = .channelsM u := by
  cases m with
  | channelsM v =>
    rw [Ordered] at ho
    rw [ho] at hn
    cases hn
  | usersM channel =>
    rcases ho with ho | ho <;> rw [ho] at hn
    · cases hn
    · exact .inr ⟨⟨channel, rfl⟩, List.mem_singleton.mp hn⟩
  | _ => exact .inl ⟨rfl, ho n hn⟩

section Points

variable [DecidableEq υ] {accounts : Accounts υ} {t : ι} {u : υ} {d : Shared ι υ} {m : Mutex υ}

theorem Subscribe.next_ordered {p : Subscribe.Pc} (h : (Subscribe.next t u d p).Locks m) :
    Ordered u (Subscribe.held u p) m := by
  cases p with
  | found name password channel => cases channel <;> grind [Subscribe.next, Act.Locks]
  | _ => grind [Subscribe.next, Subscribe.held, Act.Locks, Ordered, isPool]

theorem Unsubscribe.next_ordered {p : Unsubscribe.Pc}
    (h : (Unsubscribe.next accounts t u d p).Locks m) : Ordered u (Unsubscribe.held u p) m := by
  cases p <;> grind [Unsubscribe.next, Unsubscribe.held, Act.Locks, Ordered, isPool]

omit [DecidableEq υ] in
theorem ListUsers.next_ordered {p : ListUsers.Pc} (h : (ListUsers.next accounts t u d p).Locks m) :
    Ordered u (ListUsers.held u p) m := by
  cases p <;> grind [ListUsers.next, ListUsers.held, Act.Locks, Ordered, isPool]

omit [DecidableEq υ] in
theorem Chat.next_ordered {p : Chat.Pc υ} (h : (Chat.next accounts t u d p).Locks m) :
    Ordered u (Chat.held u p) m := by
  cases p with
  | found channel =>
    cases channel <;> grind [Chat.next, Chat.held, Act.Locks, Ordered, isPool]
  | _ => grind [Chat.next, Chat.held, Act.Locks, Ordered, isPool]

/-- Only the member loop takes a user's mutex out of order. -/
theorem Delete.next_ordered {p : Delete.Pc υ} (h : (Delete.next t u d p).Locks m) :
    Ordered u (Delete.held u p) m ∨ ∃ name channel i v, p = .members name channel i ∧
      (d.world.users channel)[i]? = some v ∧ m = .channelsM v := by
  cases p <;> grind [Delete.next, Delete.held, Act.Locks, Ordered, isPool]

theorem locks_cases {p : Pc υ} (h : (handle accounts t u d p).Locks m) :
    Ordered u (held u p) m ∨ ∃ name channel i v, p = .delete (.members name channel i) ∧
      (d.world.users channel)[i]? = some v ∧ m = .channelsM v := by
  cases p with
  | idle => exact h.elim
  | subscribe p => exact .inl (Subscribe.next_ordered (Act.locks_map.mp h))
  | unsubscribe p => exact .inl (Unsubscribe.next_ordered (Act.locks_map.mp h))
  | listUsers p => exact .inl (ListUsers.next_ordered (Act.locks_map.mp h))
  | chat p => exact .inl (Chat.next_ordered (Act.locks_map.mp h))
  | delete p =>
    rcases Delete.next_ordered (Act.locks_map.mp h) with h | ⟨name, channel, i, v, rfl, hv, hm⟩
    · exact .inl h
    · exact .inr ⟨name, channel, i, v, rfl, hv, hm⟩

theorem not_isPool_of_locks {p : Pc υ} {n : Mutex υ} (h : (handle accounts t u d p).Locks m)
    (hn : n ∈ held u p) : isPool n = false := by
  rcases locks_cases h with h | ⟨name, channel, i, v, rfl, -, -⟩
  · rcases h.held_cases hn with ⟨-, hpool⟩ | ⟨-, rfl⟩
    · exact hpool
    · rfl
  · obtain rfl := List.mem_singleton.mp hn
    rfl

end Points

section Waits

variable [DecidableEq υ] {accounts : Accounts υ} {session : ι → υ} {c : HandlerState ι υ} {s t : ι}
  {m n : Mutex υ}

theorem locks_of_wants (h : Wants (handlers accounts session) c t m) :
    (handle accounts t (session t) c.data (c.pc t)).Locks m := by
  obtain ⟨line, h⟩ := h
  rw [handlers] at h
  cases hp : c.pc t with
  | idle => rw [hp] at h; exact h.elim
  | _ => rw [hp] at h; exact h

/-- A connection that holds a channel's mutex and waits for one outside the pool is in
the member loop of `/delete` over that channel. -/
theorem members_of_wants (h : Wants (handlers accounts session) c t m) (hm : isPool m = false)
    {channel : ChannelRef} (hn : .usersM channel ∈ held (session t) (c.pc t)) :
    ∃ name i v, c.pc t = .delete (.members name channel i) ∧
      (c.data.world.users channel)[i]? = some v ∧ m = .channelsM v := by
  rcases locks_cases (locks_of_wants h) with h | ⟨name, channel', i, v, hp, hv, hm⟩
  · rcases h.held_cases hn with ⟨hpool, -⟩ | ⟨-, hown⟩
    · exact absurd (hm.symm.trans hpool) Bool.false_ne_true
    · cases hown
  · rw [hp] at hn
    obtain rfl : channel = channel' := by simpa [held, Delete.held] using hn
    exact ⟨name, i, v, hp, hv, hm⟩

/-- A connection that holds a user's mutex and waits for one outside the pool is a
command of that user and waits for a channel's mutex. -/
theorem usersM_of_wants (h : Wants (handlers accounts session) c t m) (hm : isPool m = false)
    {v : υ} (hn : .channelsM v ∈ held (session t) (c.pc t)) :
    v = session t ∧ ∃ channel, m = .usersM channel := by
  rcases locks_cases (locks_of_wants h) with h | ⟨name, channel, i, v', hp, -, -⟩
  · rcases h.held_cases hn with ⟨hpool, -⟩ | ⟨hchannel, hown⟩
    · exact absurd (hm.symm.trans hpool) Bool.false_ne_true
    · exact ⟨Mutex.channelsM.inj hown, hchannel⟩
  · rw [hp] at hn
    simp [held, Delete.held] at hn

theorem not_inMemberLoop_of_wants {channel : ChannelRef}
    (h : Wants (handlers accounts session) c t (.usersM channel)) (ch : ChannelRef) :
    ¬ inMemberLoop ch (c.pc t) := by
  intro hloop
  rcases locks_cases (locks_of_wants h) with hordered | ⟨name, channel', i, v, -, -, hm⟩
  · cases hp : c.pc t with
    | delete p =>
      rw [hp] at hloop hordered
      cases p with
      | members name ch' i => simp [Ordered, held, Delete.held] at hordered
      | member name ch' i v => simp [Ordered, held, Delete.held] at hordered
      | _ => exact hloop
    | _ => rw [hp] at hloop; exact hloop
  · cases hm

end Waits

/-- A command owns the mutex of its user and waits for that of a channel which a
member loop owns, while some member loop still has to lock that user. -/
def Trapped [DecidableEq υ] (accounts : Accounts υ) (session : ι → υ) (c : HandlerState ι υ) :
    Prop :=
  ∃ t channel e f, Wants (handlers accounts session) c t (.usersM channel) ∧
    c.owner (.usersM channel) = some e ∧ inMemberLoop channel (c.pc e) ∧
    c.owner (.channelsM (session t)) = some t ∧ ahead c.data.world (session t) (c.pc f)

section Cycles

variable [DecidableEq υ] {accounts : Accounts υ} {session : ι → υ} {c : HandlerState ι υ}

/-- In a circular wait every connection waits for a mutex outside the pool whose
owner is in the circle too. -/
theorem exists_waits_of_cycle (hown : Owned (fun t => held (session t)) c) {s : ι}
    (h : Relation.TransGen (WaitsFor (handlers accounts session) c) s s) :
    ∃ m t, Wants (handlers accounts session) c s m ∧ isPool m = false ∧ c.owner m = some t ∧
      Relation.TransGen (WaitsFor (handlers accounts session) c) t t := by
  obtain ⟨t, ⟨m, hm, ht⟩, hcycle⟩ := exists_next_of_cycle h
  obtain ⟨t', ⟨m', hm', -⟩, -⟩ := exists_next_of_cycle hcycle
  have hpool := not_isPool_of_locks (locks_of_wants hm') ((hown.owner_iff m t).mp ht)
  exact ⟨m, t, hm, hpool, ht, hcycle⟩

/-- A circular wait traps a command. -/
theorem trapped_of_circularWait (hown : Owned (fun t => held (session t)) c)
    (h : CircularWait (handlers accounts session) c) : Trapped accounts session c := by
  -- Somebody in the circle waits for the mutex of a channel.
  have husers : ∃ s channel t, Wants (handlers accounts session) c s (.usersM channel) ∧
      c.owner (.usersM channel) = some t ∧
      Relation.TransGen (WaitsFor (handlers accounts session) c) t t := by
    obtain ⟨s, hcycle⟩ := h
    obtain ⟨m, t, hm, hpool, ht, hcycle⟩ := exists_waits_of_cycle hown hcycle
    cases m with
    | usersM channel => exact ⟨s, channel, t, hm, ht, hcycle⟩
    | channelsM v =>
      obtain ⟨m', t', hm', hpool', ht', hcycle'⟩ := exists_waits_of_cycle hown hcycle
      obtain ⟨-, channel, rfl⟩ :=
        usersM_of_wants hm' hpool' ((hown.owner_iff _ _).mp ht)
      exact ⟨t, channel, t', hm', ht', hcycle'⟩
    | _ => cases hpool
  -- Its owner is in a member loop and waits for a user, whose owner waits for another channel.
  obtain ⟨s, ch, f, hs, hf, hcycle⟩ := husers
  obtain ⟨m, t, hm, hpool, ht, hcycle⟩ := exists_waits_of_cycle hown hcycle
  obtain ⟨name, i, v, hpf, hv, rfl⟩ := members_of_wants hm hpool ((hown.owner_iff _ _).mp hf)
  obtain ⟨m', e, hm', hpool', he, hcycle⟩ := exists_waits_of_cycle hown hcycle
  obtain ⟨rfl, channel, rfl⟩ := usersM_of_wants hm' hpool' ((hown.owner_iff _ _).mp ht)
  obtain ⟨m'', e', hm'', hpool'', -, -⟩ := exists_waits_of_cycle hown hcycle
  obtain ⟨name', j, v', hpe, -, -⟩ := members_of_wants hm'' hpool'' ((hown.owner_iff _ _).mp he)
  refine ⟨t, channel, e, f, hm', he, ?_, ht, ?_⟩
  · rw [hpe]
    rfl
  · rw [hpf]
    exact List.mem_of_getElem? (i := 0) (by simpa using hv)

variable [DecidableEq ι]

/-- If no step traps a command, no reachable state has a circular wait. -/
theorem not_circularWait_of_reach
    (h : Reach (step (handlers accounts session)) (fun _ _ c' => ¬ Trapped accounts session c')
      (· = started ι υ) c) : ¬ CircularWait (handlers accounts session) c := by
  have hown : Owned (fun t => held (session t)) c := handlers_owned_of_reach h
  intro hcycle
  have htrapped := trapped_of_circularWait hown hcycle
  cases h with
  | start h =>
    obtain ⟨t, channel, e, -, -, he, -⟩ := htrapped
    rw [h] at he
    cases he
  | next _ _ hok => exact hok htrapped

end Cycles

theorem not_trapped_of_idle {c : HandlerState Bool Bool} {s : Bool} (h : c.pc s = .idle) :
    ¬ Trapped pair id c := by
  rintro ⟨t, channel, e, -, ht, -, he, -⟩
  have hts : t ≠ s := by
    rintro rfl
    obtain ⟨line, ht⟩ := ht
    rw [handlers, h] at ht
    exact ht
  have hes : e ≠ s := by
    rintro rfl
    rw [h] at he
    exact he
  have hte : t = e := (Bool.eq_not.mpr hts).trans (Bool.eq_not.mpr hes).symm
  exact not_inMemberLoop_of_wants ht channel (hte ▸ he)

/-- A `/delete` in its member loop, with the other connection idle. -/
theorem not_circularWait_delete :
    ∃ c : HandlerState Bool Bool, c.owner (.usersM 0) = some true ∧
      ¬ CircularWait (handlers pair id) c := by
  have hok (c : HandlerState Bool Bool) (l : Bool × Line) (c' : HandlerState Bool Bool)
      (hc : ((step (handlers pair id) c l).any fun c' =>
        c'.pc true == .idle || c'.pc false == .idle) = true)
      (hs : step (handlers pair id) c l = some c') : ¬ Trapped pair id c' := by
    rw [hs, Option.any_some, Bool.or_eq_true, beq_iff_eq, beq_iff_eq] at hc
    rcases hc with hidle | hidle <;> exact not_trapped_of_idle hidle
  have hrun : ∃ c : HandlerState Bool Bool,
      Reach (step (handlers pair id)) (fun _ _ c' => ¬ Trapped pair id c')
        (· = started Bool Bool) c ∧ (c.owner (.usersM 0) == some true) = true :=
    exists_reach_of_checkedRun hok rfl
      (bothSubscribed ++ lineSteps true (.delete (ascii "room")) 6) (by decide)
  obtain ⟨c, hr, hc⟩ := hrun
  exact ⟨c, by simpa using hc, not_circularWait_of_reach hr⟩

/-- A `/list_users` waits for the channel of a `/delete` that has come to its user. -/
theorem circularWait_delete_listUsers :
    ¬ ∀ c : HandlerState Bool Bool,
      Reach (step (handlers pair id)) anyStep (· = started Bool Bool) c →
        ¬ CircularWait (handlers pair id) c := by
  intro h
  have hrun : ∃ c : HandlerState Bool Bool,
      Reach (step (handlers pair id)) anyStep (· = started Bool Bool) c ∧
        (c.waitsFor (handlers pair id) true (.delete []) false &&
          c.waitsFor (handlers pair id) false (.delete []) true) = true :=
    exists_reach_of_run rfl
      (bothSubscribed ++ lineSteps true (.delete (ascii "room")) 4 ++
        lineSteps false (.listUsers (ascii "room")) 1 ++
        List.replicate 3 (true, .delete (ascii "room")))
      (by decide)
  obtain ⟨c, hr, hc⟩ := hrun
  rw [Bool.and_eq_true] at hc
  exact h c hr ⟨true, .tail (.single (.of_waitsFor hc.1)) (.of_waitsFor hc.2)⟩

end Chatd.Protocol
