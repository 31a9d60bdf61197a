import Chatd.Protocol.Handlers

/-! # Points of subscriptions and their effects

What holds of the lists at each point of `/subscribe` and `/unsubscribe`, what a step
does to the lists, and why it leaves alone what holds at the points of the other
connections: they hold other mutexes.
-/
namespace Chatd.Protocol
open Library Net.Server

variable {ι υ : Type*}

/-- The command has found or created the channel and is going to join it. -/
def joining (w : World υ) (channel : ChannelRef) : Pc υ → Prop
  | .subscribe (.found _ password ch) =>
    ch = some channel ∧ password = (w.channel channel).password
  | .subscribe (.pushed ch ok) => ch = channel ∧ ok = true
  | .subscribe (.join ch) | .subscribe (.lockUsers ch) | .subscribe (.addUser ch) => ch = channel
  | _ => False

/-- The channel is listed by the user and the user is about to be listed by the channel. -/
def listsFirst (channel : ChannelRef) : Pc υ → Prop
  | .subscribe (.lockUsers ch) | .subscribe (.addUser ch) => ch = channel
  | _ => False

def Absent (w : World υ) (u : υ) (name : Bytes) : Prop :=
  ∀ channel ∈ w.channels u, w.name channel ≠ name

/-- What holds of the lists at each point of a `/subscribe` of `u`. -/
def Subscribe.At (w : World υ) (u : υ) : Subscribe.Pc → Prop
  | .lockUser _ _ | .scan _ _ | .unlockUser => True
  | .lockGet name _ | .get name _ => Absent w u name
  | .found name password ch => Absent w u name ∧ ∀ channel, ch = some channel →
    w.name channel = name ∧ channel < w.next ∧
      (password = (w.channel channel).password → channel ∈ w.pool)
  | .lockPush channel | .push channel => Absent w u (w.name channel) ∧ channel < w.next
  | .pushed channel ok =>
    Absent w u (w.name channel) ∧ channel < w.next ∧ (ok = true → channel ∈ w.pool)
  | .join channel => Absent w u (w.name channel) ∧ channel ∈ w.pool
  | .lockUsers channel | .addUser channel => channel ∈ w.channels u

/-- What holds of the lists at each point of an `/unsubscribe` of `u`. -/
def Unsubscribe.At (w : World υ) (u : υ) : Unsubscribe.Pc → Prop
  | .lockUser _ | .scan _ _ | .unlockUsers _ | .unlockUser => True
  | .test _ i channel => (w.channels u)[i]? = some channel
  | .eraseUser channel => channel ∈ w.pool ∧ channel ∉ w.channels u
  | .testEmpty channel => channel ∈ w.pool
  | .poolRemove channel => channel ∈ w.pool ∧ w.users channel = []

def At (w : World υ) (u : υ) : Pc υ → Prop
  | .idle => True
  | .subscribe p => Subscribe.At w u p
  | .unsubscribe p => Unsubscribe.At w u p
  | _ => False

/-- What the lists satisfy whatever the connections are doing. -/
structure Sound (w : World υ) : Prop where
  names_nodup : (w.pool.map w.name).Nodup
  lt_next : ∀ channel ∈ w.pool, channel < w.next
  mem_pool : ∀ u, ∀ channel ∈ w.channels u, channel ∈ w.pool
  channels_nodup : ∀ u, (w.channels u).Nodup

/-- What a step of a connection of `u` from `p` to `q` does to the lists. -/
structure Guarantee (u : υ) (p q : Pc υ) (w w' : World υ) : Prop where
  sound : Sound w'
  at_target : At w' u q
  channels : ∀ v, .channelsM v ∉ held u p → w'.channels v = w.channels v
  users : ∀ channel < w.next, .usersM channel ∉ held u p → w'.users channel = w.users channel
  name : ∀ channel < w.next, w'.name channel = w.name channel
  password : ∀ channel < w.next, (w'.channel channel).password = (w.channel channel).password
  next : w.next ≤ w'.next
  pool : ∀ channel ∈ w.pool, channel ∉ w'.pool → p = .unsubscribe (.poolRemove channel)
  added : ∀ v, ∀ channel ∈ w'.channels v, channel ∈ w.channels v ∨ v = u ∧ listsFirst channel q
  kept : ∀ v, ∀ channel ∈ w'.channels v, v ∈ w.users channel → v ∈ w'.users channel
  lists : ∀ channel, listsFirst channel p → listsFirst channel q ∨ u ∈ w'.users channel

section Steps

variable {w w' : World υ} {u v : υ} {p q : Pc υ}

theorem Guarantee.refl (hw : Sound w) (hq : At w u q)
    (hl : ∀ channel, listsFirst channel p → listsFirst channel q) : Guarantee u p q w w where
  sound := hw
  at_target := hq
  channels _ _ := rfl
  users _ _ _ := rfl
  name _ _ := rfl
  password _ _ := rfl
  next := Nat.le_refl _
  pool _ h h' := absurd h h'
  added _ _ h := .inl h
  kept _ _ _ h := h
  lists channel h := .inl (hl channel h)

theorem Sound.newChannel (hw : Sound w) (name password : Bytes) :
    Sound (w.newChannel name password) where
  names_nodup := by
    have hmap : w.pool.map (w.newChannel name password).name = w.pool.map w.name :=
      List.map_congr_left fun ch h => w.newChannel_name_of_lt name password (hw.lt_next ch h)
    exact hmap ▸ hw.names_nodup
  lt_next ch h := Nat.lt_succ_of_lt (hw.lt_next ch h)
  mem_pool := hw.mem_pool
  channels_nodup := hw.channels_nodup

theorem Sound.setUsers (hw : Sound w) (channel : ChannelRef) (us : List υ) :
    Sound (w.setUsers channel us) where
  names_nodup := by simpa using hw.names_nodup
  lt_next := hw.lt_next
  mem_pool := hw.mem_pool
  channels_nodup := hw.channels_nodup

theorem Sound.setPool (hw : Sound w) {pool : List ChannelRef} (hnodup : (pool.map w.name).Nodup)
    (hlt : ∀ ch ∈ pool, ch < w.next) (hpool : ∀ v, ∀ ch ∈ w.channels v, ch ∈ pool) :
    Sound { w with pool := pool } where
  names_nodup := hnodup
  lt_next := hlt
  mem_pool := hpool
  channels_nodup := hw.channels_nodup

variable [DecidableEq υ] {accounts : Accounts υ} {t : ι} {d d' : Shared ι υ}

theorem Sound.setChannels (hw : Sound w) {cs : List ChannelRef} (hpool : ∀ ch ∈ cs, ch ∈ w.pool)
    (hnodup : cs.Nodup) : Sound (w.setChannels u cs) where
  names_nodup := by simpa using hw.names_nodup
  lt_next := hw.lt_next
  mem_pool v ch h := by
    by_cases hv : v = u
    · subst hv
      exact hpool ch (by simpa using h)
    · rw [w.setChannels_channels_of_ne hv] at h
      exact hw.mem_pool v ch h
  channels_nodup v := by
    by_cases hv : v = u
    · subst hv
      simpa using hnodup
    · rw [w.setChannels_channels_of_ne hv]
      exact hw.channels_nodup v

omit [DecidableEq υ] in
theorem Guarantee.newChannel (hw : Sound w) (name password : Bytes)
    (hq : At (w.newChannel name password) u q) (hp : ∀ channel, ¬ listsFirst channel p) :
    Guarantee u p q w (w.newChannel name password) where
  sound := hw.newChannel name password
  at_target := hq
  channels _ _ := rfl
  users ch h _ := w.newChannel_users_of_lt name password h
  name ch h := w.newChannel_name_of_lt name password h
  password ch h := by rw [w.newChannel_channel_of_lt name password h]
  next := Nat.le_succ _
  pool _ h h' := absurd h h'
  added _ _ h := .inl h
  kept v ch h hv := by
    rw [w.newChannel_users_of_lt name password (hw.lt_next ch (hw.mem_pool v ch h))]
    exact hv
  lists ch h := absurd h (hp ch)

omit [DecidableEq υ] in
theorem Guarantee.setUsers (hw : Sound w) {channel : ChannelRef} {us : List υ}
    (hheld : .usersM channel ∈ held u p) (hq : At (w.setUsers channel us) u q)
    (hkept : ∀ v, channel ∈ w.channels v → v ∈ w.users channel → v ∈ us)
    (hl : ∀ ch, listsFirst ch p → ch = channel ∧ u ∈ us) :
    Guarantee u p q w (w.setUsers channel us) where
  sound := hw.setUsers channel us
  at_target := hq
  channels _ _ := rfl
  users ch _ h := w.setUsers_users_of_ne (fun he : ch = channel => h (he ▸ hheld)) us
  name ch _ := by rw [World.setUsers_name]
  password ch _ := w.setUsers_password channel ch us
  next := Nat.le_refl _
  pool _ h h' := absurd h h'
  added _ _ h := .inl h
  kept v ch h hv := by
    by_cases hch : ch = channel
    · subst hch
      simpa using hkept v h hv
    · rwa [w.setUsers_users_of_ne hch]
  lists ch h := by
    obtain ⟨rfl, hu⟩ := hl ch h
    exact .inr (by simpa using hu)

theorem Guarantee.setChannels (hw : Sound w) {cs : List ChannelRef}
    (hheld : .channelsM u ∈ held u p) (hpool : ∀ ch ∈ cs, ch ∈ w.pool) (hnodup : cs.Nodup)
    (hq : At (w.setChannels u cs) u q)
    (hadded : ∀ ch ∈ cs, ch ∈ w.channels u ∨ listsFirst ch q)
    (hp : ∀ channel, ¬ listsFirst channel p) : Guarantee u p q w (w.setChannels u cs) where
  sound := hw.setChannels hpool hnodup
  at_target := hq
  channels v h := w.setChannels_channels_of_ne (fun he : v = u => h (he ▸ hheld)) cs
  users _ _ _ := rfl
  name _ _ := rfl
  password _ _ := rfl
  next := Nat.le_refl _
  pool _ h h' := absurd h h'
  added v ch h := by
    by_cases hv : v = u
    · subst hv
      rw [World.setChannels_channels_self] at h
      exact (hadded ch h).imp_right fun h => ⟨rfl, h⟩
    · rw [w.setChannels_channels_of_ne hv] at h
      exact .inl h
  kept _ _ _ h := h
  lists ch h := absurd h (hp ch)

omit [DecidableEq υ] in
theorem Guarantee.setPool (hw : Sound w) {pool : List ChannelRef}
    (hnodup : (pool.map w.name).Nodup) (hlt : ∀ ch ∈ pool, ch < w.next)
    (hpool : ∀ v, ∀ ch ∈ w.channels v, ch ∈ pool) (hq : At { w with pool := pool } u q)
    (hgone : ∀ ch ∈ w.pool, ch ∉ pool → p = .unsubscribe (.poolRemove ch))
    (hp : ∀ channel, ¬ listsFirst channel p) : Guarantee u p q w { w with pool := pool } where
  sound := hw.setPool hnodup hlt hpool
  at_target := hq
  channels _ _ := rfl
  users _ _ _ := rfl
  name _ _ := rfl
  password _ _ := rfl
  next := Nat.le_refl _
  pool := hgone
  added _ _ h := .inl h
  kept _ _ _ h := h
  lists ch h := absurd h (hp ch)

omit [DecidableEq υ] in
theorem Guarantee.pushPool (hw : Sound w) {channel : ChannelRef} (hlt : channel < w.next)
    (hnew : w.name channel ∉ w.pool.map w.name)
    (hq : At { w with pool := w.pool ++ [channel] } u q) (hp : ∀ ch, ¬ listsFirst ch p) :
    Guarantee u p q w { w with pool := w.pool ++ [channel] } := by
  apply Guarantee.setPool hw _ _ _ hq _ hp
  · rw [List.map_append, List.map_singleton, List.nodup_append_comm, List.singleton_append,
      List.nodup_cons]
    exact ⟨hnew, hw.names_nodup⟩
  · intro ch hch
    rcases List.mem_append.mp hch with hch | hch
    · exact hw.lt_next ch hch
    · exact List.mem_singleton.mp hch ▸ hlt
  · exact fun v ch hch => List.mem_append_left _ (hw.mem_pool v ch hch)
  · exact fun ch hch h => absurd (List.mem_append_left _ hch) h

theorem subscribe_guarantee (hw : Sound d.world) {p : Subscribe.Pc}
    (hp : Subscribe.At d.world u p) {q : Option Subscribe.Pc}
    (h : (Subscribe.next t u d p).Moves d d' q) :
    Guarantee u (.subscribe p) (place .subscribe q) d.world d'.world := by
  cases p with
  | lockUser name password =>
    obtain ⟨rfl, rfl⟩ := h
    exact .refl hw trivial fun _ h => h.elim
  | scan name password =>
    rw [Subscribe.next] at h
    split at h
    case isTrue hfind =>
      obtain ⟨rfl, rfl⟩ := h
      exact .refl hw trivial fun _ h => h.elim
    case isFalse hfind =>
      obtain ⟨rfl, rfl⟩ := h
      refine .refl hw (fun ch hch hname => hfind ?_) fun _ h => h.elim
      exact List.find?_isSome.mpr ⟨ch, hch, by simpa using hname⟩
  | lockGet name password =>
    obtain ⟨rfl, rfl⟩ := h
    exact .refl hw hp fun _ h => h.elim
  | get name password =>
    obtain ⟨rfl, rfl⟩ := h
    refine .refl hw ⟨hp, fun channel hch => ?_⟩ fun _ h => h.elim
    have hmem := ConnectionPool.mem_of_get _ hch
    exact ⟨ConnectionPool.nameOf_of_get _ hch, hw.lt_next channel hmem, fun _ => hmem⟩
  | found name password ch =>
    obtain ⟨habsent, hp⟩ := hp
    cases ch with
    | none =>
      obtain ⟨rfl, rfl⟩ := h
      refine .newChannel hw name password ⟨fun ch hch => ?_, Nat.lt_succ_self _⟩ fun _ h => h
      rw [World.newChannel_name_next,
        d.world.newChannel_name_of_lt name password (hw.lt_next ch (hw.mem_pool u ch hch))]
      exact habsent ch hch
    | some channel =>
      obtain ⟨hname, -, hpool⟩ := hp channel rfl
      rw [Subscribe.next] at h
      split at h
      case isTrue hpassword =>
        obtain ⟨rfl, rfl⟩ := h
        exact .refl hw ⟨hname ▸ habsent, hpool hpassword⟩ fun _ h => h.elim
      case isFalse =>
        obtain ⟨rfl, rfl⟩ := h
        exact .refl hw trivial fun _ h => h.elim
  | lockPush channel =>
    obtain ⟨rfl, rfl⟩ := h
    exact .refl hw hp fun _ h => h.elim
  | push channel =>
    obtain ⟨habsent, hlt⟩ := hp
    obtain ⟨rfl, rfl⟩ := h
    rcases ConnectionPool.push_cases d.world.name d.world.pool channel with hpush | ⟨hpush, hnew⟩
    · simp only [hpush]
      exact .refl hw ⟨habsent, hlt, fun h => by cases h⟩ fun _ h => h.elim
    · simp only [hpush]
      exact .pushPool hw hlt hnew ⟨habsent, hlt, fun _ => by simp⟩ fun _ h => h
  | pushed channel ok =>
    obtain ⟨habsent, hlt, hpool⟩ := hp
    rw [Subscribe.next] at h
    split at h
    case isTrue hok =>
      obtain ⟨rfl, rfl⟩ := h
      exact .refl hw ⟨habsent, hpool hok⟩ fun _ h => h.elim
    case isFalse =>
      obtain ⟨rfl, rfl⟩ := h
      exact .refl hw trivial fun _ h => h.elim
  | join channel =>
    obtain ⟨habsent, hpool⟩ := hp
    obtain ⟨rfl, rfl⟩ := h
    refine .setChannels hw (by simp [held, Subscribe.held]) ?_ ?_
      (by simp [place, At, Subscribe.At])
      ?_ fun _ h => h
    · intro ch hch
      rcases List.mem_append.mp hch with hch | hch
      · exact hw.mem_pool u ch hch
      · exact List.mem_singleton.mp hch ▸ hpool
    · rw [List.nodup_append_comm, List.singleton_append, List.nodup_cons]
      exact ⟨fun h => habsent channel h rfl, hw.channels_nodup u⟩
    · intro ch hch
      rcases List.mem_append.mp hch with hch | hch
      · exact .inl hch
      · exact .inr (List.mem_singleton.mp hch).symm
  | lockUsers channel =>
    obtain ⟨rfl, rfl⟩ := h
    exact .refl hw hp fun _ h => h
  | addUser channel =>
    obtain ⟨rfl, rfl⟩ := h
    refine .setUsers hw (by simp [held, Subscribe.held]) trivial ?_ ?_
    · exact fun v _ hv => List.mem_append_left _ hv
    · rintro ch rfl
      exact ⟨rfl, by simp⟩
  | unlockUser =>
    obtain ⟨rfl, rfl⟩ := h
    exact .refl hw trivial fun _ h => h.elim

theorem unsubscribe_guarantee (hw : Sound d.world) {p : Unsubscribe.Pc}
    (hp : Unsubscribe.At d.world u p)
    (hgone : ∀ channel, p = .poolRemove channel → ∀ v, channel ∉ d.world.channels v)
    {q : Option Unsubscribe.Pc} (h : (Unsubscribe.next accounts t u d p).Moves d d' q) :
    Guarantee u (.unsubscribe p) (place .unsubscribe q) d.world d'.world := by
  cases p with
  | lockUser name =>
    obtain ⟨rfl, rfl⟩ := h
    exact .refl hw trivial fun _ h => h.elim
  | scan name i =>
    rw [Unsubscribe.next] at h
    split at h
    case h_1 channel hch =>
      obtain ⟨rfl, rfl⟩ := h
      exact .refl hw hch fun _ h => h.elim
    case h_2 =>
      obtain ⟨rfl, rfl⟩ := h
      exact .refl hw trivial fun _ h => h.elim
  | test name i channel =>
    rw [Unsubscribe.next] at h
    split at h
    case isTrue hname =>
      obtain ⟨rfl, rfl⟩ := h
      have hmem : channel ∈ d.world.channels u := List.mem_of_getElem? hp
      refine .setChannels hw (by simp [held, Unsubscribe.held]) ?_ ?_
        ⟨hw.mem_pool u channel hmem, ?_⟩
        ?_ fun _ h => h
      · exact fun ch hch => hw.mem_pool u ch (List.mem_of_mem_eraseIdx hch)
      · exact (hw.channels_nodup u).sublist (List.eraseIdx_sublist ..)
      · obtain ⟨hi, hget⟩ := List.getElem?_eq_some_iff.mp hp
        rw [World.setChannels_channels_self, ← (hw.channels_nodup u).erase_getElem i hi, hget]
        exact (hw.channels_nodup u).not_mem_erase
      · exact fun ch hch => .inl (List.mem_of_mem_eraseIdx hch)
    case isFalse =>
      obtain ⟨rfl, rfl⟩ := h
      exact .refl hw trivial fun _ h => h.elim
  | eraseUser channel =>
    obtain ⟨hpool, hnot⟩ := hp
    obtain ⟨rfl, rfl⟩ := h
    refine .setUsers hw (by simp [held, Unsubscribe.held]) hpool (fun v hv hmem => ?_)
      fun _ h => h.elim
    have hvu : v ≠ u := fun h => hnot (h ▸ hv)
    exact (List.mem_eraseP_of_neg (by simpa using accounts.name_injective.ne hvu)).mpr hmem
  | testEmpty channel =>
    rw [Unsubscribe.next] at h
    split at h
    case isTrue hempty =>
      obtain ⟨rfl, rfl⟩ := h
      exact .refl hw ⟨hp, hempty⟩ fun _ h => h.elim
    case isFalse =>
      obtain ⟨rfl, rfl⟩ := h
      exact .refl hw trivial fun _ h => h.elim
  | poolRemove channel =>
    obtain ⟨hpool, hempty⟩ := hp
    obtain ⟨rfl, rfl⟩ := h
    have hmem (ch : ChannelRef) :=
      ConnectionPool.mem_remove_nameOf (f := ch) d.world.name hw.names_nodup hpool
    refine .setPool hw (ConnectionPool.remove_names_nodup _ hw.names_nodup _) ?_ ?_ trivial ?_
      fun _ h => h
    · exact fun ch hch => hw.lt_next ch ((hmem ch).mp hch).1
    · exact fun v ch hch => (hmem ch).mpr
        ⟨hw.mem_pool v ch hch, fun h => hgone channel rfl v (h ▸ hch)⟩
    · intro ch hch hno
      have hch : ch = channel := by
        by_contra hne
        exact hno ((hmem ch).mpr ⟨hch, hne⟩)
      rw [hch]
  | unlockUsers channel =>
    obtain ⟨rfl, rfl⟩ := h
    exact .refl hw trivial fun _ h => h.elim
  | unlockUser =>
    obtain ⟨rfl, rfl⟩ := h
    exact .refl hw trivial fun _ h => h.elim

end Steps

section Stability

variable {w w' : World υ} {u v : υ} {p q r : Pc υ}

theorem Guarantee.absent (g : Guarantee u p q w w') (hw : Sound w) {name : Bytes}
    (hv : .channelsM v ∉ held u p) (h : Absent w v name) : Absent w' v name := by
  intro ch hch
  rw [g.channels v hv] at hch
  rw [g.name ch (hw.lt_next ch (hw.mem_pool v ch hch))]
  exact h ch hch

theorem Guarantee.mem_pool (g : Guarantee u p q w w') {ch : ChannelRef} (h : ch ∈ w.pool)
    (hp : p ≠ .unsubscribe (.poolRemove ch)) : ch ∈ w'.pool := by
  by_contra hno
  exact hp (g.pool ch h hno)

/-- A step of one connection does not disturb another one, as long as they hold
different mutexes and no channel is removed that the other is going to join. -/
theorem Guarantee.stable (g : Guarantee u p q w w') (hw : Sound w) (hr : At w v r)
    (hheld : ∀ m ∈ held v r, m ∉ held u p)
    (hjoin : ∀ ch, p = .unsubscribe (.poolRemove ch) → ¬ joining w ch r) : At w' v r := by
  -- A connection that holds the channel's mutex is not the one that removes the channel.
  have hkeep (ch : ChannelRef) (hch : .usersM ch ∈ held v r) :
      p ≠ .unsubscribe (.poolRemove ch) := by
    rintro rfl
    exact hheld _ hch (by simp [held, Unsubscribe.held])
  cases r with
  | idle => trivial
  | subscribe r =>
    have habsent (name : Bytes) (hmem : .channelsM v ∈ held v (.subscribe r)) :
        Absent w v name → Absent w' v name := g.absent hw (hheld _ hmem)
    cases r with
    | lockUser name password => trivial
    | scan name password => trivial
    | unlockUser => trivial
    | lockGet name password => exact habsent name (by simp [held, Subscribe.held]) hr
    | get name password => exact habsent name (by simp [held, Subscribe.held]) hr
    | found name password ch =>
      refine ⟨habsent name (by simp [held, Subscribe.held]) hr.1, fun channel hch => ?_⟩
      obtain ⟨hname, hlt, hpool⟩ := hr.2 channel hch
      rw [g.name channel hlt, g.password channel hlt]
      exact ⟨hname, Nat.lt_of_lt_of_le hlt g.next, fun hpassword => g.mem_pool (hpool hpassword)
        fun hp => hjoin channel hp ⟨hch, hpassword⟩⟩
    | lockPush channel =>
      obtain ⟨habs, hlt⟩ := hr
      rw [At, Subscribe.At, g.name channel hlt]
      exact ⟨habsent _ (by simp [held, Subscribe.held]) habs, Nat.lt_of_lt_of_le hlt g.next⟩
    | push channel =>
      obtain ⟨habs, hlt⟩ := hr
      rw [At, Subscribe.At, g.name channel hlt]
      exact ⟨habsent _ (by simp [held, Subscribe.held]) habs, Nat.lt_of_lt_of_le hlt g.next⟩
    | pushed channel ok =>
      obtain ⟨habs, hlt, hpool⟩ := hr
      rw [At, Subscribe.At, g.name channel hlt]
      exact ⟨habsent _ (by simp [held, Subscribe.held]) habs, Nat.lt_of_lt_of_le hlt g.next,
        fun hok => g.mem_pool (hpool hok) fun hp => hjoin channel hp ⟨rfl, hok⟩⟩
    | join channel =>
      obtain ⟨habs, hpool⟩ := hr
      rw [At, Subscribe.At, g.name channel (hw.lt_next channel hpool)]
      exact ⟨habsent _ (by simp [held, Subscribe.held]) habs,
        g.mem_pool hpool fun hp => hjoin channel hp rfl⟩
    | lockUsers channel =>
      rw [At, Subscribe.At, g.channels v (hheld _ (by simp [held, Subscribe.held]))]
      exact hr
    | addUser channel =>
      rw [At, Subscribe.At, g.channels v (hheld _ (by simp [held, Subscribe.held]))]
      exact hr
  | unsubscribe r =>
    cases r with
    | lockUser name => trivial
    | scan name i => trivial
    | unlockUsers channel => trivial
    | unlockUser => trivial
    | test name i channel =>
      rw [At, Unsubscribe.At, g.channels v (hheld _ (by simp [held, Unsubscribe.held]))]
      exact hr
    | eraseUser channel =>
      rw [At, Unsubscribe.At, g.channels v (hheld _ (by simp [held, Unsubscribe.held]))]
      exact ⟨g.mem_pool hr.1 (hkeep channel (by simp [held, Unsubscribe.held])), hr.2⟩
    | testEmpty channel =>
      exact g.mem_pool hr (hkeep channel (by simp [held, Unsubscribe.held]))
    | poolRemove channel =>
      refine ⟨g.mem_pool hr.1 (hkeep channel (by simp [held, Unsubscribe.held])), ?_⟩
      rw [g.users channel (hw.lt_next channel hr.1) (hheld _ (by simp [held, Unsubscribe.held]))]
      exact hr.2
  | _ => exact hr.elim

end Stability

end Chatd.Protocol
