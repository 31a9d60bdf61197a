import Chatd.Net.Server.World

/-! # Subscribing and unsubscribing

What `/subscribe` and `/unsubscribe` do to the lists of the user, of the channel and of
the pool when nothing else runs. Removal by name takes out the right element because
names are unique on each list, and the names on the list of a user are unique because
all its channels are in the pool.
-/
namespace Chatd.Protocol
open Library Net.Server

variable {υ : Type*} [DecidableEq υ] (userName : υ → Bytes) (w : World υ) (u : υ)
  (name password : Bytes)

def join (c : ChannelRef) : World υ :=
  (w.setChannels u (w.channels u ++ [c])).setUsers c (w.users c ++ [u])

/-- `cmd::Subscribe` executed by `u`, with the reply to its connection. -/
def subscribe : World υ × Bytes :=
  if (w.find (w.channels u) name).isSome then (w, ascii "ERR: You are already in the channel!\n")
  else
    match ConnectionPool.get w.name w.pool name with
    | some channel =>
      if password = (w.channel channel).password then
        (join w u channel, ascii "SRV: Joined to the channel.\n")
      else (w, ascii "ERR: Invalid password!\n")
    | none =>
      let created := w.newChannel name password
      let pushed := ConnectionPool.push created.name created.pool w.next
      if pushed.2 then
        (join { created with pool := pushed.1 } u w.next, ascii "SRV: Channel created.\n")
      else ({ created with pool := pushed.1 }, ascii "ERR: Could not create channel.\n")

def leave (c : ChannelRef) : World υ :=
  let w := w.setChannels u (ConnectionPool.remove w.name (w.channels u) name).1
  let w := w.setUsers c (ConnectionPool.remove userName (w.users c) (userName u)).1
  if w.users c = [] then
    { w with pool := (ConnectionPool.remove w.name w.pool (w.name c)).1 }
  else w

/-- `cmd::Unsubscribe` executed by `u`, with the reply to its connection. -/
def unsubscribe : World υ × Bytes :=
  match w.find (w.channels u) name with
  | some channel => (leave userName w u name channel, ascii "SRV: Unsubscribed!\n")
  | none => (w, ascii "ERR: You not in the channel!\n")

section Cases

variable {userName w u name password} {c : ChannelRef}

/-- The channels of the lists have been allocated, and no other has subscribers. -/
structure Allocated (w : World υ) : Prop where
  pool : ∀ c ∈ w.pool, c < w.next
  channels : ∀ u, ∀ c ∈ w.channels u, c < w.next
  users : ∀ u c, u ∈ w.users c → c < w.next

omit [DecidableEq υ] in
theorem allocated_empty : Allocated (World.empty : World υ) where
  pool _ h := by cases h
  channels _ _ h := by cases h
  users _ _ h := by cases h

omit [DecidableEq υ] in
theorem consistent_empty : Consistent (World.empty : World υ) where
  mem_users_iff _ _ _ := iff_of_false List.not_mem_nil List.not_mem_nil
  channels_nodup _ := List.nodup_nil
  users_nodup _ _ := List.nodup_nil
  mem_pool_iff _ _ := iff_of_false List.not_mem_nil fun h => h rfl
  names_nodup := List.nodup_nil

omit [DecidableEq υ] in
theorem find_eq_none_iff {cs : List ChannelRef} :
    w.find cs name = none ↔ ∀ c ∈ cs, w.name c ≠ name := by
  simp [World.find]

omit [DecidableEq υ] in
theorem mem_of_find {cs : List ChannelRef} (h : w.find cs name = some c) : c ∈ cs :=
  List.mem_of_find?_eq_some h

omit [DecidableEq υ] in
theorem name_of_find {cs : List ChannelRef} (h : w.find cs name = some c) : w.name c = name := by
  simpa using List.find?_some h

omit [DecidableEq υ] in
def createChannel (w : World υ) (name password : Bytes) : World υ :=
  { w.newChannel name password with pool := w.pool ++ [w.next] }

omit [DecidableEq υ] in
theorem push_newChannel (hw : Allocated w) (hpool : ∀ c ∈ w.pool, w.name c ≠ name)
    (password : Bytes) :
    ConnectionPool.push (w.newChannel name password).name w.pool w.next =
      (w.pool ++ [w.next], true) := by
  apply ConnectionPool.push_of_not_mem
  intro hmem
  obtain ⟨c, hc, hname⟩ := List.mem_map.mp hmem
  rw [World.newChannel_name_next, World.newChannel_name_of_lt w name password (hw.pool c hc)]
    at hname
  exact hpool c hc hname

/-- What `/subscribe` can do: refuse and leave everything as it is, join a channel of
the pool or create one. -/
theorem subscribe_cases (hw : Allocated w) (u : υ) (name password : Bytes) :
    (∃ text, subscribe w u name password = (w, ascii "ERR: " ++ text)) ∨
      (∃ c ∈ w.pool, w.name c = name ∧ password = (w.channel c).password ∧
        (∀ d ∈ w.channels u, w.name d ≠ name) ∧
        subscribe w u name password = (join w u c, ascii "SRV: Joined to the channel.\n")) ∨
      (∀ c ∈ w.pool, w.name c ≠ name) ∧ (∀ d ∈ w.channels u, w.name d ≠ name) ∧
        subscribe w u name password =
          (join (createChannel w name password) u w.next, ascii "SRV: Channel created.\n") := by
  cases hfind : w.find (w.channels u) name with
  | some d =>
    exact .inl ⟨ascii "You are already in the channel!\n", by simp [subscribe, hfind]; rfl⟩
  | none =>
    have habsent := find_eq_none_iff.mp hfind
    cases hget : ConnectionPool.get w.name w.pool name with
    | some c =>
      by_cases hpassword : password = (w.channel c).password
      · exact .inr (.inl ⟨c, ConnectionPool.mem_of_get _ hget, ConnectionPool.nameOf_of_get _ hget,
          hpassword, habsent, by simp [subscribe, hfind, hget, ← hpassword]⟩)
      · exact .inl ⟨ascii "Invalid password!\n", by simp [subscribe, hfind, hget, hpassword]; rfl⟩
    | none =>
      have hpool : ∀ c ∈ w.pool, w.name c ≠ name := find_eq_none_iff.mp hget
      refine .inr (.inr ⟨hpool, habsent, ?_⟩)
      rw [subscribe, hfind, hget]
      dsimp only [World.newChannel]
      have hpush := push_newChannel hw hpool password
      dsimp only [World.newChannel] at hpush
      rw [hpush]
      rfl

theorem unsubscribe_cases (userName : υ → Bytes) (w : World υ) (u : υ) (name : Bytes) :
    (∃ text, unsubscribe userName w u name = (w, ascii "ERR: " ++ text)) ∨
      ∃ c ∈ w.channels u, w.name c = name ∧
        unsubscribe userName w u name =
          (leave userName w u name c, ascii "SRV: Unsubscribed!\n") := by
  cases hfind : w.find (w.channels u) name with
  | some c =>
    exact .inr ⟨c, mem_of_find hfind, name_of_find hfind, by rw [unsubscribe, hfind]⟩
  | none =>
    exact .inl ⟨ascii "You not in the channel!\n", by rw [unsubscribe, hfind]; rfl⟩

end Cases

section Join

variable {w u name password} {c d : ChannelRef} {v : υ}

@[simp] theorem join_pool : (join w u c).pool = w.pool := rfl

@[simp] theorem join_next : (join w u c).next = w.next := rfl

@[simp] theorem join_name : (join w u c).name = w.name := by simp [join]

@[simp] theorem join_password :
    ((join w u c).channel d).password = (w.channel d).password := by simp [join]

theorem join_channels :
    (join w u c).channels v = if v = u then w.channels v ++ [c] else w.channels v := by
  by_cases hv : v = u
  · subst hv
    simp [join]
  · simp [join, hv, w.setChannels_channels_of_ne hv]

theorem join_users :
    (join w u c).users d = if d = c then w.users d ++ [u] else w.users d := by
  by_cases hd : d = c
  · subst hd
    simp [join]
  · simp [join, hd, World.setUsers_users_of_ne _ hd]

theorem mem_join_channels :
    d ∈ (join w u c).channels v ↔ d ∈ w.channels v ∨ v = u ∧ d = c := by
  rw [join_channels]
  by_cases hv : v = u <;> simp [hv]

theorem mem_join_users :
    v ∈ (join w u c).users d ↔ v ∈ w.users d ∨ v = u ∧ d = c := by
  rw [join_users]
  by_cases hd : d = c <;> simp [hd]

/-- Joining a channel of the pool puts the two sides in agreement again. -/
theorem join_consistent (hw : ConsistentOn (· ≠ c) w) (hpool : c ∈ w.pool)
    (hc : ∀ v, v ∈ w.users c ↔ c ∈ w.channels v) (hn : (w.users c).Nodup)
    (hu : c ∉ w.channels u) : Consistent (join w u c) := by
  constructor
  case mem_users_iff =>
    intro v d _
    rw [mem_join_users, mem_join_channels]
    by_cases hd : d = c
    · rw [hd, hc]
    · rw [hw.mem_users_iff v d hd]
  case channels_nodup =>
    intro v
    rw [join_channels]
    by_cases hv : v = u
    · subst hv
      rw [if_pos rfl]
      exact (hw.channels_nodup v).append (List.nodup_singleton c) (by simpa using hu)
    · rw [if_neg hv]
      exact hw.channels_nodup v
  case users_nodup =>
    intro d _
    rw [join_users]
    by_cases hd : d = c
    · subst hd
      rw [if_pos rfl]
      exact hn.append (List.nodup_singleton u) (by simpa [hc] using hu)
    · rw [if_neg hd]
      exact hw.users_nodup d hd
  case mem_pool_iff =>
    intro d _
    rw [join_users, join_pool]
    by_cases hd : d = c
    · subst hd
      simp [hpool]
    · rw [if_neg hd]
      exact hw.mem_pool_iff d hd
  case names_nodup =>
    rw [join_pool, join_name]
    exact hw.names_nodup

end Join

section Create

variable {w u name password} {c : ChannelRef}

omit [DecidableEq υ] in
theorem createChannel_channel_of_lt (h : c < w.next) :
    (createChannel w name password).channel c = w.channel c :=
  w.newChannel_channel_of_lt name password h

omit [DecidableEq υ] in
theorem createChannel_channel_next :
    (createChannel w name password).channel w.next = ⟨name, password, []⟩ :=
  Function.update_self ..

omit [DecidableEq υ] in
theorem createChannel_name_of_lt (h : c < w.next) :
    (createChannel w name password).name c = w.name c :=
  w.newChannel_name_of_lt name password h

omit [DecidableEq υ] in
theorem createChannel_users (hw : Allocated w) (name password : Bytes) :
    (createChannel w name password).users = w.users := by
  funext c
  by_cases hc : c = w.next
  · have hnone : w.users c = [] := by
      rw [List.eq_nil_iff_forall_not_mem]
      intro v hv
      exact Nat.ne_of_lt (hw.users v c hv) hc
    rw [hnone, hc, World.users, createChannel_channel_next]
  · simp [createChannel, World.newChannel, World.users, hc]

omit [DecidableEq υ] in
theorem createChannel_consistentOn (ha : Allocated w) (hw : Consistent w)
    (hname : ∀ c ∈ w.pool, w.name c ≠ name) :
    ConsistentOn (· ≠ w.next) (createChannel w name password) := by
  constructor
  case mem_users_iff =>
    intro v c _
    rw [createChannel_users ha]
    exact hw.mem_users_iff v c trivial
  case channels_nodup => exact hw.channels_nodup
  case users_nodup =>
    intro c _
    rw [createChannel_users ha]
    exact hw.users_nodup c trivial
  case mem_pool_iff =>
    intro c hc
    rw [createChannel_users ha, ← hw.mem_pool_iff c trivial]
    simp [createChannel, hc]
  case names_nodup =>
    have hmap : w.pool.map (createChannel w name password).name = w.pool.map w.name :=
      List.map_congr_left fun c hc => createChannel_name_of_lt (ha.pool c hc)
    have hnext : (createChannel w name password).name w.next = name := by
      rw [World.name, createChannel_channel_next]
    rw [show (createChannel w name password).pool = w.pool ++ [w.next] from rfl, List.map_append,
      hmap, List.map_singleton, hnext]
    refine hw.names_nodup.append (List.nodup_singleton name) ?_
    simpa using hname

omit [DecidableEq υ] in
theorem createChannel_allocated (hw : Allocated w) :
    Allocated (createChannel w name password) := by
  constructor
  · intro c hc
    rcases List.mem_append.mp hc with hc | hc
    · exact Nat.lt_succ_of_lt (hw.pool c hc)
    · rw [List.mem_singleton.mp hc]
      exact Nat.lt_succ_self _
  · exact fun v c hc => Nat.lt_succ_of_lt (hw.channels v c hc)
  · intro v c hv
    rw [createChannel_users hw] at hv
    exact Nat.lt_succ_of_lt (hw.users v c hv)

theorem join_allocated (hw : Allocated w) (hc : c < w.next) : Allocated (join w u c) := by
  constructor
  · exact hw.pool
  · intro v d hd
    rcases mem_join_channels.mp hd with hd | ⟨-, rfl⟩
    · exact hw.channels v d hd
    · exact hc
  · intro v d hv
    rcases mem_join_users.mp hv with hv | ⟨-, rfl⟩
    · exact hw.users v d hv
    · exact hc

theorem subscribe_consistent (ha : Allocated w) (hw : Consistent w) :
    Consistent (subscribe w u name password).1 := by
  rcases subscribe_cases ha u name password with
    ⟨text, h⟩ | ⟨c, hc, hname, -, habsent, h⟩ | ⟨hpool, habsent, h⟩
  · rw [h]
    exact hw
  · rw [h]
    have hne : ConsistentOn (· ≠ c) w :=
      ⟨fun v d _ => hw.mem_users_iff v d trivial, hw.channels_nodup,
        fun d _ => hw.users_nodup d trivial, fun d _ => hw.mem_pool_iff d trivial, hw.names_nodup⟩
    exact join_consistent hne hc (fun v => hw.mem_users_iff v c trivial)
      (hw.users_nodup c trivial) fun hcu => habsent c hcu hname
  · rw [h]
    have hnext (v : υ) : w.next ∉ w.channels v := fun hv =>
      absurd (ha.channels v _ hv) (Nat.lt_irrefl _)
    refine join_consistent (createChannel_consistentOn ha hw hpool) ?_ ?_ ?_ (hnext u)
    · exact List.mem_append_right _ (List.mem_singleton_self _)
    · intro v
      rw [createChannel_users ha]
      exact hw.mem_users_iff v _ trivial
    · rw [createChannel_users ha]
      exact hw.users_nodup _ trivial

end Create

section Leave

variable {userName w u name} {c d : ChannelRef} {v : υ}

@[simp] theorem leave_name : (leave userName w u name c).name = w.name := by
  unfold leave
  dsimp only
  split
  · exact (World.setUsers_name ..).trans (World.setChannels_name ..)
  · exact (World.setUsers_name ..).trans (World.setChannels_name ..)

@[simp] theorem leave_channels : (leave userName w u name c).channels =
    (w.setChannels u (ConnectionPool.remove w.name (w.channels u) name).1).channels := by
  unfold leave
  dsimp only
  split <;> rfl

@[simp] theorem leave_users : (leave userName w u name c).users =
    (w.setUsers c (ConnectionPool.remove userName (w.users c) (userName u)).1).users := by
  unfold leave
  dsimp only
  split <;> rfl

theorem leave_pool : (leave userName w u name c).pool =
    if (leave userName w u name c).users c = [] then
      (ConnectionPool.remove w.name w.pool (w.name c)).1
    else w.pool := by
  rw [leave_users, World.setUsers_users_self]
  unfold leave
  dsimp only
  rw [World.setUsers_users_self, World.setChannels_users]
  split
  · rw [World.setUsers_name, World.setChannels_name]
    rfl
  · rfl

theorem mem_leave_channels (hw : Consistent w) (hc : c ∈ w.channels u) :
    d ∈ (leave userName w u (w.name c) c).channels v ↔ d ∈ w.channels v ∧ ¬ (v = u ∧ d = c) := by
  have hn := hw.channels_names_nodup u
  rw [leave_channels]
  by_cases hv : v = u
  · subst hv
    rw [World.setChannels_channels_self, ConnectionPool.mem_remove_nameOf w.name hn hc]
    simp
  · rw [World.setChannels_channels_of_ne _ hv]
    simp [hv]

theorem mem_leave_users (hn : ((w.users c).map userName).Nodup) (hu : u ∈ w.users c) :
    v ∈ (leave userName w u name c).users d ↔ v ∈ w.users d ∧ ¬ (v = u ∧ d = c) := by
  rw [leave_users]
  by_cases hd : d = c
  · subst hd
    rw [World.setUsers_users_self, ConnectionPool.mem_remove_nameOf userName hn hu]
    simp
  · rw [World.setUsers_users_of_ne _ hd]
    simp [hd]

/-- `/unsubscribe` keeps the two sides of the subscriptions in agreement: it finds the
channel and the user by names that are unique on each list. -/
theorem leave_consistent (hw : Consistent w) (hc : c ∈ w.channels u)
    (hn : ((w.users c).map userName).Nodup) :
    Consistent (leave userName w u (w.name c) c) := by
  have hu : u ∈ w.users c := (hw.mem_users_iff u c trivial).mpr hc
  have hpool : c ∈ w.pool := hw.mem_pool hc
  constructor
  case mem_users_iff =>
    intro v d _
    rw [mem_leave_users hn hu, mem_leave_channels hw hc, hw.mem_users_iff v d trivial]
  case channels_nodup =>
    intro v
    rw [leave_channels]
    by_cases hv : v = u
    · subst hv
      rw [World.setChannels_channels_self]
      exact (hw.channels_nodup v).sublist List.eraseP_sublist
    · rw [World.setChannels_channels_of_ne _ hv]
      exact hw.channels_nodup v
  case users_nodup =>
    intro d _
    rw [leave_users]
    by_cases hd : d = c
    · subst hd
      rw [World.setUsers_users_self]
      exact (hw.users_nodup d trivial).sublist List.eraseP_sublist
    · rw [World.setUsers_users_of_ne _ hd]
      exact hw.users_nodup d trivial
  case mem_pool_iff =>
    intro d _
    have hother (hd : d ≠ c) :
        (leave userName w u (w.name c) c).users d = w.users d := by
      rw [leave_users, World.setUsers_users_of_ne _ hd]
    rw [leave_pool]
    split
    case isTrue hempty =>
      rw [ConnectionPool.mem_remove_nameOf w.name hw.names_nodup hpool]
      by_cases hd : d = c
      · subst hd
        simp [hempty]
      · rw [hother hd, and_iff_left hd, hw.mem_pool_iff d trivial]
    case isFalse hempty =>
      by_cases hd : d = c
      · subst hd
        exact iff_of_true hpool hempty
      · rw [hother hd, hw.mem_pool_iff d trivial]
  case names_nodup =>
    rw [leave_name, leave_pool]
    split
    · exact ConnectionPool.remove_names_nodup w.name hw.names_nodup _
    · exact hw.names_nodup

theorem unsubscribe_consistent (hw : Consistent w)
    (hn : ∀ c, ((w.users c).map userName).Nodup) :
    Consistent (unsubscribe userName w u name).1 := by
  rcases unsubscribe_cases userName w u name with ⟨text, h⟩ | ⟨c, hc, rfl, h⟩
  · rw [h]
    exact hw
  · rw [h]
    exact leave_consistent hw hc (hn c)

end Leave

end Chatd.Protocol
