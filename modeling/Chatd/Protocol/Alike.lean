import Chatd.Protocol.Execute

/-! # Worlds that differ in deleted channels only

A deleted channel keeps its list of subscribers, but nobody can find it any more. Two worlds
that differ in the subscribers of such channels answer every line in the same way. So a
`/delete` that has its effect is judged by the lists in which they are forgotten.
-/
namespace Chatd.Protocol
open Library Net.Server

/-- The worlds differ at most in the subscribers of channels that the pool does not hold. -/
structure Alike {υ : Type*} (w w' : World υ) : Prop where
  channels : w.channels = w'.channels
  pool : w.pool = w'.pool
  next : w.next = w'.next
  name : w.name = w'.name
  password : ∀ c, (w.channel c).password = (w'.channel c).password
  users : ∀ c ∈ w.pool, w.users c = w'.users c

/-- Who is subscribed finds the channel in the pool. -/
def Listed {υ : Type*} (w : World υ) : Prop := ∀ u, ∀ c ∈ w.channels u, c ∈ w.pool

/-- The world with the subscribers of deleted channels forgotten. -/
def bury {υ : Type*} (w : World υ) : World υ :=
  { w with
    channel := fun c => if c ∈ w.pool then w.channel c else { w.channel c with users := [] } }

section Alike

variable {υ : Type*} [DecidableEq υ] {userName : υ → Bytes} {w w' w'' : World υ} {u : υ}
  {c : ChannelRef} {name password : Bytes} {line : Line} {e : Effect υ}

omit [DecidableEq υ] in
theorem bury_users : (bury w).users c = if c ∈ w.pool then w.users c else [] := by
  by_cases hc : c ∈ w.pool <;> simp [bury, World.users, hc]

omit [DecidableEq υ] in
theorem alike_bury (w : World υ) : Alike w (bury w) where
  channels := rfl
  pool := rfl
  next := rfl
  name := by
    funext c
    by_cases hc : c ∈ w.pool <;> simp [bury, World.name, hc]
  password c := by by_cases hc : c ∈ w.pool <;> simp [bury, hc]
  users c hc := by rw [bury_users, if_pos hc]

omit [DecidableEq υ] in
/-- Alike worlds are the same with their deleted channels forgotten. -/
theorem Alike.bury_eq (h : Alike w w') : bury w = bury w' := by
  have hchannel (c : ChannelRef) : (bury w).channel c = (bury w').channel c := by
    have hname : (w.channel c).name = (w'.channel c).name := congrFun h.name c
    have hpassword := h.password c
    simp only [bury, ← h.pool]
    split
    · rename_i hc
      have husers : (w.channel c).users = (w'.channel c).users := h.users c hc
      cases hw : w.channel c
      cases hw' : w'.channel c
      simp only [hw, hw'] at hname hpassword husers
      rw [hname, hpassword, husers]
    · rw [hname, hpassword]
  exact World.ext h.channels (funext hchannel) h.pool h.next

omit [DecidableEq υ] in
theorem Alike.find (h : Alike w w') (cs : List ChannelRef) (name : Bytes) :
    w.find cs name = w'.find cs name := by
  rw [World.find, World.find, h.name]

omit [DecidableEq υ] in
theorem bury_of_consistent (hw : Consistent w) : bury w = w := by
  have hchannel (c : ChannelRef) : (bury w).channel c = w.channel c := by
    simp only [bury]
    split
    · rfl
    · rename_i hc
      have hnone : (w.channel c).users = [] := by
        by_contra hne
        exact hc ((hw.mem_pool_iff c trivial).mpr hne)
      rw [← hnone]
  exact World.ext rfl (funext hchannel) rfl rfl

theorem Alike.join (h : Alike w w') : Alike (join w u c) (join w' u c) where
  channels := by
    funext v
    rw [join_channels, join_channels, h.channels]
  pool := h.pool
  next := h.next
  name := by rw [join_name, join_name, h.name]
  password d := by rw [join_password, join_password, h.password]
  users d hd := by
    rw [join_users, join_users, h.users d hd]

omit [DecidableEq υ] in
theorem Alike.createChannel (h : Alike w w') :
    Alike (createChannel w name password) (createChannel w' name password) := by
  have hchannel (d : ChannelRef) (hd : d ≠ w.next) :
      (Protocol.createChannel w name password).channel d = w.channel d ∧
        (Protocol.createChannel w' name password).channel d = w'.channel d :=
    ⟨Function.update_of_ne hd .., Function.update_of_ne (h.next ▸ hd) ..⟩
  have hnew : (Protocol.createChannel w' name password).channel w.next = ⟨name, password, []⟩ := by
    rw [h.next, createChannel_channel_next]
  constructor
  case channels => exact h.channels
  case pool => exact congrArg₂ (fun pool next => pool ++ [next]) h.pool h.next
  case next => exact congrArg (· + 1) h.next
  case name =>
    funext d
    by_cases hd : d = w.next
    · rw [hd, World.name, World.name, createChannel_channel_next, hnew]
    · rw [World.name, World.name, (hchannel d hd).1, (hchannel d hd).2]
      exact congrFun h.name d
  case password =>
    intro d
    by_cases hd : d = w.next
    · rw [hd, createChannel_channel_next, hnew]
    · rw [(hchannel d hd).1, (hchannel d hd).2, h.password]
  case users =>
    intro d hpool
    by_cases hd : d = w.next
    · rw [hd, World.users, World.users, createChannel_channel_next, hnew]
    · rw [World.users, World.users, (hchannel d hd).1, (hchannel d hd).2]
      refine h.users d ((List.mem_append.mp hpool).resolve_right ?_)
      rwa [List.mem_singleton]

theorem subscribe_create (ha : Allocated w) (hfind : w.find (w.channels u) name = none)
    (hget : ConnectionPool.get w.name w.pool name = none) :
    subscribe w u name password =
      (join (createChannel w name password) u w.next, ascii "SRV: Channel created.\n") := by
  have hpush : ConnectionPool.push (w.newChannel name password).name
      (w.newChannel name password).pool w.next = (w.pool ++ [w.next], true) :=
    push_newChannel ha (find_eq_none_iff.mp hget) password
  rw [subscribe, hfind, hget]
  simp only [hpush]
  rfl

theorem Alike.subscribe (h : Alike w w') (ha : Allocated w) (ha' : Allocated w') :
    Alike (subscribe w u name password).1 (subscribe w' u name password).1 ∧
      (subscribe w u name password).2 = (subscribe w' u name password).2 := by
  have hfind : w'.find (w'.channels u) name = w.find (w.channels u) name := by
    rw [h.find, h.channels]
  have hget : ConnectionPool.get w'.name w'.pool name = ConnectionPool.get w.name w.pool name := by
    rw [h.name, h.pool]
  cases hf : w.find (w.channels u) name with
  | some d =>
    rw [Protocol.subscribe, Protocol.subscribe, hfind, hf]
    exact ⟨h, rfl⟩
  | none =>
    cases hg : ConnectionPool.get w.name w.pool name with
    | some c =>
      rw [Protocol.subscribe, Protocol.subscribe, hfind, hf, hget, hg]
      simp only [← h.password c]
      split
      · exact ⟨h, rfl⟩
      · split
        · exact ⟨h.join, rfl⟩
        · exact ⟨h, rfl⟩
    | none =>
      rw [subscribe_create ha hf hg, subscribe_create ha' (hfind.trans hf) (hget.trans hg), h.next]
      exact ⟨h.createChannel.join, rfl⟩

theorem Alike.leave (h : Alike w w') (hc : c ∈ w.pool) :
    Alike (leave userName w u name c) (leave userName w' u name c) := by
  have husers (d : ChannelRef) (hd : d ∈ w.pool) : (Protocol.leave userName w u name c).users d =
      (Protocol.leave userName w' u name c).users d := by
    rw [leave_users, leave_users]
    by_cases hdc : d = c
    · rw [hdc, World.setUsers_users_self, World.setUsers_users_self, h.users c hc]
    · rw [World.setUsers_users_of_ne _ hdc, World.setUsers_users_of_ne _ hdc, h.users d hd]
  have hpool : (Protocol.leave userName w u name c).pool =
      (Protocol.leave userName w' u name c).pool := by
    rw [leave_pool, leave_pool, husers c hc, h.name, h.pool]
  constructor
  case channels =>
    funext v
    rw [leave_channels, leave_channels, h.name, h.channels]
    by_cases hv : v = u
    · rw [hv, World.setChannels_channels_self, World.setChannels_channels_self]
    · rw [World.setChannels_channels_of_ne _ hv, World.setChannels_channels_of_ne _ hv, h.channels]
  case pool => exact hpool
  case next => rw [leave_shrinks.next, leave_shrinks.next, h.next]
  case name => rw [leave_name, leave_name, h.name]
  case password => intro d; rw [leave_shrinks.password, leave_shrinks.password, h.password]
  case users => exact fun d hd => husers d (leave_shrinks.pool hd)

theorem Alike.unsubscribe (h : Alike w w') (hl : Listed w) :
    Alike (unsubscribe userName w u name).1 (unsubscribe userName w' u name).1 ∧
      (unsubscribe userName w u name).2 = (unsubscribe userName w' u name).2 := by
  have hfind : w'.find (w'.channels u) name = w.find (w.channels u) name := by
    rw [h.find, h.channels]
  rw [Protocol.unsubscribe, Protocol.unsubscribe, hfind]
  cases hf : w.find (w.channels u) name with
  | some c => exact ⟨h.leave (hl u c (mem_of_find hf)), rfl⟩
  | none => exact ⟨h, rfl⟩

theorem Alike.setChannels (h : Alike w w') (v : υ) (cs : List ChannelRef) :
    Alike (w.setChannels v cs) (w'.setChannels v cs) where
  channels := by simp only [World.setChannels, h.channels]
  pool := h.pool
  next := h.next
  name := h.name
  password := h.password
  users := h.users

theorem Alike.removeFromUser (h : Alike w w') {v : υ} {w₁ : World υ} {n j : ℕ}
    (hr : removeFromUser w c name v n j = .ok w₁) :
    ∃ w₁', removeFromUser w' c name v n j = .ok w₁' ∧ Alike w₁ w₁' := by
  induction n generalizing j with
  | zero =>
    cases hr
    exact ⟨w', rfl, h⟩
  | succ n ih =>
    rw [Protocol.removeFromUser] at hr ⊢
    rw [← h.channels, ← h.name]
    split at hr
    · cases hr
    · split at hr
      case isTrue hname =>
        cases hr
        exact ⟨_, if_pos hname, h.setChannels ..⟩
      case isFalse hname =>
        rw [if_neg hname]
        exact ih hr

theorem Alike.removeFromUsers {users : List υ} (h : Alike w w') {w₁ : World υ}
    (hr : removeFromUsers u c name w users = .ok w₁) :
    ∃ w₁', removeFromUsers u c name w' users = .ok w₁' ∧ Alike w₁ w₁' := by
  induction users generalizing w w' with
  | nil =>
    cases hr
    exact ⟨w', rfl, h⟩
  | cons v users ih =>
    obtain ⟨w₂, hw₂, hrest⟩ := bind_eq_ok hr
    obtain ⟨w₂', hw₂', h₂⟩ := h.removeFromUser hw₂
    obtain ⟨w₁', hw₁', h₁⟩ := ih h₂ hrest
    rw [h.channels] at hw₂'
    exact ⟨w₁', by rw [Protocol.removeFromUsers, hw₂', ok_bind, hw₁'], h₁⟩

theorem Alike.delete (h : Alike w w') (hl : Listed w) {w₁ : World υ} {reply : Bytes}
    (hd : delete w u name = .ok (w₁, reply)) :
    ∃ w₁', delete w' u name = .ok (w₁', reply) ∧ Alike w₁ w₁' := by
  have hfind : w'.find (w'.channels u) name = w.find (w.channels u) name := by
    rw [h.find, h.channels]
  rw [Protocol.delete] at hd ⊢
  rw [hfind]
  cases hf : w.find (w.channels u) name with
  | none =>
    rw [hf] at hd
    cases hd
    exact ⟨w', rfl, h⟩
  | some c =>
    rw [hf] at hd
    obtain ⟨w₂, hw₂, hrest⟩ := bind_eq_ok hd
    cases hrest
    obtain ⟨w₂', hw₂', h₂⟩ := h.removeFromUsers hw₂
    rw [h.users c (hl u c (mem_of_find hf))] at hw₂'
    refine ⟨_, by simp only [hw₂', ok_bind]; rfl, ?_⟩
    have hpool : ConnectionPool.remove w₂.name w₂.pool name =
        ConnectionPool.remove w₂'.name w₂'.pool name := by rw [h₂.name, h₂.pool]
    exact ⟨h₂.channels, congrArg Prod.fst hpool, h₂.next, h₂.name, h₂.password,
      fun d hd => h₂.users d (List.eraseP_subset hd)⟩

omit [DecidableEq υ] in
theorem Alike.sendsTo (h : Alike w w') (hc : c ∈ w.pool) :
    sendsTo userName w u c = sendsTo userName w' u c := by
  rw [Protocol.sendsTo, Protocol.sendsTo, h.users c hc]

omit [DecidableEq υ] in
theorem Alike.sends (h : Alike w w') (hl : Listed w) (msg : Message) :
    sends userName w u msg = sends userName w' u msg := by
  cases msg with
  | direct to_ content => rfl
  | group to_ content =>
    rw [Protocol.sends, Protocol.sends, ← h.name, ← h.pool]
    cases hget : ConnectionPool.get w.name w.pool to_ with
    | none => rfl
    | some c =>
      have hc := ConnectionPool.mem_of_get _ hget
      simp only [h.users c hc, h.sendsTo hc]
  | global content =>
    rw [Protocol.sends, Protocol.sends, ← h.channels]
    congr 1
    rw [List.flatMap_congr fun c hc => h.sendsTo (hl u c hc)]

omit [DecidableEq υ] in
theorem Alike.listUsers (h : Alike w w') (hl : Listed w) :
    listUsers userName w u name = listUsers userName w' u name := by
  rw [Protocol.listUsers, Protocol.listUsers, ← h.channels, ← h.find]
  cases hf : w.find (w.channels u) name with
  | none => rfl
  | some c => simp only [h.users c (hl u c (mem_of_find hf))]

/-- Alike worlds answer every line alike. -/
theorem Alike.execute (h : Alike w w') (hl : Listed w) (ha : Allocated w) (ha' : Allocated w')
    (he : execute userName w u line = .ok e) :
    ∃ e', execute userName w' u line = .ok e' ∧ Alike e.world e'.world ∧ e'.sends = e.sends ∧
      e'.reply = e.reply := by
  cases line with
  | subscribe name password =>
    cases he
    have hsame : Alike (Protocol.subscribe w u name password).1 _ ∧ _ := h.subscribe ha ha'
    exact ⟨_, rfl, hsame.1, rfl, congrArg some hsame.2.symm⟩
  | unsubscribe name =>
    cases he
    have hsame : Alike (Protocol.unsubscribe userName w u name).1 _ ∧ _ := h.unsubscribe hl
    exact ⟨_, rfl, hsame.1, rfl, congrArg some hsame.2.symm⟩
  | delete name =>
    obtain ⟨⟨w₁, reply⟩, hdelete, hrest⟩ := bind_eq_ok he
    cases hrest
    obtain ⟨w₁', hdelete', hworld⟩ := h.delete hl hdelete
    refine ⟨⟨w₁', [], some reply⟩, ?_, hworld, rfl, rfl⟩
    rw [Protocol.execute, hdelete', ok_bind]
  | listUsers name =>
    cases he
    exact ⟨_, rfl, h, rfl, congrArg some (h.listUsers hl).symm⟩
  | message msg =>
    cases he
    have hsends : Protocol.sends userName w u msg = _ := h.sends hl msg
    exact ⟨_, rfl, h, congrArg Prod.fst hsends.symm, congrArg Prod.snd hsends.symm⟩

end Alike

section Deleting

variable {υ : Type*} [DecidableEq υ] {userName : υ → Bytes} {w w' : World υ} {u : υ}
  {c d : ChannelRef} {line : Line} {e : Effect υ}

/-- Every subscriber lists the channel first, and a requester without another channel is
the last subscriber. -/
def DeletedFirst (w : World υ) (u : υ) (c : ChannelRef) : Prop :=
  (∀ v ∈ w.users c, (w.channels v).head? = some c) ∧
    (w.channels u = [c] → (w.users c).getLast? = some u)

instance (w : World υ) (u : υ) (c : ChannelRef) : Decidable (DeletedFirst w u c) :=
  inferInstanceAs (Decidable (_ ∧ _))

theorem subset_served (hw : Consistent w) (hu : c ∈ w.channels u) (hfirst : DeletedFirst w u c) :
    w.users c ⊆ served u (w.channels u).length (w.users c) := by
  have hn := hw.users_nodup c trivial
  match hcs : w.channels u with
  | [] => simp [hcs] at hu
  | [d] =>
    obtain rfl : c = d := by simpa [hcs] using hu
    exact (subset_served_one_iff hn ((hw.mem_users_iff u c trivial).mpr hu)).mpr (hfirst.2 hcs)
  | d :: d' :: ds =>
    rw [List.length_cons, List.length_cons, served_of_two_le _ hn]
    exact List.Subset.refl _

omit [DecidableEq υ] in
theorem consistent_bury_of_deleted (h : Deleted w w' c) : Consistent (bury w') := by
  have hne {d : ChannelRef} (hd : d ∈ w'.pool) : d ≠ c := fun hdc => h.not_mem_pool (hdc ▸ hd)
  have habsent {d : ChannelRef} (hd : d ∉ w'.pool) (v : υ) : d ∉ w'.channels v := by
    intro hv
    by_cases hdc : d = c
    · exact h.not_mem_channels v (hdc ▸ hv)
    · have hmem := (h.consistent.mem_users_iff v d hdc).mpr hv
      exact hd ((h.consistent.mem_pool_iff d hdc).mpr (List.ne_nil_of_mem hmem))
  constructor
  case mem_users_iff =>
    intro v d _
    rw [bury_users]
    by_cases hd : d ∈ w'.pool
    · rw [if_pos hd]
      exact h.consistent.mem_users_iff v d (hne hd)
    · rw [if_neg hd]
      exact iff_of_false List.not_mem_nil (habsent hd v)
  case channels_nodup => exact h.consistent.channels_nodup
  case users_nodup =>
    intro d _
    rw [bury_users]
    by_cases hd : d ∈ w'.pool
    · rw [if_pos hd]
      exact h.consistent.users_nodup d (hne hd)
    · rw [if_neg hd]
      exact List.nodup_nil
  case mem_pool_iff =>
    intro d _
    rw [bury_users]
    by_cases hd : d ∈ w'.pool
    · rw [if_pos hd]
      exact h.consistent.mem_pool_iff d (hne hd)
    · rw [if_neg hd]
      exact iff_of_false hd fun hnil => hnil rfl
  case names_nodup =>
    rw [← (alike_bury w').name]
    exact h.consistent.names_nodup

/-- A `/delete` under that condition leaves consistent lists, the channel forgotten. -/
theorem delete_consistent (hw : Consistent w) (hu : c ∈ w.channels u)
    (hfirst : DeletedFirst w u c) {reply : Bytes} (h : delete w u (w.name c) = .ok (w', reply)) :
    Consistent (bury w') ∧ c ∉ w'.pool := by
  have hsame (v : υ) : v ∈ served u (w.channels u).length (w.users c) ↔ v ∈ w.users c :=
    ⟨fun hv => served_subset _ _ hv, fun hv => subset_served hw hu hfirst hv⟩
  rw [delete_eq hw hu, dropHeads_congr w hsame] at h
  cases h
  have hdeleted := deleted_of_heads hw (hw.mem_pool hu) hfirst.1
  exact ⟨consistent_bury_of_deleted hdeleted, hdeleted.not_mem_pool⟩

theorem delete_cases {name reply : Bytes} (h : delete w u name = .ok (w', reply)) :
    w' = w ∨ ∃ c ∈ w.channels u, w.name c = name := by
  rw [delete] at h
  cases hf : w.find (w.channels u) name with
  | none =>
    rw [hf] at h
    cases h
    exact .inl rfl
  | some c => exact .inr ⟨c, mem_of_find hf, name_of_find hf⟩

theorem pool_of_execute (ha : Allocated w) (h : execute userName w u line = .ok e) :
    w.next ≤ e.world.next ∧ ∀ d ∈ e.world.pool, d ∈ w.pool ∨ d = w.next := by
  have hshrinks (hs : Shrinks w e.world) :
      w.next ≤ e.world.next ∧ ∀ d ∈ e.world.pool, d ∈ w.pool ∨ d = w.next :=
    ⟨Nat.le_of_eq hs.next.symm, fun d hd => .inl (hs.pool hd)⟩
  cases line with
  | subscribe name password =>
    cases h
    rcases subscribe_cases ha u name password with
      ⟨text, h⟩ | ⟨c, -, -, -, -, h⟩ | ⟨-, -, h⟩
    · exact hshrinks (by rw [h]; exact .refl w)
    · rw [h]
      exact ⟨Nat.le_refl _, fun d hd => .inl hd⟩
    · rw [h]
      refine ⟨Nat.le_succ _, fun d hd => ?_⟩
      exact (List.mem_append.mp hd).imp_right List.mem_singleton.mp
  | unsubscribe name =>
    cases h
    rcases unsubscribe_cases userName w u name with ⟨text, h⟩ | ⟨c, -, -, h⟩
    · exact hshrinks (by rw [h]; exact .refl w)
    · exact hshrinks (by rw [h]; exact leave_shrinks)
  | delete name =>
    obtain ⟨⟨w', reply⟩, hdelete, hrest⟩ := bind_eq_ok h
    cases hrest
    exact hshrinks (delete_shrinks hdelete)
  | listUsers name =>
    cases h
    exact hshrinks (.refl w)
  | message msg =>
    cases h
    exact hshrinks (.refl w)

omit [DecidableEq υ] in
theorem cause_mem_pool (hl : Listed w) {msg : Message} {called : Bytes}
    (h : (some c, called) ∈ (sends userName w u msg).1) : c ∈ w.pool := by
  cases msg with
  | direct to_ content => simp [sends] at h
  | group to_ content =>
    rw [sends] at h
    cases hget : ConnectionPool.get w.name w.pool to_ with
    | none =>
      rw [hget] at h
      cases h
    | some d =>
      rw [hget] at h
      dsimp only at h
      split at h
      · obtain rfl := Option.some.inj (mem_sendsTo h).1
        exact ConnectionPool.mem_of_get _ hget
      · cases h
  | global content =>
    obtain ⟨d, hd, h⟩ := List.mem_flatMap.mp h
    obtain rfl := Option.some.inj (mem_sendsTo h).1
    exact hl u _ hd

end Deleting

end Chatd.Protocol
