import Chatd.Net.Server.World

/-! # The `/delete` command

The requester's channel list is searched for the name, and then the channel is
taken out of the list of each of its subscribers. The inner loop of the source
compares the name of the channel being deleted with itself and counts with the
size of the requester's list, so it drops the first channel of each subscriber as
long as the requester has a channel left.
-/
namespace Chatd.Protocol
open Library Net.Server

variable {υ : Type*} [DecidableEq υ] (w : World υ) (u : υ) (c : ChannelRef) (name : Bytes)

/-- The loop over the channels of `chUser`, from index `j` on with `n` rounds left. -/
def removeFromUser (chUser : υ) : (n j : ℕ) → Except Fault (World υ)
  | 0, _ => .ok w
  | n + 1, j =>
    match (w.channels chUser)[j]? with
    | none => .error .outOfBounds
    | some _ =>
      -- the source compares `channel->name`, not `user_ch->name`
      if w.name c = name then .ok (w.setChannels chUser ((w.channels chUser).eraseIdx j))
      else removeFromUser chUser n (j + 1)

/-- The loop over the subscribers; its body leaves their list as it is. -/
def removeFromUsers (w : World υ) : List υ → Except Fault (World υ)
  | [] => .ok w
  | chUser :: users => do
    -- the inner loop counts with `user->channels`, not `ch_user->channels`
    let w ← removeFromUser w c name chUser (w.channels u).length 0
    removeFromUsers w users

/-- `cmd::Delete` executed by `u`, with the reply to its connection. -/
def delete : Except Fault (World υ × Bytes) :=
  match w.find (w.channels u) name with
  | none => .ok (w, ascii "ERR: You not in the channel!\n")
  | some c => do
    let w ← removeFromUsers u c name w (w.users c)
    .ok ({ w with pool := (ConnectionPool.remove w.name w.pool name).1 },
      ascii "SRV: Channel deleted.\n")

/-- The members whose first channel is dropped: the loop does nothing any more once
the requester, having `k` channels at first, has none left. -/
def served (u : υ) : ℕ → List υ → List υ
  | _, [] => []
  | 0, _ :: _ => []
  | k + 1, v :: users => v :: served u (if v = u then k else k + 1) users

/-- The world after the first channel of each listed user is dropped. -/
def dropHeads (users : List υ) : World υ :=
  { w with channels := fun v => if v ∈ users then (w.channels v).tail else w.channels v }

section Loops

variable {w : World υ} {u v : υ} {c : ChannelRef} {name : Bytes}

theorem removeFromUser_zero (hc : w.name c = name) {k : ℕ} (hv : w.channels v ≠ []) :
    removeFromUser w c name v (k + 1) 0 = .ok (w.setChannels v (w.channels v).tail) := by
  cases hcs : w.channels v with
  | nil => exact absurd hcs hv
  | cons d ds => simp [removeFromUser, hcs, hc]

@[simp] theorem served_zero (users : List υ) : served u 0 users = [] := by
  cases users <;> rfl

theorem served_subset (k : ℕ) (users : List υ) : served u k users ⊆ users := by
  induction users generalizing k with
  | nil => exact List.Subset.refl []
  | cons v users ih =>
    cases k with
    | zero => simp
    | succ k => exact List.cons_subset_cons v (ih _)

theorem removeFromUsers_eq (hc : w.name c = name) {users : List υ} (hn : users.Nodup)
    (hne : ∀ v ∈ users, w.channels v ≠ []) :
    removeFromUsers u c name w users =
      .ok (dropHeads w (served u (w.channels u).length users)) := by
  induction users generalizing w with
  | nil => simp [removeFromUsers, served, dropHeads]
  | cons v users ih =>
    rw [List.nodup_cons] at hn
    obtain ⟨hv, hn⟩ := hn
    rw [List.forall_mem_cons] at hne
    obtain ⟨hnv, hne⟩ := hne
    cases hk : (w.channels u).length with
    | zero =>
      rw [removeFromUsers, hk, removeFromUser, ok_bind, ih hc hn hne, hk]
      simp
    | succ k =>
      have hother (x : υ) (hx : x ∈ users) : x ≠ v := fun h => hv (h ▸ hx)
      have hlen : ((w.setChannels v (w.channels v).tail).channels u).length =
          if v = u then k else k + 1 := by
        by_cases hvu : v = u
        · subst hvu
          simp [hk]
        · rw [w.setChannels_channels_of_ne (Ne.symm hvu), hk, if_neg hvu]
      rw [removeFromUsers, hk, removeFromUser_zero hc hnv, ok_bind,
        ih (w := w.setChannels v (w.channels v).tail) hc hn, hlen, served]
      · congr 1
        refine World.ext (funext fun x => ?_) rfl rfl rfl
        by_cases hx : x = v
        · subst hx
          have hns : x ∉ served u (if x = u then k else k + 1) users :=
            fun h => hv (served_subset _ _ h)
          simp [dropHeads, hns]
        · simp [dropHeads, hx, w.setChannels_channels_of_ne hx]
      · intro x hx
        rw [w.setChannels_channels_of_ne (hother x hx)]
        exact hne x hx

theorem served_of_not_mem (k : ℕ) {users : List υ} (hu : u ∉ users) :
    served u (k + 1) users = users := by
  induction users with
  | nil => rfl
  | cons v users ih =>
    rw [List.mem_cons, not_or] at hu
    rw [served, if_neg (Ne.symm hu.1), ih hu.2]

theorem dropHeads_congr (w : World υ) {users users' : List υ} (h : ∀ v, v ∈ users ↔ v ∈ users') :
    dropHeads w users = dropHeads w users' := by
  simp only [dropHeads, h]

theorem served_of_two_le (k : ℕ) {users : List υ} (hn : users.Nodup) :
    served u (k + 2) users = users := by
  induction users with
  | nil => rfl
  | cons v users ih =>
    rw [List.nodup_cons] at hn
    by_cases hvu : v = u
    · rw [served, if_pos hvu, served_of_not_mem k (hvu ▸ hn.1)]
    · rw [served, if_neg hvu, ih hn.2]

theorem subset_served_one_iff {users : List υ} (hn : users.Nodup) (hu : u ∈ users) :
    users ⊆ served u 1 users ↔ users.getLast? = some u := by
  induction users with
  | nil => cases hu
  | cons v users ih =>
    rw [List.nodup_cons] at hn
    obtain ⟨hv, hn⟩ := hn
    by_cases hvu : v = u
    · subst hvu
      rw [served, if_pos rfl, served_zero]
      cases hl : users.getLast? with
      | none => simp [List.getLast?_eq_none_iff.mp hl]
      | some x =>
        have hx : x ∈ users := List.mem_of_getLast? hl
        have hxv : x ≠ v := fun h => hv (h ▸ hx)
        rw [List.getLast?_cons, hl]
        simp only [Option.getD_some, Option.some.injEq, hxv, iff_false]
        intro hsub
        exact hxv (List.mem_singleton.mp (hsub (List.mem_cons_of_mem v hx)))
    · have hu : u ∈ users := (List.mem_cons.mp hu).resolve_left (Ne.symm hvu)
      obtain ⟨x, hx⟩ := Option.ne_none_iff_exists'.mp
        (mt List.getLast?_eq_none_iff.mp (List.ne_nil_of_mem hu))
      rw [served, if_neg hvu, List.getLast?_cons, hx, Option.getD_some, ← hx, ← ih hn hu]
      constructor
      · intro h y hy
        exact (List.mem_cons.mp (h (List.mem_cons_of_mem v hy))).resolve_left
          fun hyv => hv (hyv ▸ hy)
      · exact fun h => List.cons_subset_cons v h

end Loops

structure Deleted (w w' : World υ) (c : ChannelRef) : Prop where
  not_mem_pool : c ∉ w'.pool
  not_mem_channels : ∀ v, c ∉ w'.channels v
  mem_pool : ∀ d, d ≠ c → d ∈ w.pool → d ∈ w'.pool
  mem_channels_iff : ∀ v d, d ≠ c → (d ∈ w'.channels v ↔ d ∈ w.channels v)
  mem_users_iff : ∀ v d, d ≠ c → (v ∈ w'.users d ↔ v ∈ w.users d)
  consistent : ConsistentOn (· ≠ c) w'

section Effect

variable {w : World υ} {u : υ} {c : ChannelRef}

/-- What `/delete` does in a consistent state. -/
theorem delete_eq (hw : Consistent w) (hu : c ∈ w.channels u) :
    delete w u (w.name c) =
      .ok ({ dropHeads w (served u (w.channels u).length (w.users c)) with
          pool := (ConnectionPool.remove w.name w.pool (w.name c)).1 },
        ascii "SRV: Channel deleted.\n") := by
  have hne (v : υ) (hv : v ∈ w.users c) : w.channels v ≠ [] :=
    List.ne_nil_of_mem ((hw.mem_users_iff v c trivial).mp hv)
  rw [delete, hw.find_name hu]
  simp only
  rw [removeFromUsers_eq rfl (hw.users_nodup c trivial) hne, ok_bind]
  rfl

/-- Dropping the channel itself from each of its subscribers is the right effect. -/
theorem deleted_of_heads (hw : Consistent w) (hc : c ∈ w.pool)
    (hhead : ∀ v ∈ w.users c, (w.channels v).head? = some c) :
    Deleted w { dropHeads w (w.users c) with
      pool := (ConnectionPool.remove w.name w.pool (w.name c)).1 } c := by
  have hpool (d : ChannelRef) :
      d ∈ (ConnectionPool.remove w.name w.pool (w.name c)).1 ↔ d ∈ w.pool ∧ d ≠ c :=
    ConnectionPool.mem_remove_nameOf w.name hw.names_nodup hc
  have hmem (v : υ) (d : ChannelRef) :
      d ∈ (dropHeads w (w.users c)).channels v ↔ d ∈ w.channels v ∧ d ≠ c := by
    by_cases hv : v ∈ w.users c
    · obtain ⟨ds, hds⟩ := List.head?_eq_some_iff.mp (hhead v hv)
      have hn := hw.channels_nodup v
      rw [hds, List.nodup_cons] at hn
      simp only [dropHeads, if_pos hv, hds, List.tail_cons, List.mem_cons]
      grind
    · have hcv : c ∉ w.channels v := mt (hw.mem_users_iff v c trivial).mpr hv
      simp only [dropHeads, if_neg hv]
      grind
  constructor
  case not_mem_pool => simp [hpool]
  case not_mem_channels => simp [hmem]
  case mem_pool => exact fun d hd h => (hpool d).mpr ⟨h, hd⟩
  case mem_channels_iff => exact fun v d hd => by simp [hmem, hd]
  case mem_users_iff => exact fun v d hd => Iff.rfl
  case consistent =>
    constructor
    case mem_users_iff =>
      exact fun v d hd => (hw.mem_users_iff v d trivial).trans (by simp [hmem, hd])
    case channels_nodup =>
      intro v
      have hn := hw.channels_nodup v
      by_cases hv : v ∈ w.users c
      · simpa [dropHeads, hv] using hn.tail
      · simpa [dropHeads, hv] using hn
    case users_nodup => exact fun d hd => hw.users_nodup d trivial
    case mem_pool_iff =>
      exact fun d hd => ((hpool d).trans (and_iff_left hd)).trans (hw.mem_pool_iff d trivial)
    case names_nodup => exact ConnectionPool.remove_names_nodup w.name hw.names_nodup _

/-- `/delete` has exactly its effect if and only if every subscriber lists the channel
first and a requester without another channel is the last subscriber. -/
theorem delete_deleted_iff (hw : Consistent w) (hu : c ∈ w.channels u) :
    (∃ w' reply, delete w u (w.name c) = .ok (w', reply) ∧ Deleted w w' c) ↔
      (∀ v ∈ w.users c, (w.channels v).head? = some c) ∧
        (w.channels u = [c] → (w.users c).getLast? = some u) := by
  have hn := hw.users_nodup c trivial
  have huc : u ∈ w.users c := (hw.mem_users_iff u c trivial).mpr hu
  rw [delete_eq hw hu]
  constructor
  · rintro ⟨w', reply, hdelete, hdeleted⟩
    cases hdelete
    have hserved (v : υ) (hv : v ∈ w.users c) :
        v ∈ served u (w.channels u).length (w.users c) ∧ c ∉ (w.channels v).tail := by
      have hnot := hdeleted.not_mem_channels v
      have hcv := (hw.mem_users_iff v c trivial).mp hv
      simp only [dropHeads] at hnot
      grind
    refine ⟨fun v hv => ?_, fun hone => ?_⟩
    · have hcv := (hw.mem_users_iff v c trivial).mp hv
      have htail := (hserved v hv).2
      cases hcs : w.channels v with
      | nil => simp [hcs] at hcv
      | cons d ds => grind
    · rw [← subset_served_one_iff hn huc]
      intro v hv
      simpa [hone] using (hserved v hv).1
  · rintro ⟨hhead, hlast⟩
    have hsub : w.users c ⊆ served u (w.channels u).length (w.users c) := by
      match hcs : w.channels u with
      | [] => simp [hcs] at hu
      | [d] =>
        have hcd : c = d := by simpa [hcs] using hu
        exact (subset_served_one_iff hn huc).mpr (hlast (hcd ▸ hcs))
      | d :: e :: ds =>
        rw [List.length_cons, List.length_cons, served_of_two_le _ hn]
        exact fun _ => id
    rw [dropHeads_congr w fun v => ⟨fun h => served_subset _ _ h, fun h => hsub h⟩]
    exact ⟨_, _, rfl, deleted_of_heads hw (hw.mem_pool hu) hhead⟩

end Effect

def soleUser (cs : List ChannelRef) : World Unit where
  channels _ := cs
  channel c := ⟨List.replicate (c + 1) 97, ascii "pw", if c ∈ cs then [()] else []⟩
  pool := cs
  next := cs.foldr (fun c n => c + n) 1

theorem soleUser_consistent {cs : List ChannelRef} (hn : cs.Nodup) : Consistent (soleUser cs) where
  mem_users_iff u c _ := by by_cases hc : c ∈ cs <;> simp [soleUser, World.users, hc]
  channels_nodup _ := hn
  users_nodup c _ := by by_cases hc : c ∈ cs <;> simp [soleUser, World.users, hc]
  mem_pool_iff c _ := by by_cases hc : c ∈ cs <;> simp [soleUser, World.users, hc]
  names_nodup := by
    apply hn.map
    intro c d h
    have hlen : c + 1 = d + 1 := by
      simpa [soleUser, World.name] using congrArg List.length h
    exact Nat.succ.inj hlen

/-- The first channel of the list can be deleted. -/
theorem delete_first : ∃ w' reply,
    delete (soleUser [0, 1]) () ((soleUser [0, 1]).name 0) = .ok (w', reply) ∧
      Deleted (soleUser [0, 1]) w' 0 :=
  (delete_deleted_iff (soleUser_consistent (by decide)) (by decide)).mpr
    ⟨fun _ _ => rfl, fun h => by cases h⟩

/-- Deleting the second channel of the list drops the first one from it. -/
theorem delete_not_deleted_second :
    ¬ ∀ (w : World Unit) (u : Unit) (c : ChannelRef), Consistent w → c ∈ w.channels u →
      ∃ w' reply, delete w u (w.name c) = .ok (w', reply) ∧ Deleted w w' c := by
  intro h
  obtain ⟨w', reply, hdelete, hdeleted⟩ :=
    h (soleUser [1, 0]) () 0 (soleUser_consistent (by decide)) (by decide)
  cases hdelete
  exact hdeleted.not_mem_channels () (by decide)

end Chatd.Protocol
