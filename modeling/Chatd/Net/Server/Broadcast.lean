import Chatd.Net.Server.Routing

/-! # Messages without an addressee

The handler runs over the channels of the sender and over the users of each, and calls
`send_msg` for every one of them. A user is called once for each channel in common, and
nothing tells these calls apart.
-/
namespace Chatd.Net.Server
open Library Protocol

namespace Pool

variable {κ : Type*} [DecidableEq κ]

def messageCopies (j : κ) (msg : Message) (outs : List (Output κ)) : ℕ :=
  outs.countP fun o =>
    match o with
    | .message k _ _ m => k = j && m = msg
    | .reply _ _ => false

def sharedChannels (p : Pool κ) (u v : UserRef) : List ChannelRef :=
  (p.world.channels u).filter fun c => c ∈ p.world.channels v

/-- A message is enqueued to the connections of each other user as often as `times` says, and to
no connection of the sender or of a user without a channel in common. -/
structure BroadcastTo (times : UserRef → ℕ) (p : Pool κ) (u : UserRef) (msg : Message)
    (outs : List (Output κ)) : Prop where
  peers : ∀ j ∈ p.conns, ∀ v, p.session j = some v → v ≠ u → p.sharedChannels u v ≠ [] →
    messageCopies j msg outs = times v
  none_else : ∀ j, (∀ v, j ∈ p.conns → p.session j = some v → v = u ∨ p.sharedChannels u v = []) →
    messageCopies j msg outs = 0

variable {p : Pool κ} {u v : UserRef} {j k : κ} {msg : Message} {cs : List ChannelRef}
  {content : Bytes}

theorem messageCopies_deliver (reply : Option Bytes)
    (sends : List (Option ChannelRef × Bytes)) :
    messageCopies j msg ((reply.map (Output.reply k)).toList ++ p.deliver u msg sends) =
      copies j (p.deliver u msg sends) := by
  have hreply : (reply.map (Output.reply k)).toList.countP (fun o =>
      match o with
      | .message k _ _ m => k = j && m = msg
      | .reply _ _ => false) = 0 := by
    cases reply <;> rfl
  rw [messageCopies, List.countP_append, hreply, Nat.zero_add, copies]
  apply List.countP_congr
  intro o ho
  obtain ⟨i, cause, rfl⟩ := only_deliver ho
  simp only [Output.receiver, decide_true, Bool.and_true]
  exact Iff.rfl

/-- The calls for the channels of a list meet a connection of another user once for each of
them that the user is subscribed to. -/
theorem countP_sends_peer (hp : Accounted p) (hw : Consistent p.world) (hu : u ∈ p.users)
    (hj : j ∈ p.conns) (hv : p.session j = some v) (hne : v ≠ u) :
    ((cs.flatMap (sendsTo p.userName p.world u)).countP fun send => j ∈ p.recipients send.2) =
      cs.countP fun c => v ∈ p.world.users c := by
  induction cs with
  | nil => rfl
  | cons c cs ih =>
    rw [List.flatMap_cons, List.countP_append, ih, List.countP_cons, Nat.add_comm]
    congr 1
    by_cases hvc : v ∈ p.world.users c
    · rw [(countP_sendsTo hp hw hu c).1 ⟨hj, v, hv, hvc, hne⟩, if_pos (decide_eq_true hvc)]
    · rw [(countP_sendsTo hp hw hu c).2, if_neg (by simpa using hvc)]
      rintro ⟨-, x, hx, hxc, -⟩
      rw [hv] at hx
      cases hx
      exact hvc hxc

theorem countP_sends_none (hp : Accounted p) (hw : Consistent p.world) (hu : u ∈ p.users)
    (hnone : ∀ c ∈ cs, ∀ v, j ∈ p.conns → p.session j = some v → v ∈ p.world.users c → v = u) :
    ((cs.flatMap (sendsTo p.userName p.world u)).countP fun send => j ∈ p.recipients send.2) =
      0 := by
  induction cs with
  | nil => rfl
  | cons c cs ih =>
    rw [List.flatMap_cons, List.countP_append,
      ih fun d hd => hnone d (List.mem_cons_of_mem c hd), (countP_sendsTo hp hw hu c).2]
    rintro ⟨hj, v, hv, hvc, hne⟩
    exact hne (hnone c List.mem_cons_self v hj hv hvc)

omit [DecidableEq κ] in
theorem countP_users (hw : Consistent p.world) :
    ((p.world.channels u).countP fun c => v ∈ p.world.users c) =
      (p.sharedChannels u v).length := by
  rw [sharedChannels, List.countP_eq_length_filter]
  congr 1
  apply List.filter_congr
  intro c _
  rw [decide_eq_decide]
  exact hw.mem_users_iff v c trivial

/-- A message without an addressee leaves the lists alone, and each connection of another user
is enqueued a copy for every channel in common. -/
theorem global_broadcastTo (hp : Accounted p) (hw : Consistent p.world)
    (hk : p.session k = some u) (content : Bytes) :
    ∃ outs, p.serve (.command k (.message (.global content))) = some (p, outs) ∧
      BroadcastTo (fun v => (p.sharedChannels u v).length) p u (.global content) outs := by
  have hu := hp.session_mem k u hk
  refine ⟨_, serve_message hk _, fun j hj v hv hne _ => ?_, fun j hnone => ?_⟩
  · rw [messageCopies_deliver, copies_deliver hp, sends]
    exact (countP_sends_peer hp hw hu hj hv hne).trans (countP_users hw)
  · rw [messageCopies_deliver, copies_deliver hp, sends]
    apply countP_sends_none hp hw hu
    intro c hc v hj hv hvc
    rcases hnone v hj hv with heq | hnil
    · exact heq
    · have hshared : c ∈ p.sharedChannels u v :=
        List.mem_filter.mpr ⟨hc, decide_eq_true ((hw.mem_users_iff v c trivial).mp hvc)⟩
      rw [hnil] at hshared
      cases hshared

/-- A peer is sent one copy exactly when no peer shares two channels. -/
theorem global_once_iff (hp : Accounted p) (hw : Consistent p.world) (hk : p.session k = some u)
    (content : Bytes) :
    (∃ outs, p.serve (.command k (.message (.global content))) = some (p, outs) ∧
      BroadcastTo (fun _ => 1) p u (.global content) outs) ↔
      ∀ j ∈ p.conns, ∀ v, p.session j = some v → v ≠ u → (p.sharedChannels u v).length ≤ 1 := by
  obtain ⟨outs, hserve, hsent⟩ := global_broadcastTo hp hw hk content
  constructor
  · rintro ⟨outs', hserve', honce⟩ j hj v hv hne
    rw [hserve] at hserve'
    cases hserve'
    by_cases hnil : p.sharedChannels u v = []
    · rw [hnil]
      exact Nat.zero_le 1
    · have hone : (p.sharedChannels u v).length = 1 :=
        (hsent.peers j hj v hv hne hnil).symm.trans (honce.peers j hj v hv hne hnil)
      exact Nat.le_of_eq hone
  · intro hshared
    refine ⟨outs, hserve, fun j hj v hv hne hnil => ?_, hsent.none_else⟩
    have hpos := List.length_pos_of_ne_nil hnil
    have hle := hshared j hj v hv hne
    rw [hsent.peers j hj v hv hne hnil]
    omega

/-- In every state reached, a message without an addressee is enqueued to each connection of
every other user once for each channel in common, and to no other connection. -/
theorem global_routing (h : Reach Pool.step noDelete (· = empty) p) (hk : p.session k = some u)
    (content : Bytes) :
    ∃ outs, p.serve (.command k (.message (.global content))) = some (p, outs) ∧
      BroadcastTo (fun v => (p.sharedChannels u v).length) p u (.global content) outs :=
  global_broadcastTo (accounted_of_reach h) (consistent_of_reach h) hk content

def twoChannels : List (Request Bool) :=
  bothJoin ++
    [.command true (.subscribe (ascii "club") (ascii "pw")),
      .command false (.subscribe (ascii "club") (ascii "pw"))]

theorem reach_twoChannels : ∃ p : Pool Bool, Reach Pool.step noDelete (· = empty) p ∧
    p.conns = [true, false] ∧ p.session true = some 0 ∧ p.session false = some 1 ∧
    p.sharedChannels 0 1 = [0, 1] := by
  have hrun : ∃ p, Reach Pool.step noDelete (· = (empty : Pool Bool)) p ∧
      decide (p.conns = [true, false] ∧ p.session true = some 0 ∧ p.session false = some 1 ∧
        p.sharedChannels 0 1 = [0, 1]) = true :=
    exists_reach_of_checkedRun (c := fun _ r => !isDelete r)
      (fun _ r _ hr _ => by simpa [noDelete] using hr) rfl twoChannels (by decide)
  obtain ⟨p, hp, hcheck⟩ := hrun
  exact ⟨p, hp, of_decide_eq_true hcheck⟩

/-- The other user is sent the message twice. -/
theorem global_routing_twice : ∃ (p : Pool Bool) (outs : List (Output Bool)),
    p.serve (.command true (.message (.global (ascii "hi")))) = some (p, outs) ∧
      messageCopies false (.global (ascii "hi")) outs = 2 := by
  obtain ⟨p, hp, hconns, h0, h1, hshared⟩ := reach_twoChannels
  obtain ⟨outs, hserve, hsent⟩ := global_routing hp h0 (ascii "hi")
  refine ⟨p, outs, hserve, ?_⟩
  rw [hsent.peers false (by simp [hconns]) 1 h1 (by decide) (by simp [hshared]), hshared]
  rfl

/-- So a broadcast does not reach each peer once. -/
theorem not_global_once : ¬ ∀ (p : Pool Bool) (k : Bool) (u : UserRef) (content : Bytes),
    Reach Pool.step noDelete (· = empty) p → p.session k = some u →
      ∃ outs, p.serve (.command k (.message (.global content))) = some (p, outs) ∧
        BroadcastTo (fun _ => 1) p u (.global content) outs := by
  intro hall
  obtain ⟨p, hp, hconns, h0, h1, hshared⟩ := reach_twoChannels
  have honce := (global_once_iff (accounted_of_reach hp) (consistent_of_reach hp) h0 _).mp
    (hall p true 0 (ascii "hi") hp h0) false (by simp [hconns]) 1 h1 (by decide)
  rw [hshared] at honce
  exact absurd honce (by decide)

end Pool

end Chatd.Net.Server
