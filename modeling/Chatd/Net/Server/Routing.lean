import Chatd.Net.Server.Membership

/-! # Whom a message is sent to

`send_msg` scans the connections for a user name, and a group message calls it for each
other subscriber. Names are unique among the registered users and among the subscribers
of a channel, so no connection is met twice.
-/
namespace Chatd.Net.Server
open Library Protocol

namespace Pool

variable {κ : Type*} [DecidableEq κ]

def copies (j : κ) (outs : List (Output κ)) : ℕ := outs.countP fun o => o.receiver = j

section Delivery

variable {p : Pool κ} {u v : UserRef} {j k : κ} {name : Bytes} {msg : Message}
  {sends : List (Option ChannelRef × Bytes)}

/-- No connection receives two copies from one call of `send_msg`. -/
theorem copies_deliver (hp : Accounted p) :
    copies j (p.deliver u msg sends) = sends.countP fun send => j ∈ p.recipients send.2 := by
  induction sends with
  | nil => rfl
  | cons send sends ih =>
    have hn : (p.recipients send.2).Nodup := hp.conns_nodup.filter _
    have hone : copies j ((p.recipients send.2).map fun k => .message k send.1 u msg) =
        if j ∈ p.recipients send.2 then 1 else 0 := by
      rw [copies, List.countP_map, ← hn.count, List.count]
      rfl
    rw [deliver, List.flatMap_cons, copies, List.countP_append, List.countP_cons]
    rw [copies] at hone ih
    rw [hone, ← ih, Nat.add_comm, deliver]
    simp

omit [DecidableEq κ] in
theorem only_deliver {o : Output κ} (h : o ∈ p.deliver u msg sends) :
    ∃ j cause, o = .message j cause u msg := by
  obtain ⟨send, -, ho⟩ := List.mem_flatMap.mp h
  obtain ⟨j, -, rfl⟩ := List.mem_map.mp ho
  exact ⟨j, send.1, rfl⟩

omit [DecidableEq κ] in
theorem mem_otherNames (hp : Accounted p) (hu : u ∈ p.users) (hv : v ∈ p.users)
    (c : ChannelRef) :
    p.userName v ∈ (((p.world.users c).map p.userName).filter fun name => p.userName u != name) ↔
      v ∈ p.world.users c ∧ v ≠ u := by
  rw [List.mem_filter, List.mem_map, bne_iff_ne]
  constructor
  · rintro ⟨⟨x, hx, hname⟩, hne⟩
    have hxv : x = v := hp.userName_inj (hp.users_mem x c hx) hv hname
    exact ⟨hxv ▸ hx, fun h => hne (by rw [h])⟩
  · rintro ⟨hvc, hne⟩
    exact ⟨⟨v, hvc, rfl⟩, fun h => hne (hp.userName_inj hu hv h).symm⟩

/-- The connections of each other subscriber are met once, and no other connections. -/
theorem countP_sendsTo (hp : Accounted p) (hw : Consistent p.world) (hu : u ∈ p.users)
    (c : ChannelRef) :
    (j ∈ p.conns ∧ (∃ v, p.session j = some v ∧ v ∈ p.world.users c ∧ v ≠ u) →
      ((sendsTo p.userName p.world u c).countP fun send => j ∈ p.recipients send.2) = 1) ∧
    (¬ (j ∈ p.conns ∧ ∃ v, p.session j = some v ∧ v ∈ p.world.users c ∧ v ≠ u) →
      ((sendsTo p.userName p.world u c).countP fun send => j ∈ p.recipients send.2) = 0) := by
  have hn : (((p.world.users c).map p.userName).filter fun name => p.userName u != name).Nodup :=
    (hp.users_names_nodup hw c).filter _
  constructor
  · rintro ⟨hj, v, hv, hvc, hne⟩
    have hvu := hp.session_mem j v hv
    have hcalled (name : Bytes) : j ∈ p.recipients name ↔ name = p.userName v := by
      rw [mem_recipients]
      simp [hj, hv, eq_comm]
    have hcount := List.nodup_iff_count_eq_one.mp hn _
      ((mem_otherNames hp hu hvu c).mpr ⟨hvc, hne⟩)
    rw [sendsTo, List.countP_map, ← hcount, List.count]
    refine List.countP_congr fun name _ => ?_
    simp [hcalled]
  · intro hnot
    rw [sendsTo, List.countP_map, List.countP_eq_zero]
    intro name hname hrec
    obtain ⟨hj, v, hv, rfl⟩ := mem_recipients.mp (of_decide_eq_true hrec)
    exact hnot ⟨hj, v, hv, (mem_otherNames hp hu (hp.session_mem j v hv) c).mp hname⟩

end Delivery

section Routing

variable {p : Pool κ} {u : UserRef} {k : κ} {to_ content : Bytes} {c : ChannelRef}

theorem serve_message (hk : p.session k = some u) (msg : Message) :
    p.serve (.command k (.message msg)) =
      some (p, ((sends p.userName p.world u msg).2.map (Output.reply k)).toList ++
        p.deliver u msg (sends p.userName p.world u msg).1) := by
  rw [serve, hk]
  rfl

end Routing

end Pool

end Chatd.Net.Server
