import Chatd.Net.Server.Broadcast
import Chatd.Protocol.Alike

/-! # Runs with `/delete`

As long as each `/delete` has its effect, the memberships of the channels of the pool stay
symmetric, messages are routed as before, and a channel that has been deleted is never heard
of again.
-/
namespace Chatd.Net.Server
open Library Protocol

namespace Pool

variable {κ : Type*} [DecidableEq κ]

/-- The server with the subscribers of deleted channels forgotten. -/
def forget (p : Pool κ) : Pool κ := { p with world := bury p.world }

def deletion : Request κ → Option (κ × Bytes)
  | .command k (.delete name) => some (k, name)
  | _ => none

/-- Each `/delete` of a user for one of its channels meets the condition under which it has
its effect. -/
def Orderly (p : Pool κ) (r : Request κ) (_ : Pool κ) : Prop :=
  ∀ d ∈ deletion r, ∀ u ∈ p.session d.1, ∀ c ∈ p.world.channels u, p.world.name c = d.2 →
    DeletedFirst p.world u c

instance (p : Pool κ) (r : Request κ) (p' : Pool κ) : Decidable (Orderly p r p') :=
  inferInstanceAs (Decidable (∀ d ∈ deletion r, ∀ u ∈ p.session d.1, ∀ c ∈ p.world.channels u,
    p.world.name c = d.2 → DeletedFirst p.world u c))

/-- What holds of the lists when channels have been deleted. -/
structure LiveMembership (p : Pool κ) : Prop where
  mem_users_iff : ∀ u, ∀ c ∈ p.world.pool, u ∈ p.world.users c ↔ c ∈ p.world.channels u
  mem_pool : ∀ u, ∀ c ∈ p.world.channels u, c ∈ p.world.pool
  users_ne_nil : ∀ c ∈ p.world.pool, p.world.users c ≠ []
  users_nodup : ∀ c ∈ p.world.pool, ((p.world.users c).map p.userName).Nodup
  channels_nodup : ∀ u, ((p.world.channels u).map p.world.name).Nodup
  pool_nodup : (p.world.pool.map p.world.name).Nodup

section Runs

variable {p p' q q' : Pool κ} {r : Request κ} {outs : List (Output κ)} {k : κ} {u : UserRef}

omit [DecidableEq κ] in
theorem listed_of_forget (hw : Consistent p.forget.world) : Listed p.world :=
  fun _ _ hc => hw.mem_pool hc

omit [DecidableEq κ] in
theorem Accounted.forget (hp : Accounted p) : Accounted p.forget where
  users_lt := hp.users_lt
  names_nodup := hp.names_nodup
  session_mem := hp.session_mem
  conns_nodup := hp.conns_nodup
  channels_mem := hp.channels_mem
  users_mem u c hu := by
    refine hp.users_mem u c ?_
    have hmem : u ∈ (bury p.world).users c := hu
    rw [bury_users] at hmem
    split at hmem
    · exact hmem
    · cases hmem
  allocated := by
    refine ⟨hp.allocated.pool, hp.allocated.channels, fun u c hu => ?_⟩
    have hmem : u ∈ (bury p.world).users c := hu
    rw [bury_users] at hmem
    split at hmem
    · exact hp.allocated.users u c hmem
    · cases hmem

omit [DecidableEq κ] in
/-- A `/delete` under the condition takes the channel out and keeps the lists consistent. -/
theorem forget_delete (hp : Accounted p) (hw : Consistent p.forget.world) {c : ChannelRef}
    (hc : c ∈ p.world.channels u) (hfirst : DeletedFirst p.world u c) {e : Effect UserRef}
    (he : execute p.userName p.world u (.delete (p.world.name c)) = .ok e) :
    Consistent (bury e.world) ∧ c ∉ e.world.pool := by
  have halike := alike_bury p.world
  obtain ⟨e', he', hworld, -, -⟩ :=
    halike.execute (listed_of_forget hw) hp.allocated hp.forget.allocated he
  obtain ⟨⟨w', reply⟩, hdelete, hrest⟩ := bind_eq_ok he'
  cases hrest
  rw [DeletedFirst, halike.users c (hw.mem_pool hc)] at hfirst
  rw [halike.name] at hdelete
  obtain ⟨hconsistent, hgone⟩ := delete_consistent hw hc hfirst hdelete
  rw [hworld.bury_eq, hworld.pool]
  exact ⟨hconsistent, hgone⟩

/-- An allowed request keeps the lists consistent, deleted channels forgotten. -/
theorem consistent_forget_serve (hp : Accounted p) (hw : Consistent p.forget.world)
    (hr : Orderly p r p') (h : p.serve r = some (p', outs)) : Consistent p'.forget.world := by
  rcases hp.serve_world h with hsame | ⟨k, u, line, e, rfl, hk, he, hworld⟩
  · rw [forget, hsame]
    exact hw
  rw [show p'.forget.world = bury e.world by rw [← hworld]; rfl]
  by_cases hline : ∃ name, line = .delete name
  · obtain ⟨name, rfl⟩ := hline
    obtain ⟨⟨w', reply⟩, hdelete, hrest⟩ := bind_eq_ok he
    rcases delete_cases hdelete with rfl | ⟨c, hc, rfl⟩
    · cases hrest
      exact hw
    · exact (forget_delete hp hw hc (hr _ rfl u hk c hc rfl) he).1
  · obtain ⟨e', he', halike, -, -⟩ := (alike_bury p.world).execute (listed_of_forget hw)
      hp.allocated hp.forget.allocated he
    have hconsistent := execute_consistent hp.forget.allocated hw
      (hp.forget.users_names_nodup hw) (fun name hname => hline ⟨name, hname⟩) he'
    rw [halike.bury_eq, bury_of_consistent hconsistent]
    exact hconsistent

theorem consistent_forget_of_reach (h : Reach Pool.step Orderly (· = empty) p) :
    Consistent p.forget.world := by
  apply Reach.invariant_reached (I := fun q => Consistent q.forget.world) _ _ h
  · rintro _ rfl
    rw [show (empty : Pool κ).forget.world = bury World.empty from rfl,
      bury_of_consistent consistent_empty]
    exact consistent_empty
  · intro q r q' hq hw hstep hr
    obtain ⟨⟨_, outs⟩, hserve, rfl⟩ := Option.map_eq_some_iff.mp hstep
    exact consistent_forget_serve (accounted_of_reach hq) hw hr hserve

/-- After any requests whose deletions have their effect, the subscriptions to the channels
of the pool agree with one another, and nobody is subscribed to any other channel. -/
theorem live_membership_of_reach (h : Reach Pool.step Orderly (· = empty) p) :
    LiveMembership p := by
  have hp : Accounted p := accounted_of_reach h
  have hw := consistent_forget_of_reach h
  have halike := alike_bury p.world
  have hnames := hp.forget.users_names_nodup hw
  constructor
  case mem_users_iff =>
    intro u c hc
    rw [halike.users c hc]
    exact hw.mem_users_iff u c trivial
  case mem_pool => exact fun u c hc => hw.mem_pool hc
  case users_ne_nil =>
    intro c hc
    rw [halike.users c hc]
    exact (hw.mem_pool_iff c trivial).mp hc
  case users_nodup =>
    intro c hc
    rw [halike.users c hc]
    exact hnames c
  case channels_nodup =>
    intro u
    rw [halike.name]
    exact hw.channels_names_nodup u
  case pool_nodup =>
    rw [halike.name]
    exact hw.names_nodup

/-- A channel that has left the pool does not come back. -/
theorem gone_of_reach (h : Reach Pool.step Orderly (· = empty) p) {c : ChannelRef}
    (hlt : c < p.world.next) (hc : c ∉ p.world.pool)
    (hq : Reach Pool.step Orderly (· = p) q) :
    Reach Pool.step Orderly (· = empty) q ∧ c < q.world.next ∧ c ∉ q.world.pool := by
  induction hq with
  | start hs =>
    subst hs
    exact ⟨h, hlt, hc⟩
  | next hq hstep hr ih =>
    obtain ⟨hreach, hlt, hc⟩ := ih
    refine ⟨.next hreach hstep hr, ?_⟩
    obtain ⟨⟨_, outs⟩, hserve, rfl⟩ := Option.map_eq_some_iff.mp hstep
    have hp := accounted_of_reach hreach
    rcases hp.serve_world hserve with hsame | ⟨k, u, line, e, -, -, he, hworld⟩
    · rw [hsame]
      exact ⟨hlt, hc⟩
    · obtain ⟨hnext, hpool⟩ := pool_of_execute hp.allocated he
      rw [hworld]
      refine ⟨Nat.lt_of_lt_of_le hlt hnext, fun hmem => ?_⟩
      rcases hpool c hmem with hmem | rfl
      · exact hc hmem
      · exact Nat.lt_irrefl _ hlt

/-- Once a channel is deleted, nobody is subscribed to it in any later state, and no later
line makes the server send a message for it. -/
theorem deleted_channel_silent (h : Reach Pool.step Orderly (· = empty) p) {c : ChannelRef}
    (hk : p.session k = some u) (hc : c ∈ p.world.channels u)
    (hserve : p.serve (.command k (.delete (p.world.name c))) = some (p', outs))
    (hr : Orderly p (.command k (.delete (p.world.name c))) p')
    (hq : Reach Pool.step Orderly (· = p') q) :
    c ∉ q.world.pool ∧ (∀ v, c ∉ q.world.channels v) ∧
      ∀ k line q' outs', q.serve (.command k line) = some (q', outs') →
        ∀ j sender msg, .message j (some c) sender msg ∉ outs' := by
  have hp : Accounted p := accounted_of_reach h
  obtain ⟨_, e, hsession, he, rfl, -⟩ := serve_command hserve
  cases hk.symm.trans hsession
  have hgone : c ∉ e.world.pool :=
    (forget_delete hp (consistent_forget_of_reach h) hc (hr _ rfl u hk c hc rfl) he).2
  have hlt : c < e.world.next :=
    Nat.lt_of_lt_of_le (hp.allocated.channels u c hc) (pool_of_execute hp.allocated he).1
  have hp' : Reach Pool.step Orderly (· = empty) { p with world := e.world } :=
    .next h (by rw [Pool.step, hserve]; rfl) hr
  obtain ⟨hreach, -, hpool⟩ := gone_of_reach hp' hlt hgone hq
  have hlisted := listed_of_forget (consistent_forget_of_reach hreach)
  refine ⟨hpool, fun v hv => hpool (hlisted v c hv), ?_⟩
  intro k' line q' outs' hline j sender msg hmem
  obtain ⟨v, e', -, he', -, rfl⟩ := serve_command hline
  obtain ⟨rfl, rfl, name, hname, -⟩ := message_mem_outputs hmem
  cases he'
  exact hpool (cause_mem_pool hlisted hname)

end Runs

def secondChannel : List (Request Bool) :=
  bothJoin ++ [.command true (.subscribe (ascii "hall") (ascii "pw"))]

theorem orderly_of_check (p : Pool Bool) (r : Request Bool) (p' : Pool Bool)
    (h : decide (Orderly p r p) = true) (_ : p.step r = some p') : Orderly p r p' :=
  of_decide_eq_true h

/-- The deleted channel keeps its subscribers, and the lists agree on the other one. -/
theorem live_membership_of_reach_deleted : ∃ p : Pool Bool, p.world.users 0 = [0, 1] ∧
    p.world.pool = [1] ∧ p.world.channels 0 = [1] ∧ p.world.channels 1 = [] ∧
    LiveMembership p := by
  have hrun : ∃ p, Reach Pool.step Orderly (· = (empty : Pool Bool)) p ∧
      decide (p.world.users 0 = [0, 1] ∧ p.world.pool = [1] ∧ p.world.channels 0 = [1] ∧
        p.world.channels 1 = []) = true :=
    exists_reach_of_checkedRun (c := fun p r => decide (Orderly p r p))
      orderly_of_check rfl
      (secondChannel ++ [.command true (.delete (ascii "room"))]) (by decide)
  obtain ⟨p, hp, hcheck⟩ := hrun
  obtain ⟨husers, hpool, hfirst, hsecond⟩ := of_decide_eq_true hcheck
  exact ⟨p, husers, hpool, hfirst, hsecond, live_membership_of_reach hp⟩

/-- The name of the deleted channel is taken again, and a message is sent to the new one. -/
theorem deleted_channel_silent_recreated : ∃ (q q' : Pool Bool) (outs : List (Output Bool)),
    q.serve (.command true (.message (.group (ascii "room") (ascii "hi")))) = some (q', outs) ∧
      q.world.name 0 = ascii "room" ∧ q.world.pool = [1, 2] ∧ 0 < outs.length ∧
      ∀ j sender msg, .message j (some 0) sender msg ∉ outs := by
  let again : List (Request Bool) :=
    [.command false (.subscribe (ascii "room") (ascii "other")),
      .command true (.subscribe (ascii "room") (ascii "other"))]
  have hrun : ∃ p, Reach Pool.step Orderly (· = (empty : Pool Bool)) p ∧
      (decide (p.session true = some 0 ∧ 0 ∈ p.world.channels 0 ∧
          Orderly p (.command true (.delete (p.world.name 0))) p) &&
        (p.serve (.command true (.delete (p.world.name 0)))).any fun r =>
          (checkedRun Pool.step (fun p r => decide (Orderly p r p)) r.1 again).any fun q =>
            (q.serve (.command true (.message (.group (ascii "room") (ascii "hi"))))).any
              fun r => decide (q.world.name 0 = ascii "room" ∧ q.world.pool = [1, 2] ∧
                0 < r.2.length)) = true :=
    exists_reach_of_checkedRun (c := fun p r => decide (Orderly p r p))
      orderly_of_check rfl secondChannel (by decide)
  obtain ⟨p, hp, hcheck⟩ := hrun
  rw [Bool.and_eq_true, Option.any_eq_true] at hcheck
  obtain ⟨hbefore, ⟨p', outs⟩, hdelete, hafter⟩ := hcheck
  obtain ⟨hsession, hmem, horderly⟩ := of_decide_eq_true hbefore
  obtain ⟨q, hq, hserve⟩ := (Option.any_eq_true ..).mp hafter
  obtain ⟨⟨q', outs'⟩, hmessage, hfacts⟩ := (Option.any_eq_true ..).mp hserve
  obtain ⟨hname, hpool, hlength⟩ := of_decide_eq_true hfacts
  have hreach : Reach Pool.step Orderly (· = p') q :=
    Reach.of_checkedRun orderly_of_check (.start rfl) again hq
  obtain ⟨-, -, hsilent⟩ := deleted_channel_silent hp hsession hmem hdelete horderly hreach
  exact ⟨q, q', outs', hmessage, hname, hpool, hlength, hsilent _ _ _ _ hmessage⟩

end Pool

end Chatd.Net.Server
