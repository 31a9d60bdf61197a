import Chatd.Net.Server.Requests

/-! # Membership is symmetric

As long as no channel is deleted, the lists of users, of channels and of the pool agree
after every request, and a request that is answered with an error has no effect.
-/
namespace Chatd.Net.Server
open Library Protocol

namespace Pool

variable {κ : Type*} [DecidableEq κ]

def isDelete : Request κ → Bool
  | .command _ (.delete _) => true
  | _ => false

def noDelete (_ : Pool κ) (r : Request κ) (_ : Pool κ) : Prop := isDelete r = false

/-- The lists of users, channels and the pool agree with one another, and none of them
holds a user or a channel name twice. -/
structure Membership (p : Pool κ) : Prop where
  mem_users_iff : ∀ u c, u ∈ p.world.users c ↔ c ∈ p.world.channels u
  registered_nodup : (p.users.map p.userName).Nodup
  users_nodup : ∀ c, ((p.world.users c).map p.userName).Nodup
  channels_nodup : ∀ u, ((p.world.channels u).map p.world.name).Nodup
  pool_nodup : (p.world.pool.map p.world.name).Nodup
  mem_pool_iff : ∀ c, c ∈ p.world.pool ↔ p.world.users c ≠ []

section Invariant

variable {p p' : Pool κ} {r : Request κ} {outs : List (Output κ)} {k : κ} {u : UserRef}

omit [DecidableEq κ] in
theorem Accounted.users_names_nodup (hp : Accounted p) (hw : Consistent p.world)
    (c : ChannelRef) : ((p.world.users c).map p.userName).Nodup := by
  apply (hw.users_nodup c trivial).map_on
  intro u hu v hv hname
  exact hp.userName_inj (hp.users_mem u c hu) (hp.users_mem v c hv) hname

theorem consistent_serve (hp : Accounted p) (hw : Consistent p.world) (hr : isDelete r = false)
    (h : p.serve r = some (p', outs)) : Consistent p'.world := by
  rcases hp.serve_world h with hsame | ⟨k, u, line, e, rfl, -, he, hworld⟩
  · rw [hsame]
    exact hw
  · rw [hworld]
    refine execute_consistent hp.allocated hw (hp.users_names_nodup hw) ?_ he
    rintro name rfl
    cases hr

theorem consistent_of_reach (h : Reach Pool.step noDelete (· = empty) p) :
    Consistent p.world := by
  apply Reach.invariant_reached (I := fun q => Consistent q.world) _ _ h
  · rintro _ rfl
    exact consistent_empty
  · intro q r q' hq hw hstep hr
    obtain ⟨⟨_, outs⟩, hserve, rfl⟩ := Option.map_eq_some_iff.mp hstep
    exact consistent_serve (accounted_of_reach hq) hw hr hserve

/-- A request that is answered with an error leaves the server as it is. -/
theorem serve_error (hp : Accounted p) (h : p.serve r = some (p', outs)) {text : Bytes}
    (herr : .reply k (ascii "ERR" ++ text) ∈ outs) : p' = p := by
  rcases hp.serve_cases h with ⟨j, -, -, rfl⟩ | ⟨j, -, rfl⟩ | rfl | ⟨j, name, password, -, -, rfl⟩ |
    ⟨j, u, name, -, -, rfl⟩ | ⟨j, line, u, e, -, -, he, rfl, rfl⟩
  · have htext := (Output.reply.inj (List.mem_singleton.mp herr)).2
    exact absurd htext.symm (not_error_of_head 87 rfl (by decide))
  · cases herr
  · rfl
  · have htext := (Output.reply.inj (List.mem_singleton.mp herr)).2
    exact absurd htext.symm (not_error_of_head 83 rfl (by decide))
  · have htext := (Output.reply.inj (List.mem_singleton.mp herr)).2
    exact absurd htext.symm (not_error_of_head 83 rfl (by decide))
  · rw [execute_error hp.allocated he (reply_mem_outputs.mp herr).2]

/-- After any registrations, subscriptions and unsubscriptions the lists agree, and
every request that is answered with an error leaves them as they are. -/
theorem membership_of_reach (h : Reach Pool.step noDelete (· = empty) p) :
    Membership p ∧ ∀ r p' outs k text, p.serve r = some (p', outs) →
      .reply k (ascii "ERR" ++ text) ∈ outs → p' = p := by
  have hp : Accounted p := accounted_of_reach h
  have hw : Consistent p.world := consistent_of_reach h
  constructor
  · constructor
    case mem_users_iff => exact fun u c => hw.mem_users_iff u c trivial
    case registered_nodup => exact hp.names_nodup
    case users_nodup => exact hp.users_names_nodup hw
    case channels_nodup => exact hw.channels_names_nodup
    case pool_nodup => exact hw.names_nodup
    case mem_pool_iff => exact fun c => hw.mem_pool_iff c trivial
  · intro r p' outs k text hserve herr
    exact serve_error hp hserve herr

end Invariant

/-- Two users share a channel, and one of them is refused a second subscription. -/
theorem membership_of_reach_both : ∃ p : Pool Bool, p.world.users 0 = [0, 1] ∧ Membership p ∧
    p.step (.command true (.subscribe (ascii "room") (ascii "pw"))) = some p := by
  have hrun : ∃ p, Reach Pool.step noDelete (· = (empty : Pool Bool)) p ∧
      decide (p.world.users 0 = [0, 1] ∧ p.session true = some 0 ∧
        (p.world.find (p.world.channels 0) (ascii "room")).isSome = true) = true :=
    exists_reach_of_checkedRun (c := fun _ r => !isDelete r)
      (fun _ r _ hr _ => by simpa [noDelete] using hr) rfl bothJoin (by decide)
  obtain ⟨p, hp, hcheck⟩ := hrun
  obtain ⟨husers, hsession, hfind⟩ := of_decide_eq_true hcheck
  have hserve : ∃ p' outs, p.serve (.command true (.subscribe (ascii "room") (ascii "pw"))) =
      some (p', outs) ∧ .reply true (ascii "ERR" ++ ascii ": You are already in the channel!\n")
        ∈ outs := by
    rw [serve, hsession]
    exact ⟨_, _, rfl, by simp [outputs, subscribe, hfind]; rfl⟩
  obtain ⟨p', outs, hserve, herr⟩ := hserve
  refine ⟨p, husers, (membership_of_reach hp).1, ?_⟩
  rw [step, hserve, (membership_of_reach hp).2 _ _ _ _ _ hserve herr]
  rfl

end Pool

end Chatd.Net.Server
