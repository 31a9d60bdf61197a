import Chatd.Net.Server.Requests

/-! # Who reads a channel

Whoever sends to a channel or receives from it has at some time subscribed with its
name and its password. This needs no agreement between the lists, so that it survives
`/delete`: the lists grow only by the memberships that a `/subscribe` grants, and names
and passwords of channels never change.
-/
namespace Chatd.Net.Server
open Library Protocol

/-- A server with the lines it has handled and the users that sent them. -/
structure Traced (κ : Type*) where
  pool : Pool κ
  history : List (UserRef × Line)

namespace Traced

variable {κ : Type*} [DecidableEq κ]

def empty : Traced κ := ⟨.empty, []⟩

def lineOf (p : Pool κ) : Request κ → List (UserRef × Line)
  | .command k line => ((p.session k).map (·, line)).toList
  | _ => []

def step (t : Traced κ) (r : Request κ) : Option (Traced κ) :=
  (t.pool.step r).map fun p => ⟨p, t.history ++ lineOf t.pool r⟩

/-- The user has executed a `/subscribe` with the name and the password of the channel. -/
def Knows (t : Traced κ) (v : UserRef) (c : ChannelRef) : Prop :=
  (v, Line.subscribe (t.pool.world.name c) (t.pool.world.channel c).password) ∈ t.history

/-- Both sides of every subscription know the channel. -/
structure Granted (t : Traced κ) : Prop where
  accounted : t.pool.Accounted
  channels : ∀ v, ∀ c ∈ t.pool.world.channels v, t.Knows v c
  users : ∀ v c, v ∈ t.pool.world.users c → t.Knows v c

variable {t t' : Traced κ} {r : Request κ}

omit [DecidableEq κ] in
theorem granted_empty : Granted (empty : Traced κ) where
  accounted := Pool.accounted_empty
  channels _ _ h := by cases h
  users _ _ h := by cases h

theorem Granted.step (ht : Granted t) (h : step t r = some t') : Granted t' := by
  obtain ⟨p', hp', rfl⟩ := Option.map_eq_some_iff.mp h
  obtain ⟨⟨p', outs⟩, hserve, rfl⟩ := Option.map_eq_some_iff.mp hp'
  have hlater (v : UserRef) (c : ChannelRef) (hname : p'.world.name c = t.pool.world.name c)
      (hpassword : (p'.world.channel c).password = (t.pool.world.channel c).password)
      (hv : t.Knows v c) : Knows ⟨p', t.history ++ lineOf t.pool r⟩ v c := by
    apply List.mem_append_left
    dsimp only
    rw [hname, hpassword]
    exact hv
  rcases ht.accounted.serve_world hserve with hsame | ⟨k, u, line, e, rfl, hk, he, hworld⟩
  · refine ⟨ht.accounted.serve hserve, fun v c hc => ?_, fun v c hv => ?_⟩
    · exact hlater v c (by rw [hsame]) (by rw [hsame]) (ht.channels v c (by rwa [← hsame]))
    · exact hlater v c (by rw [hsame]) (by rw [hsame]) (ht.users v c (by rwa [← hsame]))
  · have hevolves := execute_evolves ht.accounted.allocated he
    rw [← hworld] at hevolves
    have hline : (u, line) ∈ t.history ++ lineOf t.pool (.command k line) := by
      apply List.mem_append_right
      rw [lineOf, hk]
      exact List.mem_singleton_self _
    refine ⟨ht.accounted.serve hserve, fun v c hc => ?_, fun v c hv => ?_⟩
    · rcases hevolves.channels v c hc with hold | ⟨rfl, rfl⟩
      · have hlt := ht.accounted.allocated.channels v c hold
        exact hlater v c (hevolves.name c hlt) (hevolves.password c hlt) (ht.channels v c hold)
      · exact hline
    · rcases hevolves.users v c hv with hold | ⟨rfl, rfl⟩
      · have hlt := ht.accounted.allocated.users v c hold
        exact hlater v c (hevolves.name c hlt) (hevolves.password c hlt) (ht.users v c hold)
      · exact hline

theorem granted_of_reach (h : Reach step anyStep (· = empty) t) : Granted t :=
  Reach.invariant (I := Granted) (fun _ h0 => h0 ▸ granted_empty)
    (fun _ _ _ ht hstep _ => ht.step hstep) h

/-- Whatever lines are handled, a message that is enqueued because of a channel has a
sender and a reader who both know the channel, and a direct message reaches the
addressed name only. -/
theorem channel_confidentiality (h : Reach step anyStep (· = empty) t) {k : κ} {line : Line}
    {p' : Pool κ} {outs : List (Output κ)}
    (hserve : t.pool.serve (.command k line) = some (p', outs)) {j : κ}
    {cause : Option ChannelRef} {sender : UserRef} {msg : Message}
    (hmem : .message j cause sender msg ∈ outs) :
    t.pool.session k = some sender ∧ line = .message msg ∧ ∃ v, t.pool.session j = some v ∧
      ((∃ content, msg = .direct (t.pool.userName v) content) ∨
        msg.isDirect = false ∧ ∃ c, cause = some c ∧ t.Knows sender c ∧ t.Knows v c) := by
  have ht : Granted t := granted_of_reach h
  obtain ⟨u, e, hk, he, -, rfl⟩ := Pool.serve_command hserve
  obtain ⟨rfl, rfl, name, hname, hj⟩ := Pool.message_mem_outputs hmem
  obtain ⟨-, v, hv, rfl⟩ := Pool.mem_recipients.mp hj
  cases he
  refine ⟨hk, rfl, v, hv, (mem_sends hname).imp ?_ ?_⟩
  · rintro ⟨content, rfl, -⟩
    exact ⟨content, rfl⟩
  · rintro ⟨hdirect, c, rfl, ⟨x, hx, hxname⟩, hsender⟩
    have hxv : x = v := ht.accounted.userName_inj (ht.accounted.users_mem x c hx)
      (ht.accounted.session_mem j v hv) hxname
    refine ⟨hdirect, c, rfl, ?_, hxv ▸ ht.users x c hx⟩
    rcases hsender with hc | ⟨y, hy, hyname⟩
    · exact ht.channels sender c hc
    · have hys : y = sender := ht.accounted.userName_inj (ht.accounted.users_mem y c hy)
        (ht.accounted.session_mem k sender hk) hyname
      exact hys ▸ ht.users y c hy

/-- A channel is created, joined by a second user and deleted, and both subscribe again
under the same name with another password. -/
def recreated : List (Request Bool) :=
  Pool.bothJoin ++
    [.command false (.delete (ascii "room")),
      .command true (.subscribe (ascii "room") (ascii "other")),
      .command false (.subscribe (ascii "room") (ascii "other"))]

/-- Both users of the second channel know its password. -/
theorem channel_confidentiality_recreated : ∃ t : Traced Bool,
    (t.pool.world.channel 1).password = ascii "other" ∧ t.Knows 1 1 ∧ t.Knows 0 1 := by
  have hrun : ∃ t, Reach step anyStep (· = (empty : Traced Bool)) t ∧
      decide ((t.pool.world.channel 1).password = ascii "other" ∧ t.pool.session true = some 0 ∧
        ((t.pool.serve (.command false (.message (.group (ascii "room") (ascii "hi"))))).any
          fun s => decide (.message true (some 1) 1 (.group (ascii "room") (ascii "hi")) ∈ s.2)) =
            true) = true :=
    exists_reach_of_run rfl recreated (by decide)
  obtain ⟨t, ht, hcheck⟩ := hrun
  obtain ⟨hpassword, htrue, hany⟩ := of_decide_eq_true hcheck
  obtain ⟨⟨p', outs⟩, hserve, hmem⟩ := (Option.any_eq_true ..).mp hany
  obtain ⟨-, -, v, hv, hknows⟩ := channel_confidentiality ht hserve (of_decide_eq_true hmem)
  rw [htrue] at hv
  cases hv
  rcases hknows with ⟨content, hdirect⟩ | ⟨-, c, hc, hsender, hreader⟩
  · cases hdirect
  · cases hc
    exact ⟨t, hpassword, hsender, hreader⟩

end Traced

end Chatd.Net.Server
