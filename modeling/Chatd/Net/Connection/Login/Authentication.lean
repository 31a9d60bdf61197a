import Chatd.Net.Connection.Login.Steps

/-! # Nothing before the login

A connection has a user only after it has sent the name and the password of that user.
Before that none of its lines is parsed and no message is enqueued to it.
-/
namespace Chatd.Net.Connection
open Library Server Protocol

variable {κ : Type*} [DecidableEq κ]

/-- Every parsed line was one of a connection with a user, and so was the receiver of
every message. -/
structure Gated (d : LoginState κ) : Prop where
  parsed : ∀ e ∈ d.parsed, e.2 ≠ none
  enqueued : ∀ e ∈ d.enqueued, e.2 ≠ none

section Step

variable {d d' : LoginState κ} {k : κ} {p q : LoginPc}

omit [DecidableEq κ] in
theorem sendMsg_user (username : Bytes) : ∀ e ∈ d.sendMsg username, e.2 ≠ none := by
  intro e he hnone
  obtain ⟨j, hj, rfl⟩ := List.mem_map.mp he
  have huser := (List.mem_filter.mp hj).2
  dsimp only at hnone
  rw [hnone] at huser
  cases huser

omit [DecidableEq κ] in
theorem Gated.setShared (h : Gated d) (shared : Shared κ Bytes) : Gated (d.setShared shared) := by
  refine ⟨h.parsed, fun e he => ?_⟩
  rcases List.mem_append.mp he with he | he
  · exact h.enqueued e he
  · obtain ⟨visit, -, he⟩ := List.mem_flatMap.mp he
    exact sendMsg_user visit.2 e he

/-- A line is parsed behind the test of `authenticated`, which stands for a user. -/
theorem ConnStep.gated (hstep : ConnStep d k p d' q) (h : Gated d)
    (hs : (d.session k).Genuine d.users) : Gated d' := by
  cases hstep with
  | parse bytes hauth =>
    refine ⟨fun e he => ?_, h.enqueued⟩
    rcases List.mem_append.mp he with he | he
    · exact h.parsed e he
    · rw [List.mem_singleton.mp he]
      exact hs.authenticated.mp hauth
  | ended => exact h
  | handled p q hd =>
    rcases hd with rfl | ⟨shared, rfl⟩
    · exact h
    · exact h.setShared shared
  | _ => exact ⟨h.parsed, h.enqueued⟩

end Step

section System

variable {c c' : LoginConfig κ} {l : LoginThread κ × LoginInput κ}

theorem Gated.step (h : Gated c.data) (hr : Registered c)
    (hstep : step (loginProg κ) c l = some c') : Gated c'.data := by
  rcases login_step hstep with ⟨conns, hdata, -⟩ | ⟨k, hconn, -⟩
  · rw [hdata]
    exact ⟨h.parsed, h.enqueued⟩
  · exact hconn.gated h (hr.genuine k)

theorem gated_of_reach {ok : LoginConfig κ → LoginThread κ × LoginInput κ → LoginConfig κ → Prop}
    (h : Reach (step (loginProg κ)) ok (· = unregistered κ) c) : Gated c.data := by
  apply Reach.invariant_reached (I := fun c => Gated c.data) _ _ h
  · rintro _ rfl
    exact ⟨by simp [unregistered], by simp [unregistered]⟩
  · intro c l c' hr hc hstep _
    exact hc.step (registered_of_reach hr) hstep

/-- The user of a connection is registered, and the connection has sent its name and its
password; while a connection has no user, no line of it is parsed and no message is
enqueued to it. -/
theorem authenticated_of_reach (h : Reach (step (loginProg κ)) anyStep (· = unregistered κ) c) :
    (∀ k u, (c.data.session k).user = some u → u ∈ c.data.users ∧
      (∃ line ∈ (c.data.session k).received, cstr (chomp line) 0 = u.name) ∧
      ∃ line ∈ (c.data.session k).received, chomp line = u.password) ∧
    (∀ e ∈ c.data.parsed, e.2 ≠ none) ∧ ∀ e ∈ c.data.enqueued, e.2 ≠ none := by
  have hr : Registered c := registered_of_reach h
  have hc : Gated c.data := gated_of_reach h
  exact ⟨fun k u hu => (hr.genuine k).user u hu, hc.parsed, hc.enqueued⟩

def secondTry : List (LoginThread Unit × LoginInput Unit) :=
  [(.pool, .accept ()), (.conn (), .line 0 (ascii "a b")), (.conn (), .line 0 (ascii "alice\r")),
    (.conn (), .line 0 (ascii "password\r")), (.conn (), .null), (.conn (), .null),
    (.conn (), .line 0 (ascii "y")), (.conn (), .null), (.conn (), .null),
    (.conn (), .line 0 (ascii "@alice hi")), (.conn (), .null), (.conn (), .null),
    (.conn (), .null), (.conn (), .null)]

/-- Each line and each message of the run came after the login. -/
theorem authenticated_of_reach_secondTry : ∃ c : LoginConfig Unit,
    c.data.parsed.length = 1 ∧ c.data.enqueued.length = 1 ∧
      (∀ e ∈ c.data.parsed, e.2 ≠ none) ∧ ∀ e ∈ c.data.enqueued, e.2 ≠ none := by
  have hrun : ∃ c, Reach (step (loginProg Unit)) anyStep (· = unregistered Unit) c ∧
      decide (c.data.parsed.length = 1 ∧ c.data.enqueued.length = 1) = true :=
    exists_reach_of_run rfl secondTry (by decide)
  obtain ⟨c, hc, hcheck⟩ := hrun
  obtain ⟨hparsed, henqueued⟩ := of_decide_eq_true hcheck
  exact ⟨c, hparsed, henqueued, (authenticated_of_reach hc).2⟩

end System

end Chatd.Net.Connection
