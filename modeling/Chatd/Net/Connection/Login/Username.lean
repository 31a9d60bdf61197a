import Chatd.Net.Connection.Login.Steps

/-! # The username step

A line is checked up to its first NUL, and greeted with as many bytes of a copy as the line
has. The two lengths agree unless a valid name is followed by a NUL.
-/
namespace Chatd.Net.Connection
open Library Server Protocol

/-- Without a username nothing else of the dialogue has been set. -/
def Session.NamedFirst (s : Session) : Prop :=
  s.username = none →
    s.authenticated = false ∧ s.password = none ∧ s.isGracefullyTerminated = false

section Strings

variable {s line : Bytes}

theorem cstr_of_not_mem (h : 0 ∉ s) : cstr s 0 = s := by
  rw [← cstr_append_zero s []]
  exact cstr_append (s := []) h []

theorem ValidName.zero_not_mem (h : ValidName s) : 0 ∉ s := fun h0 =>
  absurd (h.chars 0 h0) (by decide)

theorem dropReturn_len_of_ne_nil (before : UInt8) (h : line ≠ []) :
    (dropReturn before (line ++ [0]) line.length).2 = (chomp line).length := by
  rcases List.eq_nil_or_concat line with rfl | ⟨init, c, rfl⟩
  · exact absurd rfl h
  · rw [List.concat_eq_append, dropReturn_concat, chomp_concat]
    by_cases hc : c = cr <;> simp [hc]

theorem greeting_self (name : Bytes) : greeting name name.length = name.map some := by
  simp [greeting]

end Strings

namespace Session

variable {s : Session} {buff : Buffer} {len : ℕ} {before : UInt8} {addr : ℕ} {line : Bytes}

/-- The session in front of and behind a line that is not taken as a username. -/
structure Rejects (s s' : Session) : Prop where
  username : s'.username = none
  password : s'.password = s.password
  authenticated : s'.authenticated = s.authenticated
  newAccount : s'.newAccount = s.newAccount
  user : s'.user = s.user
  isGracefullyTerminated : s'.isGracefullyTerminated = s.isGracefullyTerminated

theorem enterUsername_rejects (h : s.username = none) (hname : ¬ ValidName buff.str) :
    s.Rejects (s.enterUsername buff len) := by
  unfold enterUsername
  split
  · exact ⟨h, rfl, rfl, rfl, rfl, rfl⟩
  · split
    · exact ⟨h, rfl, rfl, rfl, rfl, rfl⟩
    · rename_i hchars hbounds
      have hall : buff.str.all isNameChar = true := by simpa using hchars
      exact absurd ⟨by omega, by omega, List.all_eq_true.mp hall⟩ hname

theorem enterUsername_accepts (hlive : s.isGracefullyTerminated = false)
    (hname : ValidName buff.str) :
    s.enterUsername buff len =
      { s with
        replies := s.replies ++ [(ascii "SRV: Hello @").map some, greeting buff.str len,
          (ascii "\nSRV: Please enter your password: ").map some]
        username := some buff } := by
  have htwo := hname.two_le
  have htwenty := hname.le_twenty
  have hall : buff.str.all isNameChar = true := List.all_eq_true.mpr hname.chars
  rw [enterUsername, if_neg (by rw [hall]; decide), if_neg (by omega)]
  simp [reply, send, hlive]

theorem dialogue_of_username_none (h : s.username = none) (hpassword : s.password = none) :
    s.dialogue before ⟨addr, line ++ [0]⟩ line.length =
      (s.enterUsername ⟨addr, (dropReturn before (line ++ [0]) line.length).1⟩
        (dropReturn before (line ++ [0]) line.length).2, .idle) := by
  have henter (b : Buffer) (n : ℕ) : s.enter b n = s.enterUsername b n := by
    rw [enter, h]
  have hnone (b : Buffer) (n : ℕ) : (s.enterUsername b n).password = none := by
    unfold enterUsername
    split
    · exact hpassword
    · split
      · exact hpassword
      · exact (sameLogin_greet s (greeting b.str n) (ascii "SRV: Hello @")
          (ascii "\nSRV: Please enter your password: ")).password.trans hpassword
  rw [dialogue]
  dsimp only
  rw [henter, Session.decide, hnone]
  split
  · rename_i heq
    cases heq
  · rfl

end Session

section Invariant

variable {s s' : Session} {buff name password : Buffer} {len : ℕ} {q : LoginPc}

theorem Session.namedFirst_of_some (h : s.username = some name) : s.NamedFirst := by
  intro hnone
  rw [h] at hnone
  cases hnone

theorem Session.NamedFirst.receiveLine (h : s.NamedFirst) (line : Bytes) :
    (s.receiveLine line).NamedFirst := h

theorem Session.NamedFirst.freeBuffers (h : s.NamedFirst) : s.freeBuffers.NamedFirst := by
  intro hnone
  have hsame := Session.sameLogin_freeBuffers s
  rw [hsame.username] at hnone
  obtain ⟨hauth, hpassword, hlive⟩ := h hnone
  refine ⟨hsame.authenticated.trans hauth, hsame.password.trans hpassword, ?_⟩
  simp [Session.freeBuffers, hauth, hnone, hpassword, hlive]

theorem Session.answer_username (existing : Option User) :
    (s.answer name password existing).username = s.username := by
  cases existing with
  | none => rfl
  | some user =>
    unfold Session.answer
    dsimp only
    split
    · exact ((sameLogin_read s password).trans (sameLogin_greet _ (name.str.map some)
        (ascii "SRV: Hello @") (ascii "!\n"))).username
    · exact (sameLogin_read s password).username

theorem Session.answerPush_username (ok : Bool) :
    (s.answerPush name password ok).username = s.username := by
  cases ok <;> rfl

theorem Session.enter_username (h : s.username = some name) :
    (s.enter buff len).username = some name := by
  unfold Session.enter Session.enterPassword
  split
  · rename_i hnone
    rw [h] at hnone
    cases hnone
  · split
    · exact h
    · split <;> exact h
  · exact h

/-- A line either leaves the session without a username, or is one. -/
theorem Session.NamedFirst.dialogue (h : s.NamedFirst) (hauth : s.authenticated = false)
    {before : UInt8} {addr : ℕ} {line : Bytes}
    (hs : s.dialogue before ⟨addr, line ++ [0]⟩ line.length = (s', q)) : s'.NamedFirst := by
  cases hname : s.username with
  | none =>
    obtain ⟨-, hpassword, hlive⟩ := h hname
    rw [Session.dialogue_of_username_none hname hpassword] at hs
    cases hs
    by_cases hvalid : ValidName
        (Buffer.str ⟨addr, (dropReturn before (line ++ [0]) line.length).1⟩)
    · rw [Session.enterUsername_accepts hlive hvalid]
      exact Session.namedFirst_of_some rfl
    · have hrejects : s.Rejects
          (s.enterUsername ⟨addr, (dropReturn before (line ++ [0]) line.length).1⟩
            (dropReturn before (line ++ [0]) line.length).2) :=
        Session.enterUsername_rejects hname hvalid
      exact fun _ => ⟨hrejects.authenticated.trans hauth, hrejects.password.trans hpassword,
        hrejects.isGracefullyTerminated.trans hlive⟩
  | some name =>
    have hsame := (decide_cases hs).sameLogin
    exact Session.namedFirst_of_some (hsame.username.trans (Session.enter_username hname))

variable {κ : Type*} [DecidableEq κ] {d d' : LoginState κ} {k : κ} {p : LoginPc}
  {c c' : LoginConfig κ}

/-- The step lemma: what goes on with a username has one. -/
theorem ConnStep.namedFirst (h : ConnStep d k p d' q) (hs : (d.session k).NamedFirst)
    (hp : p.At d.users (d.session k)) : (d'.session k).NamedFirst := by
  cases h with
  | null =>
    rw [setSession_session_self]
    exact hs.freeBuffers
  | dialogue before bytes hauth hdialogue =>
    rw [setSession_session_self]
    exact (hs.receiveLine bytes).dialogue hauth hdialogue
  | parse bytes hauth =>
    rw [setSession_session_self]
    exact hs.receiveLine bytes
  | lookup name password =>
    rw [setSession_session_self]
    exact Session.namedFirst_of_some (hp.of_sameLogin (Session.sameLogin_read _ name)).username
  | found name password existing =>
    rw [setSession_session_self]
    exact Session.namedFirst_of_some ((Session.answer_username existing).trans hp.1.username)
  | refused name password hmem =>
    rw [setSession_session_self]
    exact Session.namedFirst_of_some (hp.of_sameLogin (Session.sameLogin_read _ name)).username
  | registered name password hfresh =>
    rw [setSession_session_self]
    exact Session.namedFirst_of_some (hp.of_sameLogin (Session.sameLogin_read _ name)).username
  | declined name password =>
    rw [setSession_session_self]
    exact Session.namedFirst_of_some ((Session.answerPush_username false).trans hp.1.username)
  | created name password =>
    rw [setSession_session_self]
    exact Session.namedFirst_of_some ((Session.answerPush_username true).trans hp.1.username)
  | parsed bytes hsame hq =>
    rw [setSession_session_self]
    intro hnone
    rw [hsame.username] at hnone
    exact absurd ((hs hnone).1.symm.trans hp) (by decide)
  | ended => exact hs
  | handled p q h =>
    rcases h with rfl | ⟨shared, rfl⟩ <;> exact hs

theorem namedFirst_of_reach
    {ok : LoginConfig κ → LoginThread κ × LoginInput κ → LoginConfig κ → Prop}
    (h : Reach (step (loginProg κ)) ok (· = unregistered κ) c) (k : κ) :
    (c.data.session k).NamedFirst := by
  revert k
  apply Reach.invariant_reached (I := fun c => ∀ k, (c.data.session k).NamedFirst) _ _ h
  · rintro _ rfl k -
    exact ⟨rfl, rfl, rfl⟩
  · intro c l c' hr hc hstep _ k
    rcases login_step hstep with ⟨conns, hdata, -⟩ | ⟨j, hconn, -⟩
    · rw [hdata]
      exact hc k
    · by_cases hk : k = j
      · rw [hk]
        exact hconn.namedFirst (hc j) ((registered_of_reach hr).at_pc j)
      · rw [hconn.session_of_ne hk]
        exact hc k

omit [DecidableEq κ] in
theorem idle_of_username_none (hr : Registered c) (hs : (c.data.session k).NamedFirst)
    (hname : (c.data.session k).username = none) : c.pc (.conn k) = .idle := by
  refine idle_of_not_stored hr (hs hname).1 fun name password hstored => ?_
  simpa [hname] using hstored.username

end Invariant

section Exactness

variable {κ : Type*} [DecidableEq κ] {c : LoginConfig κ} {k : κ}

/-- The line without its carriage return is taken as a username exactly if it is a name, and
then greeted byte by byte; otherwise nothing of the dialogue changes. -/
def UsernameExact (c : LoginConfig κ) (k : κ) (before : UInt8) (line : Bytes) : Prop :=
  ∃ c', step (loginProg κ) c (.conn k, .line before line) = some c' ∧
    ((c'.data.session k).username ≠ none ↔ ValidName (chomp line)) ∧
    ((c'.data.session k).username ≠ none →
      (c'.data.session k).replies = (c.data.session k).replies ++ [(ascii "SRV: Hello @").map some,
        (chomp line).map some, (ascii "\nSRV: Please enter your password: ").map some]) ∧
    ((c'.data.session k).username = none →
      (c.data.session k).Rejects (c'.data.session k) ∧ c'.pc (.conn k) = .idle)

/-- The username step is exact unless a valid name stands in front of a NUL. -/
theorem usernameExact_iff
    (h : Reach (step (loginProg κ)) anyStep (· = unregistered κ) c)
    (hname : (c.data.session k).username = none) (before : UInt8) (line : Bytes) :
    UsernameExact c k before line ↔ ¬ (0 ∈ chomp line ∧ ValidName (cstr (chomp line) 0)) := by
  have hs := namedFirst_of_reach h k
  obtain ⟨hauth, hpassword, hlive⟩ := hs hname
  have hidle := idle_of_username_none (registered_of_reach h) hs hname
  obtain ⟨c', hstep, hnext⟩ := step_line hidle hauth before line
  rw [Session.dialogue_of_username_none (s := (c.data.session k).receiveLine line) hname hpassword]
    at hnext
  obtain ⟨hsession, hpc⟩ := Prod.mk.inj hnext
  have hstr : Buffer.str ⟨c.data.next, (dropReturn before (line ++ [0]) line.length).1⟩ =
      cstr (chomp line) 0 := dropReturn_str before line
  by_cases hvalid : ValidName (cstr (chomp line) 0)
  · have hne : line ≠ [] := by
      rintro rfl
      exact absurd hvalid.two_le (by decide)
    rw [Session.enterUsername_accepts (s := (c.data.session k).receiveLine line) hlive
      (hstr ▸ hvalid), hstr, dropReturn_len_of_ne_nil before hne] at hsession
    have hsome : (c'.data.session k).username ≠ none := by
      rw [hsession]
      exact Option.some_ne_none _
    constructor
    · rintro ⟨c'', hstep', hiff, -⟩ ⟨hmem, -⟩
      rw [hstep] at hstep'
      cases hstep'
      exact (hiff.mp hsome).zero_not_mem hmem
    · intro hnot
      have hzero : 0 ∉ chomp line := fun hmem => hnot ⟨hmem, hvalid⟩
      rw [cstr_of_not_mem hzero] at hsession hvalid
      refine ⟨c', hstep, iff_of_true hsome hvalid, fun _ => ?_, fun hnone => absurd hnone hsome⟩
      rw [hsession, greeting_self]
      rfl
  · have hrejects : ((c.data.session k).receiveLine line).Rejects (c'.data.session k) := by
      rw [hsession]
      exact Session.enterUsername_rejects hname (hstr ▸ hvalid)
    refine iff_of_true ⟨c', hstep, iff_of_false (fun hsome => hsome hrejects.username) ?_,
      fun hsome => absurd hrejects.username hsome, fun _ => ⟨?_, hpc⟩⟩ fun hboth => hvalid hboth.2
    · intro hline
      rw [cstr_of_not_mem hline.zero_not_mem] at hvalid
      exact hvalid hline
    · exact ⟨hrejects.username, hrejects.password, hrejects.authenticated, hrejects.newAccount,
        hrejects.user, hrejects.isGracefullyTerminated⟩

/-- A connection sends a name with a carriage return. -/
theorem usernameExact_iff_carriageReturn : UsernameExact (unregistered Unit) () 0
    (ascii "alice\r") ↔
      ¬ (0 ∈ chomp (ascii "alice\r") ∧ ValidName (cstr (chomp (ascii "alice\r")) 0)) :=
  usernameExact_iff (.start rfl) rfl 0 (ascii "alice\r")

/-- Of a line of five bytes with a NUL the first two are the name, and five are sent: a NUL and
two that were never written stand behind them. -/
theorem not_usernameExact_zero :
    ¬ UsernameExact (unregistered Unit) () 0 [97, 98, 0, 99, 100] ∧
      (step (loginProg Unit) (unregistered Unit) (.conn (), .line 0 [97, 98, 0, 99, 100])).map
          (fun c => (c.data.session ()).replies) =
        some [(ascii "SRV: Hello @").map some, [some 97, some 98, some 0, none, none],
          (ascii "\nSRV: Please enter your password: ").map some] := by
  have hreplies : (step (loginProg Unit) (unregistered Unit)
      (.conn (), .line 0 [97, 98, 0, 99, 100])).map (fun c => (c.data.session ()).replies) =
        some [(ascii "SRV: Hello @").map some, [some 97, some 98, some 0, none, none],
          (ascii "\nSRV: Please enter your password: ").map some] := by decide
  refine ⟨?_, hreplies⟩
  rintro ⟨c', hstep, hiff, -⟩
  have hsome : (step (loginProg Unit) (unregistered Unit)
      (.conn (), .line 0 [97, 98, 0, 99, 100])).any
        (fun c => (c.data.session ()).username.isSome) = true := by decide
  rw [hstep] at hsome
  have hname := hiff.mp (Option.isSome_iff_ne_none.mp hsome)
  exact absurd (hname.chars 0 (by decide)) (by decide)

end Exactness

end Chatd.Net.Connection
