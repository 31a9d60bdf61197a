import Chatd.Net.Connection.Login

/-! # What a session knows

The buffers that the dialogue stores hold the strings of lines that the connection has
sent, and have passed the checks of their step. A user is set from them, after the pool
has confirmed or accepted it.
-/
namespace Chatd.Net.Connection
open Library Server Protocol

/-- Two to twenty letters, digits and underscores. -/
structure ValidName (name : Bytes) : Prop where
  two_le : 2 ≤ name.length
  le_twenty : name.length ≤ 20
  chars : ∀ c ∈ name, isNameChar c = true

/-- Eight to 64 bytes other than NUL. -/
structure ValidPassword (password : Bytes) : Prop where
  eight_le : 8 ≤ password.length
  le_64 : password.length ≤ 64
  zero_not_mem : 0 ∉ password

namespace Session

/-- The name is the string of a line of the connection. -/
def SaidName (s : Session) (name : Bytes) : Prop :=
  ∃ line ∈ s.received, cstr (chomp line) 0 = name

/-- The password is a line of the connection. -/
def SaidPassword (s : Session) (password : Bytes) : Prop :=
  ∃ line ∈ s.received, chomp line = password

/-- What the dialogue has stored has been sent and checked. -/
structure Genuine (s : Session) (users : List User) : Prop where
  username : ∀ b, s.username = some b → ValidName b.str ∧ s.SaidName b.str
  password : ∀ b, s.password = some b → ValidPassword b.str ∧ s.SaidPassword b.str
  user : ∀ u, s.user = some u → u ∈ users ∧ s.SaidName u.name ∧ s.SaidPassword u.password
  authenticated : s.authenticated = true ↔ s.user ≠ none

/-- The two sessions have the same dialogue state and have received the same lines. -/
structure SameLogin (s s' : Session) : Prop where
  authenticated : s'.authenticated = s.authenticated
  username : s'.username = s.username
  password : s'.password = s.password
  user : s'.user = s.user
  received : s'.received = s.received

section SameLogin

variable {s s' s'' : Session} {users users' : List User}

theorem SameLogin.refl (s : Session) : SameLogin s s := ⟨rfl, rfl, rfl, rfl, rfl⟩

theorem SameLogin.trans (h : SameLogin s s') (h' : SameLogin s' s'') : SameLogin s s'' :=
  ⟨h'.authenticated.trans h.authenticated, h'.username.trans h.username,
    h'.password.trans h.password, h'.user.trans h.user, h'.received.trans h.received⟩

theorem sameLogin_reply (s : Session) (text : Bytes) : SameLogin s (s.reply text) :=
  ⟨rfl, rfl, rfl, rfl, rfl⟩

theorem sameLogin_free (s : Session) (b : Buffer) : SameLogin s (s.free b) :=
  ⟨rfl, rfl, rfl, rfl, rfl⟩

theorem sameLogin_gracefullyTerminate (s : Session) : SameLogin s s.gracefullyTerminate :=
  ⟨rfl, rfl, rfl, rfl, rfl⟩

theorem sameLogin_send (s : Session) (cells : Block UInt8) : SameLogin s (s.send cells) := by
  unfold send
  split
  · exact .refl s
  · exact ⟨rfl, rfl, rfl, rfl, rfl⟩

theorem sameLogin_read (s : Session) (b : Buffer) : SameLogin s (s.read b) := by
  unfold read
  split
  · exact ⟨rfl, rfl, rfl, rfl, rfl⟩
  · exact .refl s

theorem sameLogin_greet (s : Session) (cells : Block UInt8) (before behind : Bytes) :
    SameLogin s (((s.reply before).send cells).reply behind) :=
  ((sameLogin_reply s before).trans (sameLogin_send _ cells)).trans (sameLogin_reply _ behind)

theorem sameLogin_elim_free (s : Session) (b : Option Buffer) :
    SameLogin s (b.elim s s.free) := by
  cases b with
  | none => exact .refl s
  | some b => exact sameLogin_free s b

theorem sameLogin_freeBuffers (s : Session) : SameLogin s s.freeBuffers := by
  unfold freeBuffers
  split
  · exact .refl s
  · exact (sameLogin_elim_free s _).trans (sameLogin_elim_free _ _)

theorem Genuine.of_sameLogin (h : s.Genuine users) (hs : SameLogin s s') : s'.Genuine users := by
  constructor
  case username =>
    rw [hs.username]
    intro b hb
    rw [SaidName, hs.received]
    exact h.username b hb
  case password =>
    rw [hs.password]
    intro b hb
    rw [SaidPassword, hs.received]
    exact h.password b hb
  case user =>
    rw [hs.user]
    intro u hu
    rw [SaidName, SaidPassword, hs.received]
    exact h.user u hu
  case authenticated =>
    rw [hs.authenticated, hs.user]
    exact h.authenticated

theorem Genuine.mono (h : s.Genuine users) (hsub : users ⊆ users') : s.Genuine users' :=
  ⟨h.username, h.password, fun u hu => ⟨hsub (h.user u hu).1, (h.user u hu).2⟩, h.authenticated⟩

theorem Genuine.receiveLine (h : s.Genuine users) (line : Bytes) :
    (s.receiveLine line).Genuine users := by
  have hname {name : Bytes} : s.SaidName name → (s.receiveLine line).SaidName name := by
    rintro ⟨old, hold, hname⟩
    exact ⟨old, List.mem_append_left _ hold, hname⟩
  have hpassword {password : Bytes} :
      s.SaidPassword password → (s.receiveLine line).SaidPassword password := by
    rintro ⟨old, hold, hpassword⟩
    exact ⟨old, List.mem_append_left _ hold, hpassword⟩
  exact ⟨fun b hb => (h.username b hb).imp_right hname,
    fun b hb => (h.password b hb).imp_right hpassword,
    fun u hu => (h.user u hu).imp_right (And.imp hname hpassword), h.authenticated⟩

end SameLogin

end Session

section Strings

theorem cstr_append_zero (s t : Bytes) : cstr (s ++ 0 :: t) 0 = cstr s 0 := by
  induction s with
  | nil => rfl
  | cons c s ih =>
    by_cases hc : c = 0
    · simp [cstr, hc]
    · simpa [cstr, hc] using ih

theorem dropReturn_nil (before : UInt8) :
    dropReturn before [0] 0 = ([0], if before = cr then 2 ^ 64 - 1 else 0) := by
  by_cases h : before = cr <;> simp [dropReturn, lastIndex, h]

theorem dropReturn_concat (before : UInt8) (init : Bytes) (c : UInt8) :
    dropReturn before (init ++ [c] ++ [0]) (init ++ [c]).length =
      if c = cr then (init ++ 0 :: [0], init.length)
      else (init ++ [c] ++ [0], (init ++ [c]).length) := by
  have hindex : lastIndex (init ++ [c]).length = init.length := by simp [lastIndex]
  rw [dropReturn, hindex]
  by_cases h : c = cr <;> simp [h]

theorem chomp_concat (init : Bytes) (c : UInt8) :
    chomp (init ++ [c]) = if c = cr then init else init ++ [c] := by
  by_cases h : c = cr <;> simp [chomp, h]

theorem dropReturn_str (before : UInt8) (line : Bytes) :
    cstr (dropReturn before (line ++ [0]) line.length).1 0 = cstr (chomp line) 0 := by
  rcases List.eq_nil_or_concat line with rfl | ⟨init, c, rfl⟩
  · rw [List.nil_append, List.length_nil, dropReturn_nil]
    rfl
  · rw [List.concat_eq_append, dropReturn_concat, chomp_concat]
    by_cases h : c = cr
    · rw [if_pos h, if_pos h]
      exact cstr_append_zero init [0]
    · rw [if_neg h, if_neg h]
      exact cstr_append_zero (init ++ [c]) []

/-- The length that the dialogue goes on with is the one without the carriage return,
unless the line is empty. -/
theorem dropReturn_len (before : UInt8) (line : Bytes) :
    (dropReturn before (line ++ [0]) line.length).2 = (chomp line).length ∨
      (dropReturn before (line ++ [0]) line.length).2 = 2 ^ 64 - 1 := by
  rcases List.eq_nil_or_concat line with rfl | ⟨init, c, rfl⟩
  · rw [List.nil_append, List.length_nil, dropReturn_nil]
    by_cases h : before = cr
    · exact .inr (if_pos h)
    · exact .inl (if_neg h)
  · rw [List.concat_eq_append, dropReturn_concat, chomp_concat]
    by_cases h : c = cr <;> simp [h]

theorem zero_not_mem_cstr (s : Bytes) : 0 ∉ cstr s 0 := by
  intro h
  simpa using List.all_eq_true.mp (List.all_takeWhile (l := s.drop 0)) 0 h

theorem cstr_eq_of_length {s : Bytes} (h : (cstr s 0).length = s.length) : cstr s 0 = s := by
  rw [cstr, List.drop_zero] at h ⊢
  exact (List.takeWhile_prefix _).eq_of_length h

end Strings

namespace Session

section Dialogue

variable {s : Session} {users : List User} {line : Bytes} {buff name password : Buffer} {len : ℕ}

theorem Genuine.setUsername (h : s.Genuine users) (hvalid : ValidName buff.str)
    (hsaid : s.SaidName buff.str) : Genuine { s with username := some buff } users := by
  refine ⟨?_, h.password, h.user, h.authenticated⟩
  rintro b ⟨⟩
  exact ⟨hvalid, hsaid⟩

theorem Genuine.setPassword (h : s.Genuine users) (hvalid : ValidPassword buff.str)
    (hsaid : s.SaidPassword buff.str) : Genuine { s with password := some buff } users := by
  refine ⟨h.username, ?_, h.user, h.authenticated⟩
  rintro b ⟨⟩
  exact ⟨hvalid, hsaid⟩

theorem Genuine.enterUsername (h : s.Genuine users) (hline : line ∈ s.received)
    (hstr : buff.str = cstr (chomp line) 0) : (s.enterUsername buff len).Genuine users := by
  unfold Session.enterUsername
  split
  · exact h.of_sameLogin ((sameLogin_reply ..).trans (sameLogin_free ..))
  · split
    · exact h.of_sameLogin ((sameLogin_reply ..).trans (sameLogin_free ..))
    · rename_i hchars hbounds
      have hsame := sameLogin_greet s (greeting buff.str len) (ascii "SRV: Hello @")
        (ascii "\nSRV: Please enter your password: ")
      apply (h.of_sameLogin hsame).setUsername
      · have hall : buff.str.all isNameChar = true := by simpa using hchars
        exact ⟨by omega, by omega, List.all_eq_true.mp hall⟩
      · refine ⟨line, ?_, hstr.symm⟩
        rw [hsame.received]
        exact hline

theorem Genuine.enterPassword (h : s.Genuine users) (hline : line ∈ s.received)
    (hstr : buff.str = cstr (chomp line) 0)
    (hlen : len = (chomp line).length ∨ len = 2 ^ 64 - 1) :
    (s.enterPassword buff len).Genuine users := by
  unfold Session.enterPassword
  split
  · exact h.of_sameLogin ((sameLogin_reply ..).trans (sameLogin_free ..))
  · split
    · exact h.of_sameLogin ((sameLogin_reply ..).trans (sameLogin_free ..))
    · rename_i hwhole hbounds
      have hsame : (cstr (chomp line) 0).length = (chomp line).length := by
        rw [← hstr]
        omega
      have hpassword : buff.str = chomp line := hstr.trans (cstr_eq_of_length hsame)
      apply h.setPassword
      · exact ⟨by omega, by omega, hstr ▸ zero_not_mem_cstr _⟩
      · exact ⟨line, hline, hpassword.symm⟩

/-- What the dialogue stores of a line is genuine. -/
theorem Genuine.enter (h : s.Genuine users) (hline : line ∈ s.received)
    (hstr : buff.str = cstr (chomp line) 0)
    (hlen : len = (chomp line).length ∨ len = 2 ^ 64 - 1) : (s.enter buff len).Genuine users := by
  unfold Session.enter
  split
  · exact h.enterUsername hline hstr
  · exact h.enterPassword hline hstr hlen
  · exact h

theorem enter_authenticated : (s.enter buff len).authenticated = s.authenticated := by
  unfold Session.enter Session.enterUsername Session.enterPassword
  split
  · split
    · rfl
    · split
      · rfl
      · exact (sameLogin_greet s (greeting buff.str len) (ascii "SRV: Hello @")
          (ascii "\nSRV: Please enter your password: ")).authenticated
  · split
    · rfl
    · split <;> rfl
  · rfl

/-- The connection is not logged in, and has stored both buffers. -/
structure Stored (s : Session) (name password : Buffer) : Prop where
  authenticated : s.authenticated = false
  username : s.username = some name
  password : s.password = some password

theorem Genuine.logIn (h : s.Genuine users) (hs : s.Stored name password) {user : User}
    (hmem : user ∈ users) (hname : user.name = name.str)
    (hpassword : user.password = password.str) :
    Genuine { s with authenticated := true, user := some user } users := by
  refine ⟨h.username, h.password, ?_, by simp⟩
  rintro u ⟨⟩
  refine ⟨hmem, ?_, ?_⟩
  · rw [hname]
    exact (h.username name hs.username).2
  · rw [hpassword]
    exact (h.password password hs.password).2

theorem Genuine.clearPassword (h : s.Genuine users) :
    Genuine { s with password := none } users := by
  refine ⟨h.username, ?_, h.user, h.authenticated⟩
  intro b hb
  cases hb

theorem Stored.of_sameLogin {s' : Session} (h : s.Stored name password) (hs : SameLogin s s') :
    s'.Stored name password :=
  ⟨hs.authenticated.trans h.authenticated, hs.username.trans h.username,
    hs.password.trans h.password⟩

theorem Genuine.answer (h : s.Genuine users) (hs : s.Stored name password) {existing : Option User}
    (hexisting : ∀ u, existing = some u → u ∈ users ∧ u.name = name.str) :
    (s.answer name password existing).Genuine users := by
  cases existing with
  | none =>
    have hreply := h.of_sameLogin (sameLogin_reply s
      (ascii "SRV: No user has found, would you like to a account? (y/n): "))
    exact ⟨hreply.username, hreply.password, hreply.user, hreply.authenticated⟩
  | some user =>
    obtain ⟨hmem, hname⟩ := hexisting user rfl
    have hread := sameLogin_read s password
    unfold Session.answer
    dsimp only
    apply Genuine.clearPassword
    split
    · rename_i hpassword
      have hgreeted := (hread.trans (sameLogin_greet _ (name.str.map some) (ascii "SRV: Hello @")
        (ascii "!\n"))).trans (sameLogin_free _ name)
      exact ((h.of_sameLogin hgreeted).logIn (hs.of_sameLogin hgreeted) hmem hname
        hpassword).of_sameLogin (sameLogin_free ..)
    · exact h.of_sameLogin (hread.trans ((sameLogin_reply ..).trans (sameLogin_free ..)))

theorem Genuine.answerPush (h : s.Genuine users) (hs : s.Stored name password) {ok : Bool}
    (hok : ok = true → makeUser name password ∈ users) :
    (s.answerPush name password ok).Genuine users := by
  cases ok with
  | true =>
    have hgreeted := ((sameLogin_reply s (ascii "SRV: Hello @")).trans
      (sameLogin_reply _ name.str)).trans (sameLogin_reply _ (ascii "!\n"))
    exact (h.of_sameLogin hgreeted).logIn (hs.of_sameLogin hgreeted) (hok rfl) rfl rfl
  | false =>
    exact h.of_sameLogin ((sameLogin_reply ..).trans ((sameLogin_gracefullyTerminate _).trans
      ((sameLogin_free ..).trans (sameLogin_free ..))))

end Dialogue

end Session

end Chatd.Net.Connection
