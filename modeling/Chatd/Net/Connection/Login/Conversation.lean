import Chatd.Net.Connection.Login.Prompts

/-! # The login of a registered user

The steps of a connection stand between the steps of others, and its lookup is two of them. A
registered user is never removed, so no lookup of its name fails: a connection that gives the name
first is never asked whether to create it, and stays at the password prompt until it sends the
password.
-/
namespace Chatd.Net.Connection
open Library Server Protocol

/-- A connection without a username has not been asked whether to create a user. -/
def Session.NeverAsked (s : Session) : Prop := s.username = none → s.newAccount = false

/-- The connection is asked for the password, has not been asked whether to create a user, and is
not terminated. -/
structure Session.Prompted (s : Session) (name : Buffer) : Prop where
  asked : s.AskedPassword name
  newAccount : s.newAccount = false
  isGracefullyTerminated : s.isGracefullyTerminated = false

/-- What a line that is not the password is answered with. -/
def refusal (line : Bytes) : Bytes :=
  if 0 ∈ chomp line then ascii "ERR: Password contains null-byte."
  else if (chomp line).length < 8 ∨ 64 < (chomp line).length then
    ascii "ERR: Password should between 8 and 64 characters length.\nERR: Try again: "
  else ascii "ERR: Invalid password! Try again: "

def asksPassword (name : Bytes) : List (Block UInt8) :=
  [(ascii "SRV: Hello @").map some, name.map some,
    (ascii "\nSRV: Please enter your password: ").map some]

def welcomes (name : Bytes) : List (Block UInt8) :=
  [(ascii "SRV: Hello @").map some, name.map some, (ascii "!\n").map some]

section Dialogue

variable {s : Session} {name password : Buffer} {before : UInt8} {line : Bytes} {addr : ℕ}
  {user : User}

/-- The two lengths that are compared differ exactly in a line with a NUL. -/
theorem dropReturn_lengths (before : UInt8) (hne : line ≠ []) :
    (cstr (chomp line) 0).length ≠ (dropReturn before (line ++ [0]) line.length).2 ↔
      0 ∈ chomp line := by
  rw [dropReturn_len_of_ne_nil before hne]
  constructor
  · intro hlength
    by_contra hnot
    exact hlength (congrArg List.length (cstr_of_not_mem hnot))
  · intro hmem hlength
    exact zero_not_mem_cstr (chomp line) ((cstr_eq_of_length hlength).symm ▸ hmem)

theorem Session.Prompted.reply (h : s.Prompted name) (text : Bytes) :
    (s.reply text).Prompted name :=
  ⟨⟨h.asked.authenticated, h.asked.username, h.asked.password⟩, h.newAccount,
    h.isGracefullyTerminated⟩

theorem Session.Prompted.free (h : s.Prompted name) (b : Buffer) : (s.free b).Prompted name :=
  ⟨⟨h.asked.authenticated, h.asked.username, h.asked.password⟩, h.newAccount,
    h.isGracefullyTerminated⟩

theorem Session.Prompted.dialogue_invalid (h : s.Prompted name) (hne : line ≠ [])
    (hline : ¬ ValidPassword (chomp line)) :
    s.dialogue before ⟨addr, line ++ [0]⟩ line.length =
      ((s.reply (refusal line)).free
        ⟨addr, (dropReturn before (line ++ [0]) line.length).1⟩, .idle) := by
  have hlengths := dropReturn_lengths before hne
  have hstr : Buffer.str ⟨addr, (dropReturn before (line ++ [0]) line.length).1⟩ =
      cstr (chomp line) 0 := dropReturn_str before line
  have henter : s.enter ⟨addr, (dropReturn before (line ++ [0]) line.length).1⟩
      (dropReturn before (line ++ [0]) line.length).2 =
        (s.reply (refusal line)).free
          ⟨addr, (dropReturn before (line ++ [0]) line.length).1⟩ := by
    rw [Session.enter, h.asked.username, h.asked.password]
    dsimp only
    rw [Session.enterPassword, hstr, refusal]
    by_cases hzero : 0 ∈ chomp line
    · rw [if_pos (hlengths.mpr hzero), if_pos hzero]
    · have hbounds : (chomp line).length < 8 ∨ 64 < (chomp line).length := by
        by_contra hnot
        exact hline ⟨by omega, by omega, hzero⟩
      rw [if_neg (mt hlengths.mp hzero), if_neg hzero, dropReturn_len_of_ne_nil before hne,
        if_pos hbounds, if_pos hbounds]
  rw [Session.dialogue]
  dsimp only
  rw [henter, Session.decide]
  have hpassword : ((s.reply (refusal line)).free
      ⟨addr, (dropReturn before (line ++ [0]) line.length).1⟩).password = none := h.asked.password
  rw [hpassword]
  split
  · rename_i heq
    cases heq
  · rfl

/-- The name of a session without one is taken, and the password is asked for. -/
theorem Session.NeverAsked.prompted (h : s.NeverAsked) (hs : s.NamedFirst)
    (hname : s.username = none) (hvalid : ValidName (chomp line)) :
    ∃ s', s.dialogue before ⟨addr, line ++ [0]⟩ line.length = (s', .idle) ∧
      (∃ name : Buffer, name.str = chomp line ∧ s'.Prompted name) ∧
      s'.replies = s.replies ++ asksPassword (chomp line) := by
  obtain ⟨hauth, hpassword, hlive⟩ := hs hname
  have hne : line ≠ [] := by
    rintro rfl
    exact absurd hvalid.two_le (by decide)
  have hstr : Buffer.str ⟨addr, (dropReturn before (line ++ [0]) line.length).1⟩ = chomp line :=
    (dropReturn_str before line).trans (cstr_of_not_mem hvalid.zero_not_mem)
  refine ⟨_, Session.dialogue_of_username_none hname hpassword, ?_⟩
  rw [Session.enterUsername_accepts hlive (hstr ▸ hvalid), hstr,
    dropReturn_len_of_ne_nil before hne, greeting_self]
  exact ⟨⟨_, hstr, ⟨hauth, rfl, hpassword⟩, h hname, hlive⟩, rfl⟩

theorem Session.read_eq (s : Session) (b : Buffer) :
    ∃ stale, s.read b = { s with staleReads := stale } := by
  unfold Session.read
  split
  · exact ⟨_, rfl⟩
  · exact ⟨s.staleReads, rfl⟩

theorem Session.Prompted.answer_wrong (h : s.Prompted name)
    (hwrong : user.password ≠ password.str) :
    Session.Prompted ((Session.read { s with password := some password } name).answer name password
      (some user)) name ∧
    ((Session.read { s with password := some password } name).answer name password
      (some user)).replies =
        s.replies ++ [(ascii "ERR: Invalid password! Try again: ").map some] := by
  obtain ⟨stale, hread⟩ := Session.read_eq { s with password := some password } name
  rw [hread, Session.answer]
  obtain ⟨stale', hread'⟩ := Session.read_eq
    { s with password := some password, staleReads := stale } password
  dsimp only
  rw [hread', if_neg hwrong]
  exact ⟨⟨⟨h.asked.authenticated, h.asked.username, rfl⟩, h.newAccount,
    h.isGracefullyTerminated⟩, rfl⟩

theorem Session.Prompted.answer_right (h : s.Prompted name)
    (hright : user.password = password.str) :
    ((Session.read { s with password := some password } name).answer name password
      (some user)).authenticated = true ∧
    ((Session.read { s with password := some password } name).answer name password
      (some user)).user = some user ∧
    ((Session.read { s with password := some password } name).answer name password
      (some user)).replies = s.replies ++ welcomes name.str := by
  obtain ⟨stale, hread⟩ := Session.read_eq { s with password := some password } name
  rw [hread, Session.answer]
  obtain ⟨stale', hread'⟩ := Session.read_eq
    { s with password := some password, staleReads := stale } password
  dsimp only
  rw [hread', if_pos hright]
  refine ⟨rfl, rfl, ?_⟩
  simp [Session.free, Session.reply, Session.send, h.isGracefullyTerminated, welcomes]

end Dialogue

section Invariant

variable {κ : Type*} [DecidableEq κ] {d d' : LoginState κ} {k : κ} {p q : LoginPc}
  {c : LoginConfig κ} {s s' : Session} {name : Buffer}

theorem Session.neverAsked_of_some (h : s.username = some name) : s.NeverAsked := by
  intro hnone
  rw [h] at hnone
  cases hnone

theorem Session.NeverAsked.dialogue (h : s.NeverAsked) (hs : s.NamedFirst)
    {before : UInt8} {addr : ℕ} {line : Bytes}
    (hdialogue : s.dialogue before ⟨addr, line ++ [0]⟩ line.length = (s', q)) :
    s'.NeverAsked := by
  cases hname : s.username with
  | none =>
    obtain ⟨-, hpassword, hlive⟩ := hs hname
    rw [Session.dialogue_of_username_none hname hpassword] at hdialogue
    cases hdialogue
    by_cases hvalid : ValidName
        (Buffer.str ⟨addr, (dropReturn before (line ++ [0]) line.length).1⟩)
    · rw [Session.enterUsername_accepts hlive hvalid]
      exact Session.neverAsked_of_some rfl
    · have hrejects : s.Rejects
          (s.enterUsername ⟨addr, (dropReturn before (line ++ [0]) line.length).1⟩
            (dropReturn before (line ++ [0]) line.length).2) :=
        Session.enterUsername_rejects hname hvalid
      exact fun _ => hrejects.newAccount.trans (h hname)
  | some name =>
    have hsame := (decide_cases hdialogue).sameLogin
    exact Session.neverAsked_of_some (hsame.username.trans (Session.enter_username hname))

end Invariant

section Talks

variable {κ : Type*} [DecidableEq κ] {c c₁ c' : LoginConfig κ} {k : κ}
  {lines lines' : List Bytes}

/-- The connection takes these lines, none of which is empty, and works on them while the other
threads take any steps. -/
inductive Talks (k : κ) : LoginConfig κ → List Bytes → LoginConfig κ → Prop
  | done (c : LoginConfig κ) : Talks k c [] c
  | other {c c₁ c' : LoginConfig κ} {lines : List Bytes}
      (l : LoginThread κ × LoginInput κ) (hl : l.1 ≠ .conn k)
      (hstep : step (loginProg κ) c l = some c₁) (h : Talks k c₁ lines c') : Talks k c lines c'
  | work {c c₁ c' : LoginConfig κ} {lines : List Bytes} (a : LoginInput κ)
      (hbusy : c.pc (.conn k) ≠ .idle) (hstep : step (loginProg κ) c (.conn k, a) = some c₁)
      (h : Talks k c₁ lines c') : Talks k c lines c'
  | line {c c₁ c' : LoginConfig κ} {lines : List Bytes} (before : UInt8) (line : Bytes)
      (hne : line ≠ []) (hidle : c.pc (.conn k) = .idle)
      (hstep : step (loginProg κ) c (.conn k, .line before line) = some c₁)
      (h : Talks k c₁ lines c') : Talks k c (line :: lines) c'

theorem Talks.trans (h : Talks k c lines c₁) (h' : Talks k c₁ lines' c') :
    Talks k c (lines ++ lines') c' := by
  induction h with
  | done c => exact h'
  | other l hl hstep _ ih => exact .other l hl hstep (ih h')
  | work a hbusy hstep _ ih => exact .work a hbusy hstep (ih h')
  | line before line hne hidle hstep _ ih => exact .line before line hne hidle hstep (ih h')

theorem Talks.reach (h : Talks k c lines c')
    (hc : Reach (step (loginProg κ)) anyStep (· = unregistered κ) c) :
    Reach (step (loginProg κ)) anyStep (· = unregistered κ) c' := by
  induction h with
  | done c => exact hc
  | other l hl hstep _ ih => exact ih (.next hc hstep trivial)
  | work a hbusy hstep _ ih => exact ih (.next hc hstep trivial)
  | line before line hne hidle hstep _ ih => exact ih (.next hc hstep trivial)

theorem Talks.users_kept (h : Talks k c lines c') : c.data.users <+: c'.data.users := by
  induction h with
  | done c => exact List.prefix_rfl
  | other l hl hstep _ ih => exact (users_kept_of_step hstep).trans ih
  | work a hbusy hstep _ ih => exact (users_kept_of_step hstep).trans ih
  | line before line hne hidle hstep _ ih => exact (users_kept_of_step hstep).trans ih

theorem Meanwhile.head {l : LoginThread κ × LoginInput κ} (hl : l.1 ≠ .conn k)
    (hstep : step (loginProg κ) c l = some c₁) (h : Meanwhile k c₁ c') : Meanwhile k c c' :=
  Relation.ReflTransGen.head ⟨l, hl, hstep⟩ h

theorem Meanwhile.talks (h : Meanwhile k c c') : Talks k c [] c' := by
  induction h using Relation.ReflTransGen.head_induction_on with
  | refl => exact .done _
  | head hstep _ ih =>
    obtain ⟨l, hl, hstep⟩ := hstep
    exact .other l hl hstep ih

theorem Talks.of_idle (h : Talks k c lines c') (hidle : c.pc (.conn k) = .idle) :
    lines = [] ∧ Meanwhile k c c' ∨ ∃ before line rest c₀ c₁, lines = line :: rest ∧
      line ≠ [] ∧ Meanwhile k c c₀ ∧
      step (loginProg κ) c₀ (.conn k, .line before line) = some c₁ ∧ Talks k c₁ rest c' := by
  induction h with
  | done c => exact .inl ⟨rfl, .refl⟩
  | other l hl hstep _ ih =>
    have hfirst : Meanwhile k _ _ := Relation.ReflTransGen.single ⟨l, hl, hstep⟩
    rcases ih (hfirst.frame.2.trans hidle) with ⟨rfl, hrest⟩ |
      ⟨before, line, rest, c₀, c₁, rfl, hne, hrest, h⟩
    · exact .inl ⟨rfl, hrest.head hl hstep⟩
    · exact .inr ⟨before, line, rest, c₀, c₁, rfl, hne, hrest.head hl hstep, h⟩
  | work a hbusy => exact absurd hidle hbusy
  | line before line hne _ hstep h =>
    exact .inr ⟨before, line, _, _, _, rfl, hne, .refl, hstep, h⟩

theorem Talks.of_busy (h : Talks k c lines c') (hbusy : c.pc (.conn k) ≠ .idle)
    (hidle : c'.pc (.conn k) = .idle) :
    ∃ a c₀ c₁, Meanwhile k c c₀ ∧ step (loginProg κ) c₀ (.conn k, a) = some c₁ ∧
      Talks k c₁ lines c' := by
  induction h with
  | done c => exact absurd hidle hbusy
  | other l hl hstep _ ih =>
    have hfirst : Meanwhile k _ _ := Relation.ReflTransGen.single ⟨l, hl, hstep⟩
    obtain ⟨a, c₀, c₁, hrest, h⟩ := ih (fun hpc => hbusy (hfirst.frame.2.symm.trans hpc)) hidle
    exact ⟨a, c₀, c₁, hrest.head hl hstep, h⟩
  | work a _ hstep h => exact ⟨a, _, _, .refl, hstep, h⟩
  | line before line hne hwaits => exact absurd hwaits hbusy

end Talks

section Registered

variable {κ : Type*} [DecidableEq κ] {c c' : LoginConfig κ} {k : κ} {name password : Buffer}
  {user : User} {before : UInt8} {line : Bytes} {lines tries : List Bytes}

/-- The connection waits for the password of a registered user. -/
structure AtPrompt (c : LoginConfig κ) (k : κ) (user : User) : Prop where
  reach : Reach (step (loginProg κ)) anyStep (· = unregistered κ) c
  registered : user ∈ c.data.users
  prompted : ∃ name : Buffer, name.str = user.name ∧ (c.data.session k).Prompted name

theorem AtPrompt.idle (h : AtPrompt c k user) : c.pc (.conn k) = .idle := by
  obtain ⟨name, -, hs⟩ := h.prompted
  exact idle_of_askedPassword (registered_of_reach h.reach) hs.asked

theorem AtPrompt.meanwhile (h : AtPrompt c k user) (hmeanwhile : Meanwhile k c c') :
    AtPrompt c' k user := by
  refine ⟨hmeanwhile.reach h.reach, hmeanwhile.talks.users_kept.subset h.registered, ?_⟩
  rw [hmeanwhile.frame.1]
  exact h.prompted

theorem AtPrompt.invalid (h : AtPrompt c k user) {c₁ : LoginConfig κ}
    (hstep : step (loginProg κ) c (.conn k, .line before line) = some c₁) (hne : line ≠ [])
    (hline : ¬ ValidPassword (chomp line)) :
    AtPrompt c₁ k user ∧ (c₁.data.session k).replies =
      (c.data.session k).replies ++ [(refusal line).map some] := by
  obtain ⟨name, hname, hs⟩ := h.prompted
  obtain ⟨c₁', hstep', hnext⟩ := step_line h.idle hs.asked.authenticated before line
  obtain rfl : c₁' = c₁ := Option.some.inj (hstep'.symm.trans hstep)
  have hs' : ((c.data.session k).receiveLine line).Prompted name :=
    ⟨⟨hs.asked.authenticated, hs.asked.username, hs.asked.password⟩, hs.newAccount,
      hs.isGracefullyTerminated⟩
  rw [hs'.dialogue_invalid hne hline] at hnext
  obtain ⟨hsession, -⟩ := Prod.mk.inj hnext
  refine ⟨⟨.next h.reach hstep trivial, (users_kept_of_step hstep).subset h.registered, name,
    hname, ?_⟩, ?_⟩
  · rw [hsession]
    exact (hs'.reply _).free _
  · rw [hsession]
    rfl

/-- Any other line is compared with the password of the user, whatever the other threads do. -/
theorem AtPrompt.compared (h : AtPrompt c k user) {c₁ : LoginConfig κ}
    (hstep : step (loginProg κ) c (.conn k, .line before line) = some c₁)
    (hline : ValidPassword (chomp line)) (htalks : Talks k c₁ lines c')
    (hidle : c'.pc (.conn k) = .idle) :
    ∃ c₂ name password, Talks k c₁ [] c₂ ∧ Talks k c₂ lines c' ∧ c₂.pc (.conn k) = .idle ∧
      name.str = user.name ∧ password.str = chomp line ∧
      ((c.data.session k).receiveLine line).Prompted name ∧
      c₂.data.session k = (Session.read
        { (c.data.session k).receiveLine line with password := some password } name).answer
          name password (some user) := by
  obtain ⟨name, hname, hs⟩ := h.prompted
  have hr := registered_of_reach h.reach
  obtain ⟨c₁', password, hstep', -, hstr, -, hdecides⟩ := step_password hr hs.asked hline before
  obtain rfl : c₁' = c₁ := Option.some.inj (hstep'.symm.trans hstep)
  have hpc : c₁'.pc (.conn k) = .lookup name password := by
    refine (hdecides.lookup_iff ⟨hs.asked.authenticated, hs.asked.username, rfl⟩).mpr fun hnot => ?_
    exact Bool.false_ne_true (hs.newAccount.symm.trans hnot.1)
  rw [hpc] at hdecides
  have hbusy : c₁'.pc (.conn k) ≠ .idle := by
    rw [hpc]
    exact fun hnot => LoginPc.noConfusion hnot
  obtain ⟨a, c₂, c₃, hmeanwhile, hstep₃, htalks₃⟩ := htalks.of_busy hbusy hidle
  obtain ⟨c₃', hstep₃', hpc₃, hlast⟩ := lookup_run hpc hmeanwhile a
  obtain rfl : c₃' = c₃ := Option.some.inj (hstep₃'.symm.trans hstep₃)
  have hbusy₃ : c₃'.pc (.conn k) ≠ .idle := by
    rw [hpc₃]
    exact fun hnot => LoginPc.noConfusion hnot
  obtain ⟨a', c₄, c₅, hmeanwhile', hstep₅, htalks₅⟩ := htalks₃.of_busy hbusy₃ hidle
  obtain ⟨c₅', hstep₅', hpc₅, hsession⟩ := hlast c₄ hmeanwhile' a'
  obtain rfl : c₅' = c₅ := Option.some.inj (hstep₅'.symm.trans hstep₅)
  -- the user is still registered when it is looked up
  have hc₂ := hmeanwhile.reach (.next h.reach hstep trivial)
  have hmem : user ∈ c₂.data.users := hmeanwhile.talks.users_kept.subset
    ((users_kept_of_step hstep).subset h.registered)
  have hget : ConnectionPool.get User.name c₂.data.users name.str = some user := by
    rw [hname]
    exact ConnectionPool.get_nameOf User.name (registered_of_reach hc₂).names_nodup hmem
  have hworks : Talks k c₁' [] c₅' := by
    refine hmeanwhile.talks.trans (.work a ?_ hstep₃ (hmeanwhile'.talks.trans
      (.work a' ?_ hstep₅ (.done c₅'))))
    · exact fun hnot => hbusy (hmeanwhile.frame.2.symm.trans hnot)
    · exact fun hnot => hbusy₃ (hmeanwhile'.frame.2.symm.trans hnot)
  refine ⟨c₅', name, password, hworks, htalks₅, hpc₅, hname, hstr,
    ⟨⟨hs.asked.authenticated, hs.asked.username, hs.asked.password⟩, hs.newAccount,
      hs.isGracefullyTerminated⟩, ?_⟩
  rw [hsession, hdecides.of_lookup, hget]

theorem AtPrompt.refused (h : AtPrompt c k user) (hwrong : chomp line ≠ user.password)
    (htalks : Talks k c (line :: lines) c') (hidle : c'.pc (.conn k) = .idle) :
    ∃ c₁, AtPrompt c₁ k user ∧ Talks k c₁ lines c' ∧
      (c₁.data.session k).replies = (c.data.session k).replies ++ [(refusal line).map some] := by
  rcases htalks.of_idle h.idle with ⟨hnil, -⟩ |
    ⟨before, line', rest, c₀, c₁, heq, hne, hmeanwhile, hstep, hrest⟩
  · cases hnil
  obtain ⟨rfl, rfl⟩ := List.cons.inj heq
  have h₀ := h.meanwhile hmeanwhile
  rw [← hmeanwhile.frame.1]
  by_cases hline : ValidPassword (chomp line)
  · obtain ⟨c₂, name, password, hworks, htalks₂, -, hname, hstr, hs, hsession⟩ :=
      h₀.compared hstep hline hrest hidle
    have hrefusal : refusal line = ascii "ERR: Invalid password! Try again: " := by
      have height := hline.eight_le
      have h64 := hline.le_64
      rw [refusal, if_neg, if_neg (by omega)]
      exact hline.zero_not_mem
    have hpassword : user.password ≠ password.str := fun heq => hwrong (heq.trans hstr).symm
    obtain ⟨hprompted, hreplies⟩ := hs.answer_wrong hpassword
    rw [← hsession] at hprompted hreplies
    have hc₁ : Reach (step (loginProg κ)) anyStep (· = unregistered κ) c₁ :=
      .next h₀.reach hstep trivial
    refine ⟨c₂, ⟨hworks.reach hc₁, ?_, name, hname, hprompted⟩, htalks₂, ?_⟩
    · exact hworks.users_kept.subset ((users_kept_of_step hstep).subset h₀.registered)
    · rw [hreplies, hrefusal]
      rfl
  · obtain ⟨h₁, hreplies⟩ := h₀.invalid hstep hne hline
    exact ⟨c₁, h₁, hrest, hreplies⟩

/-- The password logs the connection in. -/
theorem AtPrompt.accepted (h : AtPrompt c k user) (hright : chomp line = user.password)
    (htalks : Talks k c [line] c') (hidle : c'.pc (.conn k) = .idle) :
    (c'.data.session k).authenticated = true ∧ (c'.data.session k).user = some user ∧
      (c'.data.session k).replies = (c.data.session k).replies ++ welcomes user.name := by
  rcases htalks.of_idle h.idle with ⟨hnil, -⟩ |
    ⟨before, line', rest, c₀, c₁, heq, -, hmeanwhile, hstep, hrest⟩
  · cases hnil
  obtain ⟨rfl, rfl⟩ := List.cons.inj heq
  have h₀ := h.meanwhile hmeanwhile
  have hline : ValidPassword (chomp line) :=
    hright ▸ ((registered_of_reach h.reach).valid user h.registered).2
  obtain ⟨c₂, name, password, -, htalks₂, hpc₂, hname, hstr, hs, hsession⟩ :=
    h₀.compared hstep hline hrest hidle
  rcases htalks₂.of_idle hpc₂ with ⟨-, hmeanwhile₂⟩ | ⟨before, line, rest, c₀, c₁, hnil, -⟩
  · have hpassword : user.password = password.str := hright.symm.trans hstr.symm
    obtain ⟨hauth, huser, hreplies⟩ := hs.answer_right hpassword
    rw [← hsession, ← hmeanwhile₂.frame.1] at hauth huser hreplies
    refine ⟨hauth, huser, ?_⟩
    rw [hreplies, hname, ← hmeanwhile.frame.1]
    rfl
  · cases hnil

theorem ValidName.ne_nil {bytes : Bytes} (h : ValidName bytes) : bytes ≠ [] := by
  rintro rfl
  exact absurd h.two_le (by decide)

end Registered

end Chatd.Net.Connection
