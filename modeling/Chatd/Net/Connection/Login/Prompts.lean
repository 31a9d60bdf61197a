import Chatd.Net.Connection.Login.Buffers

/-! # The password prompt

The line behind the password prompt runs into the test for a `y` or an `n` as well, which is
guarded by a flag that is never reset. A connection that was asked whether to create a user and
is then asked for another password, because somebody else has created the user, is misread.
-/
namespace Chatd.Net.Connection
open Library Server Protocol

structure Session.AskedPassword (s : Session) (name : Buffer) : Prop where
  authenticated : s.authenticated = false
  username : s.username = some name
  password : s.password = none

/-- A password logs the connection in as the registered user of the name, or the connection is
asked for another one, or whether to create the user; it is not terminated by it. -/
structure PasswordAnswered (users : List User) (name password : Bytes) (s s' : Session) :
    Prop where
  logsIn : ∀ user ∈ users, user.name = name → user.password = password →
    s'.authenticated = true ∧ s'.user = some user
  asksAgain : ∀ user ∈ users, user.name = name → user.password ≠ password →
    s'.authenticated = false ∧ s'.password = none ∧
      s'.replies = s.replies ++ [(ascii "ERR: Invalid password! Try again: ").map some]
  asksToCreate : (∀ user ∈ users, user.name ≠ name) →
    s'.authenticated = false ∧ s'.newAccount = true ∧ s'.password.map Buffer.str = some password ∧
      s'.replies = s.replies ++
        [(ascii "SRV: No user has found, would you like to a account? (y/n): ").map some]
  isGracefullyTerminated : s'.isGracefullyTerminated = s.isGracefullyTerminated
  staleReads : s'.staleReads = s.staleReads

section Dialogue

variable {s : Session} {name password : Buffer} {before : UInt8} {line : Bytes} {addr : ℕ}

theorem dropReturn_head? (h : chomp line ≠ []) :
    (dropReturn before (line ++ [0]) line.length).1.head? = line.head? := by
  rcases List.eq_nil_or_concat line with rfl | ⟨init, c, rfl⟩
  · exact absurd rfl h
  · rw [List.concat_eq_append] at h ⊢
    rw [chomp_concat] at h
    rw [dropReturn_concat]
    by_cases hc : c = cr
    · rw [if_pos hc] at h ⊢
      obtain ⟨b, init, rfl⟩ := List.exists_cons_of_ne_nil h
      rfl
    · rw [if_neg hc]
      cases init <;> rfl

theorem ValidPassword.ne_nil {bytes : Bytes} (h : ValidPassword bytes) : bytes ≠ [] := by
  rintro rfl
  exact absurd h.eight_le (by decide)

theorem Session.AskedPassword.enter (h : s.AskedPassword name)
    (hline : ValidPassword (chomp line)) :
    s.enter ⟨addr, (dropReturn before (line ++ [0]) line.length).1⟩
        (dropReturn before (line ++ [0]) line.length).2 =
      { s with password := some ⟨addr, (dropReturn before (line ++ [0]) line.length).1⟩ } := by
  have hne : line ≠ [] := by
    rintro rfl
    exact hline.ne_nil rfl
  have hstr : Buffer.str ⟨addr, (dropReturn before (line ++ [0]) line.length).1⟩ = chomp line :=
    (dropReturn_str before line).trans (cstr_of_not_mem hline.zero_not_mem)
  have hlen := dropReturn_len_of_ne_nil before hne
  have height := hline.eight_le
  have h64 := hline.le_64
  have henter (b : Buffer) (n : ℕ) : s.enter b n = s.enterPassword b n := by
    rw [Session.enter, h.username, h.password]
  rw [henter, Session.enterPassword, if_neg (by rw [hstr, hlen]; exact fun hnot => hnot rfl),
    if_neg (by omega)]

theorem Session.AskedPassword.dialogue (h : s.AskedPassword name)
    (hline : ValidPassword (chomp line)) :
    s.dialogue before ⟨addr, line ++ [0]⟩ line.length =
      Session.decide
        { s with password := some ⟨addr, (dropReturn before (line ++ [0]) line.length).1⟩ }
        ⟨addr, (dropReturn before (line ++ [0]) line.length).1⟩ := by
  rw [Session.dialogue]
  dsimp only
  rw [h.enter hline]

/-- The connection looks the user up unless the line begins like an answer that it was once
asked for. -/
theorem Decides.lookup_iff {s' : Session} {buff : Buffer} {q : LoginPc} (h : Decides s buff s' q)
    (hs : s.Stored name password) :
    q = .lookup name password ↔
      ¬ (s.newAccount = true ∧
        (buff.bytes.head? = some 121 ∨ buff.bytes.head? = some 110)) := by
  cases h with
  | waits hnone => exact absurd hs.password (hnone name password hs.username)
  | registers name' password' hname hpassword hnew hhead =>
    exact iff_of_false (fun hq => by cases hq) fun hnot => hnot ⟨hnew, .inl hhead⟩
  | leaves name' password' hname hpassword hnew hhead =>
    exact iff_of_false (fun hq => by cases hq) fun hnot => hnot ⟨hnew, .inr hhead⟩
  | looksUp name' password' hname hpassword hnot =>
    obtain rfl : name' = name := Option.some.inj (hname.symm.trans hs.username)
    obtain rfl : password' = password := Option.some.inj (hpassword.symm.trans hs.password)
    exact iff_of_true rfl hnot

theorem Decides.of_lookup {s' : Session} {buff : Buffer}
    (h : Decides s buff s' (.lookup name password)) : s' = s := by
  cases h
  rfl

end Dialogue

section Answer

variable {s : Session} {name password : Buffer} {users : List User}

theorem send_isGracefullyTerminated (s : Session) (cells : Block UInt8) :
    (s.send cells).isGracefullyTerminated = s.isGracefullyTerminated := by
  unfold Session.send
  split <;> rfl

theorem read_staleReads_prefix (s : Session) (b : Buffer) :
    s.staleReads <+: (s.read b).staleReads := by
  unfold Session.read
  split
  · exact List.prefix_append _ _
  · exact List.prefix_rfl

theorem passwordAnswered_answer (hs : s.Stored name password) (hlive : password.addr ∉ s.freed)
    (hnames : (users.map User.name).Nodup) :
    PasswordAnswered users name.str password.str s
      (s.answer name password (ConnectionPool.get User.name users name.str)) := by
  have hread := Session.read_of_not_mem (s := s) hlive
  have hget (user : User) (hmem : user ∈ users) (hname : user.name = name.str) :
      ConnectionPool.get User.name users name.str = some user := by
    rw [← hname]
    exact ConnectionPool.get_nameOf User.name hnames hmem
  constructor
  case logsIn =>
    intro user hmem hname hpassword
    rw [hget user hmem hname, Session.answer]
    dsimp only
    rw [if_pos hpassword]
    exact ⟨rfl, rfl⟩
  case asksAgain =>
    intro user hmem hname hpassword
    rw [hget user hmem hname, Session.answer]
    dsimp only
    rw [if_neg hpassword, hread]
    exact ⟨hs.authenticated, rfl, rfl⟩
  case asksToCreate =>
    intro hnone
    have hget : ConnectionPool.get User.name users name.str = none := by
      cases hget : ConnectionPool.get User.name users name.str with
      | none => rfl
      | some user =>
        exact absurd (ConnectionPool.nameOf_of_get User.name hget)
          (hnone user (ConnectionPool.mem_of_get User.name hget))
    rw [hget]
    exact ⟨hs.authenticated, rfl, congrArg (Option.map Buffer.str) hs.password, rfl⟩
  case isGracefullyTerminated =>
    cases ConnectionPool.get User.name users name.str with
    | none => rfl
    | some user =>
      rw [Session.answer]
      dsimp only
      rw [hread]
      split
      · exact send_isGracefullyTerminated (s.reply (ascii "SRV: Hello @")) (name.str.map some)
      · rfl
  case staleReads =>
    cases hget : ConnectionPool.get User.name users name.str with
    | none => rfl
    | some user =>
      rw [(Session.answer_some s name password user).2.1, hread]

theorem answer_staleReads_ne (h : name.addr ∈ s.freed) (existing : Option User) :
    ((s.read name).answer name password existing).staleReads ≠ s.staleReads := by
  have hread : (s.read name).staleReads = s.staleReads ++ [name.addr] := by
    rw [Session.read, if_pos h]
  have hprefix : (s.read name).staleReads <+:
      ((s.read name).answer name password existing).staleReads := by
    cases existing with
    | none => exact List.prefix_rfl
    | some user =>
      rw [(Session.answer_some _ name password user).2.1]
      exact read_staleReads_prefix _ password
  intro heq
  have hlength := hprefix.length_le
  rw [hread, heq, List.length_append, List.length_singleton] at hlength
  omega

end Answer

section System

variable {κ : Type*} [DecidableEq κ] {c c' : LoginConfig κ} {k : κ} {name password : Buffer}

def Meanwhile (k : κ) : LoginConfig κ → LoginConfig κ → Prop :=
  Relation.ReflTransGen fun c c' => ∃ l, l.1 ≠ .conn k ∧ step (loginProg κ) c l = some c'

theorem Meanwhile.frame (h : Meanwhile k c c') :
    c'.data.session k = c.data.session k ∧ c'.pc (.conn k) = c.pc (.conn k) := by
  induction h with
  | refl => exact ⟨rfl, rfl⟩
  | tail _ hstep ih =>
    obtain ⟨l, hl, hstep⟩ := hstep
    rcases buffer_step hstep with ⟨conns, hdata, hpc⟩ | ⟨j, hj, -, -, hothers⟩
    · rw [hdata, hpc]
      exact ih
    · obtain ⟨hsession, hpc⟩ := hothers k fun hk => hl (hk ▸ hj)
      rw [hsession, hpc]
      exact ih

theorem Meanwhile.reach (h : Meanwhile k c c')
    (hc : Reach (step (loginProg κ)) anyStep (· = unregistered κ) c) :
    Reach (step (loginProg κ)) anyStep (· = unregistered κ) c' := by
  induction h with
  | refl => exact hc
  | tail _ hstep ih =>
    obtain ⟨l, -, hstep⟩ := hstep
    exact .next ih hstep trivial

theorem step_lookup (hp : c.pc (.conn k) = .lookup name password) (a : LoginInput κ) :
    ∃ c', step (loginProg κ) c (.conn k, a) = some c' ∧
      c'.data.session k = (c.data.session k).read name ∧
      c'.pc (.conn k) =
        .found name password (ConnectionPool.get User.name c.data.users name.str) := by
  have hact : loginProg κ (.conn k) a c.data (c.pc (.conn k)) = .act
      (c.data.setSession k ((c.data.session k).read name))
      (.found name password (ConnectionPool.get User.name c.data.users name.str)) := by
    rw [hp]
    rfl
  exact ⟨_, step_of_act hact, setSession_session_self, Function.update_self ..⟩

theorem step_found {existing : Option User}
    (hp : c.pc (.conn k) = .found name password existing) (a : LoginInput κ) :
    ∃ c', step (loginProg κ) c (.conn k, a) = some c' ∧
      c'.data.session k = (c.data.session k).answer name password existing ∧
      c'.pc (.conn k) = .idle := by
  have hact : loginProg κ (.conn k) a c.data (c.pc (.conn k)) = .act
      (c.data.setSession k ((c.data.session k).answer name password existing)) .idle := by
    rw [hp]
    rfl
  exact ⟨_, step_of_act hact, setSession_session_self, Function.update_self ..⟩

/-- The line is stored as the password, and what the connection does next is to look the user
up and to compare the two passwords, whatever the other threads do in between. -/
def TakenAsPassword (c : LoginConfig κ) (k : κ) (name : Buffer) (before : UInt8) (line : Bytes) :
    Prop :=
  ∃ c₁ password, step (loginProg κ) c (.conn k, .line before line) = some c₁ ∧
    password.str = chomp line ∧ c₁.pc (.conn k) = .lookup name password ∧
    ∀ c₂, Meanwhile k c₁ c₂ → ∀ a, ∃ c₃ existing, step (loginProg κ) c₂ (.conn k, a) = some c₃ ∧
      c₃.pc (.conn k) = .found name password existing ∧
      ∀ c₄, Meanwhile k c₃ c₄ → ∀ a', ∃ c₅, step (loginProg κ) c₄ (.conn k, a') = some c₅ ∧
        c₅.pc (.conn k) = .idle ∧
        PasswordAnswered c₂.data.users name.str (chomp line) (c.data.session k)
          (c₅.data.session k)

omit [DecidableEq κ] in
theorem idle_of_askedPassword (hr : Registered c) (hs : (c.data.session k).AskedPassword name) :
    c.pc (.conn k) = .idle := by
  refine idle_of_not_stored hr hs.authenticated fun name password hstored => ?_
  simpa [hs.password] using hstored.password

theorem step_password (hr : Registered c) (hs : (c.data.session k).AskedPassword name)
    {line : Bytes} (hline : ValidPassword (chomp line)) (before : UInt8) :
    ∃ c₁ password, step (loginProg κ) c (.conn k, .line before line) = some c₁ ∧
      password.addr = c.data.next ∧ password.str = chomp line ∧
      password.bytes.head? = line.head? ∧
      Decides { (c.data.session k).receiveLine line with password := some password } password
        (c₁.data.session k) (c₁.pc (.conn k)) := by
  obtain ⟨c₁, hstep, hnext⟩ :=
    step_line (idle_of_askedPassword hr hs) hs.authenticated before line
  have hs' : ((c.data.session k).receiveLine line).AskedPassword name :=
    ⟨hs.authenticated, hs.username, hs.password⟩
  rw [hs'.dialogue hline] at hnext
  exact ⟨c₁, ⟨c.data.next, (dropReturn before (line ++ [0]) line.length).1⟩, hstep, rfl,
    (dropReturn_str before line).trans (cstr_of_not_mem hline.zero_not_mem),
    dropReturn_head? hline.ne_nil, decide_cases hnext.symm⟩

/-- The two steps that a lookup is made of, whatever the other threads do in between. -/
theorem lookup_run {c₁ c₂ : LoginConfig κ} (hp : c₁.pc (.conn k) = .lookup name password)
    (hmeanwhile : Meanwhile k c₁ c₂) (a : LoginInput κ) :
    ∃ c₃, step (loginProg κ) c₂ (.conn k, a) = some c₃ ∧
      c₃.pc (.conn k) =
        .found name password (ConnectionPool.get User.name c₂.data.users name.str) ∧
      ∀ c₄, Meanwhile k c₃ c₄ → ∀ a', ∃ c₅, step (loginProg κ) c₄ (.conn k, a') = some c₅ ∧
        c₅.pc (.conn k) = .idle ∧
        c₅.data.session k = ((c₁.data.session k).read name).answer name password
          (ConnectionPool.get User.name c₂.data.users name.str) := by
  obtain ⟨hsession₂, hpc₂⟩ := hmeanwhile.frame
  obtain ⟨c₃, hstep₃, hsession₃, hpc₃⟩ := step_lookup (hpc₂.trans hp) a
  refine ⟨c₃, hstep₃, hpc₃, fun c₄ hmeanwhile' a' => ?_⟩
  obtain ⟨hsession₄, hpc₄⟩ := hmeanwhile'.frame
  obtain ⟨c₅, hstep₅, hsession₅, hpc₅⟩ := step_found (hpc₄.trans hpc₃) a'
  refine ⟨c₅, hstep₅, hpc₅, ?_⟩
  rw [hsession₅, hsession₄, hsession₃, hsession₂]

/-- A password is taken as one unless the connection has been asked whether to create a user
and the password begins like an answer to that, or its name has been freed. -/
theorem takenAsPassword_iff (hc : Reach (step (loginProg κ)) anyStep (· = unregistered κ) c)
    (hs : (c.data.session k).AskedPassword name) (before : UInt8) {line : Bytes}
    (hline : ValidPassword (chomp line)) :
    TakenAsPassword c k name before line ↔
      ¬ ((c.data.session k).newAccount = true ∧
        (line.head? = some 121 ∨ line.head? = some 110)) ∧
      name.addr ∉ (c.data.session k).freed := by
  obtain ⟨c₁, password, hstep, haddr, hstr, hhead, hdecides⟩ :=
    step_password (registered_of_reach hc) hs hline before
  have hc₁ : Reach (step (loginProg κ)) anyStep (· = unregistered κ) c₁ := .next hc hstep trivial
  generalize hs₁ : { (c.data.session k).receiveLine line with password := some password } = s₁
    at hdecides
  have hstored : s₁.Stored name password := hs₁ ▸ ⟨hs.authenticated, hs.username, rfl⟩
  have hfreed : s₁.freed = (c.data.session k).freed := hs₁ ▸ rfl
  have hstale : s₁.staleReads = (c.data.session k).staleReads := hs₁ ▸ rfl
  have hnew : s₁.newAccount = (c.data.session k).newAccount := hs₁ ▸ rfl
  have hlookup := hdecides.lookup_iff hstored
  rw [hhead, hnew] at hlookup
  rw [← hlookup, ← hfreed]
  constructor
  · rintro ⟨c₁', password', hstep', -, hpc', hnext⟩
    obtain rfl : c₁ = c₁' := Option.some.inj (hstep.symm.trans hstep')
    have hat := (registered_of_reach hc₁).at_pc k
    rw [hpc'] at hat
    obtain rfl : password = password' := Option.some.inj
      ((hstored.password.symm.trans hdecides.sameLogin.password.symm).trans hat.password)
    refine ⟨hpc', fun hmem => ?_⟩
    rw [hpc'] at hdecides
    -- the run in which the other threads do nothing
    obtain ⟨c₃, existing, hstep₃, -, hnext₃⟩ := hnext c₁ .refl .null
    obtain ⟨c₃', hstep₃', -, hlast⟩ := lookup_run hpc' .refl .null
    obtain rfl : c₃ = c₃' := Option.some.inj (hstep₃.symm.trans hstep₃')
    obtain ⟨c₅, hstep₅, -, hanswered⟩ := hnext₃ c₃ .refl .null
    obtain ⟨c₅', hstep₅', -, hsession⟩ := hlast c₃ .refl .null
    obtain rfl : c₅ = c₅' := Option.some.inj (hstep₅.symm.trans hstep₅')
    rw [hsession, hdecides.of_lookup] at hanswered
    exact answer_staleReads_ne hmem _ (hanswered.staleReads.trans hstale.symm)
  · rintro ⟨hpc, hlive⟩
    refine ⟨c₁, password, hstep, hstr, hpc, fun c₂ hmeanwhile a => ?_⟩
    obtain ⟨c₃, hstep₃, hpc₃, hlast⟩ := lookup_run hpc hmeanwhile a
    refine ⟨c₃, _, hstep₃, hpc₃, fun c₄ hmeanwhile' a' => ?_⟩
    obtain ⟨c₅, hstep₅, hpc₅, hsession⟩ := hlast c₄ hmeanwhile' a'
    refine ⟨c₅, hstep₅, hpc₅, ?_⟩
    rw [hpc] at hdecides
    rw [hsession, hdecides.of_lookup, Session.read_of_not_mem hlive, ← hstr]
    have hfresh : password.addr ∉ s₁.freed := by
      rw [hfreed]
      exact (allocated_of_reach hc k).not_mem_freed haddr
    have hnames := (registered_of_reach (hmeanwhile.reach hc₁)).names_nodup
    have hanswered := passwordAnswered_answer hstored hfresh hnames
    subst hs₁
    exact ⟨hanswered.logsIn, hanswered.asksAgain, hanswered.asksToCreate,
      hanswered.isGracefullyTerminated, hanswered.staleReads⟩

/-- A connection that has only given its name may have any password. -/
theorem takenAsPassword_iff_first : ∃ c : LoginConfig Unit,
    (c.data.session ()).AskedPassword ⟨0, ascii "alice" ++ [0]⟩ ∧
      TakenAsPassword c () ⟨0, ascii "alice" ++ [0]⟩ 0 (ascii "yesterday") := by
  have hrun : ∃ c, Reach (step (loginProg Unit)) anyStep (· = unregistered Unit) c ∧
      decide ((c.data.session ()).authenticated = false ∧ (c.data.session ()).newAccount = false ∧
        (c.data.session ()).username = some ⟨0, ascii "alice" ++ [0]⟩ ∧
        (c.data.session ()).password = none ∧ (c.data.session ()).freed = []) = true :=
    exists_reach_of_run rfl [(.conn (), .line 0 (ascii "alice"))] (by decide)
  obtain ⟨c, hc, hcheck⟩ := hrun
  obtain ⟨hauth, hnew, hname, hpassword, hfreed⟩ := of_decide_eq_true hcheck
  have hs : (c.data.session ()).AskedPassword ⟨0, ascii "alice" ++ [0]⟩ :=
    ⟨hauth, hname, hpassword⟩
  refine ⟨c, hs, (takenAsPassword_iff hc hs 0 ⟨by decide, by decide, by decide⟩).mpr ⟨?_, ?_⟩⟩
  · rw [hnew]
    exact fun hnot => Bool.false_ne_true hnot.1
  · rw [hfreed]
    exact List.not_mem_nil

/-- A connection is asked whether to create a user that another one then creates; it is told
that its password is wrong, and tries the right one. -/
def beaten : List (LoginThread Bool × LoginInput Bool) :=
  asked true (ascii "password") ++ asked false (ascii "yesterday") ++ confirmed false ++
    [(.conn true, .line 0 (ascii "x")), (.conn true, .null), (.conn true, .null)]

/-- The right password begins with a `y` and is taken for an answer. -/
theorem not_takenAsPassword_yesterday :
    ¬ ∀ c : LoginConfig Bool, Reach (step (loginProg Bool)) anyStep (· = unregistered Bool) c →
      ∀ k name before line, (c.data.session k).AskedPassword name →
        ValidPassword (chomp line) → TakenAsPassword c k name before line := by
  intro hall
  have hrun : ∃ c, Reach (step (loginProg Bool)) anyStep (· = unregistered Bool) c ∧
      decide (((c.data.session true).authenticated = false ∧
        (c.data.session true).username = some ⟨0, ascii "alice" ++ [0]⟩ ∧
        (c.data.session true).password = none) ∧
        (step (loginProg Bool) c (.conn true, .line 0 (ascii "yesterday"))).map
            (fun c' => c'.pc (.conn true)) =
          some (.register ⟨0, ascii "alice" ++ [0]⟩ ⟨6, ascii "yesterday" ++ [0]⟩)) = true :=
    exists_reach_of_run rfl beaten (by decide)
  obtain ⟨c, hc, hcheck⟩ := hrun
  obtain ⟨⟨hauth, hname, hpassword⟩, hregister⟩ := of_decide_eq_true hcheck
  obtain ⟨c₁, password, hstep, -, hlookup, -⟩ := hall c hc true _ 0 (ascii "yesterday")
    ⟨hauth, hname, hpassword⟩ ⟨by decide, by decide, by decide⟩
  rw [hstep, Option.map_some, hlookup] at hregister
  cases Option.some.inj hregister

end System

end Chatd.Net.Connection
