import Chatd.Net.Connection.Login.Sessions

/-! # Steps of the login dialogue

What a step of a connection can do, and what every step keeps: the registered users have
distinct names and valid strings, each session is genuine, and at the points between
two lines a connection has stored the buffers that it is working with.
-/
namespace Chatd.Net.Connection
open Library Server Protocol

variable {κ : Type*} [DecidableEq κ]

section Cases

/-- What a line leads to behind the step that it was taken for. -/
inductive Decides (s : Session) (buff : Buffer) : Session → LoginPc → Prop
  | waits (h : ∀ name password, s.username = some name → s.password ≠ some password) :
      Decides s buff s .idle
  | registers (name password : Buffer) (hname : s.username = some name)
      (hpassword : s.password = some password) (hnew : s.newAccount = true)
      (hhead : buff.bytes.head? = some 121) : Decides s buff s (.register name password)
  | leaves (name password : Buffer) (hname : s.username = some name)
      (hpassword : s.password = some password) (hnew : s.newAccount = true)
      (hhead : buff.bytes.head? = some 110) :
      Decides s buff (s.reply (ascii "EXIT: Bye!\n")).gracefullyTerminate .idle
  | looksUp (name password : Buffer) (hname : s.username = some name)
      (hpassword : s.password = some password)
      (h : ¬ (s.newAccount = true ∧
        (buff.bytes.head? = some 121 ∨ buff.bytes.head? = some 110))) :
      Decides s buff s (.lookup name password)

theorem decide_cases {s s' : Session} {buff : Buffer} {q : LoginPc}
    (h : s.decide buff = (s', q)) : Decides s buff s' q := by
  unfold Session.decide at h
  split at h
  · rename_i name password hname hpassword
    split at h
    · rename_i hyes
      cases h
      exact .registers name password hname hpassword hyes.1 hyes.2
    · rename_i hyes
      split at h
      · rename_i hno
        cases h
        exact .leaves name password hname hpassword hno.1 hno.2
      · rename_i hno
        cases h
        refine .looksUp name password hname hpassword ?_
        rintro ⟨hnew, hhead | hhead⟩
        · exact hyes ⟨hnew, hhead⟩
        · exact hno ⟨hnew, hhead⟩
  · rename_i hnone
    cases h
    exact .waits hnone

/-- What a step of a connection can do to the state, from one program point to the next. -/
inductive ConnStep (d : LoginState κ) (k : κ) : LoginPc → LoginState κ → LoginPc → Prop
  | null : ConnStep d k .idle (d.setSession k (d.session k).freeBuffers) .idle
  | dialogue (before : UInt8) (bytes : Bytes) (h : (d.session k).authenticated = false)
      {s : Session} {q : LoginPc}
      (hs : ((d.session k).receiveLine bytes).dialogue before ⟨d.next, bytes ++ [0]⟩ bytes.length =
        (s, q)) :
      ConnStep d k .idle ({ d with next := d.next + 1 }.setSession k s) q
  | parse (bytes : Bytes) (h : (d.session k).authenticated = true) :
      ConnStep d k .idle ({ d with parsed := d.parsed ++ [(k, (d.session k).user)] }.setSession k
        ((d.session k).receiveLine bytes)) (.parsing bytes)
  | lookup (name password : Buffer) :
      ConnStep d k (.lookup name password) (d.setSession k ((d.session k).read name))
        (.found name password (ConnectionPool.get User.name d.users name.str))
  | found (name password : Buffer) (existing : Option User) :
      ConnStep d k (.found name password existing)
        (d.setSession k ((d.session k).answer name password existing)) .idle
  | refused (name password : Buffer) (h : name.str ∈ d.users.map User.name) :
      ConnStep d k (.register name password)
        ({ d with attempts := d.attempts ++ [(k, makeUser name password, false)] }.setSession k
          ((d.session k).read name)) (.pushed name password false)
  | registered (name password : Buffer) (h : name.str ∉ d.users.map User.name) :
      ConnStep d k (.register name password)
        ({ d with
            users := d.users ++ [makeUser name password]
            attempts := d.attempts ++ [(k, makeUser name password, true)] }.setSession k
          ((d.session k).read name)) (.pushed name password true)
  | declined (name password : Buffer) :
      ConnStep d k (.pushed name password false)
        (d.setSession k ((d.session k).answerPush name password false)) .idle
  | created (name password : Buffer) :
      ConnStep d k (.pushed name password true)
        ({ d with created := d.created ++ [(k, makeUser name password)] }.setSession k
          ((d.session k).answerPush name password true)) .idle
  | parsed (bytes : Bytes) {s : Session} (hs : (d.session k).SameLogin s) {q : LoginPc}
      (hq : q = .idle ∨ ∃ p, q = .handling p) :
      ConnStep d k (.parsing bytes) (d.setSession k s) q
  | ended : ConnStep d k (.handling .idle) d .idle
  | handled (p q : Protocol.Pc Bytes) {d' : LoginState κ}
      (h : d' = d ∨ ∃ shared, d' = d.setShared shared) :
      ConnStep d k (.handling p) d' (.handling q)

variable {d d' : LoginState κ} {k : κ} {p q : LoginPc} {a : LoginInput κ}

theorem setSession_self : d.setSession k (d.session k) = d := by
  rw [LoginState.setSession, Function.update_eq_self]

/-- Everything that a connection does next. -/
theorem connNext_cases (h : (connNext d k a p).Moves d d' q) : ConnStep d k p d' q := by
  cases p with
  | idle =>
    cases a with
    | null =>
      obtain ⟨rfl, rfl⟩ := h
      exact .null
    | line before bytes =>
      simp only [connNext] at h
      split at h
      · rename_i hauth
        obtain ⟨rfl, rfl⟩ := h
        exact .parse bytes hauth
      · rename_i hauth
        obtain ⟨rfl, rfl⟩ := h
        exact .dialogue before bytes (by simpa [Session.receiveLine] using hauth) rfl
    | _ => exact h.elim
  | lookup name password =>
    obtain ⟨rfl, rfl⟩ := h
    exact .lookup name password
  | found name password existing =>
    obtain ⟨rfl, rfl⟩ := h
    exact .found name password existing
  | register name password =>
    obtain ⟨rfl, rfl⟩ := h
    by_cases hmem : name.str ∈ d.users.map User.name
    · rw [ConnectionPool.push_of_mem User.name (e := makeUser name password) hmem]
      exact .refused name password hmem
    · rw [ConnectionPool.push_of_not_mem User.name (e := makeUser name password) hmem]
      exact .registered name password hmem
  | pushed name password ok =>
    obtain ⟨rfl, rfl⟩ := h
    cases ok with
    | true => exact .created name password
    | false =>
      simp only [Bool.false_eq_true, if_false, List.append_nil]
      exact .declined name password
  | parsing bytes =>
    simp only [connNext, LoginState.parseLine] at h
    split at h
    · exact h.elim
    · obtain ⟨rfl, rfl⟩ := h
      exact .parsed bytes (Session.sameLogin_reply ..) (.inl rfl)
    · split at h
      · obtain ⟨hd, rfl⟩ := h
        have hself : d' = d.setSession k (d.session k) := hd.trans setSession_self.symm
        rw [hself]
        exact .parsed bytes (.refl _) (.inr ⟨_, rfl⟩)
      · obtain ⟨rfl, rfl⟩ := h
        exact .parsed bytes ((Session.sameLogin_reply ..).trans
          (Session.sameLogin_gracefullyTerminate _)) (.inl rfl)
  | handling p =>
    simp only [connNext] at h
    split at h
    · rename_i hidle
      obtain ⟨rfl, rfl⟩ := h
      rw [hidle]
      exact .ended
    · split at h
      · exact h.elim
      · rw [Act.mapData_map] at h
        obtain ⟨p', hmoves, rfl⟩ := Act.moves_map.mp h
        exact .handled p p' (Act.eq_of_moves_mapData hmoves)

end Cases

def LoginPc.At (users : List User) (s : Session) : LoginPc → Prop
  | .idle => True
  | .lookup name password | .register name password => s.Stored name password
  | .found name password existing =>
    s.Stored name password ∧ ∀ u, existing = some u → u ∈ users ∧ u.name = name.str
  | .pushed name password ok =>
    s.Stored name password ∧ (ok = true → makeUser name password ∈ users)
  | .parsing _ | .handling _ => s.authenticated = true

section Step

variable {d d' : LoginState κ} {k j : κ} {p q : LoginPc} {s s' : Session} {users users' : List User}

@[simp] theorem setSession_session_self : (d.setSession k s).session k = s :=
  Function.update_self ..

theorem setSession_session_of_ne (h : j ≠ k) : (d.setSession k s).session j = d.session j :=
  Function.update_of_ne h ..

@[simp] theorem setSession_users : (d.setSession k s).users = d.users := rfl

omit [DecidableEq κ] in
theorem LoginPc.At.mono (h : p.At users s) (hsub : users ⊆ users') : p.At users' s := by
  cases p with
  | found name password existing => exact ⟨h.1, fun u hu => (h.2 u hu).imp_left fun hm => hsub hm⟩
  | pushed name password ok => exact ⟨h.1, fun hok => hsub (h.2 hok)⟩
  | _ => exact h

theorem ConnStep.session_of_ne (h : ConnStep d k p d' q) (hj : j ≠ k) :
    d'.session j = d.session j := by
  cases h with
  | ended => rfl
  | handled p q h =>
    rcases h with rfl | ⟨shared, rfl⟩ <;> rfl
  | _ => exact setSession_session_of_ne hj

/-- The registered users stay as they are, and new ones stand behind them. -/
theorem ConnStep.users_kept (h : ConnStep d k p d' q) : d.users <+: d'.users := by
  cases h with
  | registered name password h => exact List.prefix_append _ _
  | handled p q h =>
    rcases h with rfl | ⟨shared, rfl⟩ <;> exact List.prefix_rfl
  | _ => exact List.prefix_rfl

theorem Decides.sameLogin {buff : Buffer} (h : Decides s buff s' q) : s.SameLogin s' := by
  cases h with
  | leaves name password =>
    exact (Session.sameLogin_reply ..).trans (Session.sameLogin_gracefullyTerminate _)
  | _ => exact .refl s

theorem Decides.at_pc {buff : Buffer} (h : Decides s buff s' q) (hauth : s.authenticated = false) :
    q.At users s' := by
  cases h with
  | registers name password hname hpassword => exact ⟨hauth, hname, hpassword⟩
  | looksUp name password hname hpassword => exact ⟨hauth, hname, hpassword⟩
  | _ => trivial

/-- The dialogue on a line, up to the pool. -/
theorem dialogue_spec {before : UInt8} {addr : ℕ} {line : Bytes} (hs : s.Genuine users)
    (hauth : s.authenticated = false) (hline : line ∈ s.received)
    (h : s.dialogue before ⟨addr, line ++ [0]⟩ line.length = (s', q)) :
    s'.Genuine users ∧ q.At users s' := by
  have hentered : (s.enter ⟨addr, (dropReturn before (line ++ [0]) line.length).1⟩
      (dropReturn before (line ++ [0]) line.length).2).Genuine users :=
    hs.enter hline (dropReturn_str before line) (dropReturn_len before line)
  have hdecides := decide_cases h
  exact ⟨hentered.of_sameLogin hdecides.sameLogin,
    hdecides.at_pc (Session.enter_authenticated.trans hauth)⟩

theorem ConnStep.genuine (h : ConnStep d k p d' q) (hs : (d.session k).Genuine d.users)
    (hp : p.At d.users (d.session k)) :
    (d'.session k).Genuine d'.users ∧ q.At d'.users (d'.session k) := by
  cases h with
  | null =>
    rw [setSession_session_self]
    exact ⟨hs.of_sameLogin (Session.sameLogin_freeBuffers _), trivial⟩
  | dialogue before bytes hauth hdialogue =>
    rw [setSession_session_self]
    exact dialogue_spec (hs.receiveLine bytes) hauth
      (List.mem_append_right _ (List.mem_singleton_self bytes)) hdialogue
  | parse bytes hauth =>
    rw [setSession_session_self]
    exact ⟨hs.receiveLine bytes, hauth⟩
  | lookup name password =>
    have hread := Session.sameLogin_read (d.session k) name
    rw [setSession_session_self]
    refine ⟨hs.of_sameLogin hread, hp.of_sameLogin hread, fun u hu => ?_⟩
    exact ⟨ConnectionPool.mem_of_get _ hu, ConnectionPool.nameOf_of_get _ hu⟩
  | found name password existing =>
    rw [setSession_session_self]
    exact ⟨hs.answer hp.1 hp.2, trivial⟩
  | refused name password hmem =>
    have hread := Session.sameLogin_read (d.session k) name
    rw [setSession_session_self]
    exact ⟨hs.of_sameLogin hread, hp.of_sameLogin hread, fun h => by cases h⟩
  | registered name password hfresh =>
    have hread := Session.sameLogin_read (d.session k) name
    rw [setSession_session_self]
    refine ⟨(hs.of_sameLogin hread).mono fun _ => List.mem_append_left _, hp.of_sameLogin hread,
      fun _ => ?_⟩
    exact List.mem_append_right _ (List.mem_singleton_self _)
  | declined name password =>
    rw [setSession_session_self]
    exact ⟨hs.answerPush hp.1 hp.2, trivial⟩
  | created name password =>
    rw [setSession_session_self]
    exact ⟨hs.answerPush hp.1 hp.2, trivial⟩
  | parsed bytes hsame hq =>
    rw [setSession_session_self]
    refine ⟨hs.of_sameLogin hsame, ?_⟩
    rcases hq with rfl | ⟨p, rfl⟩
    · trivial
    · exact hsame.authenticated.trans hp
  | ended => exact ⟨hs, trivial⟩
  | handled p q h =>
    rcases h with rfl | ⟨shared, rfl⟩ <;> exact ⟨hs, hp⟩

/-- A step keeps what holds of the registered users: only a name that is free is added,
made of buffers that have passed the checks. -/
theorem ConnStep.valid (h : ConnStep d k p d' q) (hs : (d.session k).Genuine d.users)
    (hp : p.At d.users (d.session k)) (hnames : (d.users.map User.name).Nodup)
    (hvalid : ∀ u ∈ d.users, ValidName u.name ∧ ValidPassword u.password) :
    (d'.users.map User.name).Nodup ∧
      ∀ u ∈ d'.users, ValidName u.name ∧ ValidPassword u.password := by
  cases h with
  | registered name password hfresh =>
    rw [setSession_users]
    constructor
    · rw [List.map_append, List.map_singleton]
      exact hnames.append (List.nodup_singleton _) (by simpa [makeUser] using hfresh)
    · intro u hu
      rcases List.mem_append.mp hu with hu | hu
      · exact hvalid u hu
      · rw [List.mem_singleton.mp hu]
        exact ⟨(hs.username name hp.username).1, (hs.password password hp.password).1⟩
  | handled p q h =>
    rcases h with rfl | ⟨shared, rfl⟩ <;> exact ⟨hnames, hvalid⟩
  | _ => exact ⟨hnames, hvalid⟩

end Step

section System

variable {c c' : LoginConfig κ} {l : LoginThread κ × LoginInput κ}
  {ok : LoginConfig κ → LoginThread κ × LoginInput κ → LoginConfig κ → Prop}

theorem poolNext_conns {d d' : LoginState κ} {a : LoginInput κ} {p q : LoginPc}
    (h : (poolNext d a p).Moves d d' q) : ∃ conns, d' = { d with conns := conns } := by
  unfold poolNext at h
  split at h
  · split at h
    · split at h
      · exact h.elim
      · exact ⟨_, h.1⟩
    · exact ⟨_, h.1⟩
    · exact h.elim
  · exact h.elim

theorem pool_step {a : LoginInput κ} (h : step (loginProg κ) c (.pool, a) = some c') :
    (∃ conns, c'.data = { c.data with conns := conns }) ∧
      ∀ j, c'.pc (.conn j) = c.pc (.conn j) := by
  obtain ⟨hmoves, hothers⟩ := step_moves h
  exact ⟨poolNext_conns hmoves, fun j => hothers _ (by simp)⟩

theorem conn_step {k : κ} {a : LoginInput κ}
    (h : step (loginProg κ) c (.conn k, a) = some c') :
    (connNext c.data k a (c.pc (.conn k))).Moves c.data c'.data (c'.pc (.conn k)) ∧
      ∀ j, j ≠ k → c'.pc (.conn j) = c.pc (.conn j) := by
  obtain ⟨hmoves, hothers⟩ := step_moves h
  exact ⟨hmoves, fun j hj => hothers _ (by simpa using hj)⟩

theorem login_moves (h : step (loginProg κ) c l = some c') :
    (∃ conns, c'.data = { c.data with conns := conns } ∧
      ∀ j, c'.pc (.conn j) = c.pc (.conn j)) ∨
    ∃ k, l.1 = .conn k ∧
      (connNext c.data k l.2 (c.pc (.conn k))).Moves c.data c'.data (c'.pc (.conn k)) ∧
      ∀ j, j ≠ k → c'.pc (.conn j) = c.pc (.conn j) := by
  obtain ⟨t, a⟩ := l
  cases t with
  | pool =>
    left
    obtain ⟨⟨conns, hconns⟩, hpc⟩ := pool_step h
    exact ⟨conns, hconns, hpc⟩
  | conn k =>
    right
    obtain ⟨hmoves, hothers⟩ := conn_step h
    exact ⟨k, rfl, hmoves, hothers⟩

theorem login_step (h : step (loginProg κ) c l = some c') :
    (∃ conns, c'.data = { c.data with conns := conns } ∧
      ∀ j, c'.pc (.conn j) = c.pc (.conn j)) ∨
    ∃ k, ConnStep c.data k (c.pc (.conn k)) c'.data (c'.pc (.conn k)) ∧
      ∀ j, j ≠ k → c'.pc (.conn j) = c.pc (.conn j) := by
  rcases login_moves h with hpool | ⟨k, -, hmoves, hothers⟩
  · exact .inl hpool
  · exact .inr ⟨k, connNext_cases hmoves, hothers⟩

theorem step_line {k : κ} (hidle : c.pc (.conn k) = .idle)
    (hauth : (c.data.session k).authenticated = false) (before : UInt8) (line : Bytes) :
    ∃ c', step (loginProg κ) c (.conn k, .line before line) = some c' ∧
      (c'.data.session k, c'.pc (.conn k)) =
        ((c.data.session k).receiveLine line).dialogue before ⟨c.data.next, line ++ [0]⟩
          line.length := by
  have hact : loginProg κ (.conn k) (.line before line) c.data (c.pc (.conn k)) = .act
      ({ c.data with next := c.data.next + 1 }.setSession k
        (((c.data.session k).receiveLine line).dialogue before ⟨c.data.next, line ++ [0]⟩
          line.length).1)
      (((c.data.session k).receiveLine line).dialogue before ⟨c.data.next, line ++ [0]⟩
        line.length).2 := by
    rw [hidle]
    exact if_neg (by simp [Session.receiveLine, hauth])
  refine ⟨_, step_of_act hact, ?_⟩
  dsimp only
  rw [setSession_session_self, Function.update_self]

structure Registered (c : LoginConfig κ) : Prop where
  names_nodup : (c.data.users.map User.name).Nodup
  valid : ∀ u ∈ c.data.users, ValidName u.name ∧ ValidPassword u.password
  genuine : ∀ k, (c.data.session k).Genuine c.data.users
  at_pc : ∀ k, (c.pc (.conn k)).At c.data.users (c.data.session k)

omit [DecidableEq κ] in
theorem idle_of_not_stored {k : κ} (hr : Registered c)
    (hauth : (c.data.session k).authenticated = false)
    (hnot : ∀ name password, ¬ (c.data.session k).Stored name password) :
    c.pc (.conn k) = .idle := by
  have hat := hr.at_pc k
  cases hp : c.pc (.conn k) with
  | idle => rfl
  | lookup name password =>
    rw [hp] at hat
    exact absurd hat (hnot name password)
  | found name password existing =>
    rw [hp] at hat
    exact absurd hat.1 (hnot name password)
  | register name password =>
    rw [hp] at hat
    exact absurd hat (hnot name password)
  | pushed name password ok =>
    rw [hp] at hat
    exact absurd hat.1 (hnot name password)
  | parsing bytes =>
    rw [hp] at hat
    exact absurd (hauth.symm.trans hat) Bool.false_ne_true
  | handling p =>
    rw [hp] at hat
    exact absurd (hauth.symm.trans hat) Bool.false_ne_true

omit [DecidableEq κ] in
theorem registered_unregistered : Registered (unregistered κ) where
  names_nodup := List.nodup_nil
  valid _ h := by cases h
  genuine _ := ⟨fun _ h => (by cases h), fun _ h => (by cases h), fun _ h => (by cases h),
    iff_of_false Bool.false_ne_true fun h => h rfl⟩
  at_pc _ := trivial

theorem Registered.step (hc : Registered c) (h : step (loginProg κ) c l = some c') :
    Registered c' := by
  rcases login_step h with ⟨conns, hdata, hpc⟩ | ⟨k, hstep, hpc⟩
  · constructor
    case names_nodup => rw [hdata]; exact hc.names_nodup
    case valid => rw [hdata]; exact hc.valid
    case genuine => rw [hdata]; exact hc.genuine
    case at_pc =>
      intro j
      rw [hdata, hpc]
      exact hc.at_pc j
  · obtain ⟨hnames, hvalid⟩ := hstep.valid (hc.genuine k) (hc.at_pc k) hc.names_nodup hc.valid
    obtain ⟨hgenuine, hat⟩ := hstep.genuine (hc.genuine k) (hc.at_pc k)
    have hsub : c.data.users ⊆ c'.data.users := fun _ hu => hstep.users_kept.subset hu
    constructor
    case names_nodup => exact hnames
    case valid => exact hvalid
    case genuine =>
      intro j
      by_cases hj : j = k
      · rw [hj]
        exact hgenuine
      · rw [hstep.session_of_ne hj]
        exact (hc.genuine j).mono hsub
    case at_pc =>
      intro j
      by_cases hj : j = k
      · rw [hj]
        exact hat
      · rw [hpc j hj, hstep.session_of_ne hj]
        exact (hc.at_pc j).mono hsub

theorem registered_of_reach (h : Reach (step (loginProg κ)) ok (· = unregistered κ) c) :
    Registered c :=
  Reach.invariant (I := Registered) (fun _ h0 => h0 ▸ registered_unregistered)
    (fun _ _ _ hc hstep _ => hc.step hstep) h

end System

end Chatd.Net.Connection
