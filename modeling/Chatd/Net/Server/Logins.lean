import Chatd.Library.Logged
import Chatd.Net.Connection.Login.Registry
import Chatd.Net.Server.Requests

/-! # The logins as requests

A dialogue takes effect when it looks its user up or pushes a new one, and tells its connection
later. In every interleaving the dialogues do what a server does that handles one request after
the other, in the order of their accesses to the pool.
-/
namespace Chatd.Net.Server
open Library Protocol Net.Connection

namespace Pool

variable {κ : Type*} [DecidableEq κ] (p : Pool κ)

def accounts : List User := p.users.map p.user

def account (k : κ) : Option User := (p.session k).map p.user

variable {p} {k j : κ} {name password : Bytes} {u : User}

omit [DecidableEq κ] in
theorem get_accounts (p : Pool κ) (name : Bytes) :
    ConnectionPool.get User.name p.accounts name =
      (ConnectionPool.get p.userName p.users name).map p.user := by
  rw [ConnectionPool.get, accounts, List.find?_map]
  rfl

theorem login_accounts (p : Pool κ) (k : κ) (name password : Bytes) :
    (p.login k name password).1.accounts = p.accounts := by
  rcases login_cases p k name password with ⟨text, hlogin⟩ | ⟨u, -, -, -, hlogin⟩
  · rw [hlogin]
  · rw [hlogin]
    rfl

theorem login_account (h : p.session k = none) :
    (p.login k name password).1.account k = some u ↔
      ConnectionPool.get User.name p.accounts name = some u ∧ u.password = password := by
  have hnone : p.account k = none := by rw [account, h, Option.map_none]
  rw [get_accounts, login]
  cases hget : ConnectionPool.get p.userName p.users name with
  | none => simp [hnone]
  | some v =>
    dsimp only
    by_cases hpassword : (p.user v).password = password
    · rw [if_pos hpassword]
      have hset : (p.setSession k v).account k = some (p.user v) := by
        rw [account, setSession_session, if_pos rfl]
        rfl
      change (p.setSession k v).account k = some u ↔ _
      rw [hset, Option.map_some, Option.some.injEq]
      exact ⟨fun heq => ⟨heq, heq ▸ hpassword⟩, fun hboth => hboth.1⟩
    · rw [if_neg hpassword, hnone, Option.map_some, Option.some.injEq]
      refine iff_of_false (Option.some_ne_none u).symm ?_
      rintro ⟨rfl, heq⟩
      exact hpassword heq

theorem login_account_of_ne (hj : j ≠ k) :
    (p.login k name password).1.account j = p.account j := by
  rcases login_cases p k name password with ⟨text, hlogin⟩ | ⟨u, -, -, -, hlogin⟩
  · rw [hlogin]
  · rw [hlogin]
    change (p.setSession k u).account j = _
    rw [account, setSession_session, if_neg hj]
    rfl

theorem Accounted.user_addUser (hp : Accounted p) {v : UserRef} (hv : v ∈ p.users) :
    (p.addUser k name password).user v = p.user v :=
  Function.update_of_ne (Nat.ne_of_lt (hp.users_lt v hv)) ..

theorem Accounted.addUser_accounts (hp : Accounted p) :
    (p.addUser k name password).accounts = p.accounts ++ [⟨name, password⟩] := by
  rw [accounts, show (p.addUser k name password).users = p.users ++ [p.nextUser] from rfl,
    List.map_append, List.map_congr_left fun v hv => hp.user_addUser hv, List.map_singleton,
    show (p.addUser k name password).user p.nextUser = ⟨name, password⟩ from
      Function.update_self ..]
  rfl

theorem Accounted.addUser_account (hp : Accounted p) (j : κ) :
    (p.addUser k name password).account j =
      if j = k then some ⟨name, password⟩ else p.account j := by
  rw [account, addUser_session]
  by_cases hj : j = k
  · rw [if_pos hj, if_pos hj, Option.map_some]
    exact congrArg some (Function.update_self ..)
  · rw [if_neg hj, if_neg hj, account]
    cases hv : p.session j with
    | none => rfl
    | some v => exact congrArg some (hp.user_addUser (hp.session_mem j v hv))

omit [DecidableEq κ] in
theorem accounts_names (p : Pool κ) : p.accounts.map User.name = p.users.map p.userName := by
  rw [accounts, List.map_map]
  rfl

theorem Accounted.register_spec (hp : Accounted p) (k : κ) (name password : Bytes) :
    (p.register k name password).1 =
      if name ∈ p.accounts.map User.name then p else p.addUser k name password := by
  let user := Function.update p.user p.nextUser ⟨name, password⟩
  have hname : (user p.nextUser).name = name := addUser_userName_next (k := k)
  have hmap : p.users.map (fun u => (user u).name) = p.accounts.map User.name :=
    (hp.map_addUser k name password).trans p.accounts_names.symm
  by_cases hmem : name ∈ p.accounts.map User.name
  · have hpush : ConnectionPool.push (fun u => (user u).name) p.users p.nextUser =
        (p.users, false) := ConnectionPool.push_of_mem _ (by rwa [hmap, hname])
    rw [if_pos hmem]
    simp only [register, user] at hpush ⊢
    rw [hpush]
    rfl
  · have hpush : ConnectionPool.push (fun u => (user u).name) p.users p.nextUser =
        (p.users ++ [p.nextUser], true) :=
      ConnectionPool.push_of_not_mem _ (by rwa [hmap, hname])
    rw [if_neg hmem]
    simp only [register, user] at hpush ⊢
    rw [hpush]
    rfl

end Pool

section Dialogue

variable {s : Session} {buff name password : Buffer} {len : ℕ} {u : User}

theorem enter_user : (s.enter buff len).user = s.user := by
  unfold Session.enter Session.enterUsername Session.enterPassword
  split
  · split
    · rfl
    · split
      · rfl
      · exact (Session.sameLogin_greet s (greeting buff.str len) (ascii "SRV: Hello @")
          (ascii "\nSRV: Please enter your password: ")).user
  · split
    · rfl
    · split <;> rfl
  · rfl

theorem answer_user (hs : s.user = none) {existing : Option User} :
    (s.answer name password existing).user = some u ↔
      existing = some u ∧ u.password = password.str := by
  cases existing with
  | none =>
    refine iff_of_false (fun hnot => ?_) fun hnot => by cases hnot.1
    rw [show (s.answer name password none).user = s.user from rfl, hs] at hnot
    cases hnot
  | some v =>
    rw [Session.answer]
    dsimp only
    by_cases hpassword : v.password = password.str
    · rw [if_pos hpassword]
      change some v = some u ↔ _
      refine ⟨fun heq => ⟨heq, ?_⟩, fun hboth => hboth.1⟩
      cases heq
      exact hpassword
    · rw [if_neg hpassword]
      have hread : (s.read password).user = none :=
        (Session.sameLogin_read s password).user.trans hs
      refine iff_of_false (fun hnot => ?_) ?_
      · exact absurd (hread.symm.trans hnot) (Option.some_ne_none u).symm
      · rintro ⟨heq, hsame⟩
        cases heq
        exact hpassword hsame

end Dialogue

/-- The connection has looked up or pushed the user and is about to log in with it. -/
def LogsInAs (u : User) : LoginPc → Prop
  | .found _ password existing => existing = some u ∧ u.password = password.str
  | .pushed name password ok => ok = true ∧ makeUser name password = u
  | _ => False

section Requests

variable {κ : Type*} [DecidableEq κ]

def arrives (log : List (Request κ)) (k : κ) : List (Request κ) :=
  if .connect k ∈ log then [] else [.connect k]

/-- The request that a connection makes with an access to the pool. -/
def loginRequests (log : List (Request κ)) (c : LoginConfig κ)
    (l : LoginThread κ × LoginInput κ) (_ : LoginConfig κ) : List (Request κ) :=
  match l.1 with
  | .pool => []
  | .conn k =>
    match c.pc (.conn k) with
    | .lookup name password => arrives log k ++ [.login k name.str password.str]
    | .register name password => arrives log k ++ [.register k name.str password.str]
    | _ => []

variable {d d' : LoginState κ} {k : κ} {p q : LoginPc} {u : User}

/-- Away from the accesses to the pool nobody registers or decides on a login. -/
theorem quiet_of_connStep (h : ConnStep d k p d' q) (hs : (d.session k).Genuine d.users)
    (hp : p.At d.users (d.session k)) (hlookup : ∀ name password, p ≠ .lookup name password)
    (hregister : ∀ name password, p ≠ .register name password) :
    d'.users = d.users ∧ ∀ u, (d'.session k).user = some u ∨ LogsInAs u q ↔
      (d.session k).user = some u ∨ LogsInAs u p := by
  have hnone {name password : Buffer} (hstored : (d.session k).Stored name password) :
      (d.session k).user = none := by
    by_contra hne
    exact Bool.false_ne_true (hstored.authenticated.symm.trans (hs.authenticated.mpr hne))
  cases h with
  | null =>
    rw [setSession_session_self, (Session.sameLogin_freeBuffers _).user]
    exact ⟨rfl, fun u => Iff.rfl⟩
  | dialogue before bytes hauth hdialogue =>
    have hdecides := decide_cases hdialogue
    rw [setSession_session_self, hdecides.sameLogin.user.trans enter_user]
    refine ⟨rfl, fun u => or_congr Iff.rfl ?_⟩
    cases hdecides <;> exact Iff.rfl
  | parse bytes hauth =>
    rw [setSession_session_self]
    exact ⟨rfl, fun u => Iff.rfl⟩
  | lookup name password => exact absurd rfl (hlookup name password)
  | refused name password => exact absurd rfl (hregister name password)
  | registered name password => exact absurd rfl (hregister name password)
  | found name password existing =>
    rw [setSession_session_self]
    refine ⟨rfl, fun u => ?_⟩
    rw [answer_user (hnone hp.1), hnone hp.1]
    simp [LogsInAs]
  | declined name password =>
    rw [setSession_session_self]
    refine ⟨rfl, fun u => ?_⟩
    simp [LogsInAs, hnone hp.1, Session.answerPush, Session.free, Session.reply,
      Session.gracefullyTerminate]
  | created name password =>
    rw [setSession_session_self]
    refine ⟨rfl, fun u => ?_⟩
    simp [LogsInAs, hnone hp.1, Session.answerPush]
  | parsed bytes hsame hq =>
    rw [setSession_session_self, hsame.user]
    refine ⟨rfl, fun u => ?_⟩
    rcases hq with rfl | ⟨p, rfl⟩ <;> exact Iff.rfl
  | ended => exact ⟨rfl, fun u => Iff.rfl⟩
  | handled p q h =>
    rcases h with rfl | ⟨shared, rfl⟩ <;> exact ⟨rfl, fun u => Iff.rfl⟩

/-- The server that has handled the requests has the same registered users, and its connections
are logged in as the users that the dialogues have decided on. -/
structure Serves (p : Pool κ) (r : Logged (LoginConfig κ) (Request κ)) : Prop where
  served : run Pool.step Pool.empty r.log = some p
  accounted : p.Accounted
  accounts : p.accounts = r.state.data.users
  account : ∀ k u, p.account k = some u ↔
    (r.state.data.session k).user = some u ∨ LogsInAs u (r.state.pc (.conn k))
  conns : ∀ k, k ∈ p.conns ↔ .connect k ∈ r.log
  stranger : ∀ k, k ∉ p.conns → p.session k = none

theorem serves_start : Serves Pool.empty ⟨unregistered κ, []⟩ where
  served := rfl
  accounted := Pool.accounted_empty
  accounts := rfl
  account k u := iff_of_false (Option.some_ne_none u).symm (by simp [unregistered, Session.fresh,
    LogsInAs])
  conns k := iff_of_false List.not_mem_nil List.not_mem_nil
  stranger k _ := rfl

variable {r r' : Logged (LoginConfig κ) (Request κ)} {pool : Pool κ}

theorem Serves.arrive (h : Serves pool r) (k : κ) :
    ∃ conns, run Pool.step Pool.empty (r.log ++ arrives r.log k) = some { pool with conns } ∧
      ({ pool with conns } : Pool κ).Accounted ∧
      (∀ j, j ∈ conns ↔ .connect j ∈ r.log ++ arrives r.log k) ∧ k ∈ conns ∧
      ∀ j, j ∈ pool.conns → j ∈ conns := by
  rw [arrives]
  by_cases hk : .connect k ∈ r.log
  · rw [if_pos hk, List.append_nil]
    exact ⟨pool.conns, h.served, h.accounted, h.conns, (h.conns k).mpr hk, fun j => id⟩
  · have hnot : k ∉ pool.conns := fun hmem => hk ((h.conns k).mp hmem)
    have hstep : Pool.step pool (.connect k) = some { pool with conns := pool.conns ++ [k] } := by
      rw [Pool.step, Pool.serve, if_pos ⟨hnot, h.stranger k hnot⟩]
      rfl
    rw [if_neg hk, run_append, h.served, Option.bind_some, run_cons [] hstep]
    refine ⟨pool.conns ++ [k], rfl, h.accounted.step hstep, fun j => ?_,
      List.mem_append_right _ (List.mem_singleton_self k), fun j => List.mem_append_left _⟩
    simp [h.conns]

theorem Serves.session_none (h : Serves pool r) (hnone : (r.state.data.session k).user = none)
    (hp : ∀ u, ¬ LogsInAs u (r.state.pc (.conn k))) : pool.session k = none := by
  cases hu : pool.session k with
  | none => rfl
  | some u =>
    have haccount : pool.account k = some (pool.user u) := by
      rw [Pool.account, hu]
      rfl
    rcases (h.account k _).mp haccount with huser | hlogs
    · rw [hnone] at huser
      cases huser
    · exact (hp _ hlogs).elim

/-- What a request of a connection that is not logged in leads to. -/
theorem Serves.request (h : Serves pool r) {request : Request κ} {c' : LoginConfig κ}
    (pool' : Pool κ → Pool κ)
    (hserve : ∀ p : Pool κ, k ∈ p.conns → p.session = pool.session →
      Pool.step p request = some (pool' p))
    (hconns : ∀ p, (pool' p).conns = p.conns) (hrequest : ∀ j, .connect j ≠ request)
    (hframe : ∀ conns j, j ≠ k →
      (pool' { pool with conns }).session j = pool.session j)
    (haccounts : ∀ conns, ({ pool with conns } : Pool κ).Accounted →
      (pool' { pool with conns }).accounts = c'.data.users)
    (haccount : ∀ conns, ({ pool with conns } : Pool κ).Accounted → ∀ j u,
      (pool' { pool with conns }).account j = some u ↔
        (c'.data.session j).user = some u ∨ LogsInAs u (c'.pc (.conn j))) :
    ∃ p, Serves p ⟨c', r.log ++ (arrives r.log k ++ [request])⟩ := by
  obtain ⟨conns, hrun, haccounted, hmem, hk, hold⟩ := h.arrive k
  have hstep := hserve { pool with conns } hk rfl
  refine ⟨pool' { pool with conns }, ?_, haccounted.step hstep, haccounts conns haccounted,
    haccount conns haccounted, fun j => ?_, fun j hj => ?_⟩
  · rw [← List.append_assoc, run_append, hrun, Option.bind_some, run_cons [] hstep]
    rfl
  · have hlog : .connect j ∈ r.log ++ (arrives r.log k ++ [request]) ↔
        .connect j ∈ r.log ++ arrives r.log k := by
      rw [← List.append_assoc, List.mem_append, List.mem_singleton]
      exact or_iff_left (hrequest j)
    rw [hconns, hmem]
    exact hlog.symm
  · rw [hconns] at hj
    have hjk : j ≠ k := fun heq => hj (heq ▸ hk)
    rw [hframe conns j hjk]
    exact h.stranger j fun hmem => hj (hold j hmem)

/-- A login takes effect with the lookup. -/
theorem Serves.lookup (h : Serves pool r) {name password : Buffer}
    (hnone : (r.state.data.session k).user = none)
    (hp : r.state.pc (.conn k) = .lookup name password) {c' : LoginConfig κ}
    (husers : c'.data.users = r.state.data.users)
    (hsession : ∀ j, (c'.data.session j).user = (r.state.data.session j).user)
    (hpc : c'.pc (.conn k) =
      .found name password (ConnectionPool.get User.name r.state.data.users name.str))
    (hothers : ∀ j, j ≠ k → c'.pc (.conn j) = r.state.pc (.conn j)) :
    ∃ p, Serves p ⟨c', r.log ++ (arrives r.log k ++ [.login k name.str password.str])⟩ := by
  have hfree : pool.session k = none := h.session_none hnone fun u => by
    rw [hp]
    exact id
  refine h.request (fun p => (p.login k name.str password.str).1) (fun p hk hsame => ?_)
    (fun p => ?_) (fun j => nofun) (fun conns j hj => ?_) (fun conns _ => ?_) fun conns _ j u => ?_
  · rw [Pool.step, Pool.serve, if_pos ⟨hk, hsame ▸ hfree⟩]
    rfl
  · rcases Pool.login_cases p k name.str password.str with ⟨text, hlogin⟩ | ⟨u, -, -, -, hlogin⟩ <;>
      rw [hlogin]
    rfl
  · rcases Pool.login_cases { pool with conns } k name.str password.str with
      ⟨text, hlogin⟩ | ⟨u, -, -, -, hlogin⟩ <;> rw [hlogin]
    exact (Pool.setSession_session j).trans (if_neg hj)
  · rw [Pool.login_accounts, husers]
    exact h.accounts
  · by_cases hj : j = k
    · subst hj
      have haccounts : ({ pool with conns } : Pool κ).accounts = r.state.data.users := h.accounts
      have hfree' : ({ pool with conns } : Pool κ).session j = none := hfree
      rw [Pool.login_account hfree', haccounts, hpc, hsession, hnone]
      simp [LogsInAs]
    · rw [Pool.login_account_of_ne hj, hsession, hothers j hj]
      exact h.account j u

theorem Serves.register (h : Serves pool r) {name password : Buffer}
    (hnone : (r.state.data.session k).user = none)
    (hp : r.state.pc (.conn k) = .register name password) {c' : LoginConfig κ} (ok : Bool)
    (hok : ok = true ↔ name.str ∉ r.state.data.users.map User.name)
    (husers : c'.data.users =
      r.state.data.users ++ if ok then [makeUser name password] else [])
    (hsession : ∀ j, (c'.data.session j).user = (r.state.data.session j).user)
    (hpc : c'.pc (.conn k) = .pushed name password ok)
    (hothers : ∀ j, j ≠ k → c'.pc (.conn j) = r.state.pc (.conn j)) :
    ∃ p, Serves p ⟨c', r.log ++ (arrives r.log k ++ [.register k name.str password.str])⟩ := by
  have hfree : pool.session k = none := h.session_none hnone fun u => by
    rw [hp]
    exact id
  have haccounts (conns : List κ) :
      ({ pool with conns } : Pool κ).accounts = r.state.data.users := h.accounts
  refine h.request (fun p => (p.register k name.str password.str).1) (fun p hk hsame => ?_)
    (fun p => ?_) (fun j => nofun) (fun conns j hj => ?_) (fun conns hconns => ?_)
    fun conns hconns j u => ?_
  · rw [Pool.step, Pool.serve, if_pos ⟨hk, hsame ▸ hfree⟩]
    rfl
  · rw [Pool.register]
    split <;> rfl
  · rw [Pool.register]
    split
    · exact Function.update_of_ne hj ..
    · rfl
  · rw [hconns.register_spec, haccounts, husers]
    cases ok with
    | true =>
      rw [if_neg (hok.mp rfl), hconns.addUser_accounts, haccounts]
      rfl
    | false =>
      have hmem := not_not.mp (mt hok.mpr Bool.false_ne_true)
      rw [if_pos hmem, haccounts]
      exact (List.append_nil _).symm
  · rw [hconns.register_spec, haccounts, hsession]
    cases ok with
    | true =>
      rw [if_neg (hok.mp rfl), hconns.addUser_account]
      by_cases hj : j = k
      · subst hj
        rw [if_pos rfl, hnone, hpc]
        simp [LogsInAs, makeUser]
      · rw [if_neg hj, hothers j hj]
        exact h.account j u
    | false =>
      have hmem := not_not.mp (mt hok.mpr Bool.false_ne_true)
      rw [if_pos hmem]
      by_cases hj : j = k
      · subst hj
        have haccount := h.account j u
        rw [hp] at haccount
        rw [hpc]
        exact haccount.trans (or_congr Iff.rfl (by simp [LogsInAs]))
      · rw [hothers j hj]
        exact h.account j u

theorem Serves.quiet (h : Serves pool r) {c' : LoginConfig κ}
    (husers : c'.data.users = r.state.data.users)
    (haccount : ∀ k u,
      (c'.data.session k).user = some u ∨ LogsInAs u (c'.pc (.conn k)) ↔
        (r.state.data.session k).user = some u ∨ LogsInAs u (r.state.pc (.conn k))) :
    Serves pool ⟨c', r.log ++ []⟩ where
  served := (List.append_nil r.log).symm ▸ h.served
  accounted := h.accounted
  accounts := h.accounts.trans husers.symm
  account k u := (h.account k u).trans (haccount k u).symm
  conns k := by
    rw [List.append_nil]
    exact h.conns k
  stranger := h.stranger

theorem setSession_user {s : Session} (hs : s.user = (d.session k).user) (j : κ) :
    ((d.setSession k s).session j).user = (d.session j).user := by
  by_cases hj : j = k
  · rw [hj, setSession_session_self, hs]
  · rw [setSession_session_of_ne hj]

/-- The step lemma: a request takes effect, or nothing does. -/
theorem Serves.step (h : Serves pool r) (hr : Registered r.state)
    {l : LoginThread κ × LoginInput κ}
    (hstep : logged (step (loginProg κ)) loginRequests r l = some r') : ∃ p, Serves p r' := by
  obtain ⟨hs, hlog⟩ := logged_cases hstep
  obtain ⟨c', log'⟩ := r'
  obtain ⟨t, a⟩ := l
  dsimp only at hs hlog
  subst hlog
  cases t with
  | pool =>
    obtain ⟨⟨conns, hdata⟩, hpc⟩ := pool_step hs
    refine ⟨pool, h.quiet (by rw [hdata]) fun k u => ?_⟩
    rw [hdata, hpc]
  | conn k =>
    obtain ⟨hmoves, hothers⟩ := conn_step hs
    have hconn := connNext_cases hmoves
    have hat := hr.at_pc k
    have hnone {name password : Buffer} (hstored : (r.state.data.session k).Stored name password) :
        (r.state.data.session k).user = none := by
      by_contra hne
      exact Bool.false_ne_true
        (hstored.authenticated.symm.trans ((hr.genuine k).authenticated.mpr hne))
    have hread (b : Buffer) :
        ((r.state.data.session k).read b).user = (r.state.data.session k).user :=
      (Session.sameLogin_read _ b).user
    rw [loginRequests]
    dsimp only
    generalize hd : c'.data = d' at hconn
    generalize hq : c'.pc (.conn k) = q at hconn
    cases hp : r.state.pc (.conn k) with
    | lookup name password =>
      rw [hp] at hconn hat
      cases hconn
      refine h.lookup (hnone hat) hp (hd ▸ rfl) (fun j => ?_) hq hothers
      rw [hd]
      exact setSession_user (hread name) j
    | register name password =>
      rw [hp] at hconn hat
      cases hconn with
      | refused _ _ hmem =>
        refine h.register (hnone hat) hp false ?_ ?_ (fun j => ?_) hq hothers
        · exact iff_of_false Bool.false_ne_true fun hnot => hnot hmem
        · rw [hd]
          exact (List.append_nil _).symm
        · rw [hd]
          exact setSession_user (hread name) j
      | registered _ _ hfree =>
        refine h.register (hnone hat) hp true (iff_of_true rfl hfree) ?_ (fun j => ?_) hq
          hothers
        · rw [hd]
          rfl
        · rw [hd]
          exact setSession_user (hread name) j
    | _ =>
      rw [hp] at hconn hat
      obtain ⟨husers, huser⟩ := quiet_of_connStep hconn (hr.genuine k) hat nofun nofun
      refine ⟨pool, h.quiet (hd ▸ husers) fun j u => ?_⟩
      by_cases hj : j = k
      · subst hj
        rw [hd, hq, hp]
        exact huser u
      · rw [hd, hconn.session_of_ne hj, hothers j hj]

/-- The dialogues of all connections do what the requests do, one after the other. -/
theorem serves_of_reach
    (h : Reach (logged (step (loginProg κ)) loginRequests) (onState anyStep)
      (unlogged (· = unregistered κ)) r) : ∃ p, Serves p r := by
  apply Reach.invariant_reached (I := fun r => ∃ p, Serves p r) _ _ h
  · rintro ⟨_, _⟩ ⟨rfl, rfl⟩
    exact ⟨_, serves_start⟩
  · intro r l r' hr ⟨p, hp⟩ hstep _
    exact hp.step (registered_of_reach hr.state) hstep

/-- In every interleaving the server is the one that has handled the requests of the dialogues
one after the other, each with the access to the pool: with the same registered users, and every
connection that is not in the middle of an answer logged in as the same user. -/
theorem logins_as_requests
    (h : Reach (logged (step (loginProg κ)) loginRequests) (onState anyStep)
      (unlogged (· = unregistered κ)) r) :
    ∃ p, run Pool.step Pool.empty r.log = some p ∧ p.accounts = r.state.data.users ∧
      (∀ k u, (r.state.data.session k).user = some u → p.account k = some u) ∧
      ∀ k, (∀ name password existing, r.state.pc (.conn k) ≠ .found name password existing) →
        (∀ name password ok, r.state.pc (.conn k) ≠ .pushed name password ok) →
        p.account k = (r.state.data.session k).user := by
  obtain ⟨p, hp⟩ := serves_of_reach h
  refine ⟨p, hp.served, hp.accounts, fun k u huser => (hp.account k u).mpr (.inl huser),
    fun k hfound hpushed => Option.ext fun u => (hp.account k u).trans (or_iff_left ?_)⟩
  cases hpc : r.state.pc (.conn k) with
  | found name password existing => exact absurd hpc (hfound name password existing)
  | pushed name password ok => exact absurd hpc (hpushed name password ok)
  | _ => exact id

/-- Two connections ask for one name, and the one that asked last registers first. -/
theorem logins_as_requests_twice : ∃ (r : Logged (LoginConfig Bool) (Request Bool)) (p : Pool Bool),
    r.log = [.connect true, .login true (ascii "alice") (ascii "password"),
      .connect false, .login false (ascii "alice") (ascii "other password"),
      .register false (ascii "alice") (ascii "other password"),
      .register true (ascii "alice") (ascii "password")] ∧
    run Pool.step Pool.empty r.log = some p ∧
    p.account false = some ⟨ascii "alice", ascii "other password"⟩ ∧ p.account true = none := by
  have hrun : ∃ r, Reach (logged (step (loginProg Bool)) loginRequests) (onState anyStep)
      (unlogged (· = unregistered Bool)) r ∧
      decide (r.log = [.connect true, .login true (ascii "alice") (ascii "password"),
          .connect false, .login false (ascii "alice") (ascii "other password"),
          .register false (ascii "alice") (ascii "other password"),
          .register true (ascii "alice") (ascii "password")] ∧
        (∀ k, r.state.pc (.conn k) = .idle) ∧
        (r.state.data.session false).user = some ⟨ascii "alice", ascii "other password"⟩ ∧
        (r.state.data.session true).user = none) = true :=
    exists_reach_of_run (s := ⟨unregistered Bool, []⟩) ⟨rfl, rfl⟩
      (asked true (ascii "password") ++ asked false (ascii "other password") ++ confirmed false ++
        confirmed true) (by decide)
  obtain ⟨r, hr, hcheck⟩ := hrun
  obtain ⟨hlog, hidle, hfalse, htrue⟩ := of_decide_eq_true hcheck
  obtain ⟨p, hserved, -, -, hsame⟩ := logins_as_requests hr
  have haccount (k : Bool) : p.account k = (r.state.data.session k).user :=
    hsame k (by simp [hidle]) (by simp [hidle])
  exact ⟨r, p, hlog, hserved, (haccount false).trans hfalse, (haccount true).trans htrue⟩

end Requests

end Chatd.Net.Server
