import Chatd.Net.Connection.Login.Steps

/-! # The user registry

Whether a name is free is decided at the push and nowhere else, so of all connections
that confirm the creation of a name exactly the first one to push creates it.
-/
namespace Chatd.Net.Connection
open Library Server Protocol

variable {κ : Type*} [DecidableEq κ]

/-- The connection has pushed the user and is about to log in with it. -/
def LoginPc.Pushed (user : User) : LoginPc → Prop
  | .pushed name password ok => ok = true ∧ makeUser name password = user
  | _ => False

/-- Each call of `push<User>` was accepted exactly if no earlier one was for its name. -/
def FirstAccepted (attempts : List (κ × User × Bool)) : Prop :=
  ∀ before k u ok after, attempts = before ++ (k, u, ok) :: after →
    (ok = true ↔ ∀ e ∈ before, e.2.1.name ≠ u.name)

/-- The record of the calls of `push<User>` agrees with the registry. -/
structure Recorded (c : LoginConfig κ) : Prop where
  names : ∀ name, name ∈ c.data.users.map User.name ↔
    ∃ e ∈ c.data.attempts, e.2.1.name = name
  first : FirstAccepted c.data.attempts
  accepted_iff : ∀ k u, (k, u, true) ∈ c.data.attempts ↔
    (k, u) ∈ c.data.created ∨ (c.pc (.conn k)).Pushed u
  user : ∀ k u, (k, u) ∈ c.data.created → (c.data.session k).user = some u

section Record

variable {attempts : List (κ × User × Bool)} {k : κ} {u : User} {ok : Bool}

omit [DecidableEq κ] in
theorem FirstAccepted.append (h : FirstAccepted attempts)
    (hok : ok = true ↔ ∀ e ∈ attempts, e.2.1.name ≠ u.name) :
    FirstAccepted (attempts ++ [(k, u, ok)]) := by
  intro before k' u' ok' after heq
  rcases List.eq_nil_or_concat after with rfl | ⟨after, e, rfl⟩
  · obtain ⟨rfl, he⟩ := List.append_inj' heq rfl
    cases he
    exact hok
  · rw [List.concat_eq_append, ← List.cons_append, ← List.append_assoc] at heq
    exact h before k' u' ok' after (List.append_inj' heq rfl).1

end Record

section Step

variable {d d' : LoginState κ} {k : κ} {p q : LoginPc} {u : User}

theorem ConnStep.user_kept (h : ConnStep d k p d' q) (hs : (d.session k).Genuine d.users)
    (hp : p.At d.users (d.session k)) (hu : (d.session k).user = some u) :
    (d'.session k).user = some u := by
  have hauth : (d.session k).authenticated = true := hs.authenticated.mpr (by simp [hu])
  have hnot {name password : Buffer} (hstored : (d.session k).Stored name password) : False := by
    simpa [hauth] using hstored.authenticated
  cases h with
  | null => rw [setSession_session_self, (Session.sameLogin_freeBuffers _).user, hu]
  | dialogue before bytes hnone => simp [hauth] at hnone
  | parse bytes =>
    rw [setSession_session_self]
    exact hu
  | parsed bytes hsame => rw [setSession_session_self, hsame.user, hu]
  | lookup name password => exact (hnot hp).elim
  | refused name password => exact (hnot hp).elim
  | registered name password => exact (hnot hp).elim
  | found name password => exact (hnot hp.1).elim
  | declined name password => exact (hnot hp.1).elim
  | created name password => exact (hnot hp.1).elim
  | ended => exact hu
  | handled p q h => rcases h with rfl | ⟨shared, rfl⟩ <;> exact hu

inductive RecordStep (d : LoginState κ) (k : κ) (p : LoginPc) (d' : LoginState κ) (q : LoginPc) :
    Prop
  | quiet (husers : d'.users = d.users) (hattempts : d'.attempts = d.attempts)
      (hcreated : d'.created = d.created) (hp : ∀ u, ¬ p.Pushed u) (hq : ∀ u, ¬ q.Pushed u)
  | refused (u : User) (hu : u.name ∈ d.users.map User.name) (husers : d'.users = d.users)
      (hattempts : d'.attempts = d.attempts ++ [(k, u, false)])
      (hcreated : d'.created = d.created) (hp : ∀ v, ¬ p.Pushed v) (hq : ∀ v, ¬ q.Pushed v)
  | registered (u : User) (hu : u.name ∉ d.users.map User.name)
      (husers : d'.users = d.users ++ [u])
      (hattempts : d'.attempts = d.attempts ++ [(k, u, true)])
      (hcreated : d'.created = d.created) (hp : ∀ v, ¬ p.Pushed v) (hq : ∀ v, q.Pushed v ↔ v = u)
  | created (u : User) (husers : d'.users = d.users) (hattempts : d'.attempts = d.attempts)
      (hcreated : d'.created = d.created ++ [(k, u)]) (hp : ∀ v, p.Pushed v ↔ v = u)
      (hq : ∀ v, ¬ q.Pushed v) (huser : (d'.session k).user = some u)

omit [DecidableEq κ] in
theorem not_pushed_false (name password : Buffer) (u : User) :
    ¬ (LoginPc.pushed name password false).Pushed u := by
  rintro ⟨h, -⟩
  cases h

omit [DecidableEq κ] in
theorem pushed_true_iff (name password : Buffer) (u : User) :
    (LoginPc.pushed name password true).Pushed u ↔ u = makeUser name password := by
  simp [LoginPc.Pushed, eq_comm]

omit [DecidableEq κ] in
theorem decide_not_pushed {s s' : Session} {buff : Buffer} (h : s.decide buff = (s', q))
    (u : User) :
    ¬ q.Pushed u := by
  cases decide_cases h <;> exact id

/-- Everything that a step adds to the records. -/
theorem ConnStep.record (h : ConnStep d k p d' q) : RecordStep d k p d' q := by
  cases h with
  | null => exact .quiet rfl rfl rfl (fun _ => id) fun _ => id
  | dialogue before bytes hauth hdialogue =>
    exact .quiet rfl rfl rfl (fun _ => id) (decide_not_pushed hdialogue)
  | parse bytes => exact .quiet rfl rfl rfl (fun _ => id) fun _ => id
  | lookup name password => exact .quiet rfl rfl rfl (fun _ => id) fun _ => id
  | found name password existing => exact .quiet rfl rfl rfl (fun _ => id) fun _ => id
  | refused name password hmem =>
    exact .refused (makeUser name password) hmem rfl rfl rfl (fun _ => id)
      (not_pushed_false name password)
  | registered name password hfresh =>
    exact .registered (makeUser name password) hfresh rfl rfl rfl (fun _ => id)
      (pushed_true_iff name password)
  | declined name password =>
    exact .quiet rfl rfl rfl (not_pushed_false name password) fun _ => id
  | created name password =>
    refine .created (makeUser name password) rfl rfl rfl (pushed_true_iff name password)
      (fun _ => id) ?_
    rw [setSession_session_self]
    rfl
  | parsed bytes hsame hq =>
    rcases hq with rfl | ⟨p, rfl⟩ <;> exact .quiet rfl rfl rfl (fun _ => id) fun _ => id
  | ended => exact .quiet rfl rfl rfl (fun _ => id) fun _ => id
  | handled p q h =>
    rcases h with rfl | ⟨shared, rfl⟩ <;> exact .quiet rfl rfl rfl (fun _ => id) fun _ => id

omit [DecidableEq κ] in
theorem RecordStep.names (h : RecordStep d k p d' q)
    (hnames : ∀ name, name ∈ d.users.map User.name ↔ ∃ e ∈ d.attempts, e.2.1.name = name)
    (name : Bytes) :
    name ∈ d'.users.map User.name ↔ ∃ e ∈ d'.attempts, e.2.1.name = name := by
  cases h with
  | quiet husers hattempts hcreated hp hq => rw [husers, hattempts, hnames]
  | created u husers hattempts hcreated hp hq hnew => rw [husers, hattempts, hnames]
  | refused u hu husers hattempts hcreated hp hq =>
    rw [husers, hattempts, hnames]
    constructor
    · rintro ⟨e, he, hname⟩
      exact ⟨e, List.mem_append_left _ he, hname⟩
    · rintro ⟨e, he, rfl⟩
      rcases List.mem_append.mp he with he | he
      · exact ⟨e, he, rfl⟩
      · rw [List.mem_singleton.mp he]
        exact (hnames _).mp hu
  | registered u hu husers hattempts hcreated hp hq =>
    rw [husers, hattempts, List.map_append, List.mem_append, hnames]
    simp only [List.mem_append, List.mem_singleton, List.map_singleton, or_and_right, exists_or,
      exists_eq_left]
    rw [eq_comm]

omit [DecidableEq κ] in
theorem RecordStep.first (h : RecordStep d k p d' q)
    (hnames : ∀ name, name ∈ d.users.map User.name ↔ ∃ e ∈ d.attempts, e.2.1.name = name)
    (hfirst : FirstAccepted d.attempts) : FirstAccepted d'.attempts := by
  cases h with
  | quiet husers hattempts hcreated hp hq => rwa [hattempts]
  | created u husers hattempts hcreated hp hq hnew => rwa [hattempts]
  | refused u hu husers hattempts hcreated hp hq =>
    rw [hattempts]
    refine hfirst.append (iff_of_false Bool.false_ne_true fun hnone => ?_)
    obtain ⟨e, he, hname⟩ := (hnames _).mp hu
    exact hnone e he hname
  | registered u hu husers hattempts hcreated hp hq =>
    rw [hattempts]
    refine hfirst.append (iff_of_true rfl fun e he hname => ?_)
    exact hu ((hnames _).mpr ⟨e, he, hname⟩)

omit [DecidableEq κ] in
theorem RecordStep.accepted_iff (h : RecordStep d k p d' q)
    (hold : (k, u, true) ∈ d.attempts ↔ (k, u) ∈ d.created ∨ p.Pushed u) :
    (k, u, true) ∈ d'.attempts ↔ (k, u) ∈ d'.created ∨ q.Pushed u := by
  cases h with
  | quiet husers hattempts hcreated hp hq =>
    rw [hattempts, hcreated, hold]
    simp [hp, hq]
  | refused v hv husers hattempts hcreated hp hq =>
    rw [hattempts, hcreated, List.mem_append, hold]
    simp [hp, hq]
  | registered v hv husers hattempts hcreated hp hq =>
    rw [hattempts, hcreated, List.mem_append, hold]
    simp [hp, hq]
  | created v husers hattempts hcreated hp hq hnew =>
    rw [hattempts, hcreated, List.mem_append, hold]
    simp [hp, hq]

omit [DecidableEq κ] in
theorem RecordStep.other (h : RecordStep d k p d' q) {j : κ} (hj : j ≠ k) :
    ((j, u, true) ∈ d'.attempts ↔ (j, u, true) ∈ d.attempts) ∧
      ((j, u) ∈ d'.created ↔ (j, u) ∈ d.created) := by
  cases h with
  | quiet husers hattempts hcreated hp hq => simp [hattempts, hcreated]
  | refused v hv husers hattempts hcreated hp hq => simp [hattempts, hcreated]
  | registered v hv husers hattempts hcreated hp hq => simp [hattempts, hcreated, hj]
  | created v husers hattempts hcreated hp hq hnew => simp [hattempts, hcreated, hj]

omit [DecidableEq κ] in
theorem RecordStep.user (h : RecordStep d k p d' q) {j : κ} (hu : (j, u) ∈ d'.created) :
    (j, u) ∈ d.created ∨ j = k ∧ (d'.session k).user = some u := by
  cases h with
  | quiet husers hattempts hcreated hp hq => exact .inl (hcreated ▸ hu)
  | refused v hv husers hattempts hcreated hp hq => exact .inl (hcreated ▸ hu)
  | registered v hv husers hattempts hcreated hp hq => exact .inl (hcreated ▸ hu)
  | created v husers hattempts hcreated hp hq hnew =>
    rw [hcreated] at hu
    rcases List.mem_append.mp hu with hu | hu
    · exact .inl hu
    · cases List.mem_singleton.mp hu
      exact .inr ⟨rfl, hnew⟩

end Step

section System

variable {c c' : LoginConfig κ} {l : LoginThread κ × LoginInput κ}

theorem Recorded.step (hc : Recorded c) (hr : Registered c)
    (h : step (loginProg κ) c l = some c') : Recorded c' := by
  rcases login_step h with ⟨conns, hdata, hpc⟩ | ⟨k, hstep, hpc⟩
  · constructor
    case names => rw [hdata]; exact hc.names
    case first => rw [hdata]; exact hc.first
    case accepted_iff =>
      intro j u
      rw [hdata, hpc]
      exact hc.accepted_iff j u
    case user => rw [hdata]; exact hc.user
  · have huser (j : κ) (u : User) (hu : (c.data.session j).user = some u) :
        (c'.data.session j).user = some u := by
      by_cases hj : j = k
      · subst hj
        exact hstep.user_kept (hr.genuine j) (hr.at_pc j) hu
      · rw [hstep.session_of_ne hj]
        exact hu
    have hrecord := hstep.record
    constructor
    case names => exact hrecord.names hc.names
    case first => exact hrecord.first hc.names hc.first
    case accepted_iff =>
      intro j u
      by_cases hj : j = k
      · subst hj
        exact hrecord.accepted_iff (hc.accepted_iff j u)
      · rw [(hrecord.other hj).1, (hrecord.other hj).2, hpc j hj]
        exact hc.accepted_iff j u
    case user =>
      intro j u hu
      rcases hrecord.user hu with hold | ⟨rfl, hnew⟩
      · exact huser j u (hc.user j u hold)
      · exact hnew

theorem users_kept_of_step (h : step (loginProg κ) c l = some c') :
    c.data.users <+: c'.data.users := by
  rcases login_step h with ⟨conns, hdata, -⟩ | ⟨k, hstep, -⟩
  · have hsame : c'.data.users = c.data.users := by rw [hdata]
    exact hsame ▸ List.prefix_rfl
  · exact hstep.users_kept

def asked {κ : Type*} (k : κ) (password : Bytes) : List (LoginThread κ × LoginInput κ) :=
  [(.conn k, .line 0 (ascii "alice")), (.conn k, .line 0 password), (.conn k, .null),
    (.conn k, .null)]

def confirmed {κ : Type*} (k : κ) : List (LoginThread κ × LoginInput κ) :=
  [(.conn k, .line 0 (ascii "y")), (.conn k, .null), (.conn k, .null)]

end System

end Chatd.Net.Connection
