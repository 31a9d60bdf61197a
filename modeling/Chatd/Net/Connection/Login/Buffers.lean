import Chatd.Net.Connection.Login.Registry
import Chatd.Net.Connection.Login.Username

/-! # The stored buffers

The dialogue owns the buffers of the name and the password until a user is made of them or
they are freed. A refused user frees them and leaves the dialogue its pointers, and so does
`handle_payload(NULL, 0)`, which is meant to be the last call, but is also what `rx_thread`
makes of an empty line at the start of a packet.
-/
namespace Chatd.Net.Connection
open Library Server Protocol

namespace Session

variable (n : ℕ) (s : Session)

/-- The buffers of the session have been allocated before address `n`, the stored ones are two,
and none is freed that is yet to come. -/
structure Allocated : Prop where
  freed_lt : ∀ a ∈ s.freed, a < n
  username_lt : ∀ b, s.username = some b → b.addr < n
  password_lt : ∀ b, s.password = some b → b.addr < n
  distinct : ∀ b b', s.username = some b → s.password = some b' → b.addr ≠ b'.addr

structure Live : Prop where
  username : ∀ b, s.username = some b → b.addr ∉ s.freed
  password : ∀ b, s.password = some b → b.addr ∉ s.freed

/-- No buffer was freed twice, or read behind a free. -/
def FreedOnce : Prop := s.freed.Nodup ∧ s.staleReads = []

structure SameBuffers (s s' : Session) : Prop where
  username : s'.username = s.username
  password : s'.password = s.password
  freed : s'.freed = s.freed
  staleReads : s'.staleReads = s.staleReads

variable {n s} {s' s'' : Session} {m : ℕ} {b buff name password : Buffer} {len : ℕ} {text : Bytes}
  {q : LoginPc}

theorem allocated_fresh : fresh.Allocated n :=
  ⟨(fun _ h => by cases h), (fun _ h => by cases h), (fun _ h => by cases h),
    fun _ _ h => by cases h⟩

theorem SameBuffers.refl (s : Session) : s.SameBuffers s := ⟨rfl, rfl, rfl, rfl⟩

theorem SameBuffers.trans (h : s.SameBuffers s') (h' : s'.SameBuffers s'') : s.SameBuffers s'' :=
  ⟨h'.username.trans h.username, h'.password.trans h.password, h'.freed.trans h.freed,
    h'.staleReads.trans h.staleReads⟩

theorem sameBuffers_reply (s : Session) (text : Bytes) : s.SameBuffers (s.reply text) :=
  ⟨rfl, rfl, rfl, rfl⟩

theorem sameBuffers_send (s : Session) (cells : Block UInt8) : s.SameBuffers (s.send cells) := by
  unfold send
  split <;> exact ⟨rfl, rfl, rfl, rfl⟩

theorem sameBuffers_gracefullyTerminate (s : Session) : s.SameBuffers s.gracefullyTerminate :=
  ⟨rfl, rfl, rfl, rfl⟩

theorem sameBuffers_receiveLine (s : Session) (line : Bytes) : s.SameBuffers (s.receiveLine line) :=
  ⟨rfl, rfl, rfl, rfl⟩

theorem sameBuffers_greet (s : Session) (cells : Block UInt8) (before behind : Bytes) :
    s.SameBuffers (((s.reply before).send cells).reply behind) :=
  ((sameBuffers_reply s before).trans (sameBuffers_send _ cells)).trans
    (sameBuffers_reply _ behind)

theorem read_of_not_mem (h : b.addr ∉ s.freed) : s.read b = s := if_neg h

theorem Allocated.of_sameBuffers (h : s.Allocated n) (hs : s.SameBuffers s') : s'.Allocated n := by
  constructor
  case freed_lt => rw [hs.freed]; exact h.freed_lt
  case username_lt => rw [hs.username]; exact h.username_lt
  case password_lt => rw [hs.password]; exact h.password_lt
  case distinct => rw [hs.username, hs.password]; exact h.distinct

theorem Live.of_sameBuffers (h : s.Live) (hs : s.SameBuffers s') : s'.Live := by
  constructor
  case username => rw [hs.username, hs.freed]; exact h.username
  case password => rw [hs.password, hs.freed]; exact h.password

theorem FreedOnce.of_sameBuffers (h : s.FreedOnce) (hs : s.SameBuffers s') : s'.FreedOnce := by
  rw [FreedOnce, hs.freed, hs.staleReads]
  exact h

theorem Allocated.mono (h : s.Allocated n) (hm : n ≤ m) : s.Allocated m :=
  ⟨fun a ha => Nat.lt_of_lt_of_le (h.freed_lt a ha) hm,
    fun b hb => Nat.lt_of_lt_of_le (h.username_lt b hb) hm,
    fun b hb => Nat.lt_of_lt_of_le (h.password_lt b hb) hm, h.distinct⟩

@[simp] theorem mem_free_freed {a : ℕ} :
    a ∈ (s.free b).freed ↔ a ∈ s.freed ∨ a = b.addr := by
  simp [Session.free]

theorem Allocated.free (h : s.Allocated n) (hb : b.addr < n) : (s.free b).Allocated n := by
  refine ⟨fun a ha => ?_, h.username_lt, h.password_lt, h.distinct⟩
  rcases mem_free_freed.mp ha with ha | rfl
  · exact h.freed_lt a ha
  · exact hb

theorem Allocated.read (h : s.Allocated n) : (s.read b).Allocated n := by
  unfold Session.read
  split
  · exact ⟨h.freed_lt, h.username_lt, h.password_lt, h.distinct⟩
  · exact h

theorem FreedOnce.free (h : s.FreedOnce) (hb : b.addr ∉ s.freed) : (s.free b).FreedOnce :=
  ⟨h.1.append (List.nodup_singleton _) (by simpa using hb), h.2⟩

theorem Live.free (h : s.Live) (hname : ∀ b', s.username = some b' → b'.addr ≠ b.addr)
    (hpassword : ∀ b', s.password = some b' → b'.addr ≠ b.addr) : (s.free b).Live := by
  constructor
  · intro b' hb' hmem
    rcases mem_free_freed.mp hmem with hmem | heq
    · exact h.username b' hb' hmem
    · exact hname b' hb' heq
  · intro b' hb' hmem
    rcases mem_free_freed.mp hmem with hmem | heq
    · exact h.password b' hb' hmem
    · exact hpassword b' hb' heq

/-- A session that has freed nothing twice, and owns its buffers until it is logged in. -/
structure Kept (n : ℕ) (s : Session) : Prop where
  allocated : s.Allocated n
  live : s.authenticated = false → s.Live
  freedOnce : s.FreedOnce

theorem kept_fresh : fresh.Kept n :=
  ⟨allocated_fresh, fun _ => ⟨(fun _ h => by cases h), fun _ h => by cases h⟩, List.nodup_nil, rfl⟩

theorem Kept.of_sameBuffers (h : s.Kept n) (hs : s.SameBuffers s')
    (hauth : s'.authenticated = false → s.authenticated = false) : s'.Kept n :=
  ⟨h.allocated.of_sameBuffers hs, fun ha => (h.live (hauth ha)).of_sameBuffers hs,
    h.freedOnce.of_sameBuffers hs⟩

theorem Kept.mono (h : s.Kept n) (hm : n ≤ m) : s.Kept m :=
  ⟨h.allocated.mono hm, h.live, h.freedOnce⟩

/-- A line is freed, stored or left alone. -/
theorem enter_cases (s : Session) (buff : Buffer) (len : ℕ) :
    (∃ text, s.enter buff len = (s.reply text).free buff) ∨
    (∃ s', s.SameBuffers s' ∧ s'.authenticated = s.authenticated ∧
      s.enter buff len = { s' with username := some buff }) ∨
    s.enter buff len = { s with password := some buff } ∨ s.enter buff len = s := by
  unfold enter enterUsername enterPassword
  split
  · split
    · exact .inl ⟨_, rfl⟩
    · split
      · exact .inl ⟨_, rfl⟩
      · exact .inr (.inl ⟨_, sameBuffers_greet .., (sameLogin_greet ..).authenticated, rfl⟩)
  · split
    · exact .inl ⟨_, rfl⟩
    · split
      · exact .inl ⟨_, rfl⟩
      · exact .inr (.inr (.inl rfl))
  · exact .inr (.inr (.inr rfl))

theorem Allocated.setUsername (h : s.Allocated n) (hb : b.addr = n) :
    Allocated (n + 1) { s with username := some b } := by
  have hmono := h.mono (Nat.le_succ n)
  refine ⟨hmono.freed_lt, ?_, hmono.password_lt, ?_⟩
  · rintro _ ⟨⟩
    exact hb ▸ Nat.lt_succ_self n
  · rintro _ b' ⟨⟩ hb'
    exact hb ▸ (Nat.ne_of_lt (h.password_lt b' hb')).symm

theorem Allocated.setPassword (h : s.Allocated n) (hb : b.addr = n) :
    Allocated (n + 1) { s with password := some b } := by
  have hmono := h.mono (Nat.le_succ n)
  refine ⟨hmono.freed_lt, hmono.username_lt, ?_, ?_⟩
  · rintro _ ⟨⟩
    exact hb ▸ Nat.lt_succ_self n
  · rintro b' _ hb' ⟨⟩
    exact hb ▸ Nat.ne_of_lt (h.username_lt b' hb')

theorem Allocated.not_mem_freed (h : s.Allocated n) (hb : b.addr = n) : b.addr ∉ s.freed :=
  fun hmem => Nat.lt_irrefl n (hb ▸ h.freed_lt b.addr hmem)

theorem Allocated.enter (h : s.Allocated n) (hb : buff.addr = n) :
    (s.enter buff len).Allocated (n + 1) := by
  rcases enter_cases s buff len with ⟨text, he⟩ | ⟨s', hsame, -, he⟩ | he | he
  · rw [he]
    exact ((h.of_sameBuffers (sameBuffers_reply s text)).mono (Nat.le_succ n)).free
      (hb ▸ Nat.lt_succ_self n)
  · rw [he]
    exact (h.of_sameBuffers hsame).setUsername hb
  · rw [he]
    exact h.setPassword hb
  · rw [he]
    exact h.mono (Nat.le_succ n)

theorem Kept.freeNew (h : s.Kept n) (hb : b.addr = n) : (s.free b).Kept (n + 1) := by
  have hlt : b.addr < n + 1 := hb ▸ Nat.lt_succ_self n
  refine ⟨(h.allocated.mono (Nat.le_succ n)).free hlt, fun ha => (h.live ha).free ?_ ?_,
    h.freedOnce.free (h.allocated.not_mem_freed hb)⟩
  · exact fun b' hb' => hb ▸ Nat.ne_of_lt (h.allocated.username_lt b' hb')
  · exact fun b' hb' => hb ▸ Nat.ne_of_lt (h.allocated.password_lt b' hb')

theorem Kept.setUsername (h : s.Kept n) (hb : b.addr = n) :
    Kept (n + 1) { s with username := some b } := by
  refine ⟨h.allocated.setUsername hb, fun ha => ⟨?_, (h.live ha).password⟩, h.freedOnce⟩
  rintro _ ⟨⟩
  exact h.allocated.not_mem_freed hb

theorem Kept.setPassword (h : s.Kept n) (hb : b.addr = n) :
    Kept (n + 1) { s with password := some b } := by
  refine ⟨h.allocated.setPassword hb, fun ha => ⟨(h.live ha).username, ?_⟩, h.freedOnce⟩
  rintro _ ⟨⟩
  exact h.allocated.not_mem_freed hb

theorem Kept.enter (h : s.Kept n) (hb : buff.addr = n) : (s.enter buff len).Kept (n + 1) := by
  rcases enter_cases s buff len with ⟨text, he⟩ | ⟨s', hsame, hauth, he⟩ | he | he
  · rw [he]
    exact (h.of_sameBuffers (sameBuffers_reply s text) id).freeNew hb
  · rw [he]
    exact (h.of_sameBuffers hsame fun ha => hauth ▸ ha).setUsername hb
  · rw [he]
    exact h.setPassword hb
  · rw [he]
    exact h.mono (Nat.le_succ n)

theorem sameBuffers_of_decides (h : Decides s buff s' q) : s.SameBuffers s' := by
  cases h with
  | leaves name password =>
    exact (sameBuffers_reply ..).trans (sameBuffers_gracefullyTerminate _)
  | _ => exact .refl s

theorem Allocated.dialogue (h : s.Allocated n) (before : UInt8) (line : Bytes) :
    (s.dialogue before ⟨n, line ++ [0]⟩ line.length).1.Allocated (n + 1) :=
  (h.enter rfl).of_sameBuffers (sameBuffers_of_decides (decide_cases rfl))

theorem Kept.dialogue (h : s.Kept n) (before : UInt8) (line : Bytes) :
    (s.dialogue before ⟨n, line ++ [0]⟩ line.length).1.Kept (n + 1) :=
  have hdecides := decide_cases rfl
  (h.enter rfl).of_sameBuffers (sameBuffers_of_decides hdecides)
    fun ha => hdecides.sameLogin.authenticated.symm.trans ha

theorem Allocated.elim_free (h : s.Allocated n) {b : Option Buffer}
    (hb : ∀ b', b = some b' → b'.addr < n) : Allocated n (b.elim s s.free) := by
  cases b with
  | none => exact h
  | some b => exact h.free (hb b rfl)

theorem Allocated.freeBuffers (h : s.Allocated n) : s.freeBuffers.Allocated n := by
  unfold Session.freeBuffers
  split
  · exact h
  · have hname := h.elim_free h.username_lt
    have hsame := sameLogin_elim_free s s.username
    exact hname.elim_free fun b hb => h.password_lt b (hsame.password ▸ hb)

theorem FreedOnce.freeBoth (h : s.FreedOnce) (hlive : s.Live) (hdistinct : ∀ b b',
    s.username = some b → s.password = some b' → b.addr ≠ b'.addr)
    (hname : s.username = some name) (hpassword : s.password = some password) :
    ((s.free name).free password).FreedOnce := by
  apply (h.free (hlive.username name hname)).free
  intro hmem
  rcases mem_free_freed.mp hmem with hmem | heq
  · exact hlive.password password hpassword hmem
  · exact hdistinct name password hname hpassword heq.symm

theorem FreedOnce.freeBuffers (h : s.FreedOnce) (hdistinct : ∀ b b', s.username = some b →
    s.password = some b' → b.addr ≠ b'.addr) (hlive : s.authenticated = false → s.Live) :
    s.freeBuffers.FreedOnce := by
  unfold Session.freeBuffers
  split
  · exact h
  · rename_i hauth
    have hlive := hlive (by simpa using hauth)
    cases hname : s.username with
    | none =>
      cases hpassword : s.password with
      | none => simpa [hpassword] using h
      | some password => simpa [hpassword] using h.free (hlive.password password hpassword)
    | some name =>
      cases hpassword : s.password with
      | none => simpa [hpassword, Session.free] using h.free (hlive.username name hname)
      | some password =>
        simpa [hpassword, Session.free] using h.freeBoth hlive hdistinct hname hpassword

theorem Allocated.answerPush (h : s.Allocated n) (hs : s.Stored name password) (ok : Bool) :
    (s.answerPush name password ok).Allocated n := by
  cases ok with
  | true => exact h.of_sameBuffers ⟨rfl, rfl, rfl, rfl⟩
  | false =>
    have hsame := (sameBuffers_reply s (ascii "EXIT: Cannot create user.\n")).trans
      (sameBuffers_gracefullyTerminate _)
    exact ((h.of_sameBuffers hsame).free (h.username_lt name hs.username)).free
      (h.password_lt password hs.password)

/-- A connection whose user was refused frees both buffers a second time when it closes. -/
theorem not_freedOnce_declined (hs : s.Stored name password) :
    ¬ (s.answerPush name password false).freeBuffers.FreedOnce := by
  have hfreed : (s.answerPush name password false).freeBuffers.freed =
      s.freed ++ [name.addr] ++ [password.addr] ++ [name.addr] ++ [password.addr] := by
    simp [Session.answerPush, Session.freeBuffers, Session.free, Session.reply,
      Session.gracefullyTerminate, hs.authenticated, hs.username, hs.password]
  intro honce
  have hnodup := honce.1
  rw [hfreed] at hnodup
  simp [List.nodup_append] at hnodup

theorem read_freed (s : Session) (b : Buffer) : (s.read b).freed = s.freed := by
  unfold Session.read
  split <;> rfl

theorem send_freed (s : Session) (cells : Block UInt8) : (s.send cells).freed = s.freed :=
  (sameBuffers_send s cells).freed

theorem send_staleReads (s : Session) (cells : Block UInt8) :
    (s.send cells).staleReads = s.staleReads :=
  (sameBuffers_send s cells).staleReads

theorem answer_some (s : Session) (name password : Buffer) (user : User) :
    (s.answer name password (some user)).password = none ∧
    (s.answer name password (some user)).staleReads = (s.read password).staleReads ∧
    ((s.answer name password (some user)).authenticated = true ∧
        (s.answer name password (some user)).freed = s.freed ++ [name.addr] ++ [password.addr] ∨
      (s.answer name password (some user)).authenticated = s.authenticated ∧
        (s.answer name password (some user)).freed = s.freed ++ [password.addr]) := by
  unfold Session.answer
  dsimp only
  by_cases hsame : user.password = password.str
  · rw [if_pos hsame]
    refine ⟨rfl, ?_, .inl ⟨rfl, ?_⟩⟩
    · simp [free, reply, send_staleReads]
    · simp [free, reply, send_freed, read_freed]
  · rw [if_neg hsame]
    refine ⟨rfl, rfl, .inr ⟨(sameLogin_read s password).authenticated, ?_⟩⟩
    simp [free, reply, read_freed]

theorem Allocated.answer (h : s.Allocated n) (hs : s.Stored name password)
    (existing : Option User) : (s.answer name password existing).Allocated n := by
  cases existing with
  | none => exact h.of_sameBuffers ⟨rfl, rfl, rfl, rfl⟩
  | some user =>
    have hname := h.username_lt name hs.username
    have hpassword := h.password_lt password hs.password
    obtain ⟨hnone, -, hfreed⟩ := answer_some s name password user
    constructor
    case freed_lt =>
      intro a ha
      have hold := h.freed_lt a
      rcases hfreed with ⟨-, hfreed⟩ | ⟨-, hfreed⟩
      · rw [hfreed] at ha
        grind
      · rw [hfreed] at ha
        grind
    case username_lt =>
      rw [answer_username]
      exact h.username_lt
    case password_lt =>
      rw [hnone]
      exact fun b hb => by cases hb
    case distinct =>
      rw [hnone]
      exact fun b b' _ hb => by cases hb

theorem Kept.answer (h : s.Kept n) (hs : s.Stored name password) (existing : Option User) :
    (s.answer name password existing).Kept n := by
  cases existing with
  | none => exact h.of_sameBuffers ⟨rfl, rfl, rfl, rfl⟩ id
  | some user =>
    have hlive := h.live hs.authenticated
    have hpassword := hlive.password password hs.password
    obtain ⟨hnone, hstale, hfreed⟩ := answer_some s name password user
    rw [read_of_not_mem hpassword] at hstale
    refine ⟨h.allocated.answer hs (some user), fun ha => ⟨?_, ?_⟩, ?_⟩
    · rw [answer_username]
      rcases hfreed with ⟨hauth, -⟩ | ⟨-, hfreed⟩
      · rw [hauth] at ha
        cases ha
      · rw [hfreed]
        intro b hb hmem
        rcases List.mem_append.mp hmem with hmem | hmem
        · exact hlive.username b hb hmem
        · exact h.allocated.distinct b password hb hs.password (List.mem_singleton.mp hmem)
    · rw [hnone]
      exact fun b hb => by cases hb
    · rw [FreedOnce, hstale]
      refine ⟨?_, h.freedOnce.2⟩
      rcases hfreed with ⟨-, hfreed⟩ | ⟨-, hfreed⟩
      · rw [hfreed]
        exact (h.freedOnce.freeBoth hlive h.allocated.distinct hs.username hs.password).1
      · rw [hfreed]
        exact (h.freedOnce.free hpassword).1

theorem Kept.answerPush (h : s.Kept n) : (s.answerPush name password true).Kept n :=
  h.of_sameBuffers ⟨rfl, rfl, rfl, rfl⟩ fun ha => by cases ha

end Session

section Step

variable {κ : Type*} [DecidableEq κ] {d d' : LoginState κ} {k : κ} {a : LoginInput κ}
  {p q : LoginPc}

inductive BufferStep (d : LoginState κ) (k : κ) : LoginInput κ → LoginPc → ℕ → Session → Prop
  | null : BufferStep d k .null .idle d.next (d.session k).freeBuffers
  | line (before : UInt8) (line : Bytes) (h : (d.session k).authenticated = false) :
      BufferStep d k (.line before line) .idle (d.next + 1)
        (((d.session k).receiveLine line).dialogue before ⟨d.next, line ++ [0]⟩ line.length).1
  | lookup (a : LoginInput κ) (name password : Buffer) :
      BufferStep d k a (.lookup name password) d.next ((d.session k).read name)
  | found (a : LoginInput κ) (name password : Buffer) (existing : Option User) :
      BufferStep d k a (.found name password existing) d.next
        ((d.session k).answer name password existing)
  | register (a : LoginInput κ) (name password : Buffer) :
      BufferStep d k a (.register name password) d.next ((d.session k).read name)
  | pushed (a : LoginInput κ) (name password : Buffer) (ok : Bool) :
      BufferStep d k a (.pushed name password ok) d.next
        ((d.session k).answerPush name password ok)
  | loggedIn (a : LoginInput κ) (p : LoginPc) {s : Session} (h : (d.session k).SameBuffers s)
      (hauth : s.authenticated = (d.session k).authenticated) : BufferStep d k a p d.next s

theorem connNext_buffers (h : (connNext d k a p).Moves d d' q) :
    BufferStep d k a p d'.next (d'.session k) := by
  cases p with
  | idle =>
    cases a with
    | null =>
      obtain ⟨rfl, rfl⟩ := h
      rw [setSession_session_self]
      exact .null
    | line before bytes =>
      simp only [connNext] at h
      split at h
      · obtain ⟨rfl, rfl⟩ := h
        rw [setSession_session_self]
        exact .loggedIn _ _ (Session.sameBuffers_receiveLine _ bytes) rfl
      · rename_i hauth
        obtain ⟨rfl, rfl⟩ := h
        rw [setSession_session_self]
        exact .line before bytes (by simpa [Session.receiveLine] using hauth)
    | _ => exact h.elim
  | lookup name password =>
    obtain ⟨rfl, rfl⟩ := h
    rw [setSession_session_self]
    exact .lookup a name password
  | found name password existing =>
    obtain ⟨rfl, rfl⟩ := h
    rw [setSession_session_self]
    exact .found a name password existing
  | register name password =>
    obtain ⟨rfl, rfl⟩ := h
    rw [setSession_session_self]
    exact .register a name password
  | pushed name password ok =>
    obtain ⟨rfl, rfl⟩ := h
    rw [setSession_session_self]
    exact .pushed a name password ok
  | parsing bytes =>
    simp only [connNext, LoginState.parseLine] at h
    split at h
    · exact h.elim
    · obtain ⟨rfl, rfl⟩ := h
      rw [setSession_session_self]
      exact .loggedIn _ _ (Session.sameBuffers_reply ..) rfl
    · split at h
      · obtain ⟨rfl, rfl⟩ := h
        exact .loggedIn _ _ (.refl _) rfl
      · obtain ⟨rfl, rfl⟩ := h
        rw [setSession_session_self]
        exact .loggedIn _ _ ((Session.sameBuffers_reply ..).trans
          (Session.sameBuffers_gracefullyTerminate _)) rfl
  | handling p =>
    simp only [connNext] at h
    split at h
    · obtain ⟨rfl, rfl⟩ := h
      exact .loggedIn _ _ (.refl _) rfl
    · split at h
      · exact h.elim
      · rw [Act.mapData_map] at h
        obtain ⟨p', hmoves, rfl⟩ := Act.moves_map.mp h
        rcases Act.eq_of_moves_mapData hmoves with rfl | ⟨shared, rfl⟩
        · exact .loggedIn _ _ (.refl _) rfl
        · exact .loggedIn _ _ (.refl _) rfl

variable {n : ℕ} {s : Session}

omit [DecidableEq κ] in
theorem BufferStep.allocated (h : BufferStep d k a p n s) (hs : (d.session k).Allocated d.next)
    (hp : p.At d.users (d.session k)) : d.next ≤ n ∧ s.Allocated n := by
  cases h with
  | null => exact ⟨Nat.le_refl _, hs.freeBuffers⟩
  | line before line hauth =>
    refine ⟨Nat.le_succ _, Session.Allocated.dialogue ?_ before line⟩
    exact hs.of_sameBuffers (Session.sameBuffers_receiveLine _ line)
  | lookup a name password => exact ⟨Nat.le_refl _, hs.read⟩
  | found a name password existing => exact ⟨Nat.le_refl _, hs.answer hp.1 existing⟩
  | register a name password => exact ⟨Nat.le_refl _, hs.read⟩
  | pushed a name password ok => exact ⟨Nat.le_refl _, hs.answerPush hp.1 ok⟩
  | loggedIn a p hsame hauth => exact ⟨Nat.le_refl _, hs.of_sameBuffers hsame⟩

theorem ConnStep.of_pushed_false {name password : Buffer}
    (h : ConnStep d k p d' (.pushed name password false)) :
    p = .register name password ∧ name.str ∈ d.users.map User.name := by
  generalize hq : LoginPc.pushed name password false = q at h
  cases h with
  | dialogue before bytes hauth hdialogue =>
    subst hq
    cases decide_cases hdialogue
  | refused name' password' hmem =>
    cases hq
    exact ⟨rfl, hmem⟩
  | parsed bytes hsame hq' =>
    subst hq
    rcases hq' with hq' | ⟨p, hq'⟩ <;> cases hq'
  | _ => cases hq

omit [DecidableEq κ] in
/-- The step lemma of what is freed once: a step keeps the session, unless it is a call that
frees the buffers. -/
theorem BufferStep.kept (h : BufferStep d k a p n s) (hs : (d.session k).Kept d.next)
    (hp : p.At d.users (d.session k))
    (hpushed : ∀ name password, p ≠ .pushed name password false) :
    s.FreedOnce ∧
      (a = .null ∧ p = .idle ∧ s = (d.session k).freeBuffers ∨ s.Kept n) := by
  suffices hkept : s.FreedOnce ∧ a = .null ∧ p = .idle ∧ s = (d.session k).freeBuffers ∨
      s.Kept n by
    rcases hkept with ⟨honce, hfrees⟩ | hkept
    · exact ⟨honce, .inl hfrees⟩
    · exact ⟨hkept.freedOnce, .inr hkept⟩
  cases h with
  | null =>
    exact .inl ⟨hs.freedOnce.freeBuffers hs.allocated.distinct hs.live, rfl, rfl, rfl⟩
  | line before line hauth =>
    right
    exact (hs.of_sameBuffers (Session.sameBuffers_receiveLine _ line) id).dialogue before line
  | lookup a name password =>
    right
    rw [Session.read_of_not_mem ((hs.live hp.authenticated).username name hp.username)]
    exact hs
  | found a name password existing => exact .inr (hs.answer hp.1 existing)
  | register a name password =>
    right
    rw [Session.read_of_not_mem ((hs.live hp.authenticated).username name hp.username)]
    exact hs
  | pushed a name password ok =>
    right
    cases ok with
    | true => exact hs.answerPush
    | false => exact absurd rfl (hpushed name password)
  | loggedIn a p hsame hauth => exact .inr (hs.of_sameBuffers hsame fun ha => hauth ▸ ha)

end Step

section System

variable {κ : Type*} [DecidableEq κ] {c c' : LoginConfig κ} {l : LoginThread κ × LoginInput κ}

theorem buffer_step (h : step (loginProg κ) c l = some c') :
    (∃ conns, c'.data = { c.data with conns := conns } ∧
      ∀ j, c'.pc (.conn j) = c.pc (.conn j)) ∨
    ∃ k, l.1 = .conn k ∧ ConnStep c.data k (c.pc (.conn k)) c'.data (c'.pc (.conn k)) ∧
      BufferStep c.data k l.2 (c.pc (.conn k)) c'.data.next (c'.data.session k) ∧
      ∀ j, j ≠ k → c'.data.session j = c.data.session j ∧ c'.pc (.conn j) = c.pc (.conn j) := by
  rcases login_moves h with hpool | ⟨k, hl, hmoves, hothers⟩
  · exact .inl hpool
  · have hconn := connNext_cases hmoves
    exact .inr ⟨k, hl, hconn, connNext_buffers hmoves,
      fun j hj => ⟨hconn.session_of_ne hj, hothers j hj⟩⟩

/-- No buffer of a connection is one that is yet to be allocated. -/
theorem allocated_of_reach
    {ok : LoginConfig κ → LoginThread κ × LoginInput κ → LoginConfig κ → Prop}
    (h : Reach (step (loginProg κ)) ok (· = unregistered κ) c) (k : κ) :
    (c.data.session k).Allocated c.data.next := by
  revert k
  apply Reach.invariant_reached (I := fun c => ∀ k, (c.data.session k).Allocated c.data.next) _ _ h
  · rintro _ rfl k
    exact Session.allocated_fresh
  · intro c l c' hr hc hstep _ k
    rcases buffer_step hstep with ⟨conns, hdata, -⟩ | ⟨j, -, -, hbuffer, hothers⟩
    · rw [hdata]
      exact hc k
    · obtain ⟨hnext, hallocated⟩ := hbuffer.allocated (hc j) ((registered_of_reach hr).at_pc j)
      by_cases hk : k = j
      · rw [hk]
        exact hallocated
      · rw [(hothers k hk).1]
        exact (hc k).mono hnext

/-- The connections, and those of them whose `rx_thread` has returned. -/
structure Closing (κ : Type*) where
  config : LoginConfig κ
  closed : List κ

/-- What an `rx_thread` does: a step of a call in its loop, or the call behind the loop. -/
inductive RxCall (κ : Type*) where
  | inLoop (a : LoginInput κ)
  | last

/-- The steps of the connections, where the call behind the loop is the last one. -/
def closingStep (s : Closing κ) : LoginThread κ × RxCall κ → Option (Closing κ)
  | (.pool, .inLoop a) =>
    (step (loginProg κ) s.config (.pool, a)).map fun c => { s with config := c }
  | (.pool, .last) => none
  | (.conn k, .inLoop a) =>
    if k ∈ s.closed then none
    else (step (loginProg κ) s.config (.conn k, a)).map fun c => { s with config := c }
  | (.conn k, .last) =>
    if k ∈ s.closed ∨ s.config.pc (.conn k) ≠ .idle then none
    else (step (loginProg κ) s.config (.conn k, .null)).map fun c => ⟨c, s.closed ++ [k]⟩

/-- The step is a `push<User>` of a name that is registered. -/
def refuses (c : LoginConfig κ) (l : LoginThread κ × RxCall κ) : Bool :=
  match l.1 with
  | .pool => false
  | .conn k =>
    match c.pc (.conn k) with
    | .register name _ => name.str ∈ c.data.users.map User.name
    | _ => false

/-- The step is a `handle_payload(NULL, 0)` for an empty line, made while the connection is not
logged in and has stored a buffer. -/
def freesEarly (c : LoginConfig κ) (l : LoginThread κ × RxCall κ) : Bool :=
  match l with
  | (.conn k, .inLoop .null) =>
    c.pc (.conn k) = .idle && !(c.data.session k).authenticated &&
      ((c.data.session k).username.isSome || (c.data.session k).password.isSome)
  | _ => false

/-- What is kept while no user is refused and no buffer is freed early. -/
structure Unrefused (s : Closing κ) : Prop where
  pushed : ∀ k name password, s.config.pc (.conn k) ≠ .pushed name password false
  freedOnce : ∀ k, (s.config.data.session k).FreedOnce
  kept : ∀ k, k ∉ s.closed → (s.config.data.session k).Kept s.config.data.next

variable {s s' : Closing κ} {t : LoginThread κ} {x : RxCall κ}

theorem closingStep_cases (h : closingStep s (t, x) = some s') :
    (∀ k, t = .conn k → k ∉ s.closed) ∧
      ((∃ a, x = .inLoop a ∧ step (loginProg κ) s.config (t, a) = some s'.config ∧
          s'.closed = s.closed) ∨
        ∃ k, t = .conn k ∧ x = .last ∧ s'.closed = s.closed ++ [k] ∧
          step (loginProg κ) s.config (.conn k, .null) = some s'.config) := by
  cases t with
  | pool =>
    refine ⟨nofun, ?_⟩
    cases x with
    | inLoop a =>
      obtain ⟨c, hc, rfl⟩ := Option.map_eq_some_iff.mp h
      exact .inl ⟨a, rfl, hc, rfl⟩
    | last => cases h
  | conn k =>
    cases x with
    | inLoop a =>
      rw [closingStep] at h
      split at h
      case isTrue => cases h
      case isFalse hk =>
        obtain ⟨c, hc, rfl⟩ := Option.map_eq_some_iff.mp h
        refine ⟨?_, .inl ⟨a, rfl, hc, rfl⟩⟩
        rintro _ ⟨⟩
        exact hk
    | last =>
      rw [closingStep] at h
      split at h
      case isTrue => cases h
      case isFalse hk =>
        obtain ⟨c, hc, rfl⟩ := Option.map_eq_some_iff.mp h
        rw [not_or] at hk
        refine ⟨?_, .inr ⟨k, rfl, rfl, rfl, hc⟩⟩
        rintro _ ⟨⟩
        exact hk.1

omit [DecidableEq κ] in
theorem not_refused {k : κ} (h : refuses c (.conn k, x) = false) {name password : Buffer}
    (hp : c.pc (.conn k) = .register name password) : name.str ∉ c.data.users.map User.name := by
  simpa [refuses, hp] using h

omit [DecidableEq κ] in
/-- A call for an empty line that frees nothing early changes nothing. -/
theorem freeBuffers_of_not_freesEarly {k : κ} (hidle : c.pc (.conn k) = .idle)
    (h : freesEarly c (.conn k, .inLoop .null) = false) :
    (c.data.session k).freeBuffers = c.data.session k := by
  rw [freesEarly, hidle] at h
  rw [Session.freeBuffers]
  split
  case isTrue => rfl
  case isFalse hauth =>
    obtain ⟨hname, hpassword⟩ : (c.data.session k).username = none ∧
        (c.data.session k).password = none := by simpa [hauth] using h
    simp only [hname, hpassword, Option.elim_none]

/-- The step lemma. -/
theorem Unrefused.step (hs : Unrefused s) (hr : Registered s.config)
    (h : closingStep s (t, x) = some s') (hrefuses : refuses s.config (t, x) = false)
    (hearly : freesEarly s.config (t, x) = false) : Unrefused s' := by
  obtain ⟨hopen, hcases⟩ := closingStep_cases h
  obtain ⟨a, hstep, hclosed, hlast⟩ : ∃ a, Library.step (loginProg κ) s.config (t, a) =
      some s'.config ∧ s.closed ⊆ s'.closed ∧ ∀ k, t = .conn k → a = .null →
        s.config.pc (.conn k) = .idle → k ∉ s'.closed →
          (s.config.data.session k).freeBuffers = s.config.data.session k := by
    rcases hcases with ⟨a, rfl, hstep, hclosed⟩ | ⟨k, rfl, rfl, hclosed, hstep⟩
    · refine ⟨a, hstep, hclosed ▸ List.Subset.refl _, ?_⟩
      rintro k rfl rfl hidle -
      exact freeBuffers_of_not_freesEarly hidle hearly
    · refine ⟨.null, hstep, hclosed ▸ List.subset_append_left _ _, ?_⟩
      rintro _ ⟨⟩ - - hk
      exact absurd (hclosed ▸ List.mem_append_right _ (List.mem_singleton_self k)) hk
  rcases buffer_step hstep with ⟨conns, hdata, hpc⟩ | ⟨k, hk, hconn, hbuffer, hothers⟩
  · constructor
    case pushed =>
      intro j name password
      rw [hpc]
      exact hs.pushed j name password
    case freedOnce => rw [hdata]; exact hs.freedOnce
    case kept =>
      rw [hdata]
      exact fun j hj => hs.kept j fun hmem => hj (hclosed hmem)
  · obtain rfl : t = .conn k := hk
    have hold := hs.kept k (hopen k rfl)
    obtain ⟨hnext, -⟩ := hbuffer.allocated hold.allocated (hr.at_pc k)
    obtain ⟨honce, hkept⟩ := hbuffer.kept hold (hr.at_pc k) (hs.pushed k)
    constructor
    case pushed =>
      intro j name password hpushed
      by_cases hj : j = k
      · subst hj
        rw [hpushed] at hconn
        obtain ⟨hp, hmem⟩ := hconn.of_pushed_false
        exact not_refused hrefuses hp hmem
      · rw [(hothers j hj).2] at hpushed
        exact hs.pushed j name password hpushed
    case freedOnce =>
      intro j
      by_cases hj : j = k
      · rw [hj]
        exact honce
      · rw [(hothers j hj).1]
        exact hs.freedOnce j
    case kept =>
      intro j hmem
      by_cases hj : j = k
      · subst hj
        rcases hkept with ⟨hnull, hidle, hfreed⟩ | hkept
        · rw [hfreed, hlast j rfl hnull hidle hmem]
          exact hold.mono hnext
        · exact hkept
      · rw [(hothers j hj).1]
        exact (hs.kept j fun hold => hmem (hclosed hold)).mono hnext

theorem reach_of_closing {ok : Closing κ → LoginThread κ × RxCall κ → Closing κ → Prop}
    (h : Reach closingStep ok (· = ⟨unregistered κ, []⟩) s) :
    Reach (step (loginProg κ)) anyStep (· = unregistered κ) s.config := by
  induction h with
  | start h =>
    subst h
    exact .start rfl
  | @next _ _ l _ hs _ ih =>
    obtain ⟨t, x⟩ := l
    rcases (closingStep_cases hs).2 with ⟨a, -, hstep, -⟩ | ⟨k, -, -, -, hstep⟩
    · exact .next ih hstep trivial
    · exact .next ih hstep trivial

/-- While no connection creates a user of a registered name, and none that has given a name and
is not logged in sends an empty line at the start of a packet, every buffer of every connection
is freed at most once and not read behind that, the last call of the connection included. -/
theorem freedOnce_of_reach
    (h : Reach closingStep
      (fun s l _ => refuses s.config l = false ∧ freesEarly s.config l = false)
      (· = ⟨unregistered κ, []⟩) s) (k : κ) : (s.config.data.session k).FreedOnce := by
  suffices hs : Unrefused s from hs.freedOnce k
  apply Reach.invariant_reached (I := Unrefused) _ _ h
  · rintro _ rfl
    have hfresh : Session.fresh.Kept 0 := Session.kept_fresh
    exact ⟨(fun _ _ _ h => by cases h), (fun _ => hfresh.freedOnce), fun _ _ => hfresh⟩
  · rintro s ⟨t, x⟩ s' hr hs hstep ⟨hrefuses, hearly⟩
    exact hs.step (registered_of_reach (reach_of_closing hr)) hstep hrefuses hearly

def inLoop {κ : Type*} (ls : List (LoginThread κ × LoginInput κ)) :
    List (LoginThread κ × RxCall κ) := ls.map fun l => (l.1, .inLoop l.2)

/-- Two connections send an empty line; one of them creates a user, the other one logs in with
it and sends another empty line, and both close. -/
def bothClosed : List (LoginThread Bool × RxCall Bool) :=
  inLoop ([(.conn true, .null), (.conn false, .null)] ++ asked true (ascii "password") ++
      confirmed true ++ asked false (ascii "password") ++ [(.conn false, .null)]) ++
    [(.conn false, .last), (.conn true, .last)]

/-- The second connection has freed the two buffers that it stored, once each. -/
theorem freedOnce_of_reach_bothClosed : ∃ s : Closing Bool,
    s.closed = [false, true] ∧ (s.config.data.session false).freed = [3, 4] ∧
      (s.config.data.session false).FreedOnce := by
  have hrun : ∃ s, Reach closingStep
      (fun s l _ => refuses s.config l = false ∧ freesEarly s.config l = false)
      (· = ⟨unregistered Bool, []⟩) s ∧
        decide (s.closed = [false, true] ∧ (s.config.data.session false).freed = [3, 4]) = true :=
    exists_reach_of_checkedRun
      (c := fun s l => !refuses s.config l && !freesEarly s.config l)
      (fun _ _ _ hok _ => by simpa using hok) rfl bothClosed (by decide)
  obtain ⟨s, hs, hcheck⟩ := hrun
  obtain ⟨hclosed, hfreed⟩ := of_decide_eq_true hcheck
  exact ⟨s, hclosed, hfreed, freedOnce_of_reach hs false⟩

/-- Two connections create the same user; the one that is refused closes, and frees its buffers
a second time. -/
theorem not_freedOnce_refused :
    ¬ ∀ s : Closing Bool, Reach closingStep anyStep (· = ⟨unregistered Bool, []⟩) s →
      ∀ k, (s.config.data.session k).FreedOnce := by
  intro hall
  have hrun : ∃ s, Reach closingStep anyStep (· = ⟨unregistered Bool, []⟩) s ∧
      decide ((s.config.data.session false).freed = [2, 3, 2, 3]) = true :=
    exists_reach_of_run rfl (inLoop (asked true (ascii "password") ++
      asked false (ascii "other password") ++ confirmed true ++ confirmed false) ++
        [(.conn false, .last)]) (by decide)
  obtain ⟨s, hs, hcheck⟩ := hrun
  obtain ⟨honce, -⟩ := hall s hs false
  rw [of_decide_eq_true hcheck] at honce
  exact absurd honce (by decide)

end System

end Chatd.Net.Connection
