import Chatd.Net.Server.PoolSteps

/-! # Collecting connections that have ended

The garbage collector takes connections whose `m_is_ready` is false. A failed read or
write clears it; leaving a loop because the connection was killed does not, and
`terminate` does not either.
-/
namespace Chatd.Net.Server
open Library Protocol

def RxPc.hasLeft {υ : Type*} : RxPc υ → Bool
  | .teardown | .exited => true
  | _ => false

def ThreadPc.hasLeft {κ υ : Type*} : ThreadPc κ υ → Bool
  | .rx p => p.hasLeft
  | .tx .exited => true
  | _ => false

@[simp] theorem ThreadPc.hasLeft_rx {κ υ : Type*} (p : RxPc υ) :
    (ThreadPc.rx p : ThreadPc κ υ).hasLeft = p.hasLeft := rfl

def ThreadPc.isWaiting {κ υ : Type*} : ThreadPc κ υ → Bool
  | .rx .start | .rx .killedTest | .tx .start | .tx .killedTest => true
  | _ => false

theorem ThreadPc.not_hasLeft_of_isWaiting {κ υ : Type*} {p : ThreadPc κ υ}
    (h : p.isWaiting = true) : p.hasLeft = false := by
  cases p with
  | rx p => cases p <;> first | rfl | cases h
  | tx p => cases p <;> first | rfl | cases h
  | _ => rfl

/-- The write of the `tx_thread` has failed and it is about to return. -/
def TxPc.hasFailed : TxPc → Bool
  | .gracefulTest terminated | .breakTest terminated => terminated
  | _ => false

def ThreadPc.hasFailed {κ υ : Type*} : ThreadPc κ υ → Bool
  | .tx p => p.hasFailed
  | _ => false

theorem ThreadPc.not_hasFailed_of_isWaiting {κ υ : Type*} {p : ThreadPc κ υ}
    (h : p.isWaiting = true) : p.hasFailed = false := by
  cases p with
  | tx p => cases p <;> first | rfl | cases h
  | _ => rfl

section Collectable

variable {κ υ : Type*} [DecidableEq κ] [DecidableEq υ] (accounts : Accounts υ) (session : κ → υ)
  (c : PoolConfig κ υ)

/-- A thread finds `m_is_killed` set, at the test of its loop or behind a load of `m_is_ready`
from before it was set, while `m_is_ready` is set and the other thread of its connection has
left before. -/
def leavesReady (l : Thread κ × Input κ) : Bool :=
  match l.1, c.pc l.1 with
  | .rx k, .rx .killedTest | .rx k, .rx .loop =>
    (c.data.flags k).isKilled && (c.data.flags k).isReady && (c.pc (.tx k)).hasLeft
  | .tx k, .tx .killedTest | .tx k, .tx (.head _) =>
    (c.data.flags k).isKilled && (c.data.flags k).isReady && (c.pc (.rx k)).hasLeft
  | _, _ => false

/-- `ConnectionPool::push` has yet to set `m_is_ready`. -/
def Unready (k : κ) : Prop :=
  (c.data.flags k).created = false ∨ c.pc .main = .main (.ready k)

structure Untouched (k : κ) : Prop where
  isReady : (c.data.flags k).isReady = false
  isKilled : (c.data.flags k).isKilled = false
  rx : (c.pc (.rx k)).isWaiting = true
  tx : (c.pc (.tx k)).isWaiting = true
  not_mem : k ∉ c.data.conns
  lockConns : c.pc .main ≠ .main (.lockConns k)
  push : c.pc .main ≠ .main (.push k)
  kill : ∀ terminated i, c.pc .gc ≠ .gc (.kill terminated i k)

/-- A connection is made ready once, before its threads begin and before anyone else
finds it. -/
structure MadeReadyOnce : Prop where
  created : ∀ k, c.pc .main = .main (.ready k) → (c.data.flags k).created = true
  untouched : ∀ k, Unready c k → Untouched c k

/-- A connection that both threads have left, or whose `tx_thread` is about to leave after
a failed write, is not ready. -/
structure Collectable (k : κ) : Prop where
  left : (c.pc (.rx k)).hasLeft = true → (c.pc (.tx k)).hasLeft = true →
    (c.data.flags k).isReady = false
  failed : (c.pc (.tx k)).hasFailed = true → (c.data.flags k).isReady = false
  rxExited : (c.data.flags k).rxExited = true → (c.pc (.rx k)).hasLeft = true
  txExited : (c.data.flags k).txExited = true → (c.pc (.tx k)).hasLeft = true

/-- Both threads have left, and nothing has cleared `m_is_ready`. -/
structure LeftReady (k : κ) : Prop where
  rx : (c.pc (.rx k)).hasLeft = true
  tx : (c.pc (.tx k)).hasLeft = true
  isReady : (c.data.flags k).isReady = true

variable {accounts session c} {c' : PoolConfig κ υ} {k : κ} {a : Input κ} {t : Thread κ}
  {d d' : PoolState κ υ}

omit [DecidableEq κ] [DecidableEq υ] in
theorem MadeReadyOnce.created_of_mem (hI : MadeReadyOnce c) (hk : k ∈ c.data.conns) :
    (c.data.flags k).created = true := by
  by_contra hcreated
  exact (hI.untouched k (.inl (by simpa using hcreated))).not_mem hk

omit [DecidableEq υ] in
theorem MadeReadyOnce.main (hI : MadeReadyOnce c) {p q : MainPc κ}
    (hother : ∀ s, s ≠ .main → c'.pc s = c.pc s) (hp : c.pc .main = .main p)
    (hq : c'.pc .main = .main q) (h : (mainNext a c.data p).Moves c.data c'.data q) :
    MadeReadyOnce c' := by
  constructor
  case created =>
    intro k hk
    obtain rfl : q = .ready k := by simpa [hk] using hq.symm
    rcases main_cases h with ⟨j, -, hqj, -, hd⟩ | ⟨-, hqj, -⟩ | ⟨j, -, hqj, -⟩ | ⟨j, -, hqj, -⟩ |
      ⟨j, -, hqj, -⟩ | ⟨-, hclosed, -⟩
    · cases hqj
      rw [hd, PoolState.setFlags_self]
    · cases hqj
    · cases hqj
    · cases hqj
    · cases hqj
    · cases hclosed
  case untouched =>
    intro k hk
    rw [Unready, hq] at hk
    have hold : Unready c k := by
      rcases main_cases h with ⟨j, rfl, rfl, hc, hd⟩ | ⟨rfl, rfl, hf, hconns⟩ |
        ⟨j, rfl, rfl, hd⟩ | ⟨j, rfl, rfl, hd⟩ | ⟨j, rfl, rfl, hf, hconns⟩ | ⟨-, hclosed, hd⟩
      case inr.inr.inr.inr.inr =>
        rw [hd] at hk
        exact .inl (hk.resolve_right fun heq =>
          (MainPc.ne_of_isClosed hclosed k).1 (ThreadPc.main.inj heq))
      all_goals
        rw [Unready]
        grind [PoolState.setFlags_flags]
    have hu := hI.untouched k hold
    have hcreated := hI.created
    have hready := hu.isReady
    have hkilled := hu.isKilled
    have hmem := hu.not_mem
    have hlock := hu.lockConns
    have hpush := hu.push
    rw [hp] at hlock hpush hcreated
    obtain ⟨hready', hkilled', hmem', hlock', hpush'⟩ :
        (c'.data.flags k).isReady = false ∧ (c'.data.flags k).isKilled = false ∧
          k ∉ c'.data.conns ∧ q ≠ .lockConns k ∧ q ≠ .push k := by
      rcases main_cases h with ⟨j, rfl, rfl, hc, hd⟩ | ⟨rfl, rfl, hf, hconns⟩ |
        ⟨j, rfl, rfl, hd⟩ | ⟨j, rfl, rfl, hd⟩ | ⟨j, rfl, rfl, hf, hconns⟩ | ⟨-, hclosed, hd⟩
      case inr.inr.inr.inr.inr =>
        rw [hd]
        exact ⟨hready, hkilled, hmem, (MainPc.ne_of_isClosed hclosed k).2⟩
      all_goals grind [PoolState.setFlags_flags, PoolState.setFlags_conns]
    constructor
    case isReady => exact hready'
    case isKilled => exact hkilled'
    case rx => rw [hother (.rx k) (by simp)]; exact hu.rx
    case tx => rw [hother (.tx k) (by simp)]; exact hu.tx
    case not_mem => exact hmem'
    case lockConns => rw [hq]; exact fun heq => hlock' (ThreadPc.main.inj heq)
    case push => rw [hq]; exact fun heq => hpush' (ThreadPc.main.inj heq)
    case kill => rw [hother .gc (by simp)]; exact hu.kill

omit [DecidableEq κ] [DecidableEq υ] in
theorem MadeReadyOnce.of_untouched (hI : MadeReadyOnce c) (hmain : c'.pc .main = c.pc .main)
    (hcreated : ∀ j, (c'.data.flags j).created = (c.data.flags j).created)
    (hkeeps : ∀ j, Untouched c j → Untouched c' j) : MadeReadyOnce c' := by
  constructor
  case created =>
    intro j hj
    rw [hcreated]
    exact hI.created j (hmain ▸ hj)
  case untouched =>
    intro j hj
    exact hkeeps j (hI.untouched j (by rwa [Unready, hcreated, hmain] at hj))

omit [DecidableEq υ] in
theorem MadeReadyOnce.gc (hI : MadeReadyOnce c) {p q : GcPc κ}
    (hother : ∀ s, s ≠ .gc → c'.pc s = c.pc s) (hp : c.pc .gc = .gc p)
    (hq : c'.pc .gc = .gc q) (h : (gcNext c.data p).Moves c.data c'.data q) :
    MadeReadyOnce c' := by
  have hmain := hother .main (by simp)
  have hcreated (j : κ) : (c'.data.flags j).created = (c.data.flags j).created := by
    rw [gc_flags h j]
  apply hI.of_untouched hmain hcreated
  intro k hu
  have hready := hu.isReady
  have hkilled := hu.isKilled
  have hmem := hu.not_mem
  have hkill := hu.kill
  rw [hp] at hkill
  obtain ⟨hready', hkilled', hmem', hkill'⟩ :
      (c'.data.flags k).isReady = false ∧ (c'.data.flags k).isKilled = false ∧
        k ∉ c'.data.conns ∧ ∀ terminated i, q ≠ .kill terminated i k := by
    rcases gc_cases h with ⟨terminated, i, j, rfl, rfl, hd⟩ |
      ⟨terminated, i, j, rfl, hj, hf, -, hsub⟩ | ⟨hq, hf, -, hconns⟩
    · have hkj : k ≠ j := by
        rintro rfl
        exact hkill terminated i rfl
      rw [hd, PoolState.setFlags_of_ne _ _ _ hkj]
      exact ⟨hready, hkilled, hmem, fun _ _ => by simp⟩
    · rw [hf]
      refine ⟨hready, hkilled, fun hk => hmem (hsub hk), fun _ _ heq => ?_⟩
      cases heq
      exact hmem hj
    · rw [hf, hconns]
      exact ⟨hready, hkilled, hmem, fun _ _ => hq _ _ _⟩
  constructor
  case isReady => exact hready'
  case isKilled => exact hkilled'
  case rx => rw [hother (.rx k) (by simp)]; exact hu.rx
  case tx => rw [hother (.tx k) (by simp)]; exact hu.tx
  case not_mem => exact hmem'
  case lockConns => rw [hmain]; exact hu.lockConns
  case push => rw [hmain]; exact hu.push
  case kill =>
    intro terminated i heq
    rw [hq] at heq
    exact hkill' terminated i (ThreadPc.gc.inj heq)

omit [DecidableEq κ] [DecidableEq υ] in
theorem MadeReadyOnce.thread (hI : MadeReadyOnce c) (hmain : c'.pc .main = c.pc .main)
    (hgc : c'.pc .gc = c.pc .gc) (hconns : c'.data.conns = c.data.conns)
    (hcreated : ∀ j, (c'.data.flags j).created = (c.data.flags j).created)
    (hk : ∀ j, Untouched c j → c'.data.flags j = c.data.flags j ∧
      (c'.pc (.rx j)).isWaiting = true ∧ (c'.pc (.tx j)).isWaiting = true) :
    MadeReadyOnce c' := by
  apply hI.of_untouched hmain hcreated
  intro j hu
  obtain ⟨hf, hrx, htx⟩ := hk j hu
  exact ⟨hf ▸ hu.isReady, hf ▸ hu.isKilled, hrx, htx, hconns ▸ hu.not_mem,
    hmain ▸ hu.lockConns, hmain ▸ hu.push, hgc ▸ hu.kill⟩

/-- A thread that waits goes on to wait while the connection is neither ready nor killed. -/
theorem rx_waits {p q : RxPc υ} (h : (rxNext accounts session a d k p).Moves d d' q)
    (hready : (d.flags k).isReady = false) (hkilled : (d.flags k).isKilled = false)
    (hp : (ThreadPc.rx p : ThreadPc κ υ).isWaiting = true) :
    d' = d ∧ (ThreadPc.rx q : ThreadPc κ υ).isWaiting = true := by
  cases p with
  | start =>
    rw [rxNext, hready] at h
    split at h
    case isTrue => exact h.elim
    case isFalse =>
      obtain ⟨hd, rfl⟩ := h
      exact ⟨hd, rfl⟩
  | killedTest =>
    rw [rxNext, hkilled] at h
    obtain ⟨hd, rfl⟩ := h
    exact ⟨hd, rfl⟩
  | _ => cases hp

omit [DecidableEq υ] in
theorem tx_waits {p q : TxPc} (h : (txNext a d k p : PoolAct κ υ TxPc).Moves d d' q)
    (hready : (d.flags k).isReady = false) (hkilled : (d.flags k).isKilled = false)
    (hp : (ThreadPc.tx p : ThreadPc κ υ).isWaiting = true) :
    d' = d ∧ (ThreadPc.tx q : ThreadPc κ υ).isWaiting = true := by
  cases p with
  | start =>
    rw [txNext, hready] at h
    split at h
    case isTrue => exact h.elim
    case isFalse =>
      obtain ⟨hd, rfl⟩ := h
      exact ⟨hd, rfl⟩
  | killedTest =>
    rw [txNext, hkilled] at h
    obtain ⟨hd, rfl⟩ := h
    exact ⟨hd, rfl⟩
  | _ => cases hp

theorem MadeReadyOnce.step (hI : MadeReadyOnce c)
    (hs : Library.step (poolProg accounts session) c (t, a) = some c') : MadeReadyOnce c' := by
  have hother := (step_moves hs).2
  rcases pool_step_cases hs with ⟨p, q, rfl, hp, hq, hm⟩ | ⟨p, q, rfl, hp, hq, hm⟩ |
    ⟨k, p, q, rfl, hp, hq, hm⟩ | ⟨k, p, q, rfl, hp, hq, hm⟩
  · exact hI.main hother hp hq hm
  · exact hI.gc hother hp hq hm
  · have hmain := hother .main (by simp)
    have hgc := hother .gc (by simp)
    apply hI.thread hmain hgc (rx_frame hm).1 (rx_created hm)
    intro j hu
    have htx := hother (.tx j) (by simp)
    by_cases hj : j = k
    · subst hj
      obtain ⟨hd, hwaits⟩ := rx_waits hm hu.isReady hu.isKilled (hp ▸ hu.rx)
      exact ⟨by rw [hd], hq ▸ hwaits, htx ▸ hu.tx⟩
    · exact ⟨(rx_frame hm).2 j hj, hother (.rx j) (by simpa using hj) ▸ hu.rx, htx ▸ hu.tx⟩
  · have hmain := hother .main (by simp)
    have hgc := hother .gc (by simp)
    apply hI.thread hmain hgc (tx_frame hm).2.1 fun j => (tx_keeps hm j).1
    intro j hu
    have hrx := hother (.rx j) (by simp)
    by_cases hj : j = k
    · subst hj
      obtain ⟨hd, hwaits⟩ := tx_waits hm hu.isReady hu.isKilled (hp ▸ hu.tx)
      exact ⟨by rw [hd], hrx ▸ hu.rx, hq ▸ hwaits⟩
    · exact ⟨(tx_frame hm).2.2 j hj, hrx ▸ hu.rx, hother (.tx j) (by simpa using hj) ▸ hu.tx⟩

/-- The `rx_thread` leaves with `m_is_ready` cleared, or at a test of `m_is_killed`. -/
theorem rx_leaves {p q : RxPc υ} (h : (rxNext accounts session a d k p).Moves d d' q) :
    (p.hasLeft = true → q.hasLeft = true) ∧
    (q.hasLeft = true →
      p.hasLeft = true ∨ (d'.flags k).isReady = false ∨
        (p = .killedTest ∨ p = .loop) ∧ (d.flags k).isKilled = true) ∧
    ((d'.flags k).isReady = true → (d.flags k).isReady = true) ∧
    ((d'.flags k).rxExited = true → (d.flags k).rxExited = true ∨ q.hasLeft = true) ∧
    (d'.flags k).txExited = (d.flags k).txExited := by
  cases p with
  | handling p =>
    rcases handling_of_moves h with ⟨-, hd, rfl⟩ | ⟨-, hd, p', rfl, -⟩
    · rw [hd]
      exact ⟨nofun, nofun, id, .inl, rfl⟩
    · rw [hd]
      exact ⟨nofun, nofun, id, .inl, rfl⟩
  | read =>
    cases a <;> grind [rxNext, Act.Moves, PoolState.setFlags_self, ConnFlags.exit, RxPc.hasLeft]
  | login =>
    cases a with
    | login authenticated exits =>
      obtain ⟨rfl, users, -, rfl⟩ := login_of_moves h
      dsimp only
      rw [PoolState.setFlags_self]
      have hleft : RxPc.hasLeft (.login : RxPc υ) ≠ true := Bool.false_ne_true
      exact ⟨fun h => absurd h hleft, nofun, id, .inl, rfl⟩
    | _ => exact h.elim
  | _ => grind [rxNext, Act.Moves, PoolState.setFlags_self, RxPc.hasLeft]

omit [DecidableEq υ] in
theorem tx_leaves {p q : TxPc} (h : (txNext a d k p : PoolAct κ υ TxPc).Moves d d' q) :
    p ≠ .exited ∧
    (q = .exited → (d'.flags k).isReady = false ∨ p.hasFailed = true ∨
      (p = .killedTest ∨ ∃ b, p = .head b) ∧ (d.flags k).isKilled = true) ∧
    (q.hasFailed = true → p.hasFailed = true ∨ (d'.flags k).isReady = false) ∧
    ((d'.flags k).isReady = true → (d.flags k).isReady = true) ∧
    ((d'.flags k).txExited = true → (d.flags k).txExited = true ∨ q = .exited) ∧
    (d'.flags k).rxExited = (d.flags k).rxExited := by
  cases p with
  | drain => cases a <;> grind [txNext, Act.Moves, PoolState.setFlags_self, TxPc.hasFailed]
  | _ => grind [txNext, Act.Moves, PoolState.setFlags_self, TxPc.hasFailed]

theorem Collectable.rx (hI : Collectable c k) {p q : RxPc υ} (hp : c.pc (.rx k) = .rx p)
    (hq : c'.pc (.rx k) = .rx q) (htx : c'.pc (.tx k) = c.pc (.tx k))
    (h : (rxNext accounts session a c.data k p).Moves c.data c'.data q)
    (hok : leavesReady c (.rx k, a) = false) : Collectable c' k := by
  obtain ⟨hstays, hleaves, hready, hexited, htxExited⟩ := rx_leaves h
  have hkept (hf : (c.data.flags k).isReady = false) : (c'.data.flags k).isReady = false := by
    grind
  constructor
  case left =>
    rw [hq, htx]
    intro hrx htx
    rcases hleaves hrx with hrx | hcleared | ⟨rfl | rfl, hkilled⟩
    · exact hkept (hI.left (by rwa [hp]) htx)
    · exact hcleared
    · apply hkept
      simpa [leavesReady, hp, hkilled, htx] using hok
    · apply hkept
      simpa [leavesReady, hp, hkilled, htx] using hok
  case failed =>
    rw [htx]
    exact fun hfailed => hkept (hI.failed hfailed)
  case rxExited =>
    intro hrx
    rw [hq]
    rcases hexited hrx with hrx | hrx
    · apply hstays
      have hleft := hI.rxExited hrx
      rwa [hp, ThreadPc.hasLeft_rx] at hleft
    · exact hrx
  case txExited =>
    rw [htxExited, htx]
    exact hI.txExited

omit [DecidableEq υ] in
theorem Collectable.tx (hI : Collectable c k) {p q : TxPc} (hp : c.pc (.tx k) = .tx p)
    (hq : c'.pc (.tx k) = .tx q) (hrx : c'.pc (.rx k) = c.pc (.rx k))
    (h : (txNext a c.data k p).Moves c.data c'.data q)
    (hok : leavesReady c (.tx k, a) = false) : Collectable c' k := by
  obtain ⟨hp', hleaves, hfails, hready, hexited, hrxExited⟩ := tx_leaves h
  have hkept (hf : (c.data.flags k).isReady = false) : (c'.data.flags k).isReady = false := by
    grind
  have hfailed (hf : p.hasFailed = true) : (c'.data.flags k).isReady = false :=
    hkept (hI.failed (by rwa [hp]))
  constructor
  case left =>
    rw [hq, hrx]
    intro hrx htx
    have hqx : q = .exited := by cases q <;> first | rfl | cases htx
    rcases hleaves hqx with hcleared | hf | ⟨rfl | ⟨b, rfl⟩, hkilled⟩
    · exact hcleared
    · exact hfailed hf
    · apply hkept
      simpa [leavesReady, hp, hkilled, hrx] using hok
    · apply hkept
      simpa [leavesReady, hp, hkilled, hrx] using hok
  case failed =>
    rw [hq]
    intro hf
    rcases hfails hf with hf | hcleared
    · exact hfailed hf
    · exact hcleared
  case rxExited =>
    rw [hrxExited, hrx]
    exact hI.rxExited
  case txExited =>
    intro htx
    rw [hq]
    rcases hexited htx with htx | rfl
    · have hleft := hI.txExited htx
      rw [hp] at hleft
      cases p <;> first | exact absurd rfl hp' | cases hleft
    · rfl

omit [DecidableEq κ] [DecidableEq υ] in
theorem Collectable.frame (hI : Collectable c k) (hrx : c'.pc (.rx k) = c.pc (.rx k))
    (htx : c'.pc (.tx k) = c.pc (.tx k))
    (hready : (c'.data.flags k).isReady = (c.data.flags k).isReady)
    (hrxExited : (c'.data.flags k).rxExited = (c.data.flags k).rxExited)
    (htxExited : (c'.data.flags k).txExited = (c.data.flags k).txExited) : Collectable c' k := by
  constructor
  case left => rw [hrx, htx, hready]; exact hI.left
  case failed => rw [htx, hready]; exact hI.failed
  case rxExited => rw [hrx, hrxExited]; exact hI.rxExited
  case txExited => rw [htx, htxExited]; exact hI.txExited

/-- The step lemma, one case for each thread. -/
theorem MadeReadyOnce.collectable (hM : MadeReadyOnce c) (hI : ∀ k, Collectable c k)
    (hs : Library.step (poolProg accounts session) c (t, a) = some c')
    (hok : leavesReady c (t, a) = false) (k : κ) : Collectable c' k := by
  have hother := (step_moves hs).2
  rcases pool_step_cases hs with ⟨p, q, rfl, hp, hq, hm⟩ | ⟨p, q, rfl, hp, hq, hm⟩ |
    ⟨j, p, q, rfl, hp, hq, hm⟩ | ⟨j, p, q, rfl, hp, hq, hm⟩
  · have hrx := hother (.rx k) (by simp)
    have htx := hother (.tx k) (by simp)
    obtain ⟨hf, -, hready⟩ := main_flags hm k
    by_cases hpk : p = .ready k
    · have hu : Untouched c k := hM.untouched k (.inr (hpk ▸ hp))
      constructor
      case left =>
        rw [hrx, ThreadPc.not_hasLeft_of_isWaiting hu.rx]
        exact nofun
      case failed =>
        rw [htx, ThreadPc.not_hasFailed_of_isWaiting hu.tx]
        exact nofun
      case rxExited => rw [hrx, hf]; exact (hI k).rxExited
      case txExited => rw [htx, hf]; exact (hI k).txExited
    · exact (hI k).frame hrx htx (hready hpk) (by rw [hf]) (by rw [hf])
  · have hf := gc_flags hm k
    exact (hI k).frame (hother _ (by simp)) (hother _ (by simp)) (by rw [hf]) (by rw [hf])
      (by rw [hf])
  · by_cases hj : k = j
    · subst hj
      exact (hI k).rx hp hq (hother _ (by simp)) hm hok
    · have hf := (rx_frame hm).2 k hj
      exact (hI k).frame (hother _ (by simpa using hj)) (hother _ (by simp)) (by rw [hf])
        (by rw [hf]) (by rw [hf])
  · by_cases hj : k = j
    · subst hj
      exact (hI k).tx hp hq (hother _ (by simp)) hm hok
    · have hf := (tx_frame hm).2.2 k hj
      exact (hI k).frame (hother _ (by simp)) (hother _ (by simpa using hj)) (by rw [hf])
        (by rw [hf]) (by rw [hf])

omit [DecidableEq κ] [DecidableEq υ] in
theorem madeReadyOnce_opened : MadeReadyOnce (opened κ υ) := by
  constructor
  case created => exact nofun
  case untouched =>
    intro k _
    exact ⟨rfl, rfl, rfl, rfl, List.not_mem_nil, nofun, nofun, nofun⟩

theorem madeReadyOnce_of_reach
    {ok : PoolConfig κ υ → Thread κ × Input κ → PoolConfig κ υ → Prop}
    (h : Reach (step (poolProg accounts session)) ok (· = opened κ υ) c) : MadeReadyOnce c := by
  apply Reach.invariant (I := MadeReadyOnce) _ _ h
  · rintro _ rfl
    exact madeReadyOnce_opened
  · intro c l c' hI hs _
    exact hI.step hs

/-- If no thread leaves at a test of `m_is_killed`, behind the other thread of its connection
and with `m_is_ready` set, every connection whose threads have both returned is left to the
garbage collector. -/
theorem not_isReady_of_reach
    (h : Reach (step (poolProg accounts session)) (fun c l _ => leavesReady c l = false)
      (· = opened κ υ) c) (hrx : (c.data.flags k).rxExited = true)
    (htx : (c.data.flags k).txExited = true) : (c.data.flags k).isReady = false := by
  have hI : ∀ k, Collectable c k := by
    apply Reach.invariant_reached (I := fun c => ∀ k, Collectable c k) _ _ h
    · rintro _ rfl k
      exact ⟨nofun, nofun, nofun, nofun⟩
    · intro c l c' hr hI hs hok
      exact (madeReadyOnce_of_reach hr).collectable hI hs hok
  exact (hI k).left ((hI k).rxExited hrx) ((hI k).txExited htx)

theorem leftReady_of_leavesReady (hs : step (poolProg accounts session) c (t, a) = some c')
    (hok : leavesReady c (t, a) = true) : ∃ k, LeftReady c' k := by
  have hother := (step_moves hs).2
  rcases pool_step_cases hs with ⟨p, q, rfl, hp, hq, hm⟩ | ⟨p, q, rfl, hp, hq, hm⟩ |
    ⟨k, p, q, rfl, hp, hq, hm⟩ | ⟨k, p, q, rfl, hp, hq, hm⟩
  · simp [leavesReady] at hok
  · simp [leavesReady] at hok
  · cases p with
    | loop =>
      simp only [leavesReady, hp, Bool.and_eq_true] at hok
      obtain ⟨⟨hkilled, hready⟩, htx⟩ := hok
      rw [rxNext, if_pos hkilled] at hm
      obtain ⟨hd, rfl⟩ := hm
      exact ⟨k, by rw [hq]; rfl, by rwa [hother _ (by simp)], by rwa [hd]⟩
    | killedTest =>
      simp only [leavesReady, hp, Bool.and_eq_true] at hok
      obtain ⟨⟨hkilled, hready⟩, htx⟩ := hok
      rw [rxNext, if_pos hkilled] at hm
      obtain ⟨hd, rfl⟩ := hm
      exact ⟨k, by rw [hq]; rfl, by rwa [hother _ (by simp)], by rw [hd]; simpa using hready⟩
    | _ => simp [leavesReady, hp] at hok
  · cases p with
    | killedTest =>
      simp only [leavesReady, hp, Bool.and_eq_true] at hok
      obtain ⟨⟨hkilled, hready⟩, hrx⟩ := hok
      rw [txNext, if_pos hkilled] at hm
      obtain ⟨hd, rfl⟩ := hm
      exact ⟨k, by rwa [hother _ (by simp)], by rw [hq]; rfl, by rw [hd]; simpa using hready⟩
    | head b =>
      simp only [leavesReady, hp, Bool.and_eq_true] at hok
      obtain ⟨⟨hkilled, hready⟩, hrx⟩ := hok
      rw [txNext, if_pos hkilled] at hm
      obtain ⟨hd, rfl⟩ := hm
      exact ⟨k, by rwa [hother _ (by simp)], by rw [hq]; rfl, by rw [hd]; simpa using hready⟩
    | _ => simp [leavesReady, hp] at hok

theorem LeftReady.step (hI : LeftReady c k)
    (hs : Library.step (poolProg accounts session) c (t, a) = some c') : LeftReady c' k := by
  have hother := (step_moves hs).2
  have hready := hI.isReady
  rcases pool_step_cases hs with ⟨p, q, rfl, hp, hq, hm⟩ | ⟨p, q, rfl, hp, hq, hm⟩ |
    ⟨j, p, q, rfl, hp, hq, hm⟩ | ⟨j, p, q, rfl, hp, hq, hm⟩
  · exact ⟨by rw [hother _ (by simp)]; exact hI.rx, by rw [hother _ (by simp)]; exact hI.tx,
      (main_flags hm k).2.1 hready⟩
  · exact ⟨by rw [hother _ (by simp)]; exact hI.rx, by rw [hother _ (by simp)]; exact hI.tx,
      by rw [gc_flags hm k]; exact hready⟩
  · by_cases hj : k = j
    · subst hj
      have hleft : p.hasLeft = true := by simpa [hp] using hI.rx
      refine ⟨by rw [hq]; exact (rx_leaves hm).1 hleft, by rw [hother _ (by simp)]; exact hI.tx, ?_⟩
      cases p with
      | teardown =>
        rw [hm.1, PoolState.setFlags_self]
        exact hready
      | exited => exact hm.elim
      | _ => cases hleft
    · exact ⟨by rw [hother _ (by simpa using hj)]; exact hI.rx,
        by rw [hother _ (by simp)]; exact hI.tx, by rwa [(rx_frame hm).2 k hj]⟩
  · by_cases hj : k = j
    · subst hj
      have hleft := hI.tx
      rw [hp] at hleft
      cases p with
      | exited => exact hm.elim
      | _ => cases hleft
    · exact ⟨by rw [hother _ (by simp)]; exact hI.rx,
        by rw [hother _ (by simpa using hj)]; exact hI.tx, by rwa [(tx_frame hm).2.2 k hj]⟩

/-- The condition is exact: behind a step that does not meet it some connection keeps
`m_is_ready` for good, with both threads gone or about to return. -/
theorem leftReady_of_reach (hs : step (poolProg accounts session) c (t, a) = some c')
    (hok : leavesReady c (t, a) = true) : ∃ k, ∀ e : PoolConfig κ υ,
      Reach (Library.step (poolProg accounts session)) anyStep (· = c') e → LeftReady e k := by
  obtain ⟨k, hk⟩ := leftReady_of_leavesReady hs hok
  refine ⟨k, fun e he => ?_⟩
  exact he.invariant (fun _ h => h ▸ hk) fun _ _ _ hI hs _ => hI.step hs

end Collectable

section Schedules

def drainQueue : List (Thread Unit × Input Unit) :=
  [(.tx (), .wake), (.tx (), .wake), (.tx (), .drained), (.tx (), .wake), (.tx (), .wake)]

/-- A client logs out and closes its end, and its `rx_thread` is reading when the
`tx_thread` terminates the connection. -/
theorem not_isReady_closed :
    ∃ c : PoolConfig Unit Bool, (c.data.flags ()).rxExited = true ∧
      (c.data.flags ()).txExited = true ∧ (c.data.flags ()).isGracefullyTerminated = true ∧
      (c.data.flags ()).isReady = false := by
  have hok (c : PoolConfig Unit Bool) (l : Thread Unit × Input Unit) (c' : PoolConfig Unit Bool)
      (hc : (!leavesReady c l) = true) (_ : step (poolProg pair fun _ => true) c l = some c') :
      leavesReady c l = false := by simpa using hc
  have hrun : ∃ c : PoolConfig Unit Bool,
      Reach (step (poolProg pair fun _ => true)) (fun c l _ => leavesReady c l = false)
        (· = opened Unit Bool) c ∧
        ((c.data.flags ()).rxExited && (c.data.flags ()).txExited &&
          (c.data.flags ()).isGracefullyTerminated) = true :=
    exists_reach_of_checkedRun hok rfl
      (loggedIn ++ [(.rx (), .other true), (.rx (), .wake)] ++ drainQueue ++
        [(.tx (), .wake), (.rx (), .readFails), (.rx (), .wake)]) (by decide)
  obtain ⟨c, hr, hc⟩ := hrun
  rw [Bool.and_eq_true, Bool.and_eq_true] at hc
  exact ⟨c, hc.1.1, hc.1.2, hc.2, not_isReady_of_reach hr hc.1.1 hc.1.2⟩

/-- A client logs out, and its `rx_thread` tests `m_is_killed` after the `tx_thread` has
terminated the connection. -/
theorem isReady_logout :
    ¬ ∀ c : PoolConfig Unit Bool,
      Reach (step (poolProg pair fun _ => true)) anyStep (· = opened Unit Bool) c →
        (c.data.flags ()).rxExited = true → (c.data.flags ()).txExited = true →
          (c.data.flags ()).isReady = false := by
  intro h
  have hrun : ∃ c : PoolConfig Unit Bool,
      Reach (step (poolProg pair fun _ => true)) anyStep (· = opened Unit Bool) c ∧
        ((c.data.flags ()).rxExited && (c.data.flags ()).txExited &&
          (c.data.flags ()).isReady) = true :=
    exists_reach_of_run rfl
      (loggedIn ++ [(.rx (), .other true)] ++ drainQueue ++
        [(.tx (), .wake), (.rx (), .wake), (.rx (), .wake)]) (by decide)
  obtain ⟨c, hr, hc⟩ := hrun
  rw [Bool.and_eq_true, Bool.and_eq_true] at hc
  have hready := h c hr hc.1.1 hc.1.2
  rw [hc.2] at hready
  cases hready

end Schedules

end Chatd.Net.Server
