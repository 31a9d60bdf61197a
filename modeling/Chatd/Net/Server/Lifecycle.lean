import Mathlib.Data.List.Perm.Basic
import Chatd.Library.Logged
import Chatd.Net.Server.Collectable

/-! # From `accept` to `delete`

A connection is created by the accepting thread, listed in `m_conns`, and taken out by the
garbage collector, which joins its two threads and deletes its cell. The record of a run
lists the cells deleted. Every connection that was created is in the hands of the accepting
thread, of the garbage collector, in the list, or deleted, and in one of these places only,
until the destructor of the pool deletes the cells at the front of the list once more.
-/
namespace Chatd.Net.Server
open Library Protocol

/-- The connection that `ConnectionPool::push` has still to list. -/
def ThreadPc.pushing {κ υ : Type*} : ThreadPc κ υ → List κ
  | .main (.ready k) | .main (.lockConns k) | .main (.push k) => [k]
  | _ => []

/-- The connections that the garbage collector has still to delete or to find. -/
def ThreadPc.toCollect {κ υ : Type*} (conns : List κ) : ThreadPc κ υ → List κ
  | .gc (.sweep true i) | .gc (.kill true i _) | .gc (.joinRx true i _)
  | .gc (.joinTx true i _) => conns.drop i
  | .gc (.kill false _ k) | .gc (.joinRx false _ k) | .gc (.joinTx false _ k) => k :: conns
  | .gc .exited => []
  | _ => conns

/-- The connection that the garbage collector kills and joins. -/
def ThreadPc.collecting {κ υ : Type*} : ThreadPc κ υ → List κ
  | .gc (.kill _ _ k) | .gc (.joinRx _ _ k) | .gc (.joinTx _ _ k) => [k]
  | _ => []

/-- The connection whose second thread the garbage collector joins. -/
def ThreadPc.deletes {κ υ : Type*} : ThreadPc κ υ → List κ
  | .gc (.joinTx _ _ k) => [k]
  | _ => []

def ThreadPc.destroys {κ υ : Type*} (conns : List κ) : ThreadPc κ υ → List κ
  | .main (.destroy i) => conns[i]?.toList
  | _ => []

def ThreadPc.destroyed {κ υ : Type*} (conns : List κ) : ThreadPc κ υ → List κ
  | .main (.destroy i) => conns.take i
  | .main .strayRead => conns
  | _ => []

def ThreadPc.isClosed {κ υ : Type*} : ThreadPc κ υ → Bool
  | .main p => p.isClosed
  | _ => false

/-- The garbage collector has found `m_is_running` cleared. -/
def GcPc.lastPass {κ : Type*} : GcPc κ → Bool
  | .lockConns terminated | .sweep terminated _ | .kill terminated _ _
  | .joinRx terminated _ _ | .joinTx terminated _ _ => terminated
  | .exited => true
  | .sleep => false

def ThreadPc.lastPass {κ υ : Type*} : ThreadPc κ υ → Bool
  | .gc p => p.lastPass
  | _ => false

section Record

variable {κ υ : Type*} [DecidableEq κ] [DecidableEq υ] (accounts : Accounts υ) (session : κ → υ)

omit [DecidableEq κ] [DecidableEq υ] in
/-- `delete conn`, behind the second join of `shutdown`, and `delete user` in the loop of
`~ConnectionPool`. -/
def cellsDeleted (_ : List κ) (c : PoolConfig κ υ) (l : Thread κ × Input κ)
    (_ : PoolConfig κ υ) : List κ :=
  match l.1 with
  | .gc => (c.pc .gc).deletes
  | .main => (c.pc .main).destroys c.data.conns
  | _ => []

abbrev collectStep (r : Logged (PoolConfig κ υ) κ) (l : Thread κ × Input κ) :
    Option (Logged (PoolConfig κ υ) κ) :=
  logged (step (poolProg accounts session)) cellsDeleted r l

abbrev Collecting (r : Logged (PoolConfig κ υ) κ) : Prop :=
  Reach (collectStep accounts session) (onState anyStep) (unlogged (· = opened κ υ)) r

/-- The places that a connection can be in, with the cells that the garbage collector has
deleted. -/
def places (c : PoolConfig κ υ) (deleted : List κ) : List κ :=
  (c.pc .main).pushing ++ (c.pc .gc).toCollect c.data.conns ++ deleted

/-- Where the connections are, and what has become of the deleted ones. -/
structure Custody (c : PoolConfig κ υ) (deleted : List κ) : Prop where
  count : ∀ k, (places c deleted).count k = if (c.data.flags k).created then 1 else 0
  current : ∀ i k, c.pc .gc = .gc (.kill true i k) ∨ c.pc .gc = .gc (.joinRx true i k) ∨
    c.pc .gc = .gc (.joinTx true i k) → c.data.conns[i]? = some k
  joined : ∀ terminated i k, c.pc .gc = .gc (.joinTx terminated i k) →
    (c.data.flags k).rxExited = true
  running : c.data.isRunning = false → (c.pc .main).isClosed = true
  closed : (c.pc .gc).lastPass = true → (c.pc .main).isClosed = true
  gcExited : c.data.gcExited = true → c.pc .gc = .gc .exited
  destroying : ∀ i, c.pc .main = .main (.destroy i) → c.pc .gc = .gc .exited ∧
    i ≤ c.data.users.length
  strayRead : c.pc .main = .main .strayRead → c.pc .gc = .gc .exited ∧
    c.data.conns.length ≤ c.data.users.length
  exited : ∀ k ∈ deleted, (c.data.flags k).rxExited = true ∧ (c.data.flags k).txExited = true

end Record

section Steps

variable {κ υ : Type*} [DecidableEq κ] [DecidableEq υ] {accounts : Accounts υ} {session : κ → υ}
  {c c' : PoolConfig κ υ} {d d' : PoolState κ υ} {k : κ} {a : Input κ} {deleted : List κ}

/-- A step lists, creates and revives nothing. -/
structure PoolState.Keeps (d d' : PoolState κ υ) : Prop where
  conns : d'.conns = d.conns
  users : d.users <+: d'.users
  isRunning : d'.isRunning = d.isRunning
  gcExited : d'.gcExited = d.gcExited
  created : ∀ j, (d'.flags j).created = (d.flags j).created
  rxExited : ∀ j, (d.flags j).rxExited = true → (d'.flags j).rxExited = true
  txExited : ∀ j, (d.flags j).txExited = true → (d'.flags j).txExited = true

omit [DecidableEq κ] [DecidableEq υ] in
theorem PoolState.Keeps.refl (d : PoolState κ υ) : d.Keeps d :=
  ⟨rfl, List.prefix_rfl, rfl, rfl, fun _ => rfl, fun _ => id, fun _ => id⟩

omit [DecidableEq υ] in
theorem PoolState.Keeps.setFlags {f : ConnFlags} (hc : f.created = (d.flags k).created)
    (hrx : (d.flags k).rxExited = true → f.rxExited = true)
    (htx : (d.flags k).txExited = true → f.txExited = true) : d.Keeps (d.setFlags k f) := by
  refine ⟨rfl, List.prefix_rfl, rfl, rfl, fun j => ?_, fun j => ?_, fun j => ?_⟩ <;>
    rw [PoolState.setFlags_flags] <;> split
  all_goals first
    | (subst_vars; assumption)
    | rfl
    | exact id

theorem rx_keeps {p q : RxPc υ} (h : (rxNext accounts session a d k p).Moves d d' q) :
    d.Keeps d' := by
  cases p with
  | handling p =>
    rcases handling_of_moves h with ⟨-, hd, -⟩ | ⟨-, hd, -⟩
    · rw [hd]
      exact .refl d
    · rw [hd]
      exact ⟨rfl, List.prefix_rfl, rfl, rfl, fun _ => rfl, fun _ => id, fun _ => id⟩
  | read =>
    cases a with
    | other exits =>
      rw [h.1]
      exact .setFlags rfl id id
    | _ => grind [rxNext, Act.Moves, PoolState.Keeps.refl, PoolState.Keeps.setFlags]
  | login =>
    cases a with
    | login authenticated exits =>
      obtain ⟨-, users, hprefix, rfl⟩ := login_of_moves h
      have hkeeps : d.Keeps (d.setFlags k { (d.flags k).exit exits with authenticated }) :=
        .setFlags rfl id id
      exact { hkeeps with users := hprefix }
    | _ => exact h.elim
  | _ => grind [rxNext, Act.Moves, PoolState.Keeps.refl, PoolState.Keeps.setFlags]

omit [DecidableEq υ] in
theorem tx_keepsCells {p q : TxPc} (h : (txNext a d k p : PoolAct κ υ TxPc).Moves d d' q) :
    d.Keeps d' := by
  cases p with
  | drain => cases a <;> grind [txNext, Act.Moves, PoolState.Keeps.refl, PoolState.Keeps.setFlags]
  | _ => grind [txNext, Act.Moves, PoolState.Keeps.refl, PoolState.Keeps.setFlags]

omit [DecidableEq υ] in
theorem main_isRunning {p q : MainPc κ}
    (h : (mainNext a d p : PoolAct κ υ (MainPc κ)).Moves d d' q) (hp : p.isClosed = false) :
    d'.gcExited = d.gcExited ∧ (q = .closed ∨ q.isClosed = false ∧ d'.isRunning = d.isRunning) := by
  cases p with
  | serving => cases a <;> grind [mainNext, Act.Moves, PoolState.setFlags, MainPc.isClosed]
  | closed | destroy i | strayRead => cases hp
  | _ => grind [mainNext, Act.Moves, PoolState.setFlags, MainPc.isClosed]

omit [DecidableEq υ] in
theorem Custody.thread (hI : Custody c deleted) (hmain : c'.pc .main = c.pc .main)
    (hgc : c'.pc .gc = c.pc .gc) (hd : c.data.Keeps c'.data) : Custody c' deleted := by
  constructor
  case count =>
    intro k
    rw [places, hmain, hgc, hd.conns, hd.created k]
    exact hI.count k
  case current =>
    rw [hgc, hd.conns]
    exact hI.current
  case joined =>
    rw [hgc]
    exact fun terminated i k h => hd.rxExited k (hI.joined terminated i k h)
  case running =>
    rw [hmain, hd.isRunning]
    exact hI.running
  case closed =>
    rw [hmain, hgc]
    exact hI.closed
  case gcExited =>
    rw [hgc, hd.gcExited]
    exact hI.gcExited
  case destroying =>
    rw [hmain, hgc]
    exact fun i hi => (hI.destroying i hi).imp_right fun hle => Nat.le_trans hle hd.users.length_le
  case strayRead =>
    rw [hmain, hgc, hd.conns]
    exact fun hi => (hI.strayRead hi).imp_right fun hle => Nat.le_trans hle hd.users.length_le
  case exited => exact fun k hk => (hI.exited k hk).imp (hd.rxExited k) (hd.txExited k)

omit [DecidableEq κ] [DecidableEq υ] in
/-- Before its last pass the garbage collector will find what is listed now. -/
theorem toCollect_append {p : ThreadPc κ υ} (hp : p.lastPass = false) (conns : List κ) (k : κ) :
    p.toCollect (conns ++ [k]) = p.toCollect conns ++ [k] := by
  cases p with
  | gc p =>
    cases p with
    | sleep => rfl
    | exited => cases hp
    | _ => obtain rfl := hp; rfl
  | _ => rfl

omit [DecidableEq υ] in
theorem Custody.main (hI : Custody c deleted) (hother : ∀ s, s ≠ .main → c'.pc s = c.pc s)
    {p q : MainPc κ} (hp : c.pc .main = .main p) (hq : c'.pc .main = .main q)
    (h : (mainNext a c.data p : PoolAct κ υ (MainPc κ)).Moves c.data c'.data q)
    (hopen : p.isClosed = false) : Custody c' deleted := by
  have hgc : c'.pc .gc = c.pc .gc := hother .gc (by simp)
  have hserving : (c.pc .main).isClosed = false := by rw [hp]; exact hopen
  have hlast : (c.pc .gc).lastPass = false := by
    by_contra hlast
    rw [hI.closed (by simpa using hlast)] at hserving
    cases hserving
  obtain ⟨hgcExited, hrunning⟩ := main_isRunning h hopen
  have hflags (k : κ) : (c.data.flags k).rxExited = (c'.data.flags k).rxExited ∧
      (c.data.flags k).txExited = (c'.data.flags k).txExited := by
    rw [(main_flags h k).1]
    exact ⟨rfl, rfl⟩
  constructor
  case count =>
    intro k
    have hcount := hI.count k
    rw [places, hp] at hcount
    rw [places, hgc, hq]
    rcases main_cases h with ⟨j, rfl, rfl, hcreated, hd⟩ | ⟨rfl, rfl, hf, hconns⟩ |
      ⟨j, rfl, rfl, hd⟩ | ⟨j, rfl, rfl, hd⟩ | ⟨j, rfl, rfl, hf, hconns⟩ | ⟨hclosed, -⟩
    case inr.inr.inr.inr.inr =>
      rw [hopen] at hclosed
      cases hclosed
    · rw [hd, PoolState.setFlags_conns, PoolState.setFlags_flags]
      simp only [ThreadPc.pushing, List.count_append, List.count_nil,
        List.count_singleton] at hcount ⊢
      by_cases hk : k = j
      · subst hk
        rw [hcreated] at hcount
        simp only [beq_self_eq_true, if_true, Bool.false_eq_true, if_false] at hcount ⊢
        omega
      · rw [if_neg hk, if_neg (by simpa using Ne.symm hk)]
        exact hcount
    · rw [hf, hconns]
      exact hcount
    · rw [hd, PoolState.setFlags_conns, PoolState.setFlags_flags]
      by_cases hk : k = j
      · subst hk
        simpa [ThreadPc.pushing] using hcount
      · simpa [ThreadPc.pushing, hk] using hcount
    · rw [hd]
      exact hcount
    · rw [hf, hconns, toCollect_append hlast]
      rw [← hcount]
      simp only [ThreadPc.pushing, List.count_append, List.count_nil]
      omega
  case current =>
    intro i k hk
    rw [hgc] at hk
    rcases hk with hk | hk | hk <;> rw [hk] at hlast <;> cases hlast
  case joined =>
    intro terminated i k hk
    rw [hgc] at hk
    exact (hflags k).1 ▸ hI.joined terminated i k hk
  case running =>
    intro hrun
    rcases hrunning with rfl | ⟨-, heq⟩
    · rw [hq]
      rfl
    · rw [heq] at hrun
      rw [hI.running hrun] at hserving
      cases hserving
  case closed =>
    intro hk
    rw [hgc, hlast] at hk
    cases hk
  case gcExited =>
    rw [hgcExited, hgc]
    exact hI.gcExited
  case destroying =>
    intro i hi
    obtain rfl : q = .destroy i := ThreadPc.main.inj (hq.symm.trans hi)
    rcases hrunning with hq | ⟨hq, -⟩ <;> cases hq
  case strayRead =>
    intro hi
    obtain rfl : q = .strayRead := ThreadPc.main.inj (hq.symm.trans hi)
    rcases hrunning with hq | ⟨hq, -⟩ <;> cases hq
  case exited =>
    intro k hk
    rw [← (hflags k).1, ← (hflags k).2]
    exact hI.exited k hk

omit [DecidableEq υ] in
theorem Custody.destroy (hI : Custody c deleted) (hother : ∀ s, s ≠ .main → c'.pc s = c.pc s)
    {p q : MainPc κ} (hp : c.pc .main = .main p) (hq : c'.pc .main = .main q)
    (h : (mainNext a c.data p : PoolAct κ υ (MainPc κ)).Moves c.data c'.data q)
    (hclosed : p.isClosed = true) : Custody c' deleted := by
  have hgc : c'.pc .gc = c.pc .gc := hother .gc (by simp)
  obtain ⟨hd, hcases⟩ := destroy_cases h hclosed
  have hq' : q.isClosed = true := by
    rcases hcases with ⟨-, rfl, -⟩ | ⟨i, -, -, ⟨k, -, rfl⟩ | ⟨-, rfl⟩⟩ <;> rfl
  have hpushing (p : MainPc κ) (hp : p.isClosed = true) :
      (ThreadPc.main p : ThreadPc κ υ).pushing = [] := by
    cases p with
    | closed | destroy i | strayRead => rfl
    | _ => cases hp
  constructor
  case count =>
    intro k
    have hcount := hI.count k
    rw [places, hp, hpushing p hclosed] at hcount
    rw [places, hq, hpushing q hq', hgc, hd]
    exact hcount
  case current => rw [hgc, hd]; exact hI.current
  case joined => rw [hgc, hd]; exact hI.joined
  case running =>
    rw [hq]
    exact fun _ => hq'
  case closed =>
    rw [hq]
    exact fun _ => hq'
  case gcExited => rw [hgc, hd]; exact hI.gcExited
  case destroying =>
    intro i hi
    obtain rfl : q = .destroy i := ThreadPc.main.inj (hq.symm.trans hi)
    rw [hgc, hd]
    rcases hcases with ⟨-, heq, hexited⟩ | ⟨j, rfl, hlt, ⟨k, -, heq⟩ | ⟨-, heq⟩⟩
    · cases heq
      exact ⟨hI.gcExited hexited, Nat.zero_le _⟩
    · cases heq
      exact ⟨(hI.destroying j hp).1, hlt⟩
    · cases heq
  case strayRead =>
    intro hi
    obtain rfl : q = .strayRead := ThreadPc.main.inj (hq.symm.trans hi)
    rw [hgc, hd]
    rcases hcases with ⟨-, heq, -⟩ | ⟨j, rfl, hlt, ⟨k, -, heq⟩ | ⟨hnone, -⟩⟩
    · cases heq
    · cases heq
    · have hle := List.getElem?_eq_none_iff.mp hnone
      exact ⟨(hI.destroying j hp).1, Nat.le_trans hle (Nat.le_of_lt hlt)⟩
  case exited => rw [hd]; exact hI.exited

omit [DecidableEq υ] in
/-- Everything a step of the garbage collector can do. -/
theorem gc_step_cases {p q : GcPc κ} (h : (gcNext d p : PoolAct κ υ (GcPc κ)).Moves d d' q) :
    (p = .sleep ∧ q = .lockConns (!d.isRunning) ∧ d' = d) ∨
    (∃ terminated, p = .lockConns terminated ∧ q = .sweep terminated 0 ∧ d' = d) ∨
    (∃ terminated i, p = .sweep terminated i ∧ d.conns.length ≤ i ∧
      q = (if terminated then .exited else .sleep) ∧ d' = { d with gcExited := terminated }) ∨
    (∃ i k, p = .sweep true i ∧ d.conns[i]? = some k ∧ q = .kill true i k ∧ d' = d) ∨
    (∃ i, p = .sweep false i ∧ q = .sweep false (i + 1) ∧ d' = d) ∨
    (∃ i k, p = .sweep false i ∧ d.conns[i]? = some k ∧ q = .kill false i k ∧
      d' = { d with conns := d.conns.eraseIdx i }) ∨
    (∃ terminated i k, p = .kill terminated i k ∧ q = .joinRx terminated i k ∧
      d' = d.setFlags k { d.flags k with isKilled := true }) ∨
    (∃ terminated i k, p = .joinRx terminated i k ∧ q = .joinTx terminated i k ∧
      (d.flags k).rxExited = true ∧ d' = d) ∨
    (∃ terminated i k, p = .joinTx terminated i k ∧
      q = .sweep terminated (if terminated then i + 1 else i) ∧
      (d.flags k).txExited = true ∧ d' = d) := by
  cases p with
  | sweep terminated i =>
    cases hi : d.conns[i]? with
    | none =>
      have hlen := List.getElem?_eq_none_iff.mp hi
      grind [gcNext, Act.Moves]
    | some k => cases terminated <;> grind [gcNext, Act.Moves]
  | _ => grind [gcNext, Act.Moves]

omit [DecidableEq υ] in
theorem lastPass_of_moves {p q : GcPc κ} (h : (gcNext d p : PoolAct κ υ (GcPc κ)).Moves d d' q)
    (hq : q.lastPass = true) : p.lastPass = true ∨ d.isRunning = false := by
  rcases gc_step_cases h with ⟨rfl, rfl, -⟩ | ⟨terminated, rfl, rfl, -⟩ |
    ⟨terminated, i, rfl, -, rfl, -⟩ | ⟨i, k, rfl, -, rfl, -⟩ | ⟨i, rfl, rfl, -⟩ |
    ⟨i, k, rfl, -, rfl, -⟩ | ⟨terminated, i, k, rfl, rfl, -⟩ |
    ⟨terminated, i, k, rfl, rfl, -, -⟩ | ⟨terminated, i, k, rfl, rfl, -, -⟩
  · exact .inr (by simpa [GcPc.lastPass] using hq)
  · exact .inl hq
  · cases terminated with
    | false => cases hq
    | true => exact .inl rfl
  all_goals exact .inl hq

omit [DecidableEq υ] in
/-- A cell is deleted behind the end of the second thread of its connection. -/
theorem txExited_of_deletes {p q : GcPc κ}
    (h : (gcNext d p : PoolAct κ υ (GcPc κ)).Moves d d' q)
    (hk : k ∈ (ThreadPc.gc p : ThreadPc κ υ).deletes) :
    ∃ terminated i, p = .joinTx terminated i k ∧ (d.flags k).txExited = true := by
  cases p with
  | joinTx terminated i j =>
    obtain rfl := List.mem_singleton.mp hk
    refine ⟨terminated, i, rfl, ?_⟩
    grind [gcNext, Act.Moves]
  | _ => cases hk

omit [DecidableEq υ] in
/-- A connection leaves what is still to be collected when its cell is deleted. -/
theorem toCollect_of_moves {p q : GcPc κ}
    (h : (gcNext d p : PoolAct κ υ (GcPc κ)).Moves d d' q)
    (hcurrent : ∀ i k, p = .joinTx true i k → d.conns[i]? = some k) :
    ((ThreadPc.gc q : ThreadPc κ υ).toCollect d'.conns ++
      (ThreadPc.gc p : ThreadPc κ υ).deletes).Perm
      ((ThreadPc.gc p : ThreadPc κ υ).toCollect d.conns) := by
  rcases gc_step_cases h with ⟨rfl, rfl, rfl⟩ | ⟨terminated, rfl, rfl, rfl⟩ |
    ⟨terminated, i, rfl, hi, rfl, rfl⟩ | ⟨i, k, rfl, hi, rfl, rfl⟩ | ⟨i, rfl, rfl, rfl⟩ |
    ⟨i, k, rfl, hi, rfl, rfl⟩ | ⟨terminated, i, k, rfl, rfl, rfl⟩ |
    ⟨terminated, i, k, rfl, rfl, -, rfl⟩ | ⟨terminated, i, k, rfl, rfl, -, rfl⟩
  · simp [ThreadPc.toCollect, ThreadPc.deletes]
  · cases terminated <;> simp [ThreadPc.toCollect, ThreadPc.deletes]
  · cases terminated with
    | false => simp [ThreadPc.toCollect, ThreadPc.deletes]
    | true => simp [ThreadPc.toCollect, ThreadPc.deletes, List.drop_eq_nil_of_le hi]
  · simp [ThreadPc.toCollect, ThreadPc.deletes]
  · simp [ThreadPc.toCollect, ThreadPc.deletes]
  · obtain ⟨hlt, rfl⟩ := List.getElem?_eq_some_iff.mp hi
    simpa [ThreadPc.toCollect, ThreadPc.deletes] using List.getElem_cons_eraseIdx_perm hlt
  · cases terminated <;> simp [ThreadPc.toCollect, ThreadPc.deletes]
  · cases terminated <;> simp [ThreadPc.toCollect, ThreadPc.deletes]
  · cases terminated with
    | false => simp [ThreadPc.toCollect, ThreadPc.deletes]
    | true =>
      obtain ⟨hlt, rfl⟩ := List.getElem?_eq_some_iff.mp (hcurrent i k rfl)
      simp only [ThreadPc.toCollect, ThreadPc.deletes, if_true]
      rw [List.drop_eq_getElem_cons hlt]
      exact List.perm_append_singleton ..

omit [DecidableEq υ] in
theorem Custody.gc (hI : Custody c deleted) (hother : ∀ s, s ≠ .gc → c'.pc s = c.pc s)
    {p q : GcPc κ} (hp : c.pc .gc = .gc p) (hq : c'.pc .gc = .gc q)
    (h : (gcNext c.data p : PoolAct κ υ (GcPc κ)).Moves c.data c'.data q) :
    Custody c' (deleted ++ cellsDeleted deleted c (.gc, a) c') := by
  have hmain : c'.pc .main = c.pc .main := hother .main (by simp)
  have hflags := gc_flags h
  have hperm := toCollect_of_moves h fun i k hk => hI.current i k (by simp [hp, hk])
  have hcases := gc_step_cases h
  constructor
  case count =>
    intro k
    have hcount := hI.count k
    have hk := hperm.count_eq k
    rw [places, hp] at hcount
    rw [List.count_append] at hk
    rw [places, hmain, hq, cellsDeleted, hp, hflags k]
    simp only [List.count_append] at hcount ⊢
    omega
  case current =>
    intro i k hk
    rw [hq] at hk
    have hold := hI.current
    rw [hp] at hold
    grind [PoolState.setFlags_conns]
  case joined =>
    intro terminated i k hk
    rw [hq] at hk
    rw [hflags k]
    grind
  case running =>
    intro hrun
    rw [hmain]
    apply hI.running
    grind [PoolState.setFlags]
  case gcExited =>
    rw [hq]
    have hold := hI.gcExited
    rw [hp] at hold
    grind [PoolState.setFlags]
  case destroying =>
    intro i hi
    rw [hmain] at hi
    have hexited := (hI.destroying i hi).1
    rw [hp] at hexited
    cases hexited
    exact h.elim
  case strayRead =>
    intro hi
    rw [hmain] at hi
    have hexited := (hI.strayRead hi).1
    rw [hp] at hexited
    cases hexited
    exact h.elim
  case closed =>
    intro hk
    rw [hq] at hk
    rw [hmain]
    rcases lastPass_of_moves h hk with hlast | hrun
    · exact hI.closed (by rw [hp]; exact hlast)
    · exact hI.running hrun
  case exited =>
    intro k hk
    rw [hflags k]
    rcases List.mem_append.mp hk with hk | hk
    · exact hI.exited k hk
    · simp only [cellsDeleted, hp] at hk
      obtain ⟨terminated, i, rfl, htx⟩ := txExited_of_deletes h hk
      exact ⟨hI.joined terminated i k hp, htx⟩

end Steps

section Runs

variable {κ υ : Type*} [DecidableEq κ] [DecidableEq υ] {accounts : Accounts υ} {session : κ → υ}
  {c : PoolConfig κ υ} {r : Logged (PoolConfig κ υ) κ}

omit [DecidableEq υ] in
theorem Custody.destroyed_eq_nil {collected : List κ} (hI : Custody c collected)
    (hgc : c.pc .gc ≠ .gc .exited) (conns : List κ) : (c.pc .main).destroyed conns = [] := by
  cases hp : c.pc .main with
  | main p =>
    cases p with
    | destroy i => exact absurd (hI.destroying i hp).1 hgc
    | strayRead => exact absurd (hI.strayRead hp).1 hgc
    | _ => rfl
  | _ => rfl

omit [DecidableEq υ] in
theorem destroyed_of_moves {d d' : PoolState κ υ} {a : Input κ} {p q : MainPc κ}
    (h : (mainNext a d p : PoolAct κ υ (MainPc κ)).Moves d d' q) :
    (ThreadPc.main q : ThreadPc κ υ).destroyed d'.conns =
      (ThreadPc.main p : ThreadPc κ υ).destroyed d.conns ++
        (ThreadPc.main p : ThreadPc κ υ).destroys d.conns := by
  cases hclosed : p.isClosed with
  | true =>
    obtain ⟨hd, ⟨rfl, rfl, -⟩ | ⟨i, rfl, -, ⟨k, hk, rfl⟩ | ⟨hnone, rfl⟩⟩⟩ :=
      destroy_cases h hclosed
    · rfl
    · rw [hd]
      exact List.take_add_one
    · rw [hd]
      have hle := List.getElem?_eq_none_iff.mp hnone
      simp [ThreadPc.destroyed, ThreadPc.destroys, hnone, List.take_of_length_le hle]
  | false =>
    have hq := (main_isRunning h hclosed).2
    cases p with
    | closed | destroy i | strayRead => cases hclosed
    | _ =>
      cases q with
      | destroy i | strayRead => rcases hq with hq | ⟨hq, -⟩ <;> cases hq
      | _ => rfl

/-- The record lists what the garbage collector has deleted, and behind it what the loop of
the destructor has. -/
theorem custody_of_collecting (h : Collecting accounts session r) :
    ∃ collected, r.log = collected ++ (r.state.pc .main).destroyed r.state.data.conns ∧
      Custody r.state collected := by
  apply Reach.invariant (I := fun r => ∃ collected,
    r.log = collected ++ (r.state.pc .main).destroyed r.state.data.conns ∧
      Custody r.state collected) _ _ h
  · rintro ⟨c, log⟩ ⟨rfl, rfl⟩
    exact ⟨[], rfl, fun _ => rfl, fun _ _ => nofun, fun _ _ _ => nofun, nofun, nofun, nofun,
      nofun, nofun, nofun⟩
  · rintro r ⟨t, a⟩ r' ⟨collected, hrecord, hI⟩ hstep -
    obtain ⟨hs, hlog⟩ := logged_cases hstep
    have hother := (step_moves hs).2
    rw [hlog, hrecord]
    rcases pool_step_cases hs with ⟨p, q, rfl, hp, hq, hm⟩ | ⟨p, q, rfl, hp, hq, hm⟩ |
      ⟨k, p, q, rfl, -, -, hm⟩ | ⟨k, p, q, rfl, -, -, hm⟩
    · refine ⟨collected, ?_, ?_⟩
      · rw [hq, destroyed_of_moves hm, cellsDeleted, hp, List.append_assoc]
      · cases hclosed : p.isClosed with
        | true => exact hI.destroy hother hp hq hm hclosed
        | false => exact hI.main hother hp hq hm hclosed
    · have hnil := hI.destroyed_eq_nil (by
        rw [hp]
        rintro heq
        cases heq
        exact hm)
      refine ⟨collected ++ cellsDeleted collected r.state (.gc, a) r'.state, ?_,
        hI.gc hother hp hq hm⟩
      rw [hother .main (by simp), hnil, hnil, List.append_nil, List.append_nil]
    · have hkeeps := rx_keeps hm
      refine ⟨collected, ?_, hI.thread (hother .main (by simp)) (hother .gc (by simp)) hkeeps⟩
      rw [hother .main (by simp), hkeeps.conns]
      exact List.append_nil _
    · have hkeeps := tx_keepsCells hm
      refine ⟨collected, ?_, hI.thread (hother .main (by simp)) (hother .gc (by simp)) hkeeps⟩
      rw [hother .main (by simp), hkeeps.conns]
      exact List.append_nil _

theorem hasLeft_of_rxExited
    {ok : PoolConfig κ υ → Thread κ × Input κ → PoolConfig κ υ → Prop}
    (h : Reach (step (poolProg accounts session)) ok (· = opened κ υ) c) (k : κ)
    (hk : (c.data.flags k).rxExited = true) : (c.pc (.rx k)).hasLeft = true := by
  revert k
  apply Reach.invariant (I := fun c : PoolConfig κ υ =>
    ∀ k, (c.data.flags k).rxExited = true → (c.pc (.rx k)).hasLeft = true) _ _ h
  · rintro _ rfl k hk
    cases hk
  · rintro c ⟨t, a⟩ c' hI hs - k hk
    have hother := (step_moves hs).2
    rcases pool_step_cases hs with ⟨p, q, rfl, -, -, hm⟩ | ⟨p, q, rfl, -, -, hm⟩ |
      ⟨j, p, q, rfl, hp, hq, hm⟩ | ⟨j, p, q, rfl, -, -, hm⟩
    · rw [hother _ (by simp)]
      exact hI k (by rwa [(main_flags hm k).1] at hk)
    · rw [hother _ (by simp)]
      exact hI k (by rwa [gc_flags hm k] at hk)
    · by_cases hj : k = j
      · subst hj
        have hleft := hI k
        rw [hp] at hleft
        rw [hq]
        exact ((rx_leaves hm).2.2.2.1 hk).elim (fun hk => (rx_leaves hm).1 (hleft hk)) id
      · rw [hother _ (by simpa using hj)]
        exact hI k (by rwa [(rx_frame hm).2 k hj] at hk)
    · rw [hother _ (by simp)]
      by_cases hj : k = j
      · subst hj
        exact hI k (by rwa [(tx_leaves hm).2.2.2.2.2] at hk)
      · exact hI k (by rwa [(tx_frame hm).2.2 k hj] at hk)

theorem pool_owned_of_reach
    {ok : PoolConfig κ υ → Thread κ × Input κ → PoolConfig κ υ → Prop}
    (h : Reach (step (poolProg accounts session)) ok (· = opened κ υ) c) :
    Owned (poolHeld session) c := by
  refine Owned.of_reach poolProg_scoped ?_ h
  rintro _ rfl
  refine owned_of_free (fun t => ?_) fun _ => rfl
  cases t <;> rfl

omit [DecidableEq υ] in
theorem Custody.nodup {deleted : List κ} (hI : Custody c deleted) :
    (places c deleted).Nodup := by
  apply List.nodup_iff_count_le_one.mpr
  intro k
  rw [hI.count k]
  split <;> omega

omit [DecidableEq υ] in
theorem Custody.mem_places {deleted : List κ} (hI : Custody c deleted) {k : κ} :
    k ∈ places c deleted ↔ (c.data.flags k).created = true := by
  rw [← List.count_pos_iff, hI.count k]
  split <;> simp [*]

omit [DecidableEq υ] in
/-- When the garbage collector has returned, every connection has been deleted. -/
theorem Custody.mem_of_exited {deleted : List κ} (hI : Custody c deleted)
    (hgc : c.pc .gc = .gc .exited) {k : κ} (hk : (c.data.flags k).created = true) :
    k ∈ deleted := by
  have hmem := hI.mem_places.mpr hk
  have hclosed := hI.closed (by rw [hgc]; rfl)
  have hpushing : (c.pc .main).pushing = [] := by
    cases hp : c.pc .main with
    | main p =>
      rw [hp] at hclosed
      cases p with
      | closed | destroy i | strayRead => rfl
      | _ => cases hclosed
    | _ => rfl
  rw [places, hgc, hpushing] at hmem
  exact hmem

omit [DecidableEq υ] in
/-- The loop of the destructor has deleted cells at the front of `m_conns`, one for a user. -/
theorem Custody.destroyed_spec {deleted : List κ} (hI : Custody c deleted) :
    (c.pc .main).destroyed c.data.conns <+: c.data.conns ∧
      ((c.pc .main).destroyed c.data.conns).length ≤ c.data.users.length := by
  cases hp : c.pc .main with
  | main p =>
    cases p with
    | destroy i =>
      refine ⟨List.take_prefix .., ?_⟩
      rw [ThreadPc.destroyed, List.length_take]
      exact Nat.le_trans (Nat.min_le_left ..) (hI.destroying i hp).2
    | strayRead => exact ⟨List.prefix_rfl, (hI.strayRead hp).2⟩
    | _ => exact ⟨List.nil_prefix, Nat.zero_le _⟩
  | _ => exact ⟨List.nil_prefix, Nat.zero_le _⟩

/-- In every interleaving the garbage collector deletes the cell of a connection at most once,
behind the ends of both its threads, and by its return the cells of all connections that were
ever created. All else that is deleted are cells of `m_conns` that `~ConnectionPool` deletes
behind that, no more than there are users. -/
theorem connection_deleted_once (h : Collecting accounts session r) :
    ∃ collected, r.log = collected ++ (r.state.pc .main).destroyed r.state.data.conns ∧
      collected.Nodup ∧
      (∀ k ∈ collected, (r.state.data.flags k).created = true ∧
        (r.state.data.flags k).rxExited = true ∧ (r.state.data.flags k).txExited = true) ∧
      (r.state.pc .gc = .gc .exited →
        ∀ k, (r.state.data.flags k).created = true → k ∈ collected) ∧
      (r.state.pc .gc ≠ .gc .exited → (r.state.pc .main).destroyed r.state.data.conns = []) ∧
      (r.state.pc .main).destroyed r.state.data.conns <+: r.state.data.conns ∧
      ((r.state.pc .main).destroyed r.state.data.conns).length ≤ r.state.data.users.length := by
  obtain ⟨collected, hrecord, hI⟩ := custody_of_collecting h
  exact ⟨collected, hrecord, (List.nodup_append.mp hI.nodup).2.1,
    fun k hk => ⟨hI.mem_places.mp (List.mem_append_right _ hk), hI.exited k hk⟩,
    fun hgc k => hI.mem_of_exited hgc, fun hgc => hI.destroyed_eq_nil hgc _, hI.destroyed_spec⟩

def acceptClient (k : Bool) : List (Thread Bool × Input Bool) :=
  (.main, .accept k) :: List.replicate 3 (.main, .wake)

def clientLeaves (k : Bool) : List (Thread Bool × Input Bool) :=
  [(.tx k, .wake), (.rx k, .wake), (.rx k, .wake), (.rx k, .readFails), (.rx k, .wake),
    (.tx k, .wake), (.tx k, .writeFails), (.tx k, .wake), (.tx k, .wake)]

def clientStays (k : Bool) : List (Thread Bool × Input Bool) :=
  [(.tx k, .wake), (.rx k, .wake), (.rx k, .wake), (.rx k, .login true false), (.rx k, .wake),
    (.rx k, .login true false), (.rx k, .wake), (.main, .close), (.rx k, .readFails),
    (.rx k, .wake), (.tx k, .wake), (.tx k, .writeFails), (.tx k, .wake), (.tx k, .wake)]

/-- One client leaves, and another one is there when the server ends: its cell is deleted twice,
as it has registered a user. -/
theorem connection_deleted_once_closed : ∃ r : Logged (PoolConfig Bool Bool) Bool,
    Collecting pair id r ∧ r.log = [false, true, true] ∧
    ∃ collected, r.log = collected ++ [true] ∧ collected.Nodup ∧
      (∀ k ∈ collected, (r.state.data.flags k).rxExited = true) ∧ true ∈ collected := by
  have hrun : ∃ r, Collecting pair id r ∧ decide (r.state.pc .gc = .gc .exited ∧
      r.log = [false, true, true] ∧ (r.state.data.flags true).created = true ∧
      r.state.pc .main = .main (.destroy 1) ∧ r.state.data.conns = [true]) = true :=
    exists_reach_of_run (s := ⟨opened Bool Bool, []⟩) ⟨rfl, rfl⟩
      (acceptClient false ++ acceptClient true ++ clientLeaves false ++
        List.replicate 8 (.gc, .wake) ++ clientStays true ++ List.replicate 7 (.gc, .wake) ++
        [(.main, .wake), (.main, .wake)]) (by decide)
  obtain ⟨r, hr, hP⟩ := hrun
  obtain ⟨hgc, hlog, hcreated, hmain, hconns⟩ := of_decide_eq_true hP
  obtain ⟨collected, hrecord, hnodup, hexited, hall, -⟩ := connection_deleted_once hr
  rw [hmain, hconns] at hrecord
  exact ⟨r, hr, hlog, collected, hrecord, hnodup, fun k hk => (hexited k hk).2.1,
    hall hgc true hcreated⟩

omit [DecidableEq υ] in
theorem Custody.not_mem_of_pushing {deleted : List κ} (hI : Custody c deleted) {k : κ}
    (hk : k ∈ (c.pc .main).pushing) : k ∉ deleted := by
  have hn := hI.nodup
  rw [places, List.append_assoc] at hn
  exact fun hd => (List.nodup_append.mp hn).2.2 k hk k (List.mem_append_right _ hd) rfl

omit [DecidableEq υ] in
theorem Custody.not_mem_of_toCollect {deleted : List κ} (hI : Custody c deleted) {k : κ}
    (hk : k ∈ (c.pc .gc).toCollect c.data.conns) : k ∉ deleted := fun hd =>
  (List.nodup_append.mp hI.nodup).2.2 k (List.mem_append_right _ hk) k hd rfl

omit [DecidableEq υ] in
theorem Custody.collecting_toCollect {deleted : List κ} (hI : Custody c deleted) {k : κ}
    (hk : k ∈ (c.pc .gc).collecting) : k ∈ (c.pc .gc).toCollect c.data.conns := by
  have hdrop (i : ℕ) (h : c.data.conns[i]? = some k) : k ∈ c.data.conns.drop i := by
    obtain ⟨hlt, rfl⟩ := List.getElem?_eq_some_iff.mp h
    rw [List.drop_eq_getElem_cons hlt]
    exact List.mem_cons_self
  cases hp : c.pc .gc with
  | gc p =>
    have hcurrent := hI.current
    rw [hp] at hk hcurrent
    cases p with
    | kill terminated i j | joinRx terminated i j | joinTx terminated i j =>
      obtain rfl := List.mem_singleton.mp hk
      cases terminated with
      | false => exact List.mem_cons_self
      | true => exact hdrop i (hcurrent i k (by simp))
    | _ => cases hk
  | _ => rw [hp] at hk; cases hk

theorem not_owner_of_exited (h : Collecting accounts session r)
    (hgc : r.state.pc .gc = .gc .exited) (t : Thread κ) :
    r.state.owner .mConnsM ≠ some t := by
  obtain ⟨collected, -, hI⟩ := custody_of_collecting h
  have howned := pool_owned_of_reach h.state
  have hclosed := hI.closed (by rw [hgc]; rfl)
  intro ht
  have hheld := (howned.owner_iff _ t).mp ht
  cases t with
  | main =>
    cases hp : r.state.pc .main with
    | main p =>
      rw [hp] at hheld hclosed
      cases p with
      | push k => cases hclosed
      | _ => cases hheld
    | _ => rw [hp] at hheld; cases hheld
  | gc => rw [hgc] at hheld; cases hheld
  | tx k => cases hp : r.state.pc (.tx k) <;> rw [hp] at hheld <;> cases hheld
  | rx k =>
    cases hcreated : (r.state.data.flags k).created with
    | false =>
      have hwaits := ((madeReadyOnce_of_reach h.state).untouched k (.inl hcreated)).rx
      cases hp : r.state.pc (.rx k) with
      | rx p =>
        rw [hp] at hwaits hheld
        cases p with
        | start | killedTest => cases hheld
        | _ => cases hwaits
      | _ => rw [hp] at hheld; cases hheld
    | true =>
      have hleft := hasLeft_of_rxExited h.state k
        (hI.exited k (hI.mem_of_exited hgc hcreated)).1
      cases hp : r.state.pc (.rx k) with
      | rx p =>
        rw [hp] at hleft hheld
        cases p with
        | teardown | exited => cases hheld
        | _ => cases hleft
      | _ => rw [hp] at hheld; cases hheld

omit [DecidableEq κ] [DecidableEq υ] in
theorem not_mem_destroyed_of_pushing {k : κ}
    (hk : k ∈ (c.pc .main).pushing) : k ∉ (c.pc .main).destroyed c.data.conns := by
  cases hp : c.pc .main with
  | main p =>
    rw [hp] at hk
    cases p with
    | destroy i | strayRead => cases hk
    | _ => exact List.not_mem_nil
  | _ => exact List.not_mem_nil

/-- Whoever has `m_conns_m` outside the last pass finds in `m_conns` what is still to collect. -/
theorem toCollect_of_owner (h : Collecting accounts session r) {t : Thread κ}
    (ht : r.state.owner .mConnsM = some t)
    (hpass : t = .gc → (r.state.pc .gc).lastPass = false) {k : κ}
    (hk : k ∈ r.state.data.conns) : k ∈ (r.state.pc .gc).toCollect r.state.data.conns := by
  have howned := pool_owned_of_reach h.state
  have hheld := (howned.owner_iff _ t).mp ht
  cases hp : r.state.pc .gc with
  | gc p =>
    have hgc (hheld' : Mutex.mConnsM ∈ poolHeld session .gc (.gc p)) : p.lastPass = false := by
      rw [← hp] at hheld'
      have hlast := hpass (howned.unique hheld hheld')
      rwa [hp] at hlast
    cases p with
    | sleep | lockConns terminated => exact hk
    | exited => exact absurd ht (not_owner_of_exited h hp t)
    | sweep terminated i =>
      obtain rfl : terminated = false := hgc (List.mem_singleton_self _)
      exact hk
    | kill terminated i j | joinRx terminated i j | joinTx terminated i j =>
      obtain rfl : terminated = false := hgc (List.mem_singleton_self _)
      exact List.mem_cons_of_mem _ hk
  | _ => exact hk

omit [DecidableEq υ] in
theorem Custody.mem_of_destroys {collected : List κ} (hI : Custody c collected)
    (hr : MadeReadyOnce c) {k : κ} (hk : k ∈ (c.pc .main).destroys c.data.conns) :
    k ∈ collected := by
  cases hp : c.pc .main with
  | main p =>
    rw [hp] at hk
    cases p with
    | destroy i =>
      have hconn := List.mem_of_getElem? (Option.mem_toList.mp hk)
      exact hI.mem_of_exited (hI.destroying i hp).1 (hr.created_of_mem hconn)
    | _ => cases hk
  | _ => rw [hp] at hk; cases hk

/-- In every interleaving a thread that looks through `m_conns` under its mutex finds no
deleted cell there, the garbage collector in its last pass excepted, nor does the accepting
thread or the garbage collector have one in hand. Every cell that the loop of `~ConnectionPool`
finds has been deleted. -/
theorem deleted_connection_not_used (h : Collecting accounts session r) :
    (∀ t, r.state.owner .mConnsM = some t → (t = .gc → (r.state.pc .gc).lastPass = false) →
      ∀ k ∈ r.state.data.conns, k ∉ r.log) ∧
    (∀ k ∈ (r.state.pc .main).pushing, k ∉ r.log) ∧
    (∀ k ∈ (r.state.pc .gc).collecting, k ∉ r.log) ∧
    ∀ k ∈ (r.state.pc .main).destroys r.state.data.conns, k ∈ r.log := by
  obtain ⟨collected, hrecord, hI⟩ := custody_of_collecting h
  have hlog (hgc : r.state.pc .gc ≠ .gc .exited) : r.log = collected := by
    rw [hrecord, hI.destroyed_eq_nil hgc, List.append_nil]
  refine ⟨fun t ht hpass k hk => ?_, fun k hk => ?_, fun k hk => ?_, fun k hk => ?_⟩
  · rw [hlog fun hgc => not_owner_of_exited h hgc t ht]
    exact hI.not_mem_of_toCollect (toCollect_of_owner h ht hpass hk)
  · rw [hrecord, List.mem_append, not_or]
    exact ⟨hI.not_mem_of_pushing hk, not_mem_destroyed_of_pushing hk⟩
  · have hgc : r.state.pc .gc ≠ .gc .exited := by
      intro hgc
      rw [hgc] at hk
      cases hk
    rw [hlog hgc]
    exact hI.not_mem_of_toCollect (hI.collecting_toCollect hk)
  · rw [hrecord]
    exact List.mem_append_left _ (hI.mem_of_destroys (madeReadyOnce_of_reach h.state) hk)

theorem deleted_connection_not_used_sending : ∃ r : Logged (PoolConfig Bool Bool) Bool,
    Collecting pair id r ∧ r.log = [false] ∧ r.state.owner .mConnsM = some (.rx true) ∧
    r.state.data.conns = [true] ∧ ∀ k ∈ r.state.data.conns, k ∉ r.log := by
  have hrun : ∃ r, Collecting pair id r ∧ decide (r.log = [false] ∧
      r.state.owner .mConnsM = some (.rx true) ∧ r.state.data.conns = [true]) = true :=
    exists_reach_of_run (s := ⟨opened Bool Bool, []⟩) ⟨rfl, rfl⟩
      (acceptClient false ++ acceptClient true ++ clientLeaves false ++
        List.replicate 8 (.gc, .wake) ++
        [(.rx true, .wake), (.rx true, .wake), (.rx true, .login true false), (.rx true, .wake),
          (.rx true, .login true false), (.rx true, .wake),
          (.rx true, .line (.message (.direct (ascii "bob") (ascii "hi")))), (.rx true, .wake)])
      (by decide)
  obtain ⟨r, hr, hP⟩ := hrun
  obtain ⟨hlog, howner, hconns⟩ := of_decide_eq_true hP
  exact ⟨r, hr, hlog, howner, hconns,
    (deleted_connection_not_used hr).1 (.rx true) howner nofun⟩

end Runs

end Chatd.Net.Server
