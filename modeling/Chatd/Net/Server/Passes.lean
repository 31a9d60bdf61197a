import Chatd.Net.Server.Lifecycle
import Chatd.Net.Server.Sweep

/-! # A pass among the other threads

The garbage collector walks over `m_conns` while the threads of the connections go on and
clear `m_is_ready`. The mutex keeps the list as it is, and no listed connection becomes ready
again, so that what a pass has done when it ends is the pass as a loop of its own, over the
connections as they were when it began.
-/
namespace Chatd.Net.Server
open Library Protocol Collections

/-- What the record tells of a pass: the list that it began with, with the connections of it
that were ready then, and the cells that it deletes. -/
inductive PassEvent (κ : Type*) where
  | began (conns ready : List κ)
  | deleted (k : κ)
  deriving DecidableEq, Repr

/-- The garbage collector in its loop: which pass, the index, and the connection in hand. -/
def ThreadPc.sweeping {κ υ : Type*} : ThreadPc κ υ → Option (Bool × ℕ × List κ)
  | .gc (.sweep terminated i) => some (terminated, i, [])
  | .gc (.kill terminated i k) | .gc (.joinRx terminated i k) | .gc (.joinTx terminated i k) =>
    some (terminated, i, [k])
  | _ => none

section Record

variable {κ υ : Type*} [DecidableEq κ] [DecidableEq υ] (accounts : Accounts υ) (session : κ → υ)

omit [DecidableEq κ] [DecidableEq υ] in
def passEvents (_ : List (PassEvent κ)) (c : PoolConfig κ υ) (l : Thread κ × Input κ)
    (_ : PoolConfig κ υ) : List (PassEvent κ) :=
  match l.1, c.pc .gc with
  | .gc, .gc (.lockConns _) =>
    [.began c.data.conns (c.data.conns.filter fun k => (c.data.flags k).isReady)]
  | .gc, .gc (.joinTx _ _ k) => [.deleted k]
  | _, _ => []

abbrev Watching (r : Logged (PoolConfig κ υ) (PassEvent κ)) : Prop :=
  Reach (logged (step (poolProg accounts session)) passEvents) (onState anyStep)
    (unlogged (· = opened κ υ)) r

end Record

section Settled

variable {κ υ : Type*} [DecidableEq κ] [DecidableEq υ] {accounts : Accounts υ} {session : κ → υ}
  {c c' : PoolConfig κ υ} {k : κ} {t : Thread κ} {a : Input κ}

def Settled (c : PoolConfig κ υ) (k : κ) : Prop :=
  (c.data.flags k).created = true ∧ c.pc .main ≠ .main (.ready k)

omit [DecidableEq κ] [DecidableEq υ] in
theorem MadeReadyOnce.settled (h : MadeReadyOnce c) (hk : k ∈ c.data.conns) : Settled c k := by
  exact ⟨h.created_of_mem hk, fun hmain => (h.untouched k (.inr hmain)).not_mem hk⟩

/-- Behind it nothing makes the connection ready again. -/
theorem Settled.step (h : Settled c k)
    (hs : Library.step (poolProg accounts session) c (t, a) = some c') :
    Settled c' k ∧
      ((c'.data.flags k).isReady = true → (c.data.flags k).isReady = true) := by
  obtain ⟨hcreated, hmain⟩ := h
  have hother := (step_moves hs).2
  rcases pool_step_cases hs with ⟨p, q, rfl, hp, hq, hm⟩ | ⟨p, q, rfl, hp, hq, hm⟩ |
    ⟨j, p, q, rfl, hp, hq, hm⟩ | ⟨j, p, q, rfl, hp, hq, hm⟩
  · have hready : p ≠ .ready k := fun heq => hmain (by rw [hp, heq])
    refine ⟨?_, fun hk => by rwa [(main_flags hm k).2.2 hready] at hk⟩
    rcases main_cases hm with ⟨i, rfl, rfl, hnew, hd⟩ | ⟨rfl, rfl, hf, -⟩ | ⟨i, rfl, rfl, hd⟩ |
      ⟨i, rfl, rfl, hd⟩ | ⟨i, rfl, rfl, hf, -⟩ | ⟨-, hclosed, hd⟩
    · have hne : k ≠ i := by
        rintro rfl
        rw [hcreated] at hnew
        cases hnew
      refine ⟨by rwa [hd, PoolState.setFlags_of_ne _ _ _ hne], fun heq => ?_⟩
      rw [hq] at heq
      cases heq
      exact hne rfl
    · exact ⟨by rwa [hf], by rw [hq]; exact nofun⟩
    · refine ⟨?_, by rw [hq]; exact nofun⟩
      rw [hd, PoolState.setFlags_flags]
      split
      case isTrue heq => rwa [← heq]
      case isFalse => exact hcreated
    · exact ⟨by rwa [hd], by rw [hq]; exact nofun⟩
    · exact ⟨by rwa [hf], by rw [hq]; exact nofun⟩
    · refine ⟨by rwa [hd], ?_⟩
      rw [hq]
      exact fun heq => (MainPc.ne_of_isClosed hclosed k).1 (ThreadPc.main.inj heq)
  · refine ⟨⟨by rwa [gc_flags hm k], by rwa [hother .main (by simp)]⟩, fun hk => ?_⟩
    rwa [gc_flags hm k] at hk
  · refine ⟨⟨by rwa [rx_created hm k], by rwa [hother .main (by simp)]⟩, fun hk => ?_⟩
    by_cases hj : k = j
    · subst hj
      exact (rx_leaves hm).2.2.1 hk
    · rwa [(rx_frame hm).2 k hj] at hk
  · refine ⟨⟨by rwa [(tx_keeps hm k).1], by rwa [hother .main (by simp)]⟩, fun hk => ?_⟩
    by_cases hj : k = j
    · subst hj
      exact (tx_leaves hm).2.2.2.1 hk
    · rwa [(tx_frame hm).2.2 k hj] at hk

end Settled

section Walking

variable {κ υ : Type*} [DecidableEq κ] {c c' : PoolConfig κ υ} {readyThen done rest : List κ}
  {ready : κ → Bool} {k : κ}

omit [DecidableEq κ] in
/-- How far a pass has come: `ready` is what it found at the connections behind it, of which
`readyThen` were ready when it began. -/
structure Walked (c : PoolConfig κ υ) (readyThen : List κ) (ready : κ → Bool) (done rest : List κ) :
    Prop where
  settled : ∀ k ∈ done ++ rest, Settled c k
  nodup : (done ++ rest).Nodup
  seen : ∀ k ∈ done, ready k = true → k ∈ readyThen
  now : ∀ k ∈ done, (c.data.flags k).isReady = true → ready k = true
  ahead : ∀ k ∈ rest, (c.data.flags k).isReady = true → k ∈ readyThen

omit [DecidableEq κ] in
theorem Walked.mono (h : Walked c readyThen ready done rest)
    (hk : ∀ k, Settled c k → Settled c' k ∧
      ((c'.data.flags k).isReady = true → (c.data.flags k).isReady = true)) :
    Walked c' readyThen ready done rest where
  settled k hmem := (hk k (h.settled k hmem)).1
  nodup := h.nodup
  seen := h.seen
  now k hmem hready :=
    h.now k hmem ((hk k (h.settled k (List.mem_append_left _ hmem))).2 hready)
  ahead k hmem hready :=
    h.ahead k hmem ((hk k (h.settled k (List.mem_append_right _ hmem))).2 hready)

theorem Walked.advance (h : Walked c readyThen ready done (k :: rest)) :
    Walked c readyThen (Function.update ready k (c.data.flags k).isReady) (done ++ [k]) rest := by
  have hlist : done ++ [k] ++ rest = done ++ k :: rest := by
    rw [List.append_assoc, List.singleton_append]
  have hne {j : κ} (hj : j ∈ done) : j ≠ k :=
    (List.nodup_append.mp h.nodup).2.2 j hj k List.mem_cons_self
  constructor
  case settled => rw [hlist]; exact h.settled
  case nodup => rw [hlist]; exact h.nodup
  case seen =>
    intro j hj hready
    rcases List.mem_append.mp hj with hj | hj
    · rw [Function.update_of_ne (hne hj)] at hready
      exact h.seen j hj hready
    · obtain rfl := List.mem_singleton.mp hj
      rw [Function.update_self] at hready
      exact h.ahead j List.mem_cons_self hready
  case now =>
    intro j hj hready
    rcases List.mem_append.mp hj with hj | hj
    · rw [Function.update_of_ne (hne hj)]
      exact h.now j hj hready
    · obtain rfl := List.mem_singleton.mp hj
      rw [Function.update_self, hready]
  case ahead => exact fun j hj => h.ahead j (List.mem_cons_of_mem _ hj)

theorem filter_update (choose : Bool → Bool) (h : k ∉ done) (b : Bool) :
    ((done ++ [k]).filter fun j => choose (Function.update ready k b j)) =
      (done.filter fun j => choose (ready j)) ++ if choose b then [k] else [] := by
  have hdone : (done.filter fun j => choose (Function.update ready k b j)) =
      done.filter fun j => choose (ready j) := by
    apply List.filter_congr
    intro j hj
    have hne : j ≠ k := fun heq => h (heq ▸ hj)
    rw [Function.update_of_ne hne]
  rw [List.filter_append, hdone, List.filter_singleton, Function.update_self, Bool.cond_eq_ite]

end Walking

section Passes

variable {κ υ : Type*} [DecidableEq κ] [DecidableEq υ] {accounts : Accounts υ} {session : κ → υ}
  {c c' : PoolConfig κ υ} {log : List (PassEvent κ)} {terminated : Bool} {i : ℕ} {hand : List κ}
  {k : κ} {a : Input κ}

omit [DecidableEq κ] [DecidableEq υ] in
/-- The record and the list of connections tell what the pass has done so far: of those
behind it, the ones that stay are in front of the index, and the others were deleted. -/
def InPass (c : PoolConfig κ υ) (log : List (PassEvent κ)) (terminated : Bool) (i : ℕ)
    (hand : List κ) : Prop :=
  ∃ old readyThen ready done todo, Walked c readyThen ready done (hand ++ todo) ∧
    log = old ++ .began (done ++ (hand ++ todo)) readyThen ::
      (done.filter fun k => terminated || !ready k).map .deleted ∧
    i = (done.filter fun k => terminated || ready k).length ∧
    c.data.conns = (done.filter fun k => terminated || ready k) ++
      ((if terminated then hand else []) ++ todo) ∧
    (terminated = false → ∀ k ∈ hand, (c.data.flags k).isReady = false)

omit [DecidableEq κ] [DecidableEq υ] in
theorem InPass.mono (h : InPass c log terminated i hand) (hconns : c'.data.conns = c.data.conns)
    (hk : ∀ k, Settled c k → Settled c' k ∧
      ((c'.data.flags k).isReady = true → (c.data.flags k).isReady = true)) :
    InPass c' log terminated i hand := by
  obtain ⟨old, readyThen, ready, done, todo, hwalked, hlog, hi, hlist, hhand⟩ := h
  refine ⟨old, readyThen, ready, done, todo, hwalked.mono hk, hlog, hi, hconns.trans hlist, ?_⟩
  intro hterminated k hmem
  by_contra hready
  have hsettled := hwalked.settled k (List.mem_append_right _ (List.mem_append_left _ hmem))
  have hold := (hk k hsettled).2 (by simpa using hready)
  rw [hhand hterminated k hmem] at hold
  cases hold

omit [DecidableEq κ] [DecidableEq υ] in
theorem InPass.began (hready : MadeReadyOnce c) (hn : c.data.conns.Nodup)
    (log : List (PassEvent κ)) (terminated : Bool) :
    InPass c (log ++ [.began c.data.conns (c.data.conns.filter fun k => (c.data.flags k).isReady)])
      terminated 0 [] := by
  refine ⟨log, _, fun _ => true, [], c.data.conns, ⟨?_, ?_, ?_, ?_, ?_⟩, rfl, rfl, ?_, ?_⟩
  · exact fun k hk => hready.settled hk
  · exact hn
  · exact fun k hk => absurd hk List.not_mem_nil
  · exact fun k hk => absurd hk List.not_mem_nil
  · exact fun k hk hkr => List.mem_filter.mpr ⟨hk, hkr⟩
  · cases terminated <;> rfl
  · exact fun _ k hk => absurd hk List.not_mem_nil

omit [DecidableEq κ] [DecidableEq υ] in
theorem InPass.next (h : InPass c log terminated i []) (hk : c.data.conns[i]? = some k) :
    ∃ old readyThen ready done todo, Walked c readyThen ready done (k :: todo) ∧
      log = old ++ .began (done ++ k :: todo) readyThen ::
        (done.filter fun k => terminated || !ready k).map .deleted ∧
      i = (done.filter fun k => terminated || ready k).length ∧
      c.data.conns = (done.filter fun k => terminated || ready k) ++ k :: todo := by
  obtain ⟨old, readyThen, ready, done, todo, hwalked, hlog, hi, hlist, -⟩ := h
  rw [List.nil_append] at hwalked hlog
  rw [ite_self, List.nil_append] at hlist
  rw [hlist, hi, List.getElem?_append_right (Nat.le_refl _), Nat.sub_self] at hk
  cases todo with
  | nil => cases hk
  | cons j todo =>
    cases hk
    exact ⟨old, readyThen, ready, done, todo, hwalked, hlog, hi, hlist⟩

omit [DecidableEq υ] in
/-- A connection that is ready stays in front of the index. -/
theorem InPass.pass_ready (h : InPass c log false i []) (hk : c.data.conns[i]? = some k)
    (hready : (c.data.flags k).isReady = true) : InPass c log false (i + 1) [] := by
  obtain ⟨old, readyThen, ready, done, todo, hwalked, hlog, hi, hlist⟩ := h.next hk
  have hmem : k ∉ done := fun hmem =>
    (List.nodup_append.mp hwalked.nodup).2.2 k hmem k List.mem_cons_self rfl
  refine ⟨old, readyThen, _, done ++ [k], todo, hwalked.advance, ?_, ?_, ?_,
    fun _ j hj => absurd hj List.not_mem_nil⟩
  · rw [hready, filter_update (fun b => false || !b) hmem, List.nil_append, hlog]
    simp
  · rw [hready, filter_update (fun b => false || b) hmem, hi]
    simp
  · rw [hready, filter_update (fun b => false || b) hmem, hlist]
    simp

omit [DecidableEq κ] [DecidableEq υ] in
theorem InPass.take (h : InPass c log false i []) (hk : c.data.conns[i]? = some k)
    (hready : (c.data.flags k).isReady = false) (hflags : c'.data.flags = c.data.flags)
    (hmain : c'.pc .main = c.pc .main) (hconns : c'.data.conns = c.data.conns.eraseIdx i) :
    InPass c' log false i [k] := by
  obtain ⟨old, readyThen, ready, done, todo, hwalked, hlog, hi, hlist⟩ := h.next hk
  refine ⟨old, readyThen, ready, done, todo, hwalked.mono ?_, hlog, hi, ?_, ?_⟩
  · intro j hj
    rw [Settled, hflags, hmain]
    exact ⟨hj, id⟩
  · rw [hconns, hlist, hi, List.eraseIdx_append_of_length_le (Nat.le_refl _), Nat.sub_self,
      List.eraseIdx_cons_zero]
    rfl
  · intro _ j hj
    rw [List.mem_singleton.mp hj, hflags, hready]

omit [DecidableEq κ] [DecidableEq υ] in
theorem InPass.takeLast (h : InPass c log true i []) (hk : c.data.conns[i]? = some k) :
    InPass c log true i [k] := by
  obtain ⟨old, readyThen, ready, done, todo, hwalked, hlog, hi, hlist⟩ := h.next hk
  exact ⟨old, readyThen, ready, done, todo, hwalked, hlog, hi, hlist, nofun⟩

omit [DecidableEq υ] in
theorem InPass.delete (h : InPass c log terminated i [k]) :
    InPass c (log ++ [.deleted k]) terminated (if terminated then i + 1 else i) [] := by
  obtain ⟨old, readyThen, ready, done, todo, hwalked, hlog, hi, hlist, hhand⟩ := h
  have hmem : k ∉ done := fun hmem =>
    (List.nodup_append.mp hwalked.nodup).2.2 k hmem k List.mem_cons_self rfl
  refine ⟨old, readyThen, _, done ++ [k], todo, hwalked.advance, ?_, ?_, ?_,
    fun _ j hj => absurd hj List.not_mem_nil⟩
  · rw [filter_update (fun b => terminated || !b) hmem, hlog]
    cases terminated with
    | true => simp
    | false => simp [hhand rfl k (List.mem_singleton_self k)]
  · rw [filter_update (fun b => terminated || b) hmem, hi]
    cases terminated with
    | true => simp
    | false => simp [hhand rfl k (List.mem_singleton_self k)]
  · rw [filter_update (fun b => terminated || b) hmem, hlist]
    cases terminated with
    | true => simp
    | false => simp [hhand rfl k (List.mem_singleton_self k)]

/-- What the record tells of the pass that the garbage collector is in. -/
def Watched (c : PoolConfig κ υ) (log : List (PassEvent κ)) : Prop :=
  ∀ terminated i hand, (c.pc .gc).sweeping = some (terminated, i, hand) →
    InPass c log terminated i hand

theorem Watched.gc (hI : Watched c log) (hready : MadeReadyOnce c)
    (hn : ∀ terminated, c.pc .gc = .gc (.lockConns terminated) → c.data.conns.Nodup)
    (hs : step (poolProg accounts session) c (.gc, a) = some c') {p q : GcPc κ}
    (hp : c.pc .gc = .gc p) (hq : c'.pc .gc = .gc q)
    (hm : (gcNext c.data p : PoolAct κ υ (GcPc κ)).Moves c.data c'.data q) :
    Watched c' (log ++ passEvents log c (.gc, a) c') := by
  have hkeeps (j : κ) (hj : Settled c j) := hj.step hs
  have hmain : c'.pc .main = c.pc .main := (step_moves hs).2 .main (by simp)
  rw [Watched, hp] at hI
  intro t j hand hsweep
  rw [hq] at hsweep
  rw [passEvents, hp]
  cases p with
  | sleep =>
    obtain ⟨-, rfl⟩ := hm
    cases hsweep
  | lockConns terminated =>
    obtain ⟨hd, rfl⟩ := hm
    cases hsweep
    exact (InPass.began hready (hn _ hp) log _).mono (by rw [hd]) hkeeps
  | sweep terminated i =>
    have hpass := hI terminated i [] rfl
    rw [List.append_nil]
    rw [gcNext] at hm
    cases hi : c.data.conns[i]? with
    | none =>
      rw [hi] at hm
      obtain ⟨-, rfl⟩ := hm
      cases terminated <;> cases hsweep
    | some k =>
      rw [hi] at hm
      dsimp only at hm
      cases terminated with
      | true =>
        obtain ⟨hd, rfl⟩ := hm
        cases hsweep
        exact (hpass.takeLast hi).mono (by rw [hd]) hkeeps
      | false =>
        rw [if_neg Bool.false_ne_true] at hm
        cases hr : (c.data.flags k).isReady with
        | true =>
          rw [if_pos hr] at hm
          obtain ⟨hd, rfl⟩ := hm
          cases hsweep
          exact (hpass.pass_ready hi hr).mono (by rw [hd]) hkeeps
        | false =>
          rw [if_neg (by simp [hr])] at hm
          obtain ⟨hd, rfl⟩ := hm
          cases hsweep
          exact hpass.take hi hr (by rw [hd]) hmain (by rw [hd])
  | kill terminated i k =>
    have hpass := hI terminated i [k] rfl
    obtain ⟨hd, rfl⟩ := hm
    cases hsweep
    rw [List.append_nil]
    exact hpass.mono (by rw [hd]; rfl) hkeeps
  | joinRx terminated i k =>
    have hpass := hI terminated i [k] rfl
    rw [gcNext] at hm
    split at hm
    case isTrue =>
      obtain ⟨hd, rfl⟩ := hm
      cases hsweep
      rw [List.append_nil]
      exact hpass.mono (by rw [hd]) hkeeps
    case isFalse => exact hm.elim
  | joinTx terminated i k =>
    have hpass := hI terminated i [k] rfl
    rw [gcNext] at hm
    split at hm
    case isTrue =>
      obtain ⟨hd, rfl⟩ := hm
      cases hsweep
      exact hpass.delete.mono (by rw [hd]) hkeeps
    case isFalse => exact hm.elim
  | exited => exact hm.elim

omit [DecidableEq κ] [DecidableEq υ] in
theorem mem_held_of_sweeping {x : Bool × ℕ × List κ} (h : (c.pc .gc).sweeping = some x) :
    Mutex.mConnsM ∈ poolHeld session .gc (c.pc .gc) := by
  cases hp : c.pc .gc with
  | gc p =>
    rw [hp] at h
    cases p with
    | sleep | lockConns _ | exited => cases h
    | _ => exact List.mem_singleton_self _
  | _ => rw [hp] at h; cases h

/-- A step of another thread, which does not own `m_conns_m` then. -/
theorem Watched.other (hI : Watched c log) (hown : Owned (poolHeld session) c) {t : Thread κ}
    (hs : step (poolProg accounts session) c (t, a) = some c') (ht : t ≠ .gc) :
    Watched c' (log ++ passEvents log c (t, a) c') := by
  have hother := (step_moves hs).2
  intro terminated i hand hsweep
  rw [hother .gc (Ne.symm ht)] at hsweep
  have hconns : c'.data.conns = c.data.conns := by
    rcases pool_step_cases hs with ⟨p, q, rfl, hp, hq, hm⟩ | ⟨p, q, rfl, -, -, -⟩ |
      ⟨k, p, q, rfl, -, -, hm⟩ | ⟨k, p, q, rfl, -, -, hm⟩
    · rcases main_cases hm with ⟨j, -, -, -, hd⟩ | ⟨-, -, -, hconns⟩ | ⟨j, -, -, hd⟩ |
        ⟨j, -, -, hd⟩ | ⟨j, rfl, -, -, -⟩ | ⟨-, -, hd⟩
      · rw [hd]; rfl
      · exact hconns
      · rw [hd]; rfl
      · rw [hd]
      · -- the list is written under the mutex
        have hheld : Mutex.mConnsM ∈ poolHeld session .main (c.pc .main) := by
          rw [hp]
          exact List.mem_singleton_self _
        exact absurd (hown.unique hheld (mem_held_of_sweeping hsweep)) ht
      · rw [hd]
    · exact absurd rfl ht
    · exact (rx_frame hm).1
    · exact (tx_frame hm).2.1
  have hnone : passEvents log c (t, a) c' = [] := by
    cases t with
    | gc => exact absurd rfl ht
    | _ => rfl
  rw [hnone, List.append_nil]
  exact (hI terminated i hand hsweep).mono hconns fun k hk => hk.step hs

theorem conns_nodup_of_lockConns
    (h : Reach (step (poolProg accounts session)) anyStep (· = opened κ υ) c)
    (hgc : c.pc .gc = .gc (.lockConns terminated)) : c.data.conns.Nodup := by
  obtain ⟨deleted, hlog⟩ := h.exists_log cellsDeleted
  obtain ⟨collected, -, hI⟩ := custody_of_collecting hlog
  have hn := hI.nodup
  rw [places, hgc] at hn
  exact (List.nodup_append.mp (List.nodup_append.mp hn).1).2.1

theorem watched_of_watching {r : Logged (PoolConfig κ υ) (PassEvent κ)}
    (h : Watching accounts session r) : Watched r.state r.log := by
  apply Reach.invariant_reached (I := fun r => Watched r.state r.log) _ _ h
  · rintro ⟨c, log⟩ ⟨rfl, rfl⟩ terminated i hand hsweep
    cases hsweep
  · rintro r ⟨t, a⟩ r' hr hI hstep -
    obtain ⟨hs, hlog⟩ := logged_cases hstep
    rw [hlog]
    rcases pool_step_cases hs with ⟨p, q, rfl, -, -, -⟩ | ⟨p, q, rfl, hp, hq, hm⟩ |
      ⟨k, p, q, rfl, -, -, -⟩ | ⟨k, p, q, rfl, -, -, -⟩
    · exact hI.other (pool_owned_of_reach hr.state) hs (by simp)
    · exact hI.gc (madeReadyOnce_of_reach hr.state)
        (fun terminated hgc => conns_nodup_of_lockConns hr.state hgc) hs hp hq hm
    · exact hI.other (pool_owned_of_reach hr.state) hs (by simp)
    · exact hI.other (pool_owned_of_reach hr.state) hs (by simp)

end Passes

section Refinement

universe u

variable {κ υ : Type u} [DecidableEq κ] [DecidableEq υ] {accounts : Accounts υ} {session : κ → υ}
  {r : Logged (PoolConfig κ υ) (PassEvent κ)} {terminated : Bool} {i : ℕ}

omit [DecidableEq κ] [DecidableEq υ] in
/-- Both kinds of passes as a loop of their own. -/
theorem Sweep.pass_swept {conns : Vec κ} {xs : List κ} (h : conns.Represents xs)
    (ready : κ → Bool) (terminated : Bool) :
    ∃ s, (∀ fuel, xs.length < fuel →
        (Sweep.start κ υ conns).pass ready terminated fuel = .ok (some s)) ∧
      Sweep.Swept (Sweep.start κ υ conns) (xs.filter fun k => terminated || ready k)
        (xs.filter fun k => terminated || !ready k) s := by
  cases terminated with
  | false => simpa using Sweep.pass_false h ready
  | true => simpa using Sweep.pass_true h ready

/-- In every interleaving a pass does to the vector and to the cells what it does as a loop
of its own, for some readiness of the connections that were listed when it began: no connection
is ready that was not ready then, and every one is that is still ready at its end. -/
theorem pass_as_sequential (h : Watching accounts session r)
    (hgc : r.state.pc .gc = .gc (.sweep terminated i)) (hend : r.state.data.conns[i]? = none) :
    ∃ old xs readyThen gone ready, r.log = old ++ .began xs readyThen :: gone.map .deleted ∧
      (∀ v : Vec κ, v.Represents xs → ∃ s : Sweep κ υ,
        (∀ fuel, xs.length < fuel →
          (Sweep.start κ υ v).pass ready terminated fuel = .ok (some s)) ∧
        s.conns.Represents r.state.data.conns ∧ s.shutdowns = gone ∧
        s.deleted = gone.map .conn ∧ s.strayReads = []) ∧
      ∀ k ∈ xs, (ready k = true → k ∈ readyThen) ∧
        ((r.state.data.flags k).isReady = true → ready k = true) := by
  have hpass := watched_of_watching h terminated i [] (by rw [hgc]; rfl)
  obtain ⟨old, readyThen, ready, done, todo, hwalked, hlog, hi, hlist, -⟩ := hpass
  rw [List.nil_append] at hwalked hlog
  rw [ite_self, List.nil_append] at hlist
  obtain rfl : todo = [] := by
    rw [hlist, hi, List.getElem?_append_right (Nat.le_refl _), Nat.sub_self,
      List.getElem?_eq_none_iff, Nat.le_zero] at hend
    exact List.length_eq_zero_iff.mp hend
  rw [List.append_nil] at hlog hlist
  refine ⟨old, done, readyThen, _, ready, hlog, fun v hv => ?_, fun k hk =>
    ⟨hwalked.seen k hk, hwalked.now k hk⟩⟩
  obtain ⟨s, hrun, hswept⟩ := @Sweep.pass_swept κ υ v done hv ready terminated
  refine ⟨s, hrun, hlist ▸ hswept.conns, ?_, ?_, hswept.strayReads⟩
  · rw [hswept.shutdowns]
    rfl
  · rw [hswept.deleted]
    rfl

/-- One of two clients has left. -/
theorem pass_as_sequential_client_left : ∃ r : Logged (PoolConfig Bool Bool) (PassEvent Bool),
    Watching pair id r ∧ r.log = [.began [false, true] [true], .deleted false] ∧
    ∃ (old : List (PassEvent Bool)) (xs readyThen gone : List Bool) (ready : Bool → Bool),
      r.log = old ++ .began xs readyThen :: gone.map .deleted ∧ ∀ k ∈ xs,
        (ready k = true → k ∈ readyThen) ∧
          ((r.state.data.flags k).isReady = true → ready k = true) := by
  have hrun : ∃ r, Watching pair id r ∧ decide (r.state.pc .gc = .gc (.sweep false 1) ∧
      r.state.data.conns[1]? = none ∧
      r.log = [.began [false, true] [true], .deleted false]) = true :=
    exists_reach_of_run (s := ⟨opened Bool Bool, []⟩) ⟨rfl, rfl⟩
      (acceptClient false ++ acceptClient true ++ clientLeaves false ++
        List.replicate 7 (.gc, .wake)) (by decide)
  obtain ⟨r, hr, hP⟩ := hrun
  obtain ⟨hgc, hend, hlog⟩ := of_decide_eq_true hP
  obtain ⟨old, xs, readyThen, gone, ready, hpass, -, hready⟩ := pass_as_sequential hr hgc hend
  exact ⟨r, hr, hlog, old, xs, readyThen, gone, ready, hpass, hready⟩

end Refinement

end Chatd.Net.Server
