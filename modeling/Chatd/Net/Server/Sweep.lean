import Mathlib.Data.List.Count
import Mathlib.Data.List.Nodup
import Chatd.Collections.Vec.Refinement

/-! # The sweep of the garbage collector

The collector walks over the vector of connections with a signed index. A connection that
is not ready is removed under the index, which is stepped back, then shut down, and its
cell is deleted. The last pass takes every connection and removes none.
-/
namespace Chatd.Net.Server
open Library Collections

/-- A vector of heap cells, no cell of which it lists twice. -/
structure CellVec (κ : Type*) where
  vec : Vec κ
  cells : List κ
  represents : vec.Represents cells
  nodup : cells.Nodup

/-- A heap cell of a `std::shared_ptr`, made by `push` for a connection or a user. -/
inductive Cell (κ υ : Type*) where
  | conn (k : κ)
  | user (u : υ)
  deriving DecidableEq, Repr

theorem Cell.conn_injective {κ υ : Type*} : Function.Injective (Cell.conn : κ → Cell κ υ) := by
  intro j k h
  cases h
  rfl

/-- `m_conns`, the connections whose `shutdown` was called, the cells that were deleted, and
the indices at or beyond its size at which the vector was read. -/
structure Sweep (κ υ : Type*) where
  conns : Vec κ
  shutdowns : List κ
  deleted : List (Cell κ υ)
  strayReads : List ℕ
  deriving DecidableEq, Repr

/-- `(size_t) i` for `ssize_t i`. -/
def toSize (i : ℤ) : ℕ := if i < 0 then sizeMax + 1 - i.natAbs else i.toNat

namespace Sweep

universe u

variable {κ υ : Type u} (ready : κ → Bool) (terminated : Bool) (s : Sweep κ υ)

def start (κ υ : Type u) (conns : Vec κ) : Sweep κ υ := ⟨conns, [], [], []⟩

/-- `m_conns[i]`, where a slot that was never written holds no cell. -/
def read (i : ℕ) : Except Fault (κ × Sweep κ υ) := do
  match ← s.conns.arr.load i with
  | none => .error .outOfBounds
  | some k =>
    return (k, if i < s.conns.size then s else { s with strayReads := s.strayReads ++ [i] })

/-- `(*conn)->shutdown(); delete conn;` -/
def kill (k : κ) : Sweep κ υ :=
  { s with shutdowns := s.shutdowns ++ [k], deleted := s.deleted ++ [.conn k] }

/-- The body of the loop, with the index it leaves; `none` when `remove` throws. -/
def visit (i : ℤ) : Except Fault (Option (ℤ × Sweep κ υ)) := do
  let (conn, s) ← s.read (toSize i)
  if terminated || !ready conn then
    if terminated then return some (i, s.kill conn)
    else
      let (conns, result, _) ← Vec.remove s.conns (toSize i) true
      if result ≠ .ok then return none
      return some (i - 1, { s with conns }.kill conn)
  else return some (i, s)

/-- The loop from index `i` on; `none` when `fuel` tests of its condition do not end it. -/
def sweepFrom : (fuel : ℕ) → (i : ℤ) → Sweep κ υ → Except Fault (Option (Sweep κ υ))
  | 0, _, _ => .ok none
  | fuel + 1, i, s =>
    if i < s.conns.size then do
      match ← visit ready terminated s i with
      | none => return none
      | some (i, s) => sweepFrom fuel (i + 1) s
    else .ok (some s)

/-- One pass over the connections. -/
def pass (fuel : ℕ) : Except Fault (Option (Sweep κ υ)) := sweepFrom ready terminated fuel 0 s

variable {ready terminated s} {xs kept todo : List κ} {k : κ} {fuel : ℕ}

@[simp] theorem toSize_natCast (n : ℕ) : toSize n = n := by
  rw [toSize, if_neg (by omega), Int.toNat_natCast]

theorem read_eq (h : s.conns.Represents (kept ++ k :: todo)) :
    s.read kept.length = .ok (k, s) := by
  have hlt : kept.length < (kept ++ k :: todo).length := by
    rw [List.length_append, List.length_cons]
    omega
  have hslot := h.holds kept.length hlt
  rw [List.getElem?_append_right (Nat.le_refl _), Nat.sub_self, List.getElem?_cons_zero] at hslot
  rw [read, Block.load_eq hslot, ok_bind]
  dsimp only
  rw [if_pos (by rw [h.size_eq]; exact hlt)]
  rfl

theorem lt_size (h : s.conns.Represents (kept ++ k :: todo)) :
    (kept.length : ℤ) < s.conns.size := by
  rw [h.size_eq, List.length_append, List.length_cons]
  omega

theorem not_lt_size (h : s.conns.Represents kept) : ¬ (kept.length : ℤ) < s.conns.size := by
  rw [h.size_eq]
  omega

theorem visit_ready (h : s.conns.Represents (kept ++ k :: todo)) (hk : ready k = true) :
    visit ready false s kept.length = .ok (some (kept.length, s)) := by
  rw [visit, toSize_natCast, read_eq h, ok_bind]
  simp [hk]

theorem visit_terminated (h : s.conns.Represents (kept ++ k :: todo)) :
    visit ready true s kept.length = .ok (some (kept.length, s.kill k)) := by
  rw [visit, toSize_natCast, read_eq h, ok_bind]
  rfl

/-- A connection that is not ready leaves the list, and the index is that of the element
before it. -/
theorem visit_dead (h : s.conns.Represents (kept ++ k :: todo)) (hk : ready k = false) :
    ∃ conns, visit ready false s kept.length =
        .ok (some ((kept.length : ℤ) - 1, { s with conns }.kill k)) ∧
      conns.Represents (kept ++ todo) := by
  have hlt : kept.length < (kept ++ k :: todo).length := by
    rw [List.length_append, List.length_cons]
    omega
  obtain ⟨conns, hremove, hconns, -⟩ := h.remove hlt true
  rw [List.eraseIdx_append_of_length_le (Nat.le_refl _), Nat.sub_self, List.eraseIdx_cons_zero]
    at hconns
  refine ⟨conns, ?_, hconns⟩
  rw [visit, toSize_natCast, read_eq h, ok_bind]
  dsimp only
  rw [hk, Bool.not_false, Bool.or_true, if_pos rfl, if_neg (by decide), hremove]
  rfl

/-- What a pass has done to the connections that it was yet to visit. -/
structure Swept (s : Sweep κ υ) (kept : List κ) (collected : List κ) (s' : Sweep κ υ) : Prop where
  conns : s'.conns.Represents kept
  shutdowns : s'.shutdowns = s.shutdowns ++ collected
  deleted : s'.deleted = s.deleted ++ collected.map .conn
  strayReads : s'.strayReads = s.strayReads

theorem sweepFrom_nil (h : s.conns.Represents kept) (hfuel : 0 < fuel) :
    sweepFrom ready terminated fuel kept.length s = .ok (some s) := by
  obtain ⟨fuel, rfl⟩ := Nat.exists_eq_add_one.mpr hfuel
  rw [sweepFrom, if_neg (not_lt_size h)]

theorem sweepFrom_cons {s₁ s' : Sweep κ υ} {i : ℤ} (h : s.conns.Represents (kept ++ k :: todo))
    (hvisit : visit ready terminated s kept.length = .ok (some (i, s₁)))
    (hrun : ∀ fuel, todo.length < fuel →
      sweepFrom ready terminated fuel (i + 1) s₁ = .ok (some s')) :
    ∀ fuel, (k :: todo).length < fuel →
      sweepFrom ready terminated fuel kept.length s = .ok (some s') := by
  intro fuel hfuel
  obtain ⟨fuel, rfl⟩ := Nat.exists_eq_add_one.mpr (Nat.zero_lt_of_lt hfuel)
  rw [sweepFrom, if_pos (lt_size h), hvisit, ok_bind]
  exact hrun fuel (Nat.lt_of_succ_lt_succ hfuel)

theorem length_concat (kept : List κ) (k : κ) : ((kept ++ [k]).length : ℤ) = kept.length + 1 := by
  rw [List.length_append, List.length_singleton, Int.natCast_succ]

/-- The loop of a pass that is not the last one: what stands before the index is ready, and
each test of the condition leaves one connection less behind it. -/
theorem sweepFrom_false (h : s.conns.Represents (kept ++ todo)) :
    ∃ s', (∀ fuel, todo.length < fuel →
        sweepFrom ready false fuel kept.length s = .ok (some s')) ∧
      Swept s (kept ++ todo.filter ready) (todo.filter fun k => !ready k) s' := by
  induction todo generalizing kept s with
  | nil =>
    rw [List.append_nil] at h
    refine ⟨s, fun fuel => sweepFrom_nil h, by rwa [List.filter_nil, List.append_nil], ?_, ?_, rfl⟩
    · rw [List.filter_nil, List.append_nil]
    · rw [List.filter_nil, List.map_nil, List.append_nil]
  | cons k todo ih =>
    cases hk : ready k with
    | true =>
      have hnext : s.conns.Represents ((kept ++ [k]) ++ todo) := by
        rwa [List.append_assoc, List.singleton_append]
      obtain ⟨s', hrun, hswept⟩ := ih hnext
      rw [length_concat] at hrun
      rw [List.append_assoc, List.singleton_append] at hswept
      rw [List.filter_cons_of_pos hk, List.filter_cons_of_neg (by simp [hk])]
      exact ⟨s', sweepFrom_cons h (visit_ready h hk) hrun, hswept⟩
    | false =>
      obtain ⟨conns, hvisit, hconns⟩ := visit_dead h hk
      obtain ⟨s', hrun, hswept⟩ := ih (s := { s with conns }.kill k) hconns
      rw [← Int.sub_add_cancel (kept.length : ℤ) 1] at hrun
      rw [List.filter_cons_of_neg (by simp [hk]), List.filter_cons_of_pos (by simp [hk])]
      refine ⟨s', sweepFrom_cons h hvisit hrun, hswept.conns, ?_, ?_, hswept.strayReads⟩
      · rw [hswept.shutdowns, kill, List.append_assoc, List.singleton_append]
      · rw [hswept.deleted, kill, List.append_assoc, List.singleton_append, List.map_cons]

/-- The loop of the last pass, which leaves the vector as it is. -/
theorem sweepFrom_true (h : s.conns.Represents (kept ++ todo)) :
    ∃ s', (∀ fuel, todo.length < fuel →
        sweepFrom ready true fuel kept.length s = .ok (some s')) ∧
      Swept s (kept ++ todo) todo s' := by
  induction todo generalizing kept s with
  | nil =>
    refine ⟨s, fun fuel => ?_, h, ?_, ?_, rfl⟩
    · rw [List.append_nil] at h
      exact sweepFrom_nil h
    · rw [List.append_nil]
    · rw [List.map_nil, List.append_nil]
  | cons k todo ih =>
    have hnext : (s.kill k).conns.Represents ((kept ++ [k]) ++ todo) := by
      rwa [List.append_assoc, List.singleton_append]
    obtain ⟨s', hrun, hswept⟩ := ih hnext
    rw [length_concat] at hrun
    rw [List.append_assoc, List.singleton_append] at hswept
    refine ⟨s', sweepFrom_cons h (visit_terminated h) hrun, hswept.conns, ?_, ?_,
      hswept.strayReads⟩
    · rw [hswept.shutdowns, kill, List.append_assoc, List.singleton_append]
    · rw [hswept.deleted, kill, List.append_assoc, List.singleton_append, List.map_cons]

theorem pass_false {conns : Vec κ} (h : conns.Represents xs) (ready : κ → Bool) :
    ∃ s, (∀ fuel, xs.length < fuel →
        (start κ υ conns).pass ready false fuel = .ok (some s)) ∧
      Swept (start κ υ conns) (xs.filter ready) (xs.filter fun k => !ready k) s :=
  @sweepFrom_false κ υ ready (start κ υ conns) [] xs h

theorem pass_true {conns : Vec κ} (h : conns.Represents xs) (ready : κ → Bool) :
    ∃ s, (∀ fuel, xs.length < fuel →
        (start κ υ conns).pass ready true fuel = .ok (some s)) ∧
      Swept (start κ υ conns) xs xs s :=
  @sweepFrom_true κ υ ready (start κ υ conns) [] xs h

end Sweep

section Collecting

universe u

variable {κ υ : Type u} [DecidableEq κ] [DecidableEq υ]

theorem CellVec.count_filter (v : CellVec κ) (p : κ → Bool) (k : κ) :
    (v.cells.filter p).count k = if k ∈ v.cells ∧ p k = true then 1 else 0 := by
  rw [(v.nodup.filter p).count]
  simp only [List.mem_filter]

theorem count_conn (ks : List κ) (k : κ) :
    (ks.map (Cell.conn : κ → Cell κ υ)).count (.conn k) = ks.count k :=
  List.count_map_of_injective ks _ Cell.conn_injective k

theorem count_user (ks : List κ) (u : υ) :
    (ks.map (Cell.conn : κ → Cell κ υ)).count (.user u) = 0 := by
  apply List.count_eq_zero.mpr
  intro hmem
  obtain ⟨k, -, hk⟩ := List.mem_map.mp hmem
  cases hk

/-- A pass ends, keeps the connections that are ready in their order, and shuts down and
deletes each of the others once. -/
theorem pass_collects (v : CellVec κ) (ready : κ → Bool) :
    ∃ (v' : CellVec κ) (s : Sweep κ υ),
      (∀ fuel, v.cells.length < fuel →
        (Sweep.start κ υ v.vec).pass ready false fuel = .ok (some s)) ∧
      s.conns = v'.vec ∧ v'.cells = v.cells.filter ready ∧
      (∀ k, s.shutdowns.count k = if k ∈ v.cells ∧ ready k = false then 1 else 0) ∧
      (∀ k, s.deleted.count (.conn k) = if k ∈ v.cells ∧ ready k = false then 1 else 0) ∧
      (∀ u, s.deleted.count (.user u) = 0) ∧ s.strayReads = [] := by
  obtain ⟨s, hrun, hswept⟩ := Sweep.pass_false v.represents ready
  have hcount (k : κ) : (v.cells.filter fun k => !ready k).count k =
      if k ∈ v.cells ∧ ready k = false then 1 else 0 := by
    rw [v.count_filter]
    simp only [Bool.not_eq_true']
  refine ⟨⟨s.conns, v.cells.filter ready, hswept.conns, v.nodup.filter ready⟩, s, hrun, rfl, rfl,
    fun k => ?_, fun k => ?_, fun u => ?_, hswept.strayReads⟩
  · rw [hswept.shutdowns]
    exact hcount k
  · rw [hswept.deleted]
    exact (count_conn _ k).trans (hcount k)
  · rw [hswept.deleted]
    exact count_user _ u

end Collecting

end Chatd.Net.Server
