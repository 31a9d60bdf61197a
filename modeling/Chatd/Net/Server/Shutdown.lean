import Chatd.Net.Server.Sweep

/-! # The destructor of the pool

`~ConnectionPool` waits for the last pass of the garbage collector. Its loop then runs over
the number of users, and takes the cells that it deletes from the connections.
-/
namespace Chatd.Net.Server
open Library Collections

namespace Sweep

universe u

variable {κ υ : Type u} (s : Sweep κ υ)

/-- The loop of `ConnectionPool::~ConnectionPool` from index `i` on, with `n` users left. -/
def deleteUsers : (n i : ℕ) → Sweep κ υ → Except Fault (Sweep κ υ)
  | 0, _, s => .ok s
  | n + 1, i, s => do
    let (user, s) ← s.read i
    deleteUsers n (i + 1) { s with deleted := s.deleted ++ [.conn user] }

/-- `ConnectionPool::~ConnectionPool` behind `m_is_running = false`: the last pass of the
thread that it joins, and its loop. -/
def destroy (ready : κ → Bool) (users : Vec υ) (fuel : ℕ) :
    Except Fault (Option (Sweep κ υ)) := do
  match ← s.pass ready true fuel with
  | none => return none
  | some s =>
    let s ← deleteUsers users.size 0 s
    return some s

variable {s} {s' : Sweep κ υ} {xs : List κ}

theorem deleted_of_deleteUsers {n i : ℕ} (h : deleteUsers n i s = .ok s') :
    ∃ ks : List κ, s'.deleted = s.deleted ++ ks.map .conn := by
  induction n generalizing i s with
  | zero =>
    cases h
    exact ⟨[], (List.append_nil _).symm⟩
  | succ n ih =>
    rw [deleteUsers] at h
    obtain ⟨⟨user, s₁⟩, hread, hrest⟩ := bind_eq_ok h
    obtain ⟨ks, hks⟩ := ih hrest
    have hsame : s₁.deleted = s.deleted := by
      rw [read] at hread
      obtain ⟨slot, -, hslot⟩ := bind_eq_ok hread
      cases slot with
      | none => cases hslot
      | some k =>
        cases hslot
        split <;> rfl
    refine ⟨user :: ks, ?_⟩
    rw [hks, hsame, List.append_assoc, List.singleton_append, List.map_cons]

theorem deleted_of_destroy {conns : Vec κ} {users : Vec υ} (h : conns.Represents xs)
    {ready : κ → Bool} {fuel : ℕ} (hfuel : xs.length < fuel)
    (hrun : (start κ υ conns).destroy ready users fuel = .ok (some s)) :
    ∃ ks : List κ, s.deleted = ks.map .conn := by
  obtain ⟨s₁, hpass, hswept⟩ := pass_true h ready
  rw [destroy, hpass fuel hfuel, ok_bind] at hrun
  obtain ⟨s₂, hdelete, hsome⟩ := bind_eq_ok hrun
  cases hsome
  obtain ⟨ks, hks⟩ := deleted_of_deleteUsers hdelete
  refine ⟨xs ++ ks, ?_⟩
  rw [hks, hswept.deleted, List.map_append]
  rfl

/-- With no more users than connections the first connections are deleted again. -/
theorem deleteUsers_spec {kept todo : List κ} {n : ℕ} (h : s.conns.Represents (kept ++ todo))
    (hn : n ≤ todo.length) :
    deleteUsers n kept.length s =
      .ok { s with deleted := s.deleted ++ (todo.take n).map .conn } := by
  induction n generalizing kept todo s with
  | zero =>
    rw [deleteUsers, List.take_zero, List.map_nil, List.append_nil]
  | succ n ih =>
    cases todo with
    | nil => exact absurd hn (Nat.not_succ_le_zero n)
    | cons k todo =>
      rw [List.append_cons] at h
      have hrest := ih (s := { s with deleted := s.deleted ++ [.conn k] }) h
        (Nat.le_of_succ_le_succ hn)
      rw [List.length_append, List.length_singleton] at hrest
      rw [← List.append_cons] at h
      rw [deleteUsers, read_eq h, ok_bind]
      dsimp only
      rw [hrest, List.take_succ_cons, List.map_cons, List.append_assoc, List.singleton_append]

/-- The destructor deletes the cells of all connections, and of as many of them again as there
are users. -/
theorem destroy_spec {conns : Vec κ} {users : Vec υ} (h : conns.Represents xs)
    (hle : users.size ≤ xs.length) (ready : κ → Bool) :
    ∃ s, (∀ fuel, xs.length < fuel →
        (start κ υ conns).destroy ready users fuel = .ok (some s)) ∧
      s.deleted = (xs ++ xs.take users.size).map .conn ∧ s.strayReads = [] := by
  obtain ⟨s, hpass, hswept⟩ := pass_true h ready
  have hdelete := @deleteUsers_spec κ υ s [] xs users.size hswept.conns hle
  refine ⟨{ s with deleted := s.deleted ++ (xs.take users.size).map .conn }, fun fuel hfuel => ?_,
    ?_, hswept.strayReads⟩
  · rw [destroy, hpass fuel hfuel, ok_bind]
    dsimp only
    rw [List.length_nil] at hdelete
    rw [hdelete]
    rfl
  · dsimp only
    rw [hswept.deleted, List.map_append]
    rfl

end Sweep

section Destroying

universe u

variable {κ υ : Type u} [DecidableEq κ] [DecidableEq υ]

/-- The last pass and the destructor delete each listed cell once and no other one, and read no
list beyond its size. -/
def FreesOnce (ready : κ → Bool) (conns : CellVec κ) (users : CellVec υ) : Prop :=
  ∃ s : Sweep κ υ,
    (∀ fuel, conns.cells.length < fuel →
      (Sweep.start κ υ conns.vec).destroy ready users.vec fuel = .ok (some s)) ∧
    (∀ k, s.deleted.count (.conn k) = if k ∈ conns.cells then 1 else 0) ∧
    (∀ u, s.deleted.count (.user u) = if u ∈ users.cells then 1 else 0) ∧ s.strayReads = []

/-- Every cell is deleted once exactly when there are no users, the cells of which are never
deleted. -/
theorem freesOnce_iff (ready : κ → Bool) (conns : CellVec κ) (users : CellVec υ) :
    FreesOnce ready conns users ↔ users.cells = [] := by
  constructor
  · rintro ⟨s, hrun, -, husers, -⟩
    have hlt := Nat.lt_succ_self conns.cells.length
    obtain ⟨ks, hks⟩ := Sweep.deleted_of_destroy conns.represents hlt (hrun _ hlt)
    apply List.eq_nil_iff_forall_not_mem.mpr
    intro u hu
    have hzero := husers u
    rw [hks, count_user, if_pos hu] at hzero
    exact absurd hzero (by decide)
  · intro hnil
    have hsize : users.vec.size = 0 := by rw [users.represents.size_eq, hnil, List.length_nil]
    have hle : users.vec.size ≤ conns.cells.length := by omega
    obtain ⟨s, hrun, hdeleted, hstray⟩ := Sweep.destroy_spec conns.represents hle ready
    rw [hsize, List.take_zero, List.append_nil] at hdeleted
    refine ⟨s, hrun, fun k => ?_, fun u => ?_, hstray⟩
    · rw [hdeleted, count_conn, conns.nodup.count]
    · rw [hdeleted, count_user, hnil, if_neg List.not_mem_nil]

def CellVec.single (k : κ) : CellVec κ :=
  ⟨⟨1, 1, [some k]⟩, [k], ⟨rfl, Nat.le_refl 1, rfl, by simp⟩, List.nodup_singleton k⟩

/-- A connection has registered a user: its cell is deleted twice, and the user's never. -/
theorem not_freesOnce_registered :
    (Sweep.start ℕ ℕ (CellVec.single 3).vec).destroy (fun _ => true) (CellVec.single 5).vec 2 =
        .ok (some ⟨⟨1, 1, [some 3]⟩, [3], [.conn 3, .conn 3], []⟩) ∧
      ¬ FreesOnce (fun _ => true) (CellVec.single 3) (CellVec.single 5) := by
  have hrun : (Sweep.start ℕ ℕ (CellVec.single 3).vec).destroy (fun _ => true)
      (CellVec.single 5).vec 2 =
        .ok (some ⟨⟨1, 1, [some 3]⟩, [3], [.conn 3, .conn 3], []⟩) := by decide
  refine ⟨hrun, ?_⟩
  rintro ⟨s, hall, -, husers, -⟩
  have hsame := (hall 2 (Nat.lt_succ_self 1)).symm.trans hrun
  cases hsame
  exact absurd (husers 5) (by decide)

end Destroying

end Chatd.Net.Server
