import Chatd.Collections.Vec.Refinement

/-! # Concatenation of vectors

`operator+` writes the elements of both vectors into the array of a new one, past the
operations of the vector. The size of the new vector stays what its constructor made it.
-/
namespace Chatd.Collections.Vec
open Library

variable {α : Type*} {v u : Vec α} {xs ys : List α}

/-- `Vec::operator+`; `allocs n` is the result of the allocation that run `n` of the
constructor's call makes. Without a vector the code is thrown. -/
def concat (allocs : ℕ → Bool) (v other : Vec α) : Except Fault (Option (Vec α) × CResult) :=
  match withCapacity (allocs 0) (v.size + other.size) with
  | (none, _) => .ok (none, (withCapacity (allocs 1) (v.size + other.size) :
      Option (Vec α) × CResult).2)
  | (some vec, result) => do
    let arr ← Block.copyTo v.arr 0 0 v.size 0 vec.arr
    let arr ← Block.copyTo other.arr v.size 0 other.size 0 arr
    return (some { vec with arr }, result)

/-- The slots of the new array are the elements of both vectors, none of which the new
vector counts. -/
theorem concat_spec (hv : v.Represents xs) (hu : u.Represents ys) :
    ∃ w, concat (fun _ => true) v u = .ok (some w, .ok) ∧ w.Represents [] ∧
      w.cap = xs.length + ys.length ∧ w.arr = (xs ++ ys).map some := by
  have hsize := hv.size_eq
  have hsize' := hu.size_eq
  have hlen := hv.arr_length
  have hlen' := hu.arr_length
  have hle := hv.size_le
  have hle' := hu.size_le
  obtain ⟨arr₁, hcopy₁, hlen₁, hslots₁⟩ := Block.copyTo_spec (Block.alloc (v.size + u.size))
    v.arr 0 0 v.size (by omega) (by rw [Block.length_alloc]; omega)
  rw [Block.length_alloc] at hlen₁
  obtain ⟨arr₂, hcopy₂, hlen₂, hslots₂⟩ := Block.copyTo_spec arr₁ u.arr v.size 0 u.size (by omega)
    (by omega)
  refine ⟨⟨v.size + u.size, 0, arr₂⟩, ?_, ⟨?_, Nat.zero_le _, rfl, nofun⟩, ?_, ?_⟩
  · rw [concat, withCapacity, if_neg (by simp)]
    dsimp only
    rw [hcopy₁, ok_bind, hcopy₂]
    rfl
  · exact hlen₂.trans hlen₁
  · rw [hsize, hsize']
  · apply List.ext_getElem?
    intro i
    rw [hslots₂, List.map_append, List.getElem?_append, List.length_map]
    by_cases hleft : i < xs.length
    · rw [if_neg (by omega), if_pos hleft, hslots₁, if_pos (by omega), Nat.zero_add, Nat.sub_zero,
        hv.holds i hleft, List.getElem?_map, List.getElem?_eq_getElem hleft, Option.map_some]
    · rw [if_neg hleft, List.getElem?_map]
      by_cases hright : i - xs.length < ys.length
      · rw [if_pos (by omega), Nat.zero_add, hsize, hu.holds _ hright,
          List.getElem?_eq_getElem hright, Option.map_some]
      · rw [if_neg (by omega), List.getElem?_eq_none (by omega), List.getElem?_eq_none (by omega),
          Option.map_none]

/-- What `operator+` is documented to return: a vector of the elements of both, in which the
calls that follow find them. -/
def Concatenates [DecidableEq α] (v u : Vec α) (xs ys : List α) : Prop :=
  ∃ w, concat (fun _ => true) v u = .ok (some w, .ok) ∧ w.arr.length = w.cap ∧ w.size ≤ w.cap ∧
    w.size = v.size + u.size ∧ w.contents = v.contents ++ u.contents ∧
    ∀ ops, Sequence.fitsAll ⟨w.cap, xs ++ ys⟩ ops = true →
      ∃ w', execAll w ops =
        .ok (w', (Sequence.execAll ⟨w.cap, xs ++ ys⟩ ops).2.map (VecReturn.map some)) ∧
        w'.contents = (Sequence.execAll ⟨w.cap, xs ++ ys⟩ ops).1.elems.map some

/-- The sum is the concatenation exactly for two vectors without elements. -/
theorem concatenates_iff [DecidableEq α] (hv : v.Represents xs) (hu : u.Represents ys) :
    Concatenates v u xs ys ↔ xs = [] ∧ ys = [] := by
  obtain ⟨w, hconcat, hw, -, -⟩ := concat_spec hv hu
  have hsize := hv.size_eq
  have hsize' := hu.size_eq
  constructor
  · rintro ⟨w', hconcat', -, -, hsum, -⟩
    rw [hconcat] at hconcat'
    cases hconcat'
    have hzero : w.size = 0 := hw.size_eq
    exact ⟨List.length_eq_zero_iff.mp (by omega), List.length_eq_zero_iff.mp (by omega)⟩
  · rintro ⟨rfl, rfl⟩
    refine ⟨w, hconcat, hw.arr_length, hw.size_le, ?_, ?_, fun ops hops => ?_⟩
    · rw [hw.size_eq, hsize, hsize']
      rfl
    · rw [hw.contents_eq, hv.contents_eq, hu.contents_eq]
      rfl
    · obtain ⟨w', hexec, hw'⟩ := Refines.execAll (s := ⟨w.cap, []⟩) ⟨hw, rfl⟩ hops
      exact ⟨w', hexec, hw'.toRepresents.contents_eq⟩

/-- Two vectors that were never pushed to. -/
theorem concatenates_iff_empty :
    Concatenates (⟨0, 0, []⟩ : Vec ℕ) ⟨0, 0, []⟩ [] [] ↔ ([] : List ℕ) = [] ∧ ([] : List ℕ) = [] :=
  concatenates_iff empty_represents empty_represents

/-- The sum of two vectors of one element each has no elements. -/
theorem not_concatenates_singletons :
    (⟨1, 1, [some 7]⟩ : Vec ℕ).Represents [7] ∧ (⟨1, 1, [some 8]⟩ : Vec ℕ).Represents [8] ∧
      concat (fun _ => true) (⟨1, 1, [some 7]⟩ : Vec ℕ) ⟨1, 1, [some 8]⟩ =
        .ok (some ⟨2, 0, [some 7, some 8]⟩, .ok) ∧
      ¬ Concatenates (⟨1, 1, [some 7]⟩ : Vec ℕ) ⟨1, 1, [some 8]⟩ [7] [8] := by
  have holds (n : ℕ) : (⟨1, 1, [some n]⟩ : Vec ℕ).Represents [n] := by
    refine ⟨rfl, Nat.le_refl 1, rfl, fun i hi => ?_⟩
    have hzero : i = 0 := Nat.lt_one_iff.mp hi
    rw [hzero]
    rfl
  refine ⟨holds 7, holds 8, rfl, ?_⟩
  rintro ⟨w, hconcat, -, -, hsum, -⟩
  cases hconcat
  exact absurd hsum (by decide)

end Chatd.Collections.Vec
