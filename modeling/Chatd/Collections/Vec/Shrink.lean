import Chatd.Collections.Vec.Refinement

/-! # Shrinking a vector

`vec_shrink` cuts a vector at a capacity and hands the elements behind it to another
vector, which it grows with `vec_expand` as the caller left it. An equal capacity ends the
call before either vector is touched, and a failed allocation is not reported.
-/
namespace Chatd.Collections
open Library

/-- The vector that receives the trimmed elements, as the caller passes it. Its array is a
block of its own, without slots for NULL, or any other address, as in a struct that was
never initialised. -/
structure Destination (α : Type*) where
  cap : ℕ
  size : ℕ
  arr : Option (Block α)
  deriving DecidableEq, Repr

/-- The results of the allocations that `vec_shrink` may make: the growth of the
destination and the `realloc` of its own array. -/
structure VecShrinkAllocs where
  dst : Bool
  arr : Bool
  deriving DecidableEq, Repr

namespace Destination

variable {α : Type*}

/-- `vec_expand` on the destination. -/
def expand (alloc : Bool) (d : Destination α) (cap : ℕ) :
    Except Fault (Destination α × CResult) :=
  match d.arr with
  | some arr =>
    let (v, result) := Vec.expand alloc ⟨d.cap, d.size, arr⟩ cap
    .ok (⟨v.cap, v.size, some v.arr⟩, result)
  | none =>
    if d.cap > cap then .ok (d, .capGreater)
    else if d.cap = cap then .ok (d, .ok)
    -- `realloc` of an address that it has not handed out
    else .error .outOfBounds

def Represents (d : Destination α) (xs : List α) : Prop :=
  ∃ arr, d.arr = some arr ∧ (⟨d.cap, d.size, arr⟩ : Vec α).Represents xs

/-- The array has the slots that the capacity states. -/
def Owns (d : Destination α) : Prop := ∃ arr, d.arr = some arr ∧ arr.length = d.cap

def Ready (alloc : Bool) (d : Destination α) (n : ℕ) : Prop :=
  if d.cap < n then d.arr ≠ none ∧ alloc = true else d.Owns

theorem Represents.owns {d : Destination α} {xs : List α} (h : d.Represents xs) : d.Owns := by
  obtain ⟨arr, harr, hrep⟩ := h
  exact ⟨arr, harr, hrep.arr_length⟩

theorem Owns.arr_ne_none {d : Destination α} (h : d.Owns) : d.arr ≠ none := by
  obtain ⟨arr, harr, -⟩ := h
  simp [harr]

theorem Represents.ready_iff {d : Destination α} {xs : List α} {alloc : Bool} {n : ℕ}
    (h : d.Represents xs) : d.Ready alloc n ↔ (d.cap < n → alloc = true) := by
  rw [Ready]
  by_cases hgrow : d.cap < n
  · rw [if_pos hgrow, imp_iff_right hgrow]
    exact and_iff_right h.owns.arr_ne_none
  · rw [if_neg hgrow]
    exact iff_of_true h.owns fun hlt => absurd hlt hgrow

section Growth

variable {d : Destination α} {n : ℕ} {arr : Block α} {alloc : Bool}

theorem expand_of_le (alloc : Bool) (h : n ≤ d.cap) :
    ∃ result, d.expand alloc n = .ok (d, result) ∧ result ≠ .nomem := by
  obtain ⟨cap, size, arr⟩ := d
  dsimp only at h
  by_cases hgreater : cap > n
  · refine ⟨.capGreater, ?_, by decide⟩
    cases arr with
    | none => exact if_pos hgreater
    | some arr => simp only [expand, Vec.expand, if_pos hgreater]
  · have hsame : cap = n := by omega
    refine ⟨.ok, ?_, by decide⟩
    cases arr with
    | none => exact (if_neg hgreater).trans (if_pos hsame)
    | some arr => simp only [expand, Vec.expand, if_neg hgreater, if_pos hsame]

theorem expand_foreign (h : d.cap < n) (harr : d.arr = none) :
    d.expand alloc n = .error .outOfBounds := by
  rw [expand, harr]
  dsimp only
  rw [if_neg (by omega), if_neg (by omega)]

theorem expand_own (h : d.cap < n) (harr : d.arr = some arr) :
    d.expand alloc n = .ok (if alloc = false then (d, .nomem)
      else (⟨n, d.size, some (arr.realloc n)⟩, .ok)) := by
  obtain ⟨cap, size, arr⟩ := d
  dsimp only at h harr
  subst harr
  have hgreater : ¬ cap > n := by omega
  have hsame : cap ≠ n := by omega
  simp only [expand, Vec.expand, if_neg hgreater, if_neg hsame]
  cases alloc <;> rfl

end Growth

end Destination

namespace Vec

variable {α : Type*} (v : Vec α) (cap : ℕ)

/-- The loop that moves the elements from `cap` on to the destination. -/
def fill (d : Destination α) : Except Fault (Destination α) :=
  match d.arr with
  | none => .error .outOfBounds
  | some arr => do
    let arr ← v.arr.copyTo 0 cap (v.size - cap) 0 arr
    return { d with arr := some arr, size := v.size - cap }

/-- The block for a destination that is not NULL. -/
def receive (alloc : Bool) (d : Destination α) : Except Fault (Destination α) :=
  if cap < v.size then do
    let (d, result) ← d.expand alloc (v.size - cap)
    if result ≠ .nomem then fill v cap d else return ⟨0, 0, some []⟩
  else return ⟨0, 0, some []⟩

/-- The vector with its new capacity; a `realloc` that fails leaves NULL. -/
def cut (alloc : Bool) : Vec α where
  cap := cap
  size := if v.size > cap then cap else v.size
  arr := if cap = 0 then [] else if alloc = false then [] else v.arr.realloc cap

/-- `vec_shrink` -/
def shrink (allocs : VecShrinkAllocs) (dst : Option (Destination α)) :
    Except Fault (Vec α × CResult × Option (Destination α)) :=
  if v.cap < cap then .ok (v, .capLower, dst)
  else if v.cap = cap then .ok (v, .ok, dst)
  else
    match dst with
    | none => .ok (cut v cap allocs.arr, .ok, none)
    | some d => do
      let d ← receive v cap allocs.dst d
      return (cut v cap allocs.arr, .ok, some d)

section Parts

variable {v : Vec α} {cap : ℕ} {xs : List α} {d : Destination α} {alloc : Bool}

theorem cut_size (v : Vec α) (cap : ℕ) (alloc : Bool) :
    (cut v cap alloc).size = min cap v.size := by
  dsimp only [cut]
  split_ifs <;> omega

theorem cut_arr (hpos : 0 < cap) :
    (cut v cap alloc).arr = if alloc = false then [] else v.arr.realloc cap :=
  if_neg (Nat.ne_of_gt hpos)

/-- The kept elements are in place unless the `realloc` fails. -/
theorem Represents.cut_iff (h : v.Represents xs) (hcap : cap < v.cap) :
    (cut v cap alloc).Represents (xs.take cap) ↔ (0 < cap → alloc = true) := by
  have hlen := h.arr_length
  have hsize := h.size_eq
  constructor
  · intro hcut hpos
    have harr : (cut v cap alloc).arr.length = cap := hcut.arr_length
    cases alloc with
    | true => rfl
    | false =>
      rw [cut_arr hpos, if_pos rfl, List.length_nil] at harr
      omega
  · intro halloc
    have harr (hpos : 0 < cap) : (cut v cap alloc).arr = v.arr.realloc cap := by
      rw [cut_arr hpos, halloc hpos]
      rfl
    refine ⟨?_, ?_, ?_, fun i hi => ?_⟩
    · rcases Nat.eq_zero_or_pos cap with rfl | hpos
      · rfl
      · rw [harr hpos]
        exact Block.length_realloc v.arr cap
    · rw [cut_size]
      exact Nat.min_le_left cap v.size
    · rw [cut_size, List.length_take, hsize]
    · rw [List.length_take] at hi
      rw [harr (by omega), Block.getElem?_realloc (by omega) (by omega),
        List.getElem?_take_of_lt (by omega)]
      exact h.holds i (by omega)

theorem Represents.fill_iff (h : v.Represents xs) (hcap : cap < v.size) :
    (∃ d', fill v cap d = .ok d' ∧ d'.Represents (xs.drop cap)) ↔
      v.size - cap ≤ d.cap ∧ d.Owns := by
  have hlen := h.arr_length
  have hle := h.size_le
  have hsize := h.size_eq
  rw [fill]
  cases harr : d.arr with
  | none =>
    constructor
    · rintro ⟨d', hfill, -⟩
      cases hfill
    · rintro ⟨-, howns⟩
      exact absurd harr howns.arr_ne_none
  | some arr =>
    dsimp only
    by_cases hroom : v.size - cap ≤ arr.length
    · obtain ⟨arr', hcopy, hlen', hslots⟩ := Block.copyTo_spec arr v.arr 0 cap (v.size - cap)
        (by omega) (by omega)
      rw [hcopy, ok_bind]
      constructor
      · rintro ⟨d', hfill, arr'', harr'', hrep⟩
        cases hfill
        cases harr''
        exact ⟨hrep.size_le, arr, harr, hlen'.symm.trans hrep.arr_length⟩
      · rintro ⟨hle', arr'', harr'', hcap'⟩
        obtain rfl : arr = arr'' := Option.some.inj (harr.symm.trans harr'')
        refine ⟨_, rfl, arr', rfl, hlen'.trans hcap', hle', ?_, fun i hi => ?_⟩
        · rw [List.length_drop, hsize]
        · rw [List.length_drop] at hi
          rw [hslots i, if_pos (by omega), Nat.sub_zero, List.getElem?_drop,
            h.holds (cap + i) (by omega)]
    · rw [Block.copyTo_error v.arr 0 cap (by omega) (by omega), error_bind]
      constructor
      · rintro ⟨d', hfill, -⟩
        cases hfill
      · rintro ⟨hle', arr', harr', hlen'⟩
        obtain rfl : arr = arr' := Option.some.inj (harr.symm.trans harr')
        omega

/-- The destination receives the trimmed elements when room for them is there or can be
made. -/
theorem Represents.receive_iff (h : v.Represents xs) :
    (∃ d', receive v cap alloc d = .ok d' ∧ d'.Represents (xs.drop cap)) ↔
      (cap < v.size → d.Ready alloc (v.size - cap)) := by
  have hsize := h.size_eq
  rw [receive]
  by_cases hcap : cap < v.size
  · rw [if_pos hcap, imp_iff_right hcap, Destination.Ready]
    by_cases hgrow : d.cap < v.size - cap
    · rw [if_pos hgrow]
      cases harr : d.arr with
      | none =>
        rw [Destination.expand_foreign hgrow harr, error_bind]
        constructor
        · rintro ⟨d', hd', -⟩
          cases hd'
        · exact fun hne => absurd rfl hne.1
      | some arr =>
        rw [Destination.expand_own hgrow harr, ok_bind]
        cases alloc with
        | false =>
          constructor
          · rintro ⟨d', hd', arr', harr', hrep⟩
            cases hd'
            have hzero : 0 = (xs.drop cap).length := hrep.size_eq
            rw [List.length_drop] at hzero
            omega
          · rintro ⟨-, hfalse⟩
            cases hfalse
        | true =>
          have hfill := (h.fill_iff (d := ⟨v.size - cap, d.size, some (arr.realloc _)⟩) hcap).mpr
            ⟨Nat.le_refl _, _, rfl, Block.length_realloc arr _⟩
          exact iff_of_true hfill ⟨nofun, rfl⟩
    · -- the capacity suffices, and nothing is allocated
      obtain ⟨result, hexpand, hresult⟩ :=
        Destination.expand_of_le alloc (Nat.le_of_not_lt hgrow)
      rw [if_neg hgrow, hexpand, ok_bind]
      dsimp only
      rw [if_pos hresult, h.fill_iff hcap]
      exact and_iff_right (by omega)
  · rw [if_neg hcap]
    refine iff_of_true ⟨_, rfl, [], rfl, ?_⟩ fun hlt => absurd hlt hcap
    rw [List.drop_eq_nil_of_le (by omega)]
    exact empty_represents

end Parts

/-- With its allocations succeeding the call leaves the first `cap` elements in the vector
and the others in the destination, whatever the destination was before. -/
def Splits (v : Vec α) (xs : List α) (cap : ℕ) (dst : Destination α) : Prop :=
  ∃ v' dst', shrink v cap ⟨true, true⟩ (some dst) = .ok (v', .ok, some dst') ∧
    v'.Represents (xs.take cap) ∧ v'.cap = cap ∧ dst'.Represents (xs.drop cap)

/-- A call that returns `C_OK` leaves the elements where it should, and any other call
leaves the vector alone. -/
def Honest (v : Vec α) (xs : List α) (cap : ℕ) (allocs : VecShrinkAllocs)
    (dst : Option (Destination α)) : Prop :=
  ∃ v' result dst', shrink v cap allocs dst = .ok (v', result, dst') ∧
    (result = .ok → v'.Represents (xs.take cap) ∧
      (cap < v.cap → dst.isSome → ∃ d, dst' = some d ∧ d.Represents (xs.drop cap))) ∧
    (result ≠ .ok → v' = v)

section Shrink

variable {v : Vec α} {cap : ℕ} {xs : List α}

theorem shrink_same (h : v.cap = cap) (allocs : VecShrinkAllocs) (dst : Option (Destination α)) :
    shrink v cap allocs dst = .ok (v, .ok, dst) := by
  unfold shrink
  rw [if_neg (by omega), if_pos h]

theorem shrink_some_iff (h : cap < v.cap) (allocs : VecShrinkAllocs) (d : Destination α)
    {v' : Vec α} {result : CResult} {dst' : Option (Destination α)} :
    shrink v cap allocs (some d) = .ok (v', result, dst') ↔
      ∃ d', receive v cap allocs.dst d = .ok d' ∧ v' = cut v cap allocs.arr ∧ result = .ok ∧
        dst' = some d' := by
  rw [shrink, if_neg (by omega), if_neg (by omega)]
  cases receive v cap allocs.dst d with
  | error fault => exact iff_of_false (fun h => by cases h) fun ⟨d', hd', _⟩ => by cases hd'
  | ok d' =>
    constructor
    · intro hcall
      cases hcall
      exact ⟨d', rfl, rfl, rfl, rfl⟩
    · rintro ⟨d'', hd, rfl, rfl, rfl⟩
      cases hd
      rfl

theorem shrink_none (h : cap < v.cap) (allocs : VecShrinkAllocs) :
    shrink v cap allocs none = .ok (cut v cap allocs.arr, .ok, none) := by
  rw [shrink, if_neg (by omega), if_neg (by omega)]

theorem represents_two : (⟨2, 2, [some 1, some 2]⟩ : Vec ℕ).Represents [1, 2] :=
  ⟨rfl, Nat.le_refl 2, rfl, by decide⟩

/-- A vector is split whatever the destination was, except that an equal capacity leaves
the destination as it was and that growing it relies on its old capacity and array. -/
theorem shrink_splits_iff (h : v.Represents xs) (hcap : cap ≤ v.cap) (dst : Destination α) :
    Splits v xs cap dst ↔ (cap = v.cap → dst.Represents []) ∧
      (cap < v.size → dst.Ready true (v.size - cap)) := by
  have hle := h.size_le
  have hsize := h.size_eq
  unfold Splits
  by_cases hsame : v.cap = cap
  · have htake : xs.take cap = xs := List.take_of_length_le (by omega)
    have hdrop : xs.drop cap = [] := List.drop_eq_nil_of_le (by omega)
    rw [shrink_same hsame, htake, hdrop]
    constructor
    · rintro ⟨v', dst', hcall, -, -, hdst⟩
      cases hcall
      exact ⟨fun _ => hdst, fun hlt => by omega⟩
    · rintro ⟨hdst, -⟩
      exact ⟨v, dst, rfl, h, hsame, hdst hsame.symm⟩
  · have hlt : cap < v.cap := by omega
    have hcut : (cut v cap true).Represents (xs.take cap) := (h.cut_iff hlt).mpr fun _ => rfl
    rw [and_iff_right fun heq => absurd heq.symm hsame, ← h.receive_iff]
    constructor
    · rintro ⟨v', dst', hcall, -, -, hdst⟩
      obtain ⟨d, hreceive, -, -, hd⟩ := (shrink_some_iff hlt _ dst).mp hcall
      cases hd
      exact ⟨dst', hreceive, hdst⟩
    · rintro ⟨d, hreceive, hdst⟩
      exact ⟨_, d, (shrink_some_iff hlt _ dst).mpr ⟨d, hreceive, rfl, rfl, rfl⟩, hcut, rfl, hdst⟩

/-- A destination without an array takes the second of two elements. -/
theorem shrink_splits_grows :
    Splits (⟨2, 2, [some 1, some 2]⟩ : Vec ℕ) [1, 2] 1 ⟨0, 0, some []⟩ := by
  refine (shrink_splits_iff represents_two (by decide) _).mpr ⟨fun heq => ?_, fun _ => ⟨nofun, rfl⟩⟩
  exact absurd heq (by decide)

/-- `Vec::shrink` passes a destination that was never initialised. -/
theorem not_shrink_splits_uninitialised :
    ¬ ∀ (v : Vec ℕ) (xs : List ℕ) (cap : ℕ) (dst : Destination ℕ), v.Represents xs →
      cap ≤ v.cap → Splits v xs cap dst := by
  intro hall
  obtain ⟨v', dst', hcall, -⟩ := hall _ _ 1 ⟨0, 0, none⟩ represents_two (by decide)
  cases hcall

theorem Represents.honest_none_iff (h : v.Represents xs) (hlt : cap < v.cap)
    (allocs : VecShrinkAllocs) : Honest v xs cap allocs none ↔ (0 < cap → allocs.arr = true) := by
  rw [Honest, shrink_none hlt, ← h.cut_iff hlt]
  constructor
  · rintro ⟨v', result, dst', hcall, hok, -⟩
    cases hcall
    exact (hok rfl).1
  · intro hcut
    refine ⟨_, _, _, rfl, fun _ => ⟨hcut, fun _ hsome => ?_⟩, fun hne => absurd rfl hne⟩
    cases hsome

theorem Represents.honest_some_iff (h : v.Represents xs) (hlt : cap < v.cap)
    (allocs : VecShrinkAllocs) (d : Destination α) :
    Honest v xs cap allocs (some d) ↔
      (0 < cap → allocs.arr = true) ∧ (cap < v.size → d.Ready allocs.dst (v.size - cap)) := by
  rw [Honest, ← h.cut_iff hlt, ← h.receive_iff]
  constructor
  · rintro ⟨v', result, dst', hcall, hok, -⟩
    obtain ⟨d', hreceive, rfl, hresult, hdst'⟩ := (shrink_some_iff hlt allocs d).mp hcall
    obtain ⟨hcut, hd⟩ := hok hresult
    obtain ⟨d'', hsome, hrep⟩ := hd hlt rfl
    cases hdst'.symm.trans hsome
    exact ⟨hcut, d', hreceive, hrep⟩
  · rintro ⟨hcut, d', hreceive, hrep⟩
    have hcall := (shrink_some_iff hlt allocs d).mpr ⟨d', hreceive, rfl, rfl, rfl⟩
    exact ⟨_, _, _, hcall, fun _ => ⟨hcut, fun _ _ => ⟨d', rfl, hrep⟩⟩,
      fun hne => absurd rfl hne⟩

/-- The call is honest exactly when no allocation that it makes fails. -/
theorem shrink_honest_iff (h : v.Represents xs) (hcap : cap ≤ v.cap) (allocs : VecShrinkAllocs)
    {dst : Option (Destination α)} (hdst : ∀ d, dst = some d → ∃ ys, d.Represents ys) :
    Honest v xs cap allocs dst ↔ (0 < cap → cap < v.cap → allocs.arr = true) ∧
      ∀ d, dst = some d → d.cap < v.size - cap → allocs.dst = true := by
  have hle := h.size_le
  have hsize := h.size_eq
  by_cases hsame : v.cap = cap
  · have htake : xs.take cap = xs := List.take_of_length_le (by omega)
    rw [Honest, shrink_same hsame, htake]
    refine iff_of_true ⟨v, .ok, dst, rfl, fun _ => ⟨h, fun hlt => ?_⟩, fun _ => rfl⟩
      ⟨fun _ hlt => ?_, fun d _ hlt => ?_⟩
    all_goals omega
  · have hlt : cap < v.cap := by omega
    simp only [hlt, forall_const]
    cases dst with
    | none =>
      rw [h.honest_none_iff hlt]
      simp
    | some d =>
      obtain ⟨ys, hys⟩ := hdst d rfl
      rw [h.honest_some_iff hlt, hys.ready_iff]
      simp only [Option.some.injEq, forall_eq']
      refine and_congr_right fun _ => ⟨fun hready hgrow => ?_, fun halloc _ => halloc⟩
      exact hready (by omega) hgrow

/-- One element behind the new capacity and a vector for it, ready to grow. -/
theorem shrink_honest_grows :
    Honest (⟨2, 2, [some 1, some 2]⟩ : Vec ℕ) [1, 2] 1 ⟨true, true⟩ (some ⟨0, 0, some []⟩) := by
  refine (shrink_honest_iff represents_two (by decide) ⟨true, true⟩ ?_).mpr
    ⟨fun _ _ => rfl, fun _ _ _ => rfl⟩
  intro d hd
  cases hd
  exact ⟨[], [], rfl, empty_represents⟩

/-- When the destination cannot grow, the elements behind the new capacity are lost. -/
theorem not_shrink_honest_nomem :
    ¬ ∀ (v : Vec ℕ) (xs : List ℕ) (cap : ℕ) (allocs : VecShrinkAllocs)
      (dst : Option (Destination ℕ)), v.Represents xs → cap ≤ v.cap →
      (∀ d, dst = some d → ∃ ys, d.Represents ys) → Honest v xs cap allocs dst := by
  intro hall
  have hdst (d : Destination ℕ) (hd : some (⟨0, 0, some []⟩ : Destination ℕ) = some d) :
      ∃ ys, d.Represents ys := by
    cases hd
    exact ⟨[], [], rfl, empty_represents⟩
  obtain ⟨v', result, dst', hcall, hok, -⟩ :=
    hall _ _ 1 ⟨false, true⟩ _ represents_two (by decide) hdst
  cases hcall
  obtain ⟨-, hd⟩ := hok rfl
  obtain ⟨d, hsome, arr, -, hrep⟩ := hd (by decide) rfl
  cases hsome
  have hzero : 0 = ([1, 2].drop 1).length := hrep.size_eq
  exact absurd hzero (by decide)

end Shrink

end Vec

end Chatd.Collections
