import Chatd.Collections.Ringbuffer.Refinement

/-! # Iteration over a ring buffer

`RINGBUFFER_ITER` steps a cursor upwards from the tail, and `RINGBUFFER_ITERREV` one downwards
from the head. Both pass over the window of the elements, and meet at each index the element
that `ringbuffer_get` computes by a remainder.
-/
namespace Chatd.Collections.Ringbuffer
open Library

universe u

variable {α σ : Type u}

section Macros

variable (rb : Ringbuffer α) (body : ℕ → Slot α → σ → σ)

/-- The loop of `RINGBUFFER_ITER` from index `i` on, with a body that works on its own data;
`none` when `fuel` tests of the condition do not end it. -/
def iterFrom : (fuel i cursor : ℕ) → σ → Except Fault (Option σ)
  | 0, _, _, _ => .ok none
  | fuel + 1, i, cursor, s =>
    if i < rb.size then do
      let elem ← rb.arr.load cursor
      iterFrom fuel (i + 1) (inc cursor rb.cap) (body i elem s)
    else .ok (some s)

/-- `RINGBUFFER_ITER_BEGIN`, the body and `RINGBUFFER_ITER_END` -/
def iter (fuel : ℕ) (s : σ) : Except Fault (Option σ) := iterFrom rb body fuel 0 rb.tail s

/-- `i--` for `size_t i`. -/
def countDown (i : ℕ) : ℕ := if i = 0 then sizeMax else i - 1

/-- The loop of `RINGBUFFER_ITERREV` from index `i` on, which has no condition but the test
behind the body. -/
def iterrevFrom : (fuel i cursor : ℕ) → σ → Except Fault (Option σ)
  | 0, _, _, _ => .ok none
  | fuel + 1, i, cursor, s => do
    let cursor := dec cursor rb.cap
    let elem ← rb.arr.load cursor
    let s := body i elem s
    if i = 0 then return some s
    else iterrevFrom fuel (countDown i) cursor s

/-- `RINGBUFFER_ITERREV_BEGIN`, the body and `RINGBUFFER_ITERREV_END` -/
def iterrev (fuel : ℕ) (s : σ) : Except Fault (Option σ) :=
  if rb.size = 0 then .ok (some s) else iterrevFrom rb body fuel (rb.size - 1) rb.head s

def elemAt (i : ℕ) : Slot α := (rb.arr[(rb.tail + i) % rb.cap]?).getD none

end Macros

section Loops

variable {rb : Ringbuffer α} {fuel i n : ℕ} (body : ℕ → Slot α → σ → σ) (s : σ)

theorem WellFormed.load_elemAt (h : rb.WellFormed) (hi : i < rb.size) :
    rb.arr.load ((rb.tail + i) % rb.cap) = .ok (rb.elemAt i) := by
  have hle := h.size_le
  obtain ⟨x, hx⟩ := Block.exists_slot h.arr_length (h.tail_lt (by omega)) i
  rw [Block.slot, h.arr_length] at hx
  rw [Block.load_eq hx, elemAt, hx]
  rfl

theorem WellFormed.iterFrom (h : rb.WellFormed) (hi : i + n = rb.size) (hfuel : n < fuel) :
    iterFrom rb body fuel i ((rb.tail + i) % rb.cap) s =
      .ok (some ((List.range' i n).foldl (fun s j => body j (rb.elemAt j) s) s)) := by
  induction n generalizing fuel i s with
  | zero =>
    obtain ⟨fuel, rfl⟩ := Nat.exists_eq_add_one.mpr hfuel
    rw [Ringbuffer.iterFrom, if_neg (by omega)]
    rfl
  | succ n ih =>
    have hle := h.size_le
    obtain ⟨fuel, rfl⟩ := Nat.exists_eq_add_one.mpr (Nat.zero_lt_of_lt hfuel)
    rw [Ringbuffer.iterFrom, if_pos (by omega), h.load_elemAt (by omega), ok_bind,
      inc_cyclic (h.tail_lt (by omega)) (by omega), List.range'_succ, List.foldl_cons]
    exact ih _ (by omega) (Nat.lt_of_succ_lt_succ hfuel)

/-- The loop downwards: the cursor is the slot behind the one of the index, and as many rounds
follow this one as the index says. -/
theorem WellFormed.iterrevFrom (h : rb.WellFormed) (hi : i < rb.size) (hfuel : i < fuel) :
    iterrevFrom rb body fuel i ((rb.tail + (i + 1)) % rb.cap) s =
      .ok (some ((List.range (i + 1)).reverse.foldl (fun s j => body j (rb.elemAt j) s) s)) := by
  have hle := h.size_le
  have ht := h.tail_lt (by omega)
  induction i generalizing fuel s with
  | zero =>
    obtain ⟨fuel, rfl⟩ := Nat.exists_eq_add_one.mpr hfuel
    rw [Ringbuffer.iterrevFrom, dec_cyclic ht (by omega), h.load_elemAt hi, ok_bind]
    rfl
  | succ i ih =>
    obtain ⟨fuel, rfl⟩ := Nat.exists_eq_add_one.mpr (Nat.zero_lt_of_lt hfuel)
    have hdown : countDown (i + 1) = i := if_neg (Nat.succ_ne_zero i)
    rw [Ringbuffer.iterrevFrom, dec_cyclic ht (by omega), h.load_elemAt hi, ok_bind,
      List.range_succ, List.reverse_append, List.reverse_singleton, List.singleton_append,
      List.foldl_cons]
    dsimp only
    rw [if_neg (Nat.succ_ne_zero i), hdown]
    exact ih _ (Nat.lt_of_succ_lt hi) (Nat.lt_of_succ_lt_succ hfuel)

theorem WellFormed.iter (h : rb.WellFormed) (hfuel : rb.size < fuel) :
    iter rb body fuel s =
      .ok (some ((List.range rb.size).foldl (fun s j => body j (rb.elemAt j) s) s)) := by
  have hloop := h.iterFrom body s (Nat.zero_add rb.size) hfuel
  by_cases hsize : rb.size = 0
  · obtain ⟨fuel, rfl⟩ := Nat.exists_eq_add_one.mpr (Nat.zero_lt_of_lt hfuel)
    rw [Ringbuffer.iter, Ringbuffer.iterFrom, if_neg (by omega), hsize]
    rfl
  · have hle := h.size_le
    rw [Nat.add_zero, Nat.mod_eq_of_lt (h.tail_lt (by omega))] at hloop
    rw [Ringbuffer.iter, hloop, List.range_eq_range']

theorem WellFormed.iterrev (h : rb.WellFormed) (hfuel : rb.size ≤ fuel) :
    iterrev rb body fuel s =
      .ok (some ((List.range rb.size).reverse.foldl (fun s j => body j (rb.elemAt j) s) s)) := by
  by_cases hsize : rb.size = 0
  · rw [Ringbuffer.iterrev, if_pos hsize, hsize]
    rfl
  · have hle := h.size_le
    have hlast : rb.size - 1 + 1 = rb.size := Nat.sub_add_cancel (by omega)
    have hfuel' : rb.size - 1 < fuel := by omega
    have hloop := h.iterrevFrom body s (by omega) hfuel'
    rw [hlast, ← h.head_eq (by omega)] at hloop
    rw [Ringbuffer.iterrev, if_neg hsize, hloop]

end Loops

/-- Both macros visit every index with the element that `ringbuffer_get` returns for it,
`RINGBUFFER_ITER` in increasing and `RINGBUFFER_ITERREV` in decreasing order. Both end, and
neither reads a slot at or behind `cap`, as such a read is a fault. -/
theorem iterations_agree {rb : Ringbuffer α} (h : rb.WellFormed) :
    (∀ slot, rb.cap ≤ slot → rb.arr.load slot = .error .outOfBounds) ∧
      ∃ visits : List (ℕ × Slot α), visits.map Prod.fst = List.range rb.size ∧
        (∀ visit ∈ visits, rb.get visit.1 = .ok visit.2) ∧
        ∀ (σ : Type u) (body : ℕ → Slot α → σ → σ) (s : σ) (fuel : ℕ), rb.size < fuel →
          rb.iter body fuel s = .ok (some (visits.foldl (fun s v => body v.1 v.2 s) s)) ∧
          rb.iterrev body fuel s =
            .ok (some (visits.reverse.foldl (fun s v => body v.1 v.2 s) s)) := by
  refine ⟨fun slot hslot => Block.load_error (by rwa [h.arr_length]),
    (List.range rb.size).map fun i => (i, rb.elemAt i), ?_, ?_, ?_⟩
  · rw [List.map_map]
    exact List.map_id _
  · intro visit hvisit
    obtain ⟨i, hi, rfl⟩ := List.mem_map.mp hvisit
    exact h.load_elemAt (List.mem_range.mp hi)
  · intro σ body s fuel hfuel
    constructor
    · rw [h.iter _ s hfuel, List.foldl_map]
    · rw [h.iterrev _ s (Nat.le_of_lt hfuel), ← List.map_reverse, List.foldl_map]

/-- A full buffer whose elements wrap around. -/
theorem iterations_agree_wrapped :
    ∃ visits : List (ℕ × Slot ℕ), visits.map Prod.fst = [0, 1, 2] ∧
      (∀ visit ∈ visits, (⟨3, 2, 2, 3, [some 2, some 3, some 1]⟩ : Ringbuffer ℕ).get visit.1 =
        .ok visit.2) ∧
      (⟨3, 2, 2, 3, [some 2, some 3, some 1]⟩ : Ringbuffer ℕ).iter
        (fun i x s => (i, x) :: s) 4 [] = .ok (some visits.reverse) ∧
      (⟨3, 2, 2, 3, [some 2, some 3, some 1]⟩ : Ringbuffer ℕ).iterrev
        (fun i x s => (i, x) :: s) 4 [] = .ok (some visits) := by
  have h : (⟨3, 2, 2, 3, [some 2, some 3, some 1]⟩ : Ringbuffer ℕ).WellFormed :=
    ⟨rfl, by decide, by decide, by decide, by decide⟩
  obtain ⟨-, visits, hfst, hget, hloops⟩ := iterations_agree h
  obtain ⟨hiter, hiterrev⟩ := hloops (List (ℕ × Slot ℕ)) (fun i x s => (i, x) :: s) [] 4
    (by decide)
  refine ⟨visits, hfst, hget, ?_, ?_⟩
  · rw [hiter, List.foldl_flip_cons_eq_append, List.append_nil, List.map_id']
  · rw [hiterrev, List.foldl_flip_cons_eq_append, List.append_nil, List.map_id',
      List.reverse_reverse]

end Chatd.Collections.Ringbuffer
