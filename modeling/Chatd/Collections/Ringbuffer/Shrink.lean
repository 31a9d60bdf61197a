import Chatd.Collections.Ringbuffer.Refinement

/-! # Shrinking a ring buffer

`ringbuffer_shrink` collects the elements behind the new capacity from the head backwards,
moves the others to the front of the array through a copy of the wrapped part, and cuts the
array. The moving loops run over the new capacity, however many elements there are.
-/
namespace Chatd.Collections.Ringbuffer
open Library

variable {α : Type*}

/-- The results of the allocations that `ringbuffer_shrink` may make: the vector for the
trimmed elements, the copy of the wrapped part, and the `realloc` of the array. -/
structure ShrinkAllocs where
  dst : Bool
  holdHead : Bool
  arr : Bool
  deriving DecidableEq, Repr

def ShrinkAllocs.succeed : ShrinkAllocs := ⟨true, true, true⟩

def intMax : ℕ := 2 ^ 31 - 1

/-- The loop that collects trimmed elements from the head backwards, `n` of them left: the
destination's array and the head. -/
def collect (cap : ℕ) (arr : Block α) : (n head : ℕ) → Block α → Except Fault (Block α × ℕ)
  | 0, head, dst => .ok (dst, head)
  | n + 1, head, dst => do
    let x ← arr.load (dec head cap)
    let dst ← dst.store n x
    collect cap arr n (dec head cap) dst

variable (allocs : ShrinkAllocs) (rb : Ringbuffer α) (cap : ℕ)

/-- The block for a buffer whose elements fill the new capacity. -/
def trim (dst : Option (Vec α)) : Except Fault (Ringbuffer α × CResult × Option (Vec α)) :=
  if rb.size ≥ cap then
    match dst with
    | some empty =>
      match Vec.withCapacity allocs.dst (rb.size - cap) with
      | (some v, _) => do
        let (arr, head) ← collect rb.cap rb.arr (rb.size - cap) rb.head v.arr
        return ({ rb with head }, .ok, some { v with arr, size := rb.size - cap })
      | (none, result) => .ok (rb, result, some empty)
    | none => .ok ({ rb with head := (rb.tail + cap) % rb.cap }, .ok, none)
  else .ok (rb, .ok, dst)

/-- The block that moves the elements to the front of the array. -/
def rotate : Except Fault (Ringbuffer α × CResult) :=
  if rb.head > rb.tail then do
    let arr ← rb.arr.copy 0 rb.tail cap 0
    return ({ rb with arr }, .ok)
  else if rb.size > 0 then
    if rb.head > 0 ∧ allocs.holdHead = false then .ok (rb, .nomem)
    -- the counter of the loop that fills `hold_head` is an `int`
    else if rb.head > intMax then .error .outOfBounds
    else do
      let holdHead ← rb.arr.copyTo 0 0 rb.head 0 (Block.alloc rb.head)
      let arr ← rb.arr.copy 0 rb.tail (cap - rb.head) 0
      let arr ← holdHead.copyTo (cap - rb.head) 0 rb.head 0 arr
      return ({ rb with arr }, .ok)
  else .ok (rb, .ok)

/-- `ringbuffer_shrink`; the flag says whether the destination is not NULL. -/
def shrink (dst : Bool) : Except Fault (Ringbuffer α × CResult × Option (Vec α)) :=
  let v := if dst then (Vec.withCapacity allocs.dst 0).1 else none
  if rb.cap < cap then .ok (rb, .capLower, v)
  else if rb.cap = cap then .ok (rb, .ok, v)
  else if cap = 0 then .ok (⟨0, 0, 0, 0, []⟩, .ok, v)
  -- no element is behind the new end of the array
  else if rb.tail + rb.size ≤ cap then
    if allocs.arr = false then .ok (rb, .nomem, v)
    else .ok ({ rb with arr := rb.arr.realloc cap, cap }, .ok, v)
  else do
    let (rb, result, v) ← trim allocs rb cap v
    if result ≠ .ok then return (rb, result, v)
    let (rb, result) ← rotate allocs rb cap
    if result ≠ .ok then return (rb, result, v)
    if allocs.arr = false then return (rb, .nomem, v)
    let size := if rb.size > cap then cap else rb.size
    return (⟨cap, (0 + size) % cap, 0, size, rb.arr.realloc cap⟩, .ok, v)

/-- The moving loops stay inside the array, and the counter in its range. -/
def Movable : Prop :=
  rb.tail + cap ≤ rb.cap ∨ (cap ≤ rb.size ∧ rb.tail + cap - rb.cap ≤ intMax)

def Trimmed (dst : Bool) (v : Option (Vec α)) (xs : List α) : Prop :=
  if dst then ∃ w, v = some w ∧ w.Represents xs else v = none

section Trimming

variable {rb : Ringbuffer α} {d : Deque α} {cap t k n : ℕ} {arr : Block α}

/-- Collecting fills the destination with the slots of the window from position `k` on,
and leaves the head there. -/
theorem collect_spec (dst : Block α) (hlen : arr.length = cap) (ht : t < cap)
    (hk : k + n ≤ cap) (hn : n ≤ dst.length) :
    ∃ dst', collect cap arr n ((t + (k + n)) % cap) dst = .ok (dst', (t + k) % cap) ∧
      dst'.length = dst.length ∧
      ∀ j, dst'[j]? = if j < n then Block.slot arr t (k + j) else dst[j]? := by
  induction n generalizing dst with
  | zero => exact ⟨dst, rfl, rfl, fun j => rfl⟩
  | succ n ih =>
    obtain ⟨x, hx⟩ := Block.exists_slot hlen ht (k + n)
    obtain ⟨dst', hcollect, hlen', hslots⟩ := ih (dst.set n x) (by omega)
      (by rw [List.length_set]; omega)
    refine ⟨dst', ?_, by rw [hlen', List.length_set], fun j => ?_⟩
    · rw [collect, ← Nat.add_assoc k n 1, dec_cyclic ht (by omega), Block.load_slot hlen hx,
        ok_bind, Block.store_eq (by omega), ok_bind, hcollect]
    · rw [hslots j]
      by_cases hj : j = n
      · rw [if_neg (by omega), if_pos (by omega), hj, List.getElem?_set_self (by omega), hx]
      · by_cases hlt : j < n
        · rw [if_pos hlt, if_pos (by omega)]
        · rw [if_neg hlt, if_neg (by omega), List.getElem?_set_ne (Ne.symm hj)]

theorem Represents.trim (h : rb.Represents d) (allocs : ShrinkAllocs) (b : Bool)
    (hcap : 0 < cap) (hlt : cap < rb.cap) (halloc : b = true → cap < rb.size → allocs.dst = true) :
    ∃ v, trim allocs rb cap (if b then some ⟨0, 0, []⟩ else none) =
        .ok ({ rb with head := (rb.tail + min rb.size cap) % rb.cap }, .ok, v) ∧
      Trimmed b v (d.elems.drop cap) := by
  have ht := h.tail_lt (by omega)
  have hle := h.size_le
  have hsize := h.size_eq
  have hhead := h.head_eq (by omega)
  unfold Ringbuffer.trim
  by_cases hfull : rb.size ≥ cap
  · rw [if_pos hfull, Nat.min_eq_right hfull]
    cases b with
    | false => exact ⟨none, rfl, rfl⟩
    | true =>
      have hcalloc : Vec.withCapacity allocs.dst (rb.size - cap) =
          (some (⟨rb.size - cap, 0, Block.alloc (rb.size - cap)⟩ : Vec α), .ok) := by
        rw [Vec.withCapacity, if_neg]
        rintro ⟨hpos, hfalse⟩
        rw [halloc rfl (by omega)] at hfalse
        cases hfalse
      obtain ⟨arr, hcollect, hlen, hslots⟩ := collect_spec (k := cap) (n := rb.size - cap)
        (Block.alloc (rb.size - cap)) h.arr_length ht (by omega)
        (Nat.le_of_eq (Block.length_alloc _).symm)
      rw [show cap + (rb.size - cap) = rb.size by omega, ← hhead] at hcollect
      rw [if_pos rfl]
      dsimp only
      rw [hcalloc]
      dsimp only
      rw [hcollect]
      refine ⟨_, rfl, _, rfl, ?_, Nat.le_refl _, ?_, fun i hi => ?_⟩
      · exact hlen.trans (Block.length_alloc _)
      · rw [List.length_drop, hsize]
      · rw [List.length_drop] at hi
        rw [hslots i, if_pos (by omega), h.holds (cap + i) (by omega), List.getElem?_drop]
  · have hnil : d.elems.drop cap = [] := List.drop_eq_nil_of_le (by omega)
    rw [if_neg hfull, Nat.min_eq_left (by omega), ← hhead, hnil]
    refine ⟨_, rfl, ?_⟩
    cases b with
    | false => rfl
    | true => exact ⟨_, rfl, Vec.empty_represents⟩

end Trimming

section Moving

variable {rb : Ringbuffer α} {cap k : ℕ}

theorem head_eq_of_lt (hk : rb.tail + k < rb.cap) (hhead : rb.head = (rb.tail + k) % rb.cap) :
    rb.head = rb.tail + k := by
  rw [hhead, Nat.mod_eq_of_lt hk]

theorem head_eq_of_wrapped (ht : rb.tail < rb.cap) (hle : k ≤ rb.cap) (hk : rb.cap ≤ rb.tail + k)
    (hhead : rb.head = (rb.tail + k) % rb.cap) : rb.head = rb.tail + k - rb.cap := by
  rw [hhead, cyclic_eq ht hle, if_neg (Nat.not_lt.mpr hk)]

theorem slot_of_lt {arr : Block α} {t j : ℕ} (h : t + j < arr.length) :
    Block.slot arr t j = arr[t + j]? := by
  rw [Block.slot, Nat.mod_eq_of_lt h]

theorem slot_of_wrapped {arr : Block α} {t j : ℕ} (ht : t < arr.length) (hj : j < arr.length)
    (h : arr.length ≤ t + j) : Block.slot arr t j = arr[t + j - arr.length]? := by
  rw [Block.slot, cyclic_eq ht (Nat.le_of_lt hj), if_neg (Nat.not_lt.mpr h)]

/-- Moving the elements puts the window to the front of the array. -/
theorem rotate_spec (allocs : ShrinkAllocs) (rb : Ringbuffer α)
    (hlen : rb.arr.length = rb.cap) (ht : rb.tail < rb.cap)
    (hhead : rb.head = (rb.tail + k) % rb.cap) (hk : k = min rb.size cap) (hpos : 0 < k)
    (hlt : cap < rb.cap) (hmov : rb.Movable cap)
    (halloc : rb.cap < rb.tail + k → allocs.holdHead = true) :
    ∃ arr, rotate allocs rb cap = .ok ({ rb with arr }, .ok) ∧ arr.length = rb.cap ∧
      ∀ j, arr[j]? = if j < cap then Block.slot rb.arr rb.tail j else rb.arr[j]? := by
  rw [rotate]
  by_cases hplain : rb.tail + k < rb.cap
  · have hhead' := head_eq_of_lt hplain hhead
    have hroom : rb.tail + cap ≤ rb.cap := by
      rcases hmov with h | h <;> omega
    obtain ⟨arr, hcopy, hlen', hslots⟩ := Block.copy_spec rb.arr 0 rb.tail cap (by omega)
      (by omega) (by omega)
    rw [if_pos (by omega), hcopy]
    refine ⟨arr, rfl, hlen'.trans hlen, fun j => ?_⟩
    rw [hslots j]
    by_cases hj : j < cap
    · rw [if_pos (by omega), if_pos hj, slot_of_lt (by omega), Nat.sub_zero]
    · rw [if_neg (by omega), if_neg hj]
  · have hhead' := head_eq_of_wrapped ht (by omega) (by omega) hhead
    have hk' : k = cap ∧ rb.head ≤ intMax := by
      rcases hmov with h | h
      · exact ⟨by omega, by rw [intMax]; omega⟩
      · exact ⟨by omega, by omega⟩
    rw [if_neg (by omega), if_pos (by omega), if_neg ?_, if_neg (by omega)]
    · obtain ⟨hold, hcopy, hlen₁, hslots₁⟩ := Block.copyTo_spec (Block.alloc rb.head) rb.arr 0 0
        rb.head (by omega) (by rw [Block.length_alloc]; omega)
      obtain ⟨arr₂, hcopy₂, hlen₂, hslots₂⟩ := Block.copy_spec rb.arr 0 rb.tail (cap - rb.head)
        (by omega) (by omega) (by omega)
      obtain ⟨arr₃, hcopy₃, hlen₃, hslots₃⟩ := Block.copyTo_spec arr₂ hold (cap - rb.head) 0
        rb.head (by rw [hlen₁, Block.length_alloc]; omega) (by omega)
      rw [hcopy, ok_bind, hcopy₂, ok_bind, hcopy₃]
      refine ⟨arr₃, rfl, by omega, fun j => ?_⟩
      rw [hslots₃ j]
      by_cases hj : j < cap
      · rw [if_pos hj]
        by_cases hback : cap - rb.head ≤ j
        · -- the wrapped part, from the copy
          rw [if_pos (by omega), hslots₁, if_pos (by omega),
            slot_of_wrapped (by omega) (by omega) (by omega)]
          congr 1
          omega
        · rw [if_neg (by omega), hslots₂, if_pos (by omega), slot_of_lt (by omega), Nat.sub_zero]
      · rw [if_neg (by omega), if_neg hj, hslots₂, if_neg (by omega)]
    · rintro ⟨hzero, hfalse⟩
      rw [halloc (by omega)] at hfalse
      cases hfalse

theorem rotate_empty (allocs : ShrinkAllocs) (hsize : rb.size = 0) (hhead : rb.head = rb.tail) :
    rotate allocs rb cap = .ok (rb, .ok) := by
  rw [rotate, if_neg (by omega), if_neg (by omega)]

/-- The copy of the wrapped part may fail before anything has moved. -/
theorem rotate_nomem {allocs : ShrinkAllocs} (ht : rb.tail < rb.cap)
    (hhead : rb.head = (rb.tail + k) % rb.cap) (hk : k = min rb.size cap) (hlt : cap < rb.cap)
    (hwrap : rb.cap < rb.tail + k) (halloc : allocs.holdHead = false) :
    rotate allocs rb cap = .ok (rb, .nomem) := by
  have hhead' := head_eq_of_wrapped ht (by omega) (by omega) hhead
  rw [rotate, if_neg (by omega), if_pos (by omega), if_pos ⟨by omega, halloc⟩]

/-- Outside of these cases a loop leaves the array, or its counter the range. -/
theorem rotate_error (allocs : ShrinkAllocs) (rb : Ringbuffer α)
    (hlen : rb.arr.length = rb.cap) (ht : rb.tail < rb.cap)
    (hhead : rb.head = (rb.tail + k) % rb.cap) (hk : k = min rb.size cap) (hpos : 0 < k)
    (hlt : cap < rb.cap) (hmov : ¬ rb.Movable cap)
    (halloc : rb.cap < rb.tail + k → allocs.holdHead = true) :
    rotate allocs rb cap = .error .outOfBounds := by
  rw [Movable, not_or] at hmov
  rw [rotate]
  by_cases hplain : rb.tail + k < rb.cap
  · have hhead' := head_eq_of_lt hplain hhead
    rw [if_pos (by omega), Block.copy_error 0 rb.tail (by omega) (by omega), error_bind]
  · have hhead' := head_eq_of_wrapped ht (by omega) (by omega) hhead
    rw [if_neg (by omega), if_pos (by omega), if_neg ?_]
    · by_cases hint : rb.head > intMax
      · rw [if_pos hint]
      · have hshort : rb.size < cap := by
          by_contra hfull
          exact hmov.2 ⟨by omega, by omega⟩
        obtain ⟨hold, hcopy, -⟩ := Block.copyTo_spec (Block.alloc rb.head) rb.arr 0 0 rb.head
          (by omega) (by rw [Block.length_alloc]; omega)
        rw [if_neg hint, hcopy, ok_bind, Block.copy_error 0 rb.tail (by omega) (by omega),
          error_bind]
    · rintro ⟨hzero, hfalse⟩
      rw [halloc (by omega)] at hfalse
      cases hfalse

end Moving

end Chatd.Collections.Ringbuffer
