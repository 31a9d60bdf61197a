import Chatd.Collections.Vec

/-! # The ring buffer

A double-ended queue in a cyclic array that grows when it is full. `push_front` stores
at the head and `push_back` in front of the tail, so that the elements from the tail on
are the list, with `push_front` and `pop_front` at its end. Growing moves the elements
that had wrapped around into the new slots, as far as these go.
-/
namespace Chatd.Collections
open Library

/-- `struct ringbuffer`; no array is an array without slots. -/
structure Ringbuffer (α : Type*) where
  cap : ℕ
  head : ℕ
  tail : ℕ
  size : ℕ
  arr : Block α
  deriving DecidableEq, Repr

inductive RingOp (α : Type*) where
  | pushFront (e : α)
  | popFront
  | pushBack (e : α)
  | popBack
  | insert (index : ℕ) (e : α)
  | remove (index : ℕ)
  | get (index : ℕ)
  | expand (cap : ℕ)
  deriving DecidableEq, Repr

namespace Ringbuffer

variable {α : Type*}

def vecExpandDelta : ℕ := 16

def expandDelta : ℕ := 16

def dec (val cap : ℕ) : ℕ := if val = 0 then cap - 1 else val - 1

def inc (val cap : ℕ) : ℕ := if val = cap - 1 then 0 else val + 1

/-- `ringbuffer_with_capacity`; `alloc` says whether `malloc` succeeds. -/
def withCapacity (alloc : Bool) (cap : ℕ) : Option (Ringbuffer α) × CResult :=
  if cap = 0 ∨ alloc = false then (none, .nomem)
  else (some ⟨cap, 0, 0, 0, Block.alloc cap⟩, .ok)

def init (alloc : Bool) : Option (Ringbuffer α) × CResult := withCapacity alloc vecExpandDelta

/-- `ringbuffer_from_vec`, which takes the array over. -/
def fromVec (src : Vec α) : Ringbuffer α where
  cap := src.cap
  tail := 0
  head := if src.cap = src.size then 0 else src.size
  size := src.size
  arr := src.arr

variable (alloc : Bool) (rb : Ringbuffer α)

def get (index : ℕ) : Except Fault (Slot α) := rb.arr.load ((rb.tail + index) % rb.cap)

def expand (cap : ℕ) : Except Fault (Ringbuffer α × CResult) :=
  if rb.cap > cap then .ok (rb, .capGreater)
  else if rb.cap = cap then .ok (rb, .ok)
  else if alloc = false then .ok (rb, .nomem)
  else
    let arr := rb.arr.grow cap
    if rb.size = 0 ∨ rb.head > rb.tail then .ok ({ rb with arr, cap }, .ok)
    else
      let shiftCount := cap - rb.cap
      if rb.head ≥ shiftCount then do
        let arr ← arr.copy rb.cap 0 shiftCount 0
        let arr ← arr.copy 0 shiftCount (rb.head - shiftCount) 0
        .ok ({ rb with arr, cap, head := rb.head - shiftCount }, .ok)
      else do
        let arr ← arr.copy rb.cap 0 rb.head 0
        .ok ({ rb with arr, cap, head := (rb.tail + rb.size) % cap }, .ok)

/-- The growth of a full buffer, as `insert`, `push_front` and `push_back` begin. -/
def makeRoom : Except Fault (Ringbuffer α × CResult) :=
  if rb.size = rb.cap then expand alloc rb (rb.cap + expandDelta) else .ok (rb, .ok)

/-- The loop of `insert`: from `cursor` downwards every slot takes over the previous one. -/
def shiftUp (cap : ℕ) : (n cursor : ℕ) → Block α → Except Fault (Block α × ℕ)
  | 0, cursor, arr => .ok (arr, cursor)
  | n + 1, cursor, arr => do
    let x ← arr.load (dec cursor cap)
    let arr ← arr.store cursor x
    shiftUp cap n (dec cursor cap) arr

def insert (index : ℕ) (e : α) : Except Fault (Ringbuffer α × CResult) :=
  if index > rb.size then .ok (rb, .outOfBounds)
  else do
    let (rb, result) ← makeRoom alloc rb
    if result ≠ .ok then return (rb, result)
    let (arr, cursor) ← shiftUp rb.cap (rb.size - index) rb.head rb.arr
    let arr ← arr.store cursor (some e)
    return ({ rb with arr, head := inc rb.head rb.cap, size := rb.size + 1 }, .ok)

/-- The loop of `remove`: from `cursor` upwards every slot takes over the next one. -/
def shiftDown (cap : ℕ) : (n cursor : ℕ) → Block α → Except Fault (Block α)
  | 0, _, arr => .ok arr
  | n + 1, cursor, arr => do
    let x ← arr.load (inc cursor cap)
    let arr ← arr.store cursor x
    shiftDown cap n (inc cursor cap) arr

/-- `ringbuffer_remove`; the last component is what is written to `*dst`. -/
def remove (index : ℕ) : Except Fault (Ringbuffer α × CResult × Option (Slot α)) :=
  if index ≥ rb.size then .ok (rb, .outOfBounds, none)
  else do
    let cursor := (rb.tail + index) % rb.cap
    let dst ← rb.arr.load cursor
    let arr ← shiftDown rb.cap (rb.size - index) cursor rb.arr
    return ({ rb with arr, head := dec rb.head rb.cap, size := rb.size - 1 }, .ok, some dst)

def pushFront (e : α) : Except Fault (Ringbuffer α × CResult) := do
  let (rb, result) ← makeRoom alloc rb
  if result ≠ .ok then return (rb, result)
  let arr ← rb.arr.store rb.head (some e)
  return ({ rb with arr, head := inc rb.head rb.cap, size := rb.size + 1 }, .ok)

def popFront : Except Fault (Ringbuffer α × CResult × Option (Slot α)) :=
  if rb.size = 0 then .ok (rb, .empty, none)
  else do
    let head := dec rb.head rb.cap
    let dst ← rb.arr.load head
    return ({ rb with head, size := rb.size - 1 }, .ok, some dst)

def pushBack (e : α) : Except Fault (Ringbuffer α × CResult) := do
  let (rb, result) ← makeRoom alloc rb
  if result ≠ .ok then return (rb, result)
  let tail := dec rb.tail rb.cap
  let arr ← rb.arr.store tail (some e)
  return ({ rb with arr, tail, size := rb.size + 1 }, .ok)

def popBack : Except Fault (Ringbuffer α × CResult × Option (Slot α)) :=
  if rb.size = 0 then .ok (rb, .empty, none)
  else do
    let dst ← rb.arr.load rb.tail
    return ({ rb with tail := inc rb.tail rb.cap, size := rb.size - 1 }, .ok, some dst)

/-- `[arr[(tail + i) % cap] for i < size]` -/
def contents : List (Slot α) :=
  (List.range rb.size).map fun i => (rb.arr[(rb.tail + i) % rb.cap]?).getD none

def exec : RingOp α → Except Fault (Ringbuffer α × CResult × Option (Slot α))
  | .pushFront e => do let (rb, result) ← pushFront true rb e; return (rb, result, none)
  | .popFront => popFront rb
  | .pushBack e => do let (rb, result) ← pushBack true rb e; return (rb, result, none)
  | .popBack => popBack rb
  | .insert index e => do let (rb, result) ← insert true rb index e; return (rb, result, none)
  | .remove index => remove rb index
  | .get index => do let x ← get rb index; return (rb, .ok, some x)
  | .expand cap => do let (rb, result) ← expand true rb cap; return (rb, result, none)

def execAll : Ringbuffer α → List (RingOp α) →
    Except Fault (Ringbuffer α × List (CResult × Option (Slot α)))
  | rb, [] => .ok (rb, [])
  | rb, op :: ops => do
    let (rb, result) ← exec rb op
    let (rb, results) ← execAll rb ops
    return (rb, result :: results)

end Ringbuffer

/-- What a ring buffer is for: a list with two ends, and a capacity that grows on demand. -/
structure Deque (α : Type*) where
  cap : ℕ
  elems : List α
  deriving DecidableEq, Repr

namespace Deque

variable {α : Type*} (d : Deque α)

/-- The capacity after room for one more element has been made. -/
def room : ℕ := if d.elems.length = d.cap then d.cap + Ringbuffer.expandDelta else d.cap

def exec : RingOp α → Deque α × CResult × Option α
  | .pushFront e => (⟨d.room, d.elems ++ [e]⟩, .ok, none)
  | .popFront =>
    match d.elems.getLast? with
    | none => (d, .empty, none)
    | some x => ({ d with elems := d.elems.dropLast }, .ok, some x)
  | .pushBack e => (⟨d.room, e :: d.elems⟩, .ok, none)
  | .popBack =>
    match d.elems with
    | [] => (d, .empty, none)
    | x :: xs => ({ d with elems := xs }, .ok, some x)
  | .insert index e =>
    if index > d.elems.length then (d, .outOfBounds, none)
    else (⟨d.room, d.elems.insertIdx index e⟩, .ok, none)
  | .remove index =>
    match d.elems[index]? with
    | none => (d, .outOfBounds, none)
    | some x => ({ d with elems := d.elems.eraseIdx index }, .ok, some x)
  | .get index => (d, .ok, d.elems[index]?)
  | .expand cap => if d.cap > cap then (d, .capGreater, none) else ({ d with cap }, .ok, none)

def execAll : Deque α → List (RingOp α) → Deque α × List (CResult × Option α)
  | d, [] => (d, [])
  | d, op :: ops =>
    let (d, result) := exec d op
    let (d, results) := execAll d ops
    (d, result :: results)

/-- `get` may be called with an index below the size only. -/
def allows : RingOp α → Bool
  | .get index => index < d.elems.length
  | _ => true

def allowsAll : Deque α → List (RingOp α) → Bool
  | _, [] => true
  | d, op :: ops => d.allows op && allowsAll (d.exec op).1 ops

end Deque

namespace Ringbuffer

variable {α : Type*}

structure WellFormed (rb : Ringbuffer α) : Prop where
  arr_length : rb.arr.length = rb.cap
  size_le : rb.size ≤ rb.cap
  tail_lt : 0 < rb.cap → rb.tail < rb.cap
  head_eq : 0 < rb.cap → rb.head = (rb.tail + rb.size) % rb.cap
  unallocated : rb.cap = 0 → rb.tail = 0 ∧ rb.head = 0

/-- The ring buffer stands for a list with a capacity. -/
structure Represents (rb : Ringbuffer α) (d : Deque α) : Prop extends WellFormed rb where
  cap_eq : rb.cap = d.cap
  size_eq : rb.size = d.elems.length
  holds : Block.Holds rb.arr rb.tail d.elems

section Indices

variable {cap t j : ℕ}

theorem inc_cyclic (ht : t < cap) (hj : j < cap) :
    inc ((t + j) % cap) cap = (t + (j + 1)) % cap := by
  rw [inc, cyclic_eq ht (Nat.le_of_lt hj), cyclic_eq ht hj]
  split_ifs <;> omega

theorem dec_cyclic (ht : t < cap) (hj : j < cap) :
    dec ((t + (j + 1)) % cap) cap = (t + j) % cap := by
  rw [dec, cyclic_eq ht (Nat.le_of_lt hj), cyclic_eq ht hj]
  split_ifs <;> first | omega | contradiction

theorem dec_lt (ht : t < cap) : dec t cap < cap := by
  rw [dec]
  split_ifs <;> omega

theorem inc_lt (ht : t < cap) : inc t cap < cap := by
  rw [inc]
  split_ifs <;> omega

theorem inc_add (ht : t < cap) (j : ℕ) : (inc t cap + j) % cap = (t + (j + 1)) % cap := by
  rw [inc]
  split_ifs with h
  · rw [show t + (j + 1) = j + cap by omega, Nat.add_mod_right, Nat.zero_add]
  · rw [show t + 1 + j = t + (j + 1) by omega]

theorem dec_add (ht : t < cap) (j : ℕ) : (dec t cap + (j + 1)) % cap = (t + j) % cap := by
  rw [dec]
  split_ifs with h
  · rw [show cap - 1 + (j + 1) = j + cap by omega, Nat.add_mod_right, h, Nat.zero_add]
  · rw [show t - 1 + (j + 1) = t + j by omega]

end Indices

section Contents

variable {rb : Ringbuffer α} {d : Deque α}

theorem Represents.contents_eq (h : rb.Represents d) : rb.contents = d.elems.map some := by
  apply List.ext_getElem?
  intro i
  rw [contents, List.getElem?_map, List.getElem?_map]
  by_cases hi : i < rb.size
  · have hslot : rb.arr[(rb.tail + i) % rb.cap]? = some d.elems[i]? := by
      have hh := h.holds i (h.size_eq ▸ hi)
      rwa [Block.slot, h.arr_length] at hh
    have hx : i < d.elems.length := h.size_eq ▸ hi
    rw [List.getElem?_range hi, Option.map_some, hslot, Option.getD_some,
      List.getElem?_eq_getElem hx, Option.map_some]
  · rw [List.getElem?_eq_none (by simpa using Nat.le_of_not_lt hi),
      List.getElem?_eq_none (by simpa [h.size_eq] using hi)]
    rfl

theorem represents_of_pos {cap head tail size : ℕ} {arr : Block α} {elems : List α}
    (hlen : arr.length = cap) (htail : tail < cap) (hle : size ≤ cap)
    (hhead : head = (tail + size) % cap) (hsize : size = elems.length)
    (hholds : Block.Holds arr tail elems) :
    (⟨cap, head, tail, size, arr⟩ : Ringbuffer α).Represents ⟨cap, elems⟩ := by
  constructor
  case toWellFormed => exact ⟨hlen, hle, fun _ => htail, fun _ => hhead, by dsimp only; omega⟩
  case cap_eq => rfl
  case size_eq => exact hsize
  case holds => exact hholds

end Contents

end Ringbuffer

end Chatd.Collections
