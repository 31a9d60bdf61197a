import Mathlib.Algebra.Group.Nat.Defs
import Chatd.Library.Block

/-! # Vectors

The result codes of the collections, and the dynamic array that grows by a fixed amount
when an element is inserted into a full one. The first `size` slots are the elements.
-/
namespace Chatd.Collections
open Library

/-- `enum cresult` -/
inductive CResult where
  | ok
  | nomem
  | empty
  | outOfBounds
  | capGreater
  | capLower
  | notImplemented
  | notFound
  deriving DecidableEq, Repr

/-- `struct vec` -/
structure Vec (α : Type*) where
  cap : ℕ
  size : ℕ
  arr : Block α
  deriving DecidableEq, Repr

/-- The vector holds the elements at the front of its array. -/
structure Vec.Represents {α : Type*} (v : Vec α) (xs : List α) : Prop where
  arr_length : v.arr.length = v.cap
  size_le : v.size ≤ v.cap
  size_eq : v.size = xs.length
  holds : ∀ i < xs.length, v.arr[i]? = some xs[i]?

theorem Vec.empty_represents {α : Type*} : (⟨0, 0, []⟩ : Vec α).Represents [] :=
  ⟨rfl, Nat.le_refl 0, rfl, nofun⟩

inductive VecOp (α : Type*) where
  | expand (cap : ℕ)
  | insert (index : ℕ) (e : α)
  | push (e : α)
  | remove (index : ℕ) (dst : Bool)
  | indexOf (e : α)
  | removeByValue (e : α)
  | pop (dst : Bool)
  deriving DecidableEq, Repr

/-- What a call returns: a code, with the element written to `*dst`, or an index. -/
inductive VecReturn (β : Type*) where
  | code (result : CResult) (dst : Option β)
  | index (i : ℕ)
  deriving DecidableEq, Repr

def VecReturn.map {β γ : Type*} (f : β → γ) : VecReturn β → VecReturn γ
  | .code result dst => .code result (dst.map f)
  | .index i => .index i

def sizeMax : ℕ := 2 ^ 64 - 1

namespace Vec

variable {α : Type*}

def expandDelta : ℕ := 16

/-- `vec_with_capacity`; `alloc` says whether `malloc` succeeds. -/
def withCapacity (alloc : Bool) (cap : ℕ) : Option (Vec α) × CResult :=
  if 0 < cap ∧ alloc = false then (none, .nomem) else (some ⟨cap, 0, Block.alloc cap⟩, .ok)

def init (alloc : Bool) : Option (Vec α) × CResult := withCapacity alloc expandDelta

variable (alloc : Bool) (v : Vec α)

def expand (cap : ℕ) : Vec α × CResult :=
  if v.cap > cap then (v, .capGreater)
  else if v.cap = cap then (v, .ok)
  else if alloc = false then (v, .nomem)
  else ({ v with cap, arr := v.arr.realloc cap }, .ok)

/-- The growth of a full vector, as `insert` begins. -/
def makeRoom : Vec α × CResult :=
  if v.size = v.cap then expand alloc v (v.cap + expandDelta) else (v, .ok)

/-- The loop of `insert`: from slot `index + n` downwards every slot takes over the
previous one. -/
def shiftUp (index : ℕ) : (n : ℕ) → Block α → Except Fault (Block α)
  | 0, arr => .ok arr
  | n + 1, arr => do
    let x ← arr.load (index + n)
    let arr ← arr.store (index + (n + 1)) x
    shiftUp index n arr

def insert (index : ℕ) (e : α) : Except Fault (Vec α × CResult) :=
  if index > v.size then .ok (v, .outOfBounds)
  else do
    let (v, result) := makeRoom alloc v
    if result ≠ .ok then return (v, result)
    let arr ← shiftUp index (v.size - index) v.arr
    let arr ← arr.store index (some e)
    return ({ v with arr, size := v.size + 1 }, .ok)

def push (e : α) : Except Fault (Vec α × CResult) := insert alloc v v.size e

/-- `vec_remove`; the last component is what is written to `*dst`. -/
def remove (index : ℕ) (dst : Bool) : Except Fault (Vec α × CResult × Option (Slot α)) :=
  if index ≥ v.size then .ok (v, .outOfBounds, none)
  else do
    let x ← v.arr.load index
    let arr ← v.arr.copy index (index + 1) (v.size - 1 - index) 0
    return ({ v with arr, size := v.size - 1 }, .ok, if dst then some x else none)

/-- The search loop with `n` slots left: the index found. -/
def findIndex [DecidableEq α] (arr : Block α) (e : α) : (n i : ℕ) → Except Fault (Option ℕ)
  | 0, _ => .ok none
  | n + 1, i =>
    match arr.load i with
    | .error fault => .error fault
    | .ok x => if x = some e then .ok (some i) else findIndex arr e n (i + 1)

def indexOf [DecidableEq α] (e : α) : Except Fault ℕ := do
  let found ← findIndex v.arr e v.size 0
  return found.getD sizeMax

def removeByValue [DecidableEq α] (e : α) : Except Fault (Vec α × CResult) :=
  match indexOf v e with
  | .error fault => .error fault
  | .ok i =>
    if i = sizeMax then .ok (v, .notFound)
    else do
      let (v, result, _) ← remove v i false
      return (v, result)

/-- `size - 1`, which wraps around for an empty vector. -/
def lastIndex (size : ℕ) : ℕ := if size = 0 then sizeMax else size - 1

def pop (dst : Bool) : Except Fault (Vec α × CResult × Option (Slot α)) :=
  remove v (lastIndex v.size) dst

/-- `arr[0..size)` -/
def contents : List (Slot α) := v.arr.take v.size

def exec [DecidableEq α] : VecOp α → Except Fault (Vec α × VecReturn (Slot α))
  | .expand cap => let (v, result) := expand alloc v cap; .ok (v, .code result none)
  | .insert index e => do let (v, result) ← insert alloc v index e; return (v, .code result none)
  | .push e => do let (v, result) ← push alloc v e; return (v, .code result none)
  | .remove index dst => do let (v, result, x) ← remove v index dst; return (v, .code result x)
  | .indexOf e => (indexOf v e).map fun i => (v, .index i)
  | .removeByValue e => do let (v, result) ← removeByValue v e; return (v, .code result none)
  | .pop dst => do let (v, result, x) ← pop v dst; return (v, .code result x)

def execAll [DecidableEq α] : Vec α → List (VecOp α) →
    Except Fault (Vec α × List (VecReturn (Slot α)))
  | v, [] => .ok (v, [])
  | v, op :: ops => do
    let (v, result) ← exec true v op
    let (v, results) ← execAll v ops
    return (v, result :: results)

end Vec

/-- What a vector is for: a list, and a capacity that grows on demand. -/
structure Sequence (α : Type*) where
  cap : ℕ
  elems : List α
  deriving DecidableEq, Repr

namespace Sequence

variable {α : Type*} [DecidableEq α] (s : Sequence α)

omit [DecidableEq α] in
def room : ℕ := if s.elems.length = s.cap then s.cap + Vec.expandDelta else s.cap

def exec : VecOp α → Sequence α × VecReturn α
  | .expand cap =>
    if s.cap > cap then (s, .code .capGreater none) else ({ s with cap }, .code .ok none)
  | .insert index e =>
    if index > s.elems.length then (s, .code .outOfBounds none)
    else (⟨s.room, s.elems.insertIdx index e⟩, .code .ok none)
  | .push e => (⟨s.room, s.elems ++ [e]⟩, .code .ok none)
  | .remove index dst =>
    match s.elems[index]? with
    | none => (s, .code .outOfBounds none)
    | some x =>
      ({ s with elems := s.elems.eraseIdx index }, .code .ok (if dst then some x else none))
  | .indexOf e => (s, .index (if e ∈ s.elems then s.elems.idxOf e else sizeMax))
  | .removeByValue e =>
    if e ∈ s.elems then ({ s with elems := s.elems.erase e }, .code .ok none)
    else (s, .code .notFound none)
  | .pop dst =>
    match s.elems.getLast? with
    | none => (s, .code .outOfBounds none)
    | some x => ({ s with elems := s.elems.dropLast }, .code .ok (if dst then some x else none))

def execAll : Sequence α → List (VecOp α) → Sequence α × List (VecReturn α)
  | s, [] => (s, [])
  | s, op :: ops =>
    let (s, result) := exec s op
    let (s, results) := execAll s ops
    (s, result :: results)

omit [DecidableEq α] in
/-- The array has fewer bytes than the address space. -/
def fits : Bool := s.cap < 2 ^ 61

def fitsAll : Sequence α → List (VecOp α) → Bool
  | s, [] => s.fits
  | s, op :: ops => s.fits && fitsAll (s.exec op).1 ops

end Sequence

end Chatd.Collections
