import Mathlib.Data.Nat.Notation
import Mathlib.Logic.Function.Basic

/-! # One object under several control blocks

A shared pointer made from a raw pointer starts a control block of its own. Copies
count in the block they are copied from, and the block whose count falls to zero
destroys the object, whatever other blocks there are.
-/
namespace Chatd.Library

structure SharedObject where
  refs : ℕ → ℕ
  next : ℕ
  destroyed : ℕ
  readDestroyed : Bool

namespace SharedObject

/-- An object that no shared pointer has been made of. -/
def raw : SharedObject := ⟨fun _ => 0, 0, 0, false⟩

/-- `shared_ptr(raw)`; the block is numbered `o.next`. -/
def construct (o : SharedObject) : SharedObject :=
  { o with refs := Function.update o.refs o.next 1, next := o.next + 1 }

def copy (o : SharedObject) (b : ℕ) : SharedObject :=
  { o with refs := Function.update o.refs b (o.refs b + 1) }

/-- The destructor of one shared pointer of the block. -/
def release (o : SharedObject) (b : ℕ) : SharedObject :=
  { o with
    refs := Function.update o.refs b (o.refs b - 1)
    destroyed := if o.refs b = 1 then o.destroyed + 1 else o.destroyed }

def read (o : SharedObject) : SharedObject :=
  { o with readDestroyed := o.readDestroyed || o.destroyed != 0 }

/-- The object is destroyed at most once and not read afterwards. -/
def Safe (o : SharedObject) : Prop := o.destroyed ≤ 1 ∧ o.readDestroyed = false

variable (o : SharedObject) (b : ℕ)

@[simp] theorem construct_refs_next : o.construct.refs o.next = 1 := Function.update_self ..

@[simp] theorem construct_destroyed : o.construct.destroyed = o.destroyed := rfl

@[simp] theorem construct_readDestroyed : o.construct.readDestroyed = o.readDestroyed := rfl

@[simp] theorem copy_refs_self : (o.copy b).refs b = o.refs b + 1 := Function.update_self ..

@[simp] theorem copy_destroyed : (o.copy b).destroyed = o.destroyed := rfl

@[simp] theorem copy_readDestroyed : (o.copy b).readDestroyed = o.readDestroyed := rfl

@[simp] theorem release_refs_self : (o.release b).refs b = o.refs b - 1 := Function.update_self ..

@[simp] theorem release_readDestroyed : (o.release b).readDestroyed = o.readDestroyed := rfl

@[simp] theorem read_refs : o.read.refs = o.refs := rfl

@[simp] theorem read_destroyed : o.read.destroyed = o.destroyed := rfl

variable {o b}

theorem release_destroyed_of_one (h : o.refs b = 1) :
    (o.release b).destroyed = o.destroyed + 1 := if_pos h

theorem release_destroyed_of_ne (h : o.refs b ≠ 1) : (o.release b).destroyed = o.destroyed :=
  if_neg h

theorem read_of_live (h : o.destroyed = 0) : o.read = o := by
  obtain ⟨refs, next, destroyed, readDestroyed⟩ := o
  cases h
  simp [read]

end SharedObject

end Chatd.Library
