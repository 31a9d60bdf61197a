import Mathlib.Data.List.Basic

/-! # Byte buffers and NUL-terminated strings

A heap block is the list of its bytes. Accesses outside the block and through a
null pointer are faults. A string is what stands from an offset up to the first
NUL byte, and reading one needs that byte to lie in the block.
-/
namespace Chatd.Library

abbrev Bytes := List UInt8

/-- The bytes of an ASCII literal, without the NUL the compiler appends. -/
def ascii (s : String) : Bytes := s.toList.map fun c => UInt8.ofNat c.toNat

inductive Fault where
  | nullDeref
  | outOfBounds
  deriving DecidableEq, Repr

section Except

universe u v

variable {ε : Type u} {α β : Type v}

@[simp] theorem ok_bind (a : α) (f : α → Except ε β) : (Except.ok a >>= f) = f a := rfl

theorem bind_eq_ok {x : Except ε α} {f : α → Except ε β} {b : β} (h : x >>= f = .ok b) :
    ∃ a, x = .ok a ∧ f a = .ok b := by
  cases x with
  | error e => cases h
  | ok a => exact ⟨a, rfl, h⟩

@[simp] theorem error_bind (e : ε) (f : α → Except ε β) :
    ((Except.error e : Except ε α) >>= f) = .error e := rfl

@[simp] theorem pure_eq_ok (a : α) : (pure a : Except ε α) = .ok a := rfl

end Except

def readAt (b : Bytes) (i : ℕ) : Except Fault UInt8 :=
  match b[i]? with
  | some c => .ok c
  | none => .error .outOfBounds

def writeAt (b : Bytes) (i : ℕ) (c : UInt8) : Except Fault Bytes :=
  if i < b.length then .ok (b.set i c) else .error .outOfBounds

/-- The string at an offset. -/
def cstr (b : Bytes) (off : ℕ) : Bytes := (b.drop off).takeWhile (· ≠ 0)

/-- `!strcmp(&b[off], s)` for a literal `s`. -/
def strEq (b : Bytes) (off : ℕ) (s : Bytes) : Except Fault Bool :=
  if 0 ∈ b.drop off then .ok (cstr b off == s) else .error .outOfBounds

theorem readAt_append (s : Bytes) (c : UInt8) (t : Bytes) :
    readAt (s ++ c :: t) s.length = .ok c := by
  simp [readAt]

theorem writeAt_append (s : Bytes) (c d : UInt8) (t : Bytes) :
    writeAt (s ++ c :: t) s.length d = .ok (s ++ d :: t) := by
  simp [writeAt]

/-- A run of non-NUL bytes followed by a NUL is the string at its offset. -/
theorem cstr_append {s w : Bytes} (h : 0 ∉ w) (t : Bytes) :
    cstr (s ++ w ++ 0 :: t) s.length = w := by
  rw [cstr, List.append_assoc, List.drop_left, List.takeWhile_append_of_pos]
  · simp
  · intro c hc
    have hne : c ≠ 0 := fun h0 => h (h0 ▸ hc)
    simpa using hne

theorem strEq_append {s w : Bytes} (h : 0 ∉ w) (t u : Bytes) :
    strEq (s ++ w ++ 0 :: t) s.length u = .ok (w == u) := by
  have hmem : (0 : UInt8) ∈ (s ++ w ++ 0 :: t).drop s.length := by
    rw [List.append_assoc, List.drop_left]
    simp
  rw [strEq, if_pos hmem, cstr_append h]

end Chatd.Library
