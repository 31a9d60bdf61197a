import Mathlib.Data.List.Basic
import Chatd.Library.CString

/-! # Blocks of slots and cyclic windows

A block is a heap array of slots, some of them not initialised yet. Accesses outside of
it are faults. A cyclic window reads a block from a start index on, going on at index
zero behind the last slot.
-/
namespace Chatd.Library

variable {α : Type*}

/-- A slot, or nothing where `malloc` left it uninitialised. -/
abbrev Slot (α : Type*) := Option α

abbrev Block (α : Type*) := List (Slot α)

namespace Block

def alloc (n : ℕ) : Block α := List.replicate n none

/-- `realloc` to a number of slots that is no smaller. -/
def grow (b : Block α) (n : ℕ) : Block α := b ++ alloc (n - b.length)

/-- `realloc` to any number of slots. -/
def realloc (b : Block α) (n : ℕ) : Block α := b.take n ++ alloc (n - b.length)

def load (b : Block α) (i : ℕ) : Except Fault (Slot α) :=
  match b[i]? with
  | some x => .ok x
  | none => .error .outOfBounds

def store (b : Block α) (i : ℕ) (x : Slot α) : Except Fault (Block α) :=
  if i < b.length then .ok (b.set i x) else .error .outOfBounds

/-- `for (; n; n--, i++) b[dst + i] = b[src + i];` -/
def copy (dst src : ℕ) : (n i : ℕ) → Block α → Except Fault (Block α)
  | 0, _, b => .ok b
  | n + 1, i, b => do
    let x ← load b (src + i)
    let b ← store b (dst + i) x
    copy dst src n (i + 1) b

/-- `for (; n; n--, i++) target[dst + i] = b[src + i];` with two blocks. -/
def copyTo (b : Block α) (dst src : ℕ) : (n i : ℕ) → Block α → Except Fault (Block α)
  | 0, _, target => .ok target
  | n + 1, i, target => do
    let x ← load b (src + i)
    let target ← store target (dst + i) x
    copyTo b dst src n (i + 1) target

variable {b : Block α} {x : Slot α} {i j n : ℕ}

theorem load_eq (h : b[i]? = some x) : load b i = .ok x := by
  rw [load, h]

theorem store_eq (h : i < b.length) (x : Slot α) : store b i x = .ok (b.set i x) := if_pos h

theorem load_error (h : b.length ≤ i) : load b i = .error .outOfBounds := by
  rw [load, List.getElem?_eq_none h]

theorem store_error (h : b.length ≤ i) (x : Slot α) : store b i x = .error .outOfBounds :=
  if_neg (Nat.not_lt.mpr h)

theorem length_grow (h : b.length ≤ n) : (grow b n).length = n := by
  simp [grow, alloc, h]

theorem getElem?_grow (h : i < b.length) : (grow b n)[i]? = b[i]? :=
  List.getElem?_append_left h

@[simp] theorem length_alloc (n : ℕ) : (alloc n : Block α).length = n := List.length_replicate

@[simp] theorem length_realloc (b : Block α) (n : ℕ) : (realloc b n).length = n := by
  rw [realloc, List.length_append, List.length_take, length_alloc]
  omega

theorem getElem?_realloc (hb : i < b.length) (hn : i < n) : (realloc b n)[i]? = b[i]? := by
  rw [realloc, List.getElem?_append_left (by rw [List.length_take]; omega),
    List.getElem?_take_of_lt hn]

theorem getElem?_written (read : ℕ → Option (Slot α)) {b' : Block α} {dst src : ℕ}
    (hdst : dst + i < b.length) (hread : read (src + i) = some x)
    (hrest : ∀ j, b'[j]? = if dst + (i + 1) ≤ j ∧ j < dst + (i + 1 + n)
      then read (src + (j - dst)) else (b.set (dst + i) x)[j]?) (j : ℕ) :
    b'[j]? = if dst + i ≤ j ∧ j < dst + (i + (n + 1))
      then read (src + (j - dst)) else b[j]? := by
  rw [hrest j]
  by_cases hj : j = dst + i
  · subst hj
    rw [if_neg (by omega), if_pos (by omega), List.getElem?_set_self hdst,
      show src + (dst + i - dst) = src + i by omega, hread]
  · by_cases hin : dst + (i + 1) ≤ j ∧ j < dst + (i + 1 + n)
    · rw [if_pos hin, if_pos (by omega)]
    · rw [if_neg hin, if_neg (by omega), List.getElem?_set_ne (Ne.symm hj)]

/-- The loop from index `i` on, when it reads no slot that it has written. -/
theorem copy_from (dst src : ℕ) (hover : dst ≤ src ∨ src + (i + n) ≤ dst)
    (hsrc : src + (i + n) ≤ b.length) (hdst : dst + (i + n) ≤ b.length) :
    ∃ b', copy dst src n i b = .ok b' ∧ b'.length = b.length ∧
      ∀ j, b'[j]? = if dst + i ≤ j ∧ j < dst + (i + n) then b[src + (j - dst)]? else b[j]? := by
  induction n generalizing i b with
  | zero =>
    refine ⟨b, rfl, rfl, fun j => ?_⟩
    rw [if_neg (by omega)]
  | succ n ih =>
    have hread : b[src + i]? = some b[src + i] := List.getElem?_eq_getElem (by omega)
    obtain ⟨b', hcopy, hlen, hb'⟩ := ih (b := b.set (dst + i) b[src + i]) (i := i + 1) (by omega)
      (by rw [List.length_set]; omega) (by rw [List.length_set]; omega)
    refine ⟨b', ?_, by rw [hlen, List.length_set], fun j => ?_⟩
    · rw [copy, load_eq hread, ok_bind, store_eq (by omega), ok_bind, hcopy]
    · refine getElem?_written (fun j => b[j]?) (by omega) hread (fun j => ?_) j
      rw [hb' j]
      -- The slots still to read are not the one just written.
      split
      case isTrue hin => rw [List.getElem?_set_ne (by omega)]
      case isFalse => rfl

theorem copy_spec (b : Block α) (dst src n : ℕ) (hover : dst ≤ src ∨ src + n ≤ dst)
    (hsrc : src + n ≤ b.length) (hdst : dst + n ≤ b.length) :
    ∃ b', copy dst src n 0 b = .ok b' ∧ b'.length = b.length ∧
      ∀ j, b'[j]? = if dst ≤ j ∧ j < dst + n then b[src + (j - dst)]? else b[j]? := by
  have h := copy_from (b := b) (i := 0) (n := n) dst src
  simp only [Nat.zero_add, Nat.add_zero] at h
  exact h hover hsrc hdst

/-- The copying loop faults when it leaves the block. -/
theorem copy_error (dst src : ℕ) (hn : 0 < n)
    (hout : b.length < src + (i + n) ∨ b.length < dst + (i + n)) :
    copy dst src n i b = .error .outOfBounds := by
  induction n generalizing i b with
  | zero => exact absurd hn (Nat.lt_irrefl 0)
  | succ n ih =>
    rw [copy]
    by_cases hsrc : src + i < b.length
    · rw [load_eq (List.getElem?_eq_getElem hsrc), ok_bind]
      by_cases hdst : dst + i < b.length
      · rw [store_eq hdst, ok_bind]
        refine ih (by omega) ?_
        rw [List.length_set]
        omega
      · rw [store_error (by omega), error_bind]
    · rw [load_error (by omega), error_bind]

theorem copyTo_from (other : Block α) (dst src : ℕ) (hsrc : src + (i + n) ≤ other.length)
    (hdst : dst + (i + n) ≤ b.length) :
    ∃ b', copyTo other dst src n i b = .ok b' ∧ b'.length = b.length ∧
      ∀ j, b'[j]? =
        if dst + i ≤ j ∧ j < dst + (i + n) then other[src + (j - dst)]? else b[j]? := by
  induction n generalizing i b with
  | zero =>
    refine ⟨b, rfl, rfl, fun j => ?_⟩
    rw [if_neg (by omega)]
  | succ n ih =>
    have hread : other[src + i]? = some other[src + i] := List.getElem?_eq_getElem (by omega)
    obtain ⟨b', hcopy, hlen, hb'⟩ := ih (b := b.set (dst + i) other[src + i]) (i := i + 1)
      (by omega) (by rw [List.length_set]; omega)
    refine ⟨b', ?_, by rw [hlen, List.length_set], fun j => ?_⟩
    · rw [copyTo, load_eq hread, ok_bind, store_eq (by omega), ok_bind, hcopy]
    · exact getElem?_written (fun j => other[j]?) (by omega) hread hb' j

theorem copyTo_spec (b other : Block α) (dst src n : ℕ) (hsrc : src + n ≤ other.length)
    (hdst : dst + n ≤ b.length) :
    ∃ b', copyTo other dst src n 0 b = .ok b' ∧ b'.length = b.length ∧
      ∀ j, b'[j]? = if dst ≤ j ∧ j < dst + n then other[src + (j - dst)]? else b[j]? := by
  have h := copyTo_from (b := b) (i := 0) (n := n) other dst src
  simp only [Nat.zero_add, Nat.add_zero] at h
  exact h hsrc hdst

theorem copyTo_error (other : Block α) (dst src : ℕ) (hn : 0 < n)
    (hout : b.length < dst + (i + n)) :
    copyTo other dst src n i b = .error .outOfBounds := by
  induction n generalizing i b with
  | zero => exact absurd hn (Nat.lt_irrefl 0)
  | succ n ih =>
    rw [copyTo]
    by_cases hsrc : src + i < other.length
    · rw [load_eq (List.getElem?_eq_getElem hsrc), ok_bind]
      by_cases hdst : dst + i < b.length
      · rw [store_eq hdst, ok_bind]
        refine ih (by omega) ?_
        rw [List.length_set]
        omega
      · rw [store_error (by omega), error_bind]
    · rw [load_error (by omega), error_bind]

end Block

section Cyclic

variable {b : Block α} {x : Slot α} {cap t i j k : ℕ}

/-- A cyclic index crosses the end at most once. -/
theorem cyclic_eq (ht : t < cap) (hj : j ≤ cap) :
    (t + j) % cap = if t + j < cap then t + j else t + j - cap := by
  split
  case isTrue h => exact Nat.mod_eq_of_lt h
  case isFalse h =>
    rw [Nat.mod_eq_sub_mod (by omega), Nat.mod_eq_of_lt (by omega)]

theorem cyclic_lt (ht : t < cap) : (t + j) % cap < cap := Nat.mod_lt _ (by omega)

theorem cyclic_injective (ht : t < cap) (hi : i < cap) (hj : j < cap)
    (h : (t + i) % cap = (t + j) % cap) : i = j := by
  rw [cyclic_eq ht (Nat.le_of_lt hi), cyclic_eq ht (Nat.le_of_lt hj)] at h
  split_ifs at h <;> omega

/-- The slot at a position of the cyclic window that starts at index `t`. -/
def Block.slot (b : Block α) (t j : ℕ) : Option (Slot α) := b[(t + j) % b.length]?

theorem Block.exists_slot (hlen : b.length = cap) (ht : t < cap) (j : ℕ) :
    ∃ x, slot b t j = some x := by
  subst hlen
  exact ⟨_, List.getElem?_eq_getElem (cyclic_lt ht)⟩

theorem Block.load_slot (hlen : b.length = cap) (h : slot b t j = some x) :
    load b ((t + j) % cap) = .ok x := by
  subst hlen
  exact load_eq h

theorem Block.store_slot (hlen : b.length = cap) (ht : t < cap) (k : ℕ) (x : Slot α) :
    store b ((t + k) % cap) x = .ok (b.set ((t + k) % cap) x) := by
  subst hlen
  exact store_eq (cyclic_lt ht) x

theorem Block.slot_set (hlen : b.length = cap) (ht : t < cap) (hj : j < cap) (hk : k < cap) :
    slot (b.set ((t + k) % cap) x) t j = if j = k then some x else slot b t j := by
  subst hlen
  rw [slot, slot, List.length_set]
  by_cases h : j = k
  · subst h
    rw [if_pos rfl, List.getElem?_set_self (cyclic_lt ht)]
  · rw [if_neg h, List.getElem?_set_ne fun hjk => h (cyclic_injective ht hj hk hjk.symm)]

/-- The window from `t` on holds a list. -/
def Block.Holds (b : Block α) (t : ℕ) (xs : List α) : Prop :=
  ∀ j < xs.length, slot b t j = some xs[j]?

end Cyclic

end Chatd.Library
