import Chatd.Collections.Ringbuffer

/-! # Growing a ring buffer

When the elements wrap around the end of the array, the wrapped part continues in the
new slots, and what does not fit there moves to the front.
-/
namespace Chatd.Collections.Ringbuffer
open Library

variable {α : Type*}

section Growth

variable {rb : Ringbuffer α} {d : Deque α} {cap : ℕ}

theorem holds_of_not_wrapped {arr arr' : Block α} {xs : List α} {t : ℕ}
    (hlen : t + xs.length ≤ arr.length) (hlen' : arr.length ≤ arr'.length)
    (harr : ∀ i < arr.length, arr'[i]? = arr[i]?) (h : Block.Holds arr t xs) :
    Block.Holds arr' t xs := by
  intro j hj
  rw [← h j hj, Block.slot, Block.slot, Nat.mod_eq_of_lt (by omega), Nat.mod_eq_of_lt (by omega)]
  exact harr _ (by omega)

/-- The part of the elements that had wrapped goes on behind the old end. -/
theorem holds_of_wrapped {arr arr' : Block α} {xs : List α} {t : ℕ} (ht : t < arr.length)
    (hle : xs.length ≤ arr.length) (hgrow : arr.length ≤ arr'.length)
    (hkeep : ∀ i, t ≤ i → i < arr.length → arr'[i]? = arr[i]?)
    (hnear : ∀ i, t + xs.length > arr.length + i → arr.length + i < arr'.length →
      arr'[arr.length + i]? = arr[i]?)
    (hfar : ∀ i, t + xs.length > arr'.length + i → arr'[i]? = arr[i + (arr'.length - arr.length)]?)
    (h : Block.Holds arr t xs) : Block.Holds arr' t xs := by
  intro j hj
  have ht' : t < arr'.length := by omega
  rw [← h j hj, Block.slot, Block.slot, cyclic_eq ht (by omega), cyclic_eq ht' (by omega)]
  by_cases hwrap : t + j < arr.length
  · rw [if_pos (by omega), if_pos hwrap]
    exact hkeep _ (by omega) hwrap
  · by_cases hwrap' : t + j < arr'.length
    · rw [if_neg hwrap, if_pos hwrap', show t + j = arr.length + (t + j - arr.length) by omega,
        hnear _ (by omega) (by omega), Nat.add_sub_cancel_left]
    · rw [if_neg hwrap, if_neg hwrap', hfar _ (by omega)]
      congr 1
      omega

theorem Represents.regrown (h : rb.Represents d) (hcap : rb.cap < cap) {arr : Block α} {head : ℕ}
    (harr : arr.length = cap) (hhead : head = (rb.tail + rb.size) % cap)
    (hholds : Block.Holds arr rb.tail d.elems) :
    ({ rb with arr, cap, head } : Ringbuffer α).Represents { d with cap } := by
  have hsize := h.size_le
  refine represents_of_pos harr ?_ (by omega) hhead h.size_eq hholds
  rcases Nat.eq_zero_or_pos rb.cap with h0 | h0
  · have hzero := h.unallocated h0
    omega
  · have ht := h.tail_lt h0
    omega

theorem Represents.grow_plain (h : rb.Represents d) (hcap : rb.cap < cap)
    (hplain : rb.size = 0 ∨ rb.head > rb.tail) :
    ({ rb with arr := rb.arr.grow cap, cap } : Ringbuffer α).Represents { d with cap } := by
  have hlen := h.arr_length
  have hle := h.size_le
  have hsize := h.size_eq
  have hgrown : (rb.arr.grow cap).length = cap := Block.length_grow (by omega)
  have hend : rb.head = rb.tail + rb.size ∧ rb.tail + rb.size ≤ rb.cap := by
    rcases Nat.eq_zero_or_pos rb.cap with h0 | h0
    · have hzero := h.unallocated h0
      omega
    · have ht := h.tail_lt h0
      have hhead := h.head_eq h0
      rw [cyclic_eq ht h.size_le] at hhead
      split_ifs at hhead <;> omega
  apply h.regrown hcap hgrown
  · rw [hend.1, Nat.mod_eq_of_lt]
    omega
  · have hslots (i : ℕ) (hi : i < rb.arr.length) : (rb.arr.grow cap)[i]? = rb.arr[i]? :=
      Block.getElem?_grow hi
    refine holds_of_not_wrapped ?_ ?_ hslots h.holds
    · omega
    · omega

theorem Represents.tail_add_size (h : rb.Represents d) (hsize : 0 < rb.size)
    (hwrapped : rb.head ≤ rb.tail) : rb.tail + rb.size = rb.cap + rb.head := by
  have hle := h.size_le
  have ht := h.tail_lt (by omega)
  have hhead := h.head_eq (by omega)
  rw [cyclic_eq ht hle] at hhead
  split_ifs at hhead <;> omega

/-- A wrapped part that does not fit fills the new slots, and its rest moves to the front. -/
theorem Represents.grow_shifted (h : rb.Represents d) (hcap : rb.cap < cap) (hsize : 0 < rb.size)
    (hwrapped : rb.head ≤ rb.tail) (hshift : rb.head ≥ cap - rb.cap) :
    ∃ arr arr', (rb.arr.grow cap).copy rb.cap 0 (cap - rb.cap) 0 = .ok arr ∧
      arr.copy 0 (cap - rb.cap) (rb.head - (cap - rb.cap)) 0 = .ok arr' ∧
      ({ rb with arr := arr', cap, head := rb.head - (cap - rb.cap) } : Ringbuffer α).Represents
        { d with cap } := by
  have hlen := h.arr_length
  have hle := h.size_le
  have helems := h.size_eq
  have ht := h.tail_lt (by omega)
  have hend := h.tail_add_size hsize hwrapped
  have hgrown : (rb.arr.grow cap).length = cap := Block.length_grow (by omega)
  have hget (i : ℕ) (hi : i < rb.cap) : (rb.arr.grow cap)[i]? = rb.arr[i]? :=
    Block.getElem?_grow (by omega)
  obtain ⟨arr, hcopy, harr, hslots⟩ := Block.copy_spec (rb.arr.grow cap) rb.cap 0
    (cap - rb.cap) (by omega) (by omega) (by omega)
  obtain ⟨arr', hcopy', harr', hslots'⟩ := Block.copy_spec arr 0 (cap - rb.cap)
    (rb.head - (cap - rb.cap)) (by omega) (by omega) (by omega)
  refine ⟨arr, arr', hcopy, hcopy', h.regrown hcap (by omega) ?_ ?_⟩
  · rw [cyclic_eq (by omega) (by omega)]
    split_ifs <;> omega
  · refine holds_of_wrapped ?_ ?_ ?_ ?_ ?_ ?_ h.holds
    · omega
    · omega
    · omega
    · intro i hti hi
      rw [hslots', if_neg (by omega), hslots, if_neg (by omega), hget i (by omega)]
    · intro i hi hi'
      rw [hslots', if_neg (by omega), hslots, if_pos (by omega), hget _ (by omega)]
      congr 1
      omega
    · intro i hi
      rw [hslots', if_pos (by omega), hslots, if_neg (by omega), hget _ (by omega)]
      congr 1
      omega

/-- A wrapped part that fits moves behind the old end. -/
theorem Represents.grow_unwrapped (h : rb.Represents d) (hcap : rb.cap < cap)
    (hsize : 0 < rb.size) (hwrapped : rb.head ≤ rb.tail) (hfits : rb.head < cap - rb.cap) :
    ∃ arr, (rb.arr.grow cap).copy rb.cap 0 rb.head 0 = .ok arr ∧
      ({ rb with arr, cap, head := (rb.tail + rb.size) % cap } : Ringbuffer α).Represents
        { d with cap } := by
  have hlen := h.arr_length
  have hle := h.size_le
  have helems := h.size_eq
  have ht := h.tail_lt (by omega)
  have hend := h.tail_add_size hsize hwrapped
  have hgrown : (rb.arr.grow cap).length = cap := Block.length_grow (by omega)
  have hget (i : ℕ) (hi : i < rb.cap) : (rb.arr.grow cap)[i]? = rb.arr[i]? :=
    Block.getElem?_grow (by omega)
  obtain ⟨arr, hcopy, harr, hslots⟩ := Block.copy_spec (rb.arr.grow cap) rb.cap 0 rb.head
    (by omega) (by omega) (by omega)
  refine ⟨arr, hcopy, h.regrown hcap (by omega) rfl ?_⟩
  refine holds_of_wrapped ?_ ?_ ?_ ?_ ?_ ?_ h.holds
  · omega
  · omega
  · omega
  · intro i hti hi
    rw [hslots, if_neg (by omega), hget i (by omega)]
  · intro i hi hi'
    rw [hslots, if_pos (by omega), hget _ (by omega)]
    congr 1
    omega
  · intro i hi
    omega

/-- `ringbuffer_expand` changes the capacity and nothing else. -/
theorem Represents.expand (h : rb.Represents d) (hcap : d.cap ≤ cap) :
    ∃ rb', expand true rb cap = .ok (rb', .ok) ∧ rb'.Represents { d with cap } := by
  have hcapd := h.cap_eq
  rw [Ringbuffer.expand, if_neg (by omega)]
  by_cases hsame : rb.cap = cap
  · rw [if_pos hsame]
    exact ⟨rb, rfl, { h with cap_eq := hsame }⟩
  rw [if_neg hsame, if_neg (by simp)]
  dsimp only
  have hlt : rb.cap < cap := by omega
  by_cases hplain : rb.size = 0 ∨ rb.head > rb.tail
  · rw [if_pos hplain]
    exact ⟨_, rfl, h.grow_plain hlt hplain⟩
  rw [if_neg hplain]
  have hsize : 0 < rb.size := by omega
  have hwrapped : rb.head ≤ rb.tail := by omega
  by_cases hshift : rb.head ≥ cap - rb.cap
  · obtain ⟨arr, arr', hcopy, hcopy', hgrown⟩ := h.grow_shifted hlt hsize hwrapped hshift
    rw [if_pos hshift, hcopy, ok_bind, hcopy', ok_bind]
    exact ⟨_, rfl, hgrown⟩
  · obtain ⟨arr, hcopy, hgrown⟩ := h.grow_unwrapped hlt hsize hwrapped (by omega)
    rw [if_neg hshift, hcopy, ok_bind]
    exact ⟨_, rfl, hgrown⟩

theorem Represents.makeRoom (h : rb.Represents d) :
    ∃ rb', makeRoom true rb = .ok (rb', .ok) ∧ rb'.Represents ⟨d.room, d.elems⟩ ∧
      d.elems.length < d.room := by
  have hsize := h.size_eq
  have hle := h.size_le
  have hcap := h.cap_eq
  rw [Ringbuffer.makeRoom, Deque.room]
  by_cases hfull : rb.size = rb.cap
  · have hfull' : d.elems.length = d.cap := by omega
    rw [if_pos hfull, if_pos hfull', hcap]
    obtain ⟨rb', hexpand, h'⟩ := h.expand (Nat.le_add_right d.cap expandDelta)
    exact ⟨rb', hexpand, h', by rw [expandDelta]; omega⟩
  · have hfull' : d.elems.length ≠ d.cap := by omega
    rw [if_neg hfull, if_neg hfull']
    exact ⟨rb, rfl, h, by omega⟩

end Growth

section Failure

variable (rb : Ringbuffer α)

/-- Without memory a call either does what it does with it, or returns `C_NOMEM` and leaves
the buffer alone. -/
theorem expand_false (cap : ℕ) :
    expand false rb cap = expand true rb cap ∨ expand false rb cap = .ok (rb, .nomem) := by
  rw [expand, expand]
  by_cases hgreater : rb.cap > cap
  · rw [if_pos hgreater, if_pos hgreater]
    exact .inl rfl
  · by_cases hsame : rb.cap = cap
    · rw [if_neg hgreater, if_neg hgreater, if_pos hsame, if_pos hsame]
      exact .inl rfl
    · rw [if_neg hgreater, if_neg hsame, if_pos rfl]
      exact .inr rfl

theorem makeRoom_false :
    makeRoom false rb = makeRoom true rb ∨ makeRoom false rb = .ok (rb, .nomem) := by
  rw [makeRoom, makeRoom]
  by_cases hfull : rb.size = rb.cap
  · rw [if_pos hfull, if_pos hfull]
    exact expand_false rb _
  · rw [if_neg hfull, if_neg hfull]
    exact .inl rfl

theorem pushFront_false (e : α) :
    pushFront false rb e = pushFront true rb e ∨ pushFront false rb e = .ok (rb, .nomem) := by
  rcases makeRoom_false rb with hroom | hroom
  · rw [pushFront, pushFront, hroom]
    exact .inl rfl
  · rw [pushFront, hroom]
    exact .inr rfl

theorem pushBack_false (e : α) :
    pushBack false rb e = pushBack true rb e ∨ pushBack false rb e = .ok (rb, .nomem) := by
  rcases makeRoom_false rb with hroom | hroom
  · rw [pushBack, pushBack, hroom]
    exact .inl rfl
  · rw [pushBack, hroom]
    exact .inr rfl

theorem insert_false (index : ℕ) (e : α) :
    insert false rb index e = insert true rb index e ∨
      insert false rb index e = .ok (rb, .nomem) := by
  rw [insert, insert]
  by_cases hindex : index > rb.size
  · rw [if_pos hindex, if_pos hindex]
    exact .inl rfl
  · rw [if_neg hindex, if_neg hindex]
    rcases makeRoom_false rb with hroom | hroom
    · rw [hroom]
      exact .inl rfl
    · rw [hroom]
      exact .inr rfl

end Failure

end Chatd.Collections.Ringbuffer
