import Chatd.Collections.Ringbuffer.Growth

/-! # The ring buffer refines a double-ended list

Every call does to the contents what the operation does to the list, returns the same
code and element, keeps the representation invariant and stays inside the array.
-/
namespace Chatd.Collections.Ringbuffer
open Library

variable {α : Type*}

section Calls

variable {rb : Ringbuffer α} {d : Deque α} {cap t k n : ℕ} {arr : Block α} {e : α}

theorem Represents.store_head (h : rb.Represents d) (hroom : d.elems.length < d.cap) (e : α) :
    ∃ arr, rb.arr.store rb.head (some e) = .ok arr ∧
      ({ rb with arr, head := inc rb.head rb.cap, size := rb.size + 1 } : Ringbuffer α).Represents
        ⟨d.cap, d.elems ++ [e]⟩ := by
  have hcap := h.cap_eq
  have hsize := h.size_eq
  have ht := h.tail_lt (by omega)
  have hhead := h.head_eq (by omega)
  rw [hhead, Block.store_slot h.arr_length ht, inc_cyclic ht (by omega), ← hcap]
  refine ⟨_, rfl, represents_of_pos ?_ ht (by omega) rfl (by simp [hsize]) fun j hj => ?_⟩
  · rw [List.length_set, h.arr_length]
  · rw [List.length_append, List.length_singleton] at hj
    rw [Block.slot_set h.arr_length ht (by omega) (by omega)]
    by_cases hlast : j = rb.size
    · rw [if_pos hlast, hlast, hsize, List.getElem?_concat_length]
    · rw [if_neg hlast, h.holds j (by omega), List.getElem?_append_left (by omega)]

theorem Represents.store_tail (h : rb.Represents d) (hroom : d.elems.length < d.cap) (e : α) :
    ∃ arr, rb.arr.store (dec rb.tail rb.cap) (some e) = .ok arr ∧
      ({ rb with arr, tail := dec rb.tail rb.cap, size := rb.size + 1 } : Ringbuffer α).Represents
        ⟨d.cap, e :: d.elems⟩ := by
  have hcap := h.cap_eq
  have hsize := h.size_eq
  have ht := h.tail_lt (by omega)
  have hd := dec_lt ht
  have hzero : (dec rb.tail rb.cap + 0) % rb.cap = dec rb.tail rb.cap := Nat.mod_eq_of_lt hd
  have hstore := Block.store_slot h.arr_length hd 0 (some e)
  rw [hzero] at hstore
  rw [← hcap]
  refine ⟨_, hstore, represents_of_pos ?_ hd (by omega) ?_ (by simp [hsize]) fun j hj => ?_⟩
  · rw [List.length_set, h.arr_length]
  · rw [dec_add ht]
    exact h.head_eq (by omega)
  · rw [List.length_cons] at hj
    have hset := Block.slot_set (x := some e) h.arr_length hd (show j < rb.cap by omega)
      (show 0 < rb.cap by omega)
    rw [hzero] at hset
    rw [hset]
    cases j with
    | zero => rfl
    | succ j =>
      rw [if_neg (by omega), List.getElem?_cons_succ, ← h.holds j (by omega), Block.slot,
        Block.slot, h.arr_length, dec_add ht]

theorem Represents.pushFront (h : rb.Represents d) (e : α) :
    ∃ rb', pushFront true rb e = .ok (rb', .ok) ∧ rb'.Represents ⟨d.room, d.elems ++ [e]⟩ := by
  obtain ⟨rb₁, hmake, h₁, hroom⟩ := h.makeRoom
  obtain ⟨arr, hstore, h₂⟩ := h₁.store_head hroom e
  refine ⟨_, ?_, h₂⟩
  rw [Ringbuffer.pushFront, hmake, ok_bind]
  dsimp only
  rw [if_neg (by simp), hstore]
  rfl

theorem Represents.pushBack (h : rb.Represents d) (e : α) :
    ∃ rb', pushBack true rb e = .ok (rb', .ok) ∧ rb'.Represents ⟨d.room, e :: d.elems⟩ := by
  obtain ⟨rb₁, hmake, h₁, hroom⟩ := h.makeRoom
  obtain ⟨arr, hstore, h₂⟩ := h₁.store_tail hroom e
  refine ⟨_, ?_, h₂⟩
  rw [Ringbuffer.pushBack, hmake, ok_bind]
  dsimp only
  rw [if_neg (by simp), hstore]
  rfl

theorem shiftUp_spec (hlen : arr.length = cap) (ht : t < cap) (hk : k < cap) (hn : n ≤ k) :
    ∃ arr', shiftUp cap n ((t + k) % cap) arr = .ok (arr', (t + (k - n)) % cap) ∧
      arr'.length = cap ∧ ∀ j < cap, Block.slot arr' t j =
        if k - n < j ∧ j ≤ k then Block.slot arr t (j - 1) else Block.slot arr t j := by
  induction n generalizing k arr with
  | zero =>
    refine ⟨arr, rfl, hlen, fun j _ => ?_⟩
    rw [if_neg (by omega)]
  | succ n ih =>
    have hprev : dec ((t + k) % cap) cap = (t + (k - 1)) % cap := by
      have hdec := dec_cyclic ht (show k - 1 < cap by omega)
      rwa [show k - 1 + 1 = k by omega] at hdec
    obtain ⟨x, hx⟩ := Block.exists_slot hlen ht (k - 1)
    have hset : (arr.set ((t + k) % cap) x).length = cap := by rw [List.length_set, hlen]
    obtain ⟨arr', hshift, hlen', hslots⟩ := ih hset (show k - 1 < cap by omega) (by omega)
    refine ⟨arr', ?_, hlen', fun j hj => ?_⟩
    · rw [shiftUp, hprev, Block.load_slot hlen hx, ok_bind, Block.store_slot hlen ht, ok_bind,
        hshift, show k - 1 - n = k - (n + 1) by omega]
    · rw [hslots j hj]
      by_cases hjk : j = k
      · rw [if_neg (by omega), if_pos (by omega), Block.slot_set hlen ht hj hk, if_pos hjk, hjk, hx]
      · by_cases hin : k - 1 - n < j ∧ j ≤ k - 1
        · rw [if_pos hin, if_pos (by omega), Block.slot_set hlen ht (by omega) hk,
            if_neg (by omega)]
        · rw [if_neg hin, if_neg (by omega), Block.slot_set hlen ht hj hk, if_neg hjk]

theorem Represents.insert (h : rb.Represents d) {index : ℕ} (hindex : index ≤ d.elems.length)
    (e : α) :
    ∃ rb', insert true rb index e = .ok (rb', .ok) ∧
      rb'.Represents ⟨d.room, d.elems.insertIdx index e⟩ := by
  obtain ⟨rb₁, hmake, h₁, hroom⟩ := h.makeRoom
  have hcap := h₁.cap_eq
  have hsize := h₁.size_eq
  dsimp only at hcap hsize
  have ht := h₁.tail_lt (by omega)
  have hhead := h₁.head_eq (by omega)
  obtain ⟨arr, hshift, hlen, hslots⟩ := shiftUp_spec (k := rb₁.size) (n := rb₁.size - index)
    h₁.arr_length ht (by omega) (by omega)
  rw [← hhead, show rb₁.size - (rb₁.size - index) = index by omega] at hshift
  rw [show rb₁.size - (rb₁.size - index) = index by omega] at hslots
  rw [Ringbuffer.insert, if_neg (by rw [h.size_eq]; omega), hmake, ok_bind]
  dsimp only
  rw [if_neg (by simp), hshift, ok_bind]
  dsimp only
  rw [Block.store_slot hlen ht, ok_bind, hhead, inc_cyclic ht (by omega), ← hcap]
  refine ⟨_, rfl, represents_of_pos ?_ ht (by omega) rfl ?_ fun j hj => ?_⟩
  · rw [List.length_set, hlen]
  · rw [List.length_insertIdx_of_le_length hindex, hsize]
  · rw [List.length_insertIdx_of_le_length hindex] at hj
    rw [Block.slot_set hlen ht (by omega) (by omega), List.getElem?_insertIdx]
    by_cases hbelow : j < index
    · rw [if_neg (by omega), hslots j (by omega), if_neg (by omega), if_pos hbelow,
        h₁.holds j (by dsimp only; omega)]
    · by_cases hat : j = index
      · rw [if_pos hat, if_neg hbelow, if_pos hat, if_pos (by omega)]
      · rw [if_neg hat, hslots j (by omega), if_pos (by omega), if_neg hbelow, if_neg hat,
          h₁.holds (j - 1) (by dsimp only; omega)]

theorem WellFormed.dec_head (h : rb.WellFormed) (hpos : 0 < rb.size) :
    dec rb.head rb.cap = (rb.tail + (rb.size - 1)) % rb.cap := by
  have hle := h.size_le
  have ht := h.tail_lt (by omega)
  have hdec := dec_cyclic ht (show rb.size - 1 < rb.cap by omega)
  rwa [show rb.size - 1 + 1 = rb.size by omega, ← h.head_eq (by omega)] at hdec

theorem shiftDown_spec (hlen : arr.length = cap) (ht : t < cap) (hk : k + n ≤ cap) :
    ∃ arr', shiftDown cap n ((t + k) % cap) arr = .ok arr' ∧ arr'.length = cap ∧
      ∀ j, j + 1 < cap → Block.slot arr' t j =
        if k ≤ j ∧ j < k + n then Block.slot arr t (j + 1) else Block.slot arr t j := by
  induction n generalizing k arr with
  | zero =>
    refine ⟨arr, rfl, hlen, fun j _ => ?_⟩
    rw [if_neg (by omega)]
  | succ n ih =>
    obtain ⟨x, hx⟩ := Block.exists_slot hlen ht (k + 1)
    have hset : (arr.set ((t + k) % cap) x).length = cap := by rw [List.length_set, hlen]
    obtain ⟨arr', hshift, hlen', hslots⟩ := ih hset (show k + 1 + n ≤ cap by omega)
    refine ⟨arr', ?_, hlen', fun j hj => ?_⟩
    · rw [shiftDown, inc_cyclic ht (by omega), Block.load_slot hlen hx, ok_bind,
        Block.store_slot hlen ht, ok_bind, hshift]
    · rw [hslots j hj]
      by_cases hjk : j = k
      · rw [if_neg (by omega), if_pos (by omega), Block.slot_set hlen ht (by omega) (by omega),
          if_pos hjk, hjk, hx]
      · by_cases hin : k + 1 ≤ j ∧ j < k + 1 + n
        · rw [if_pos hin, if_pos (by omega), Block.slot_set hlen ht (by omega) (by omega),
            if_neg (by omega)]
        · rw [if_neg hin, if_neg (by omega), Block.slot_set hlen ht (by omega) (by omega),
            if_neg hjk]

theorem Represents.remove (h : rb.Represents d) {index : ℕ} (hindex : index < d.elems.length) :
    ∃ rb', remove rb index = .ok (rb', .ok, some d.elems[index]?) ∧
      rb'.Represents ⟨d.cap, d.elems.eraseIdx index⟩ := by
  have hcap := h.cap_eq
  have hsize := h.size_eq
  have hle := h.size_le
  have ht := h.tail_lt (by omega)
  obtain ⟨arr, hshift, hlen, hslots⟩ := shiftDown_spec (k := index) (n := rb.size - index)
    h.arr_length ht (by omega)
  rw [Ringbuffer.remove, if_neg (by omega)]
  dsimp only
  rw [Block.load_slot h.arr_length (h.holds index hindex), ok_bind, hshift, ok_bind,
    h.dec_head (by omega), ← hcap]
  refine ⟨_, rfl, represents_of_pos hlen ht (by omega) rfl ?_ fun j hj => ?_⟩
  · rw [List.length_eraseIdx_of_lt hindex, hsize]
  · rw [List.length_eraseIdx_of_lt hindex] at hj
    rw [hslots j (by omega), List.getElem?_eraseIdx]
    by_cases hbelow : j < index
    · rw [if_neg (by omega), if_pos hbelow, h.holds j (by omega)]
    · rw [if_pos (by omega), if_neg hbelow, h.holds (j + 1) (by omega)]

theorem Represents.popFront (h : rb.Represents d) (hne : d.elems ≠ []) :
    ∃ rb', popFront rb = .ok (rb', .ok, some d.elems.getLast?) ∧
      rb'.Represents ⟨d.cap, d.elems.dropLast⟩ := by
  have hpos := List.length_pos_of_ne_nil hne
  have hcap := h.cap_eq
  have hsize := h.size_eq
  have hle := h.size_le
  have ht := h.tail_lt (by omega)
  have hlast := h.holds (rb.size - 1) (by omega)
  rw [Ringbuffer.popFront, if_neg (by omega)]
  dsimp only
  rw [h.dec_head (by omega), Block.load_slot h.arr_length hlast, ok_bind,
    List.getLast?_eq_getElem?, ← hsize, ← hcap]
  refine ⟨_, rfl, represents_of_pos h.arr_length ht (by omega) rfl (by simp [hsize]) ?_⟩
  intro j hj
  rw [List.length_dropLast] at hj
  rw [h.holds j (by omega), List.getElem?_dropLast, if_pos (by omega)]

theorem Represents.popBack {x : α} {xs : List α} (h : rb.Represents ⟨cap, x :: xs⟩) :
    ∃ rb', popBack rb = .ok (rb', .ok, some (some x)) ∧ rb'.Represents ⟨cap, xs⟩ := by
  have hcap := h.cap_eq
  have hsize := h.size_eq
  have hle := h.size_le
  rw [List.length_cons] at hsize
  dsimp only at hcap
  have ht := h.tail_lt (by omega)
  have hfirst : rb.arr.load rb.tail = .ok (some x) := by
    have hload := Block.load_slot h.arr_length (h.holds 0 (Nat.zero_lt_succ _))
    rwa [Nat.add_zero, Nat.mod_eq_of_lt ht] at hload
  rw [Ringbuffer.popBack, if_neg (by omega), hfirst, ok_bind, ← hcap]
  refine ⟨_, rfl, represents_of_pos h.arr_length (inc_lt ht) (by omega) ?_ (by omega) ?_⟩
  · rw [inc_add ht, show rb.size - 1 + 1 = rb.size by omega]
    exact h.head_eq (by omega)
  · intro j hj
    rw [← List.getElem?_cons_succ (a := x), ← h.holds (j + 1) (Nat.succ_lt_succ hj), Block.slot,
      Block.slot, h.arr_length, inc_add ht]

/-- A call does to the contents what it does to the list, with the same result. -/
theorem Represents.exec (h : rb.Represents d) {op : RingOp α} (hop : d.allows op = true) :
    ∃ rb', exec rb op = .ok (rb', (d.exec op).2.1, (d.exec op).2.2.map some) ∧
      rb'.Represents (d.exec op).1 := by
  have hsize := h.size_eq
  cases op with
  | pushFront e =>
    obtain ⟨rb', hcall, h'⟩ := h.pushFront e
    exact ⟨rb', by rw [Ringbuffer.exec, hcall]; rfl, h'⟩
  | popFront =>
    rw [Ringbuffer.exec, Deque.exec]
    cases hlast : d.elems.getLast? with
    | none =>
      have hnil : d.elems = [] := List.getLast?_eq_none_iff.mp hlast
      exact ⟨rb, by rw [Ringbuffer.popFront, if_pos (by rw [hsize, hnil]; rfl)]; rfl, h⟩
    | some x =>
      have hne : d.elems ≠ [] := fun hnil => by simp [hnil] at hlast
      obtain ⟨rb', hcall, h'⟩ := h.popFront hne
      exact ⟨rb', by rw [hcall, hlast]; rfl, h'⟩
  | pushBack e =>
    obtain ⟨rb', hcall, h'⟩ := h.pushBack e
    exact ⟨rb', by rw [Ringbuffer.exec, hcall]; rfl, h'⟩
  | popBack =>
    rw [Ringbuffer.exec, Deque.exec]
    obtain ⟨cap, elems⟩ := d
    cases elems with
    | nil => exact ⟨rb, by rw [Ringbuffer.popBack, if_pos (show rb.size = 0 from hsize)]; rfl, h⟩
    | cons x xs => exact h.popBack
  | insert index e =>
    rw [Ringbuffer.exec, Deque.exec]
    by_cases hindex : index > d.elems.length
    · rw [if_pos hindex, Ringbuffer.insert, if_pos (by omega)]
      exact ⟨rb, rfl, h⟩
    · obtain ⟨rb', hcall, h'⟩ := h.insert (Nat.le_of_not_lt hindex) e
      rw [if_neg hindex, hcall]
      exact ⟨rb', rfl, h'⟩
  | remove index =>
    rw [Ringbuffer.exec, Deque.exec]
    by_cases hindex : index < d.elems.length
    · obtain ⟨rb', hcall, h'⟩ := h.remove hindex
      rw [hcall, List.getElem?_eq_getElem hindex]
      exact ⟨rb', rfl, h'⟩
    · rw [Ringbuffer.remove, if_pos (by omega), List.getElem?_eq_none (by omega)]
      exact ⟨rb, rfl, h⟩
  | get index =>
    have hindex : index < d.elems.length := by simpa [Deque.allows] using hop
    rw [Ringbuffer.exec, Ringbuffer.get, Block.load_slot h.arr_length (h.holds index hindex),
      Deque.exec, List.getElem?_eq_getElem hindex]
    exact ⟨rb, rfl, h⟩
  | expand cap =>
    rw [Ringbuffer.exec, Deque.exec]
    by_cases hcap : d.cap > cap
    · rw [if_pos hcap, Ringbuffer.expand, if_pos (by rw [h.cap_eq]; exact hcap)]
      exact ⟨rb, rfl, h⟩
    · obtain ⟨rb', hcall, h'⟩ := h.expand (Nat.le_of_not_lt hcap)
      rw [if_neg hcap, hcall]
      exact ⟨rb', rfl, h'⟩

theorem Represents.execAll (h : rb.Represents d) {ops : List (RingOp α)}
    (hops : d.allowsAll ops = true) :
    ∃ rb', execAll rb ops =
        .ok (rb', (d.execAll ops).2.map fun result => (result.1, result.2.map some)) ∧
      rb'.Represents (d.execAll ops).1 := by
  induction ops generalizing rb d with
  | nil => exact ⟨rb, rfl, h⟩
  | cons op ops ih =>
    rw [Deque.allowsAll, Bool.and_eq_true] at hops
    obtain ⟨rb₁, hexec, h₁⟩ := h.exec hops.1
    obtain ⟨rb₂, hrest, h₂⟩ := ih h₁ hops.2
    refine ⟨rb₂, ?_, h₂⟩
    rw [Ringbuffer.execAll, hexec, ok_bind]
    dsimp only
    rw [hrest]
    rfl

end Calls

/-- The ring buffers that a run begins with, and the lists they stand for. -/
inductive Started : Ringbuffer α → Deque α → Prop
  | init {rb : Ringbuffer α} (h : init true = (some rb, .ok)) : Started rb ⟨vecExpandDelta, []⟩
  | withCapacity {rb : Ringbuffer α} {cap : ℕ} (hcap : 0 < cap)
      (h : withCapacity true cap = (some rb, .ok)) : Started rb ⟨cap, []⟩
  | fromVec {v : Vec α} {xs : List α} (h : v.Represents xs) : Started (fromVec v) ⟨v.cap, xs⟩

theorem withCapacity_represents {rb : Ringbuffer α} {cap : ℕ} (hcap : 0 < cap)
    (h : withCapacity true cap = (some rb, .ok)) : rb.Represents ⟨cap, []⟩ := by
  rw [withCapacity, if_neg (by simp; omega)] at h
  cases h
  refine represents_of_pos (by simp [Block.alloc]) hcap (Nat.zero_le cap) ?_ rfl ?_
  · rw [Nat.zero_add, Nat.zero_mod]
  · intro j hj
    cases hj

theorem fromVec_represents {v : Vec α} {xs : List α} (h : v.Represents xs) :
    (fromVec v).Represents ⟨v.cap, xs⟩ := by
  have hle := h.size_le
  have hsize := h.size_eq
  constructor
  case toWellFormed =>
    constructor
    case arr_length => exact h.arr_length
    case size_le => exact hle
    case tail_lt => exact id
    case head_eq =>
      intro hpos
      by_cases hfull : v.cap = v.size
      · simp [fromVec, hfull]
      · simp only [fromVec, if_neg hfull, Nat.zero_add]
        exact (Nat.mod_eq_of_lt (by omega)).symm
    case unallocated =>
      intro hzero
      have hcap : v.cap = 0 := hzero
      have hfull : v.cap = v.size := by omega
      simp [fromVec, hfull]
  case cap_eq => rfl
  case size_eq => exact hsize
  case holds =>
    intro j hj
    have hlen := h.arr_length
    show v.arr[(0 + j) % v.arr.length]? = some xs[j]?
    rw [Nat.zero_add, Nat.mod_eq_of_lt (by dsimp only at hj; omega)]
    exact h.holds j hj

theorem Started.represents {rb : Ringbuffer α} {d : Deque α} (h : Started rb d) :
    rb.Represents d := by
  cases h with
  | init h => exact withCapacity_represents (Nat.zero_lt_succ _) h
  | withCapacity hcap h => exact withCapacity_represents hcap h
  | fromVec h => exact fromVec_represents h

/-- In every run each call returns what the list operation returns and leaves the
contents it leaves, within the allocated array and the representation invariant. -/
theorem execAll_refines {rb : Ringbuffer α} {d : Deque α} (h : Started rb d)
    (ops : List (RingOp α)) (hops : d.allowsAll ops = true) :
    ∃ rb', execAll rb ops =
        .ok (rb', (d.execAll ops).2.map fun result => (result.1, result.2.map some)) ∧
      rb'.WellFormed ∧ rb'.cap = (d.execAll ops).1.cap ∧
      rb'.contents = (d.execAll ops).1.elems.map some := by
  obtain ⟨rb', hexec, h'⟩ := h.represents.execAll hops
  exact ⟨rb', hexec, h'.toWellFormed, h'.cap_eq, h'.contents_eq⟩

/-- A full buffer whose contents wrap around grows. -/
theorem execAll_refines_wrapped :
    ∃ rb' results, execAll (⟨2, 0, 0, 0, [none, none]⟩ : Ringbuffer ℕ)
        [.pushFront 1, .pushFront 2, .popBack, .pushFront 3, .insert 1 4, .get 2] =
          .ok (rb', results) ∧ rb'.contents = [some 2, some 4, some 3] := by
  obtain ⟨rb', hexec, -, -, hcontents⟩ := execAll_refines
    (Started.withCapacity (Nat.zero_lt_succ 1) rfl)
    [.pushFront 1, .pushFront 2, .popBack, .pushFront 3, .insert 1 4, .get 2] (by decide)
  exact ⟨rb', _, hexec, hcontents⟩

end Chatd.Collections.Ringbuffer
