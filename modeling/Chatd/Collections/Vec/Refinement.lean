import Chatd.Collections.Vec

/-! # The vector refines a list

Every call does to the elements what the operation does to the list, returns the same
code, element and index, and stays inside the array.
-/
namespace Chatd.Collections.Vec
open Library

variable {α : Type*} {v : Vec α} {xs : List α} {arr : Block α} {e : α} {index n : ℕ}

theorem Represents.contents_eq (h : v.Represents xs) : v.contents = xs.map some := by
  have hlen := h.arr_length
  have hle := h.size_le
  have hsize := h.size_eq
  apply List.ext_getElem?
  intro i
  rw [contents, List.getElem?_map]
  by_cases hi : i < v.size
  · rw [List.getElem?_take_of_lt hi, h.holds i (by omega), List.getElem?_eq_getElem (by omega),
      Option.map_some]
  · rw [List.getElem?_eq_none (by rw [List.length_take]; omega), List.getElem?_eq_none (by omega),
      Option.map_none]

section Growth

variable {cap : ℕ}

/-- `vec_expand` changes the capacity and nothing else. -/
theorem Represents.expand (h : v.Represents xs) (hcap : v.cap ≤ cap) :
    ∃ v', expand true v cap = (v', .ok) ∧ v'.Represents xs ∧ v'.cap = cap := by
  have hlen := h.arr_length
  have hle := h.size_le
  have hsize := h.size_eq
  rw [Vec.expand, if_neg (by omega)]
  by_cases hsame : v.cap = cap
  · rw [if_pos hsame]
    exact ⟨v, rfl, h, hsame⟩
  · rw [if_neg hsame, if_neg (by simp)]
    refine ⟨_, rfl, ⟨Block.length_realloc v.arr cap, ?_, hsize, fun i hi => ?_⟩, rfl⟩
    · exact Nat.le_trans hle hcap
    · rw [Block.getElem?_realloc (by omega) (by omega)]
      exact h.holds i hi

theorem Represents.makeRoom (h : v.Represents xs) :
    ∃ v', makeRoom true v = (v', .ok) ∧ v'.Represents xs ∧
      v'.cap = Sequence.room ⟨v.cap, xs⟩ ∧ xs.length < v'.cap := by
  have hle := h.size_le
  have hsize := h.size_eq
  rw [Vec.makeRoom, Sequence.room]
  by_cases hfull : v.size = v.cap
  · obtain ⟨v', hexpand, h', hcap⟩ := h.expand (Nat.le_add_right v.cap expandDelta)
    rw [if_pos hfull, if_pos (by dsimp only; omega)]
    exact ⟨v', hexpand, h', hcap, by rw [hcap, expandDelta]; omega⟩
  · rw [if_neg hfull, if_neg (by dsimp only; omega)]
    exact ⟨v, rfl, h, rfl, by omega⟩

end Growth

section Shifting

theorem shiftUp_spec (arr : Block α) (index n : ℕ) (hlen : index + n < arr.length) :
    ∃ arr', shiftUp index n arr = .ok arr' ∧ arr'.length = arr.length ∧
      ∀ j, arr'[j]? = if index < j ∧ j ≤ index + n then arr[j - 1]? else arr[j]? := by
  induction n generalizing arr with
  | zero =>
    refine ⟨arr, rfl, rfl, fun j => ?_⟩
    rw [if_neg (by omega)]
  | succ n ih =>
    have hread : arr[index + n]? = some arr[index + n] := List.getElem?_eq_getElem (by omega)
    obtain ⟨arr', hshift, hlen', hslots⟩ := ih (arr.set (index + (n + 1)) arr[index + n])
      (by rw [List.length_set]; omega)
    refine ⟨arr', ?_, by rw [hlen', List.length_set], fun j => ?_⟩
    · rw [shiftUp, Block.load_eq hread, ok_bind, Block.store_eq (by omega), ok_bind, hshift]
    · rw [hslots j]
      by_cases hj : j = index + (n + 1)
      · rw [if_neg (by omega), if_pos (by omega), hj, List.getElem?_set_self (by omega),
          show index + (n + 1) - 1 = index + n by omega, hread]
      · by_cases hin : index < j ∧ j ≤ index + n
        · rw [if_pos hin, if_pos (by omega), List.getElem?_set_ne (by omega)]
        · rw [if_neg hin, if_neg (by omega), List.getElem?_set_ne (Ne.symm hj)]

theorem Represents.insert (h : v.Represents xs) (hindex : index ≤ xs.length) (e : α) :
    ∃ v', insert true v index e = .ok (v', .ok) ∧ v'.Represents (xs.insertIdx index e) ∧
      v'.cap = Sequence.room ⟨v.cap, xs⟩ := by
  obtain ⟨v₁, hroom, h₁, hcap, hlt⟩ := h.makeRoom
  have hlen₁ := h₁.arr_length
  have hsize₁ := h₁.size_eq
  have hxs : (xs.insertIdx index e).length = xs.length + 1 :=
    List.length_insertIdx_of_le_length hindex e
  obtain ⟨arr, hshift, hlen, hslots⟩ := shiftUp_spec v₁.arr index (v₁.size - index)
    (by omega)
  rw [Vec.insert, if_neg (by rw [h.size_eq]; omega), hroom]
  dsimp only
  rw [if_neg (by simp), hshift, ok_bind, Block.store_eq (by omega), ok_bind]
  refine ⟨_, rfl, ⟨?_, ?_, ?_, fun i hi => ?_⟩, hcap⟩
  · rw [List.length_set, hlen, hlen₁]
  · dsimp only
    omega
  · dsimp only
    omega
  · dsimp only
    rw [List.getElem?_insertIdx]
    by_cases hbelow : i < index
    · rw [List.getElem?_set_ne (by omega), hslots, if_neg (by omega), if_pos hbelow,
        h₁.holds i (by omega)]
    · by_cases hat : i = index
      · rw [hat, List.getElem?_set_self (by omega), if_neg (by omega), if_pos rfl,
          if_pos (by omega)]
      · rw [List.getElem?_set_ne (by omega), hslots, if_pos (by omega), if_neg hbelow, if_neg hat,
          h₁.holds (i - 1) (by omega)]

theorem Represents.push (h : v.Represents xs) (e : α) :
    ∃ v', push true v e = .ok (v', .ok) ∧ v'.Represents (xs ++ [e]) ∧
      v'.cap = Sequence.room ⟨v.cap, xs⟩ := by
  rw [Vec.push, h.size_eq, ← List.insertIdx_length_self]
  exact h.insert (Nat.le_refl _) e

theorem Represents.remove (h : v.Represents xs) (hindex : index < xs.length) (dst : Bool) :
    ∃ v', remove v index dst = .ok (v', .ok, if dst then some xs[index]? else none) ∧
      v'.Represents (xs.eraseIdx index) ∧ v'.cap = v.cap := by
  have hlen := h.arr_length
  have hle := h.size_le
  have hsize := h.size_eq
  have hxs : (xs.eraseIdx index).length = xs.length - 1 := List.length_eraseIdx_of_lt hindex
  obtain ⟨arr, hcopy, hlen', hslots⟩ := Block.copy_spec v.arr index (index + 1)
    (v.size - 1 - index) (by omega) (by omega) (by omega)
  rw [Vec.remove, if_neg (by omega), Block.load_eq (h.holds index hindex), ok_bind, hcopy, ok_bind]
  refine ⟨_, rfl, ⟨?_, ?_, ?_, fun i hi => ?_⟩, rfl⟩
  · rw [hlen', hlen]
  · dsimp only
    omega
  · dsimp only
    omega
  · dsimp only
    rw [List.getElem?_eraseIdx, hslots]
    by_cases hbelow : i < index
    · rw [if_neg (by omega), if_pos hbelow, h.holds i (by omega)]
    · rw [if_pos (by omega), if_neg hbelow, show index + 1 + (i - index) = i + 1 by omega,
        h.holds (i + 1) (by omega)]

end Shifting

section Search

variable [DecidableEq α]

theorem findIndex_spec {ys : List α} {i : ℕ} (e : α)
    (hslots : ∀ j < ys.length, arr[i + j]? = some ys[j]?) :
    findIndex arr e ys.length i = .ok (if e ∈ ys then some (i + ys.idxOf e) else none) := by
  induction ys generalizing i with
  | nil => rfl
  | cons y ys ih =>
    have hread : arr[i]? = some (some y) := hslots 0 (Nat.zero_lt_succ _)
    rw [List.length_cons, findIndex, Block.load_eq hread]
    dsimp only
    by_cases hy : y = e
    · rw [if_pos (by rw [hy]), hy, if_pos List.mem_cons_self, List.idxOf_cons_self, Nat.add_zero]
    · have hrest (j : ℕ) (hj : j < ys.length) : arr[i + 1 + j]? = some ys[j]? := by
        rw [Nat.add_assoc, Nat.add_comm 1 j]
        exact hslots (j + 1) (Nat.succ_lt_succ hj)
      rw [if_neg (by simpa using hy), ih hrest]
      by_cases hmem : e ∈ ys
      · rw [if_pos hmem, if_pos (List.mem_cons_of_mem y hmem), List.idxOf_cons_ne ys hy,
          Nat.succ_eq_add_one, Nat.add_assoc, Nat.add_comm 1]
      · rw [if_neg hmem, if_neg (by simp [hmem, Ne.symm hy])]

theorem Represents.indexOf (h : v.Represents xs) (e : α) :
    indexOf v e = .ok (if e ∈ xs then xs.idxOf e else sizeMax) := by
  have hslots (j : ℕ) (hj : j < xs.length) : v.arr[0 + j]? = some xs[j]? := by
    rw [Nat.zero_add]
    exact h.holds j hj
  have hfind := findIndex_spec e hslots
  rw [Vec.indexOf, h.size_eq, hfind, ok_bind]
  by_cases hmem : e ∈ xs
  · rw [if_pos hmem, if_pos hmem, Nat.zero_add]
    rfl
  · rw [if_neg hmem, if_neg hmem]
    rfl

theorem Represents.removeByValue (h : v.Represents xs) (hfits : v.cap ≤ sizeMax) (e : α) :
    ∃ v', removeByValue v e = .ok (v', if e ∈ xs then .ok else .notFound) ∧
      v'.Represents (xs.erase e) ∧ v'.cap = v.cap := by
  have hle := h.size_le
  have hsize := h.size_eq
  rw [Vec.removeByValue, h.indexOf]
  by_cases hmem : e ∈ xs
  · have hindex : xs.idxOf e < xs.length := List.idxOf_lt_length_of_mem hmem
    obtain ⟨v', hremove, h', hcap⟩ := h.remove hindex false
    have herase : xs.erase e = xs.eraseIdx (xs.idxOf e) := List.erase_eq_eraseIdx_of_idxOf rfl
    have hne : xs.idxOf e ≠ sizeMax := by omega
    rw [if_pos hmem, if_pos hmem, herase]
    dsimp only
    rw [if_neg hne, hremove]
    exact ⟨v', rfl, h', hcap⟩
  · rw [if_neg hmem, if_neg hmem, List.erase_of_not_mem hmem]
    dsimp only
    rw [if_pos rfl]
    exact ⟨v, rfl, h, rfl⟩

end Search

section Runs

variable [DecidableEq α] {s : Sequence α}

structure Refines (v : Vec α) (s : Sequence α) : Prop extends v.Represents s.elems where
  cap_eq : v.cap = s.cap

omit [DecidableEq α] in
theorem Refines.room_eq (h : v.Refines s) : Sequence.room ⟨v.cap, s.elems⟩ = s.room := by
  rw [h.cap_eq]

/-- A call whose allocation succeeds does to the elements what it does to the list, with
the same result. -/
theorem Refines.exec (h : v.Refines s) (hfits : s.cap ≤ sizeMax) (op : VecOp α) :
    ∃ v', exec true v op = .ok (v', (s.exec op).2.map some) ∧ v'.Refines (s.exec op).1 := by
  have hsize := h.size_eq
  have hcap := h.cap_eq
  cases op with
  | expand cap =>
    rw [Vec.exec, Sequence.exec]
    by_cases hgreater : s.cap > cap
    · rw [if_pos hgreater, Vec.expand, if_pos (by omega)]
      exact ⟨v, rfl, h⟩
    · have hle : v.cap ≤ cap := by omega
      obtain ⟨v', hcall, h', hcap'⟩ := h.toRepresents.expand hle
      rw [if_neg hgreater, hcall]
      exact ⟨v', rfl, h', hcap'⟩
  | insert index e =>
    rw [Vec.exec, Sequence.exec]
    by_cases hindex : index > s.elems.length
    · rw [if_pos hindex, Vec.insert, if_pos (by omega)]
      exact ⟨v, rfl, h⟩
    · obtain ⟨v', hcall, h', hcap'⟩ := h.toRepresents.insert (Nat.le_of_not_lt hindex) e
      rw [if_neg hindex, hcall]
      exact ⟨v', rfl, h', hcap'.trans h.room_eq⟩
  | push e =>
    obtain ⟨v', hcall, h', hcap'⟩ := h.toRepresents.push e
    rw [Vec.exec, hcall]
    exact ⟨v', rfl, h', hcap'.trans h.room_eq⟩
  | remove index dst =>
    rw [Vec.exec, Sequence.exec]
    by_cases hindex : index < s.elems.length
    · obtain ⟨v', hcall, h', hcap'⟩ := h.toRepresents.remove hindex dst
      rw [hcall, List.getElem?_eq_getElem hindex]
      exact ⟨v', by cases dst <;> rfl, h', hcap'.trans hcap⟩
    · rw [Vec.remove, if_pos (by omega), List.getElem?_eq_none (by omega)]
      exact ⟨v, rfl, h⟩
  | indexOf e =>
    rw [Vec.exec, h.toRepresents.indexOf]
    exact ⟨v, rfl, h⟩
  | removeByValue e =>
    obtain ⟨v', hcall, h', hcap'⟩ := h.toRepresents.removeByValue (by omega) e
    rw [Vec.exec, Sequence.exec, hcall]
    by_cases hmem : e ∈ s.elems
    · rw [if_pos hmem, if_pos hmem]
      exact ⟨v', rfl, h', hcap'.trans hcap⟩
    · rw [List.erase_of_not_mem hmem] at h'
      rw [if_neg hmem, if_neg hmem]
      exact ⟨v', rfl, h', hcap'.trans hcap⟩
  | pop dst =>
    rw [Vec.exec, Sequence.exec, Vec.pop, lastIndex]
    cases hlast : s.elems.getLast? with
    | none =>
      have hnil : s.elems = [] := List.getLast?_eq_none_iff.mp hlast
      rw [hnil, List.length_nil] at hsize
      rw [if_pos hsize, Vec.remove, if_pos (by omega)]
      exact ⟨v, rfl, h⟩
    | some x =>
      have hne : s.elems ≠ [] := fun hnil => by simp [hnil] at hlast
      have hpos := List.length_pos_of_ne_nil hne
      have hindex : v.size - 1 < s.elems.length := by omega
      obtain ⟨v', hcall, h', hcap'⟩ := h.toRepresents.remove hindex dst
      rw [hsize, List.eraseIdx_length_sub_one] at h'
      rw [hsize, ← List.getLast?_eq_getElem?, hlast] at hcall
      rw [if_neg (by omega), hsize, hcall]
      exact ⟨v', by cases dst <;> rfl, h', hcap'.trans hcap⟩

theorem Refines.execAll (h : v.Refines s) {ops : List (VecOp α)} (hops : s.fitsAll ops = true) :
    ∃ v', execAll v ops = .ok (v', (s.execAll ops).2.map (VecReturn.map some)) ∧
      v'.Refines (s.execAll ops).1 := by
  induction ops generalizing v s with
  | nil => exact ⟨v, rfl, h⟩
  | cons op ops ih =>
    rw [Sequence.fitsAll, Bool.and_eq_true, Sequence.fits, decide_eq_true_eq] at hops
    have hfits : s.cap ≤ sizeMax := by
      rw [sizeMax]
      omega
    obtain ⟨v₁, hexec, h₁⟩ := h.exec hfits op
    obtain ⟨v₂, hrest, h₂⟩ := ih h₁ hops.2
    refine ⟨v₂, ?_, h₂⟩
    rw [Vec.execAll, hexec, ok_bind]
    dsimp only
    rw [hrest]
    rfl

/-- The vectors that a run begins with, and their capacities. -/
inductive Started : Vec α → ℕ → Prop
  | init {v : Vec α} (h : init true = (some v, .ok)) : Started v expandDelta
  | withCapacity {v : Vec α} {cap : ℕ} (h : withCapacity true cap = (some v, .ok)) : Started v cap

omit [DecidableEq α] in
theorem withCapacity_refines {cap : ℕ} (h : withCapacity true cap = (some v, .ok)) :
    v.Refines ⟨cap, []⟩ := by
  rw [withCapacity, if_neg (by simp)] at h
  cases h
  constructor
  case toRepresents => exact ⟨Block.length_alloc cap, Nat.zero_le cap, rfl, nofun⟩
  case cap_eq => rfl

omit [DecidableEq α] in
theorem Started.refines {cap : ℕ} (h : Started v cap) : v.Refines ⟨cap, []⟩ := by
  cases h with
  | init h => exact withCapacity_refines h
  | withCapacity h => exact withCapacity_refines h

/-- In every run each call returns what the list operation returns and leaves the
elements it leaves, within the allocated array. -/
theorem execAll_eq_sequence {cap : ℕ} (h : Started v cap) (ops : List (VecOp α))
    (hops : Sequence.fitsAll ⟨cap, []⟩ ops = true) :
    ∃ v', execAll v ops =
        .ok (v', (Sequence.execAll ⟨cap, []⟩ ops).2.map (VecReturn.map some)) ∧
      v'.arr.length = v'.cap ∧ v'.size ≤ v'.cap ∧
      v'.cap = (Sequence.execAll ⟨cap, []⟩ ops).1.cap ∧
      v'.contents = (Sequence.execAll ⟨cap, []⟩ ops).1.elems.map some := by
  obtain ⟨v', hexec, h'⟩ := h.refines.execAll hops
  exact ⟨v', hexec, h'.arr_length, h'.size_le, h'.cap_eq, h'.toRepresents.contents_eq⟩

/-- A vector without an array grows on its first insertion, and a pop may find it empty. -/
theorem execAll_eq_sequence_empty :
    ∃ v' results, execAll (⟨0, 0, []⟩ : Vec ℕ)
        [.pop true, .push 1, .insert 0 2, .push 2, .removeByValue 2, .indexOf 2, .indexOf 3] =
          .ok (v', results) ∧ v'.contents = [some 1, some 2] := by
  have hstart : withCapacity true 0 = (some (⟨0, 0, []⟩ : Vec ℕ), .ok) := rfl
  obtain ⟨v', hexec, -, -, -, hcontents⟩ := execAll_eq_sequence (.withCapacity hstart)
    [.pop true, .push 1, .insert 0 2, .push 2, .removeByValue 2, .indexOf 2, .indexOf 3]
    (by decide)
  exact ⟨v', _, hexec, hcontents⟩

end Runs

section Failure

variable [DecidableEq α] (v : Vec α)

omit [DecidableEq α] in
theorem expand_false (cap : ℕ) :
    expand false v cap = if v.cap < cap then (v, .nomem) else expand true v cap := by
  by_cases hgrow : v.cap < cap
  · rw [if_pos hgrow, expand, if_neg (by omega), if_neg (by omega), if_pos rfl]
  · rw [if_neg hgrow, expand, expand]
    by_cases hgreater : v.cap > cap
    · rw [if_pos hgreater, if_pos hgreater]
    · rw [if_neg hgreater, if_neg hgreater, if_pos (by omega), if_pos (by omega)]

omit [DecidableEq α] in
theorem makeRoom_false :
    makeRoom false v = if v.size = v.cap then (v, .nomem) else makeRoom true v := by
  rw [makeRoom, makeRoom]
  by_cases hfull : v.size = v.cap
  · rw [if_pos hfull, if_pos hfull, expand_false, if_pos (by rw [expandDelta]; omega)]
  · rw [if_neg hfull, if_neg hfull, if_neg hfull]

omit [DecidableEq α] in
theorem insert_false (index : ℕ) (e : α) :
    insert false v index e =
      if index ≤ v.size ∧ v.size = v.cap then .ok (v, .nomem) else insert true v index e := by
  rw [insert, insert]
  by_cases hindex : index > v.size
  · rw [if_pos hindex, if_neg (by omega), if_pos hindex]
  · rw [if_neg hindex, if_neg hindex, makeRoom_false]
    by_cases hfull : v.size = v.cap
    · rw [if_pos hfull, if_pos ⟨by omega, hfull⟩]
      rfl
    · rw [if_neg hfull, if_neg fun h => hfull h.2]

end Failure

end Chatd.Collections.Vec
