import Chatd.Collections.Ringbuffer.Shrink

/-! # What shrinking a ring buffer leaves

A buffer whose elements all lie in front of the new end keeps its positions, which may
leave the head or the tail at the new end itself. Otherwise the elements move to the
front, where this stays inside the array.
-/
namespace Chatd.Collections.Ringbuffer
open Library

variable {α : Type*}

section Paths

variable {allocs : ShrinkAllocs} {rb : Ringbuffer α} {d : Deque α} {cap : ℕ}

theorem withCapacity_zero (alloc : Bool) :
    Vec.withCapacity alloc 0 = (some (⟨0, 0, []⟩ : Vec α), .ok) :=
  if_neg fun h => absurd h.1 (Nat.lt_irrefl 0)

theorem shrink_zero (allocs : ShrinkAllocs) (b : Bool) (hlt : 0 < rb.cap) :
    shrink allocs rb 0 b =
      .ok (⟨0, 0, 0, 0, []⟩, .ok, if b then some ⟨0, 0, []⟩ else none) := by
  rw [shrink, withCapacity_zero]
  dsimp only
  rw [if_neg (by omega), if_neg (by omega), if_pos rfl]

theorem shrink_stay (allocs : ShrinkAllocs) (b : Bool) (hcap : 0 < cap) (hlt : cap < rb.cap)
    (hend : rb.tail + rb.size ≤ cap) :
    shrink allocs rb cap b = .ok (
      if allocs.arr = false then (rb, .nomem, if b then some ⟨0, 0, []⟩ else none)
      else ({ rb with arr := rb.arr.realloc cap, cap }, .ok,
        if b then some ⟨0, 0, []⟩ else none)) := by
  rw [shrink, withCapacity_zero]
  dsimp only
  rw [if_neg (by omega), if_neg (by omega), if_neg (by omega), if_pos hend]
  split_ifs <;> rfl

/-- The path on which elements are trimmed and moved. -/
theorem shrink_shift {b : Bool} (hcap : 0 < cap) (hlt : cap < rb.cap)
    (hend : cap < rb.tail + rb.size) {head : ℕ} {v : Option (Vec α)}
    (htrim : trim allocs rb cap (if b then some ⟨0, 0, []⟩ else none) =
      .ok ({ rb with head }, .ok, v)) :
    shrink allocs rb cap b = do
      let (rb, result) ← rotate allocs { rb with head } cap
      if result ≠ .ok then return (rb, result, v)
      if allocs.arr = false then return (rb, .nomem, v)
      let size := if rb.size > cap then cap else rb.size
      return (⟨cap, (0 + size) % cap, 0, size, rb.arr.realloc cap⟩, .ok, v) := by
  rw [shrink, withCapacity_zero]
  dsimp only
  rw [if_neg (by omega), if_neg (by omega), if_neg (by omega), if_neg (by omega), htrim, ok_bind]
  dsimp only
  rw [if_neg (by simp)]

theorem Represents.front (h : rb.Represents d) (hcap : 0 < cap) (hlt : cap < rb.cap)
    {arr : Block α} (hlen : arr.length = rb.cap)
    (hslots : ∀ j < min rb.size cap, arr[j]? = Block.slot rb.arr rb.tail j) {size : ℕ}
    (hsize : size = min rb.size cap) :
    (⟨cap, (0 + size) % cap, 0, size, arr.realloc cap⟩ : Ringbuffer α).Represents
      ⟨cap, d.elems.take cap⟩ := by
  have hd := h.size_eq
  refine represents_of_pos (Block.length_realloc arr cap) hcap (by omega) rfl ?_ fun j hj => ?_
  · rw [List.length_take, hsize, hd, Nat.min_comm]
  · rw [List.length_take] at hj
    rw [Block.slot, Block.length_realloc, Nat.zero_add, Nat.mod_eq_of_lt (by omega),
      Block.getElem?_realloc (by omega) (by omega), hslots j (by omega), h.holds j (by omega),
      List.getElem?_take_of_lt (by omega)]

theorem size_cut (size cap : ℕ) : (if size > cap then cap else size) = min size cap := by
  split_ifs <;> omega

theorem Represents.shrink_empty (h : rb.Represents d) (allocs : ShrinkAllocs) (b : Bool)
    (hcap : 0 < cap) (hlt : cap < rb.cap) (hend : cap < rb.tail + rb.size) (hsize : rb.size = 0) :
    ∃ v, Trimmed b v (d.elems.drop cap) ∧ shrink allocs rb cap b = .ok (
      if allocs.arr = false then (rb, .nomem, v)
      else (⟨cap, (0 + rb.size) % cap, 0, rb.size, rb.arr.realloc cap⟩, .ok, v)) := by
  obtain ⟨v, htrim, hv⟩ := h.trim allocs b hcap hlt fun _ hfull => by omega
  have ht := h.tail_lt (by omega)
  have hhead : (rb.tail + min rb.size cap) % rb.cap = rb.tail := by
    rw [hsize, Nat.zero_min, Nat.add_zero, Nat.mod_eq_of_lt ht]
  have hrb : ({ rb with head := rb.tail } : Ringbuffer α) = rb := by
    have hself := h.head_eq (by omega)
    rw [hsize, Nat.add_zero, Nat.mod_eq_of_lt ht] at hself
    exact congrArg (fun head => ({ rb with head } : Ringbuffer α)) hself.symm
  have hrotate : rotate allocs { rb with head := rb.tail } cap =
      .ok ({ rb with head := rb.tail }, .ok) := rotate_empty allocs hsize rfl
  rw [hhead] at htrim
  refine ⟨v, hv, ?_⟩
  rw [shrink_shift hcap hlt hend htrim, hrotate, ok_bind, hrb]
  dsimp only
  rw [if_neg (by simp), size_cut, Nat.min_eq_left (by omega)]
  split_ifs <;> rfl

theorem Represents.shrink_move (h : rb.Represents d) (allocs : ShrinkAllocs) (b : Bool)
    (hcap : 0 < cap) (hlt : cap < rb.cap) (hend : cap < rb.tail + rb.size) (hpos : 0 < rb.size)
    (hmov : rb.Movable cap) (hdst : b = true → cap < rb.size → allocs.dst = true)
    (hhold : rb.cap < rb.tail + min rb.size cap → allocs.holdHead = true) :
    ∃ arr v, arr.length = rb.cap ∧
      (∀ j, arr[j]? = if j < cap then Block.slot rb.arr rb.tail j else rb.arr[j]?) ∧
      Trimmed b v (d.elems.drop cap) ∧ shrink allocs rb cap b = .ok (
        if allocs.arr = false then
          ({ rb with arr, head := (rb.tail + min rb.size cap) % rb.cap }, .nomem, v)
        else
          (⟨cap, (0 + min rb.size cap) % cap, 0, min rb.size cap, arr.realloc cap⟩, .ok, v)) := by
  have ht := h.tail_lt (by omega)
  obtain ⟨v, htrim, hv⟩ := h.trim allocs b hcap hlt hdst
  have hrotate := rotate_spec allocs
    { rb with head := (rb.tail + min rb.size cap) % rb.cap } h.arr_length ht rfl rfl
    (by omega) hlt hmov hhold
  obtain ⟨arr, hrotate, hlen, hslots⟩ := hrotate
  refine ⟨arr, v, hlen, hslots, hv, ?_⟩
  rw [shrink_shift hcap hlt hend htrim, hrotate, ok_bind]
  dsimp only
  rw [if_neg (by simp), size_cut]
  split_ifs <;> rfl

/-- With its allocations succeeding a movable buffer keeps its first elements. -/
theorem Represents.shrink (h : rb.Represents d) (hcap : 0 < cap) (hlt : cap < rb.cap)
    (hend : cap < rb.tail + rb.size) (hmov : rb.size = 0 ∨ rb.Movable cap) (b : Bool) :
    ∃ rb' v, shrink .succeed rb cap b = .ok (rb', .ok, v) ∧
      rb'.Represents ⟨cap, d.elems.take cap⟩ ∧ Trimmed b v (d.elems.drop cap) := by
  by_cases hsize : rb.size = 0
  · obtain ⟨v, hv, hcall⟩ := h.shrink_empty .succeed b hcap hlt hend hsize
    refine ⟨_, v, hcall, h.front hcap hlt h.arr_length (fun j hj => ?_) (by omega), hv⟩
    omega
  · obtain ⟨arr, v, hlen, hslots, hv, hcall⟩ := h.shrink_move .succeed b hcap hlt hend
      (by omega) (hmov.resolve_left hsize) (fun _ _ => rfl) (fun _ => rfl)
    refine ⟨_, v, hcall, h.front hcap hlt hlen (fun j hj => ?_) rfl, hv⟩
    rw [hslots j, if_pos (by omega)]

/-- Any other buffer makes it read beyond its array. -/
theorem Represents.shrink_error (h : rb.Represents d) (allocs : ShrinkAllocs) (b : Bool)
    (hcap : 0 < cap) (hlt : cap < rb.cap) (hend : cap < rb.tail + rb.size)
    (hmov : ¬ (rb.size = 0 ∨ rb.Movable cap)) (hdst : b = true → cap < rb.size → allocs.dst = true)
    (hhold : rb.cap < rb.tail + min rb.size cap → allocs.holdHead = true) :
    Ringbuffer.shrink allocs rb cap b = .error .outOfBounds := by
  rw [not_or] at hmov
  have ht := h.tail_lt (by omega)
  obtain ⟨v, htrim, -⟩ := h.trim allocs b hcap hlt hdst
  have hrotate := rotate_error allocs
    { rb with head := (rb.tail + min rb.size cap) % rb.cap } h.arr_length ht rfl rfl
    (by omega) hlt hmov.2 hhold
  rw [shrink_shift hcap hlt hend htrim, hrotate, error_bind]

theorem Represents.movable_of_shrink (h : rb.Represents d) {b : Bool} (hcap : 0 < cap)
    (hlt : cap < rb.cap) (hend : cap < rb.tail + rb.size)
    {r : Ringbuffer α × CResult × Option (Vec α)}
    (hcall : Ringbuffer.shrink .succeed rb cap b = .ok r) : rb.size = 0 ∨ rb.Movable cap := by
  by_contra hmov
  rw [h.shrink_error .succeed b hcap hlt hend hmov (fun _ _ => rfl) fun _ => rfl] at hcall
  cases hcall

end Paths

section Contents

variable {rb : Ringbuffer α} {d : Deque α} {cap : ℕ}

/-- Shrinking to a capacity that has room for every element changes none of them. -/
def KeepsContents (rb : Ringbuffer α) (cap : ℕ) (dst : Bool) : Prop :=
  ∃ rb' v, shrink .succeed rb cap dst = .ok (rb', .ok, v) ∧ rb'.cap = cap ∧
    rb'.size = rb.size ∧ rb'.contents = rb.contents ∧ Trimmed dst v []

/-- Shrinking below the size keeps the first elements and hands out the others. -/
def SplitsContents (rb : Ringbuffer α) (xs : List α) (cap : ℕ) (dst : Bool) : Prop :=
  ∃ rb' v, shrink .succeed rb cap dst = .ok (rb', .ok, v) ∧
    rb'.contents = (xs.take cap).map some ∧ Trimmed dst v (xs.drop cap)

theorem trimmed_empty (b : Bool) :
    Trimmed b (if b then some (⟨0, 0, []⟩ : Vec α) else none) [] := by
  cases b with
  | false => rfl
  | true => exact ⟨_, rfl, Vec.empty_represents⟩

theorem WellFormed.contents_realloc (h : rb.WellFormed) (hlt : cap < rb.cap)
    (hend : rb.tail + rb.size ≤ cap) :
    ({ rb with arr := rb.arr.realloc cap, cap } : Ringbuffer α).contents = rb.contents := by
  have hlen := h.arr_length
  apply List.map_congr_left
  intro i hi
  rw [List.mem_range] at hi
  dsimp only at hi ⊢
  rw [Nat.mod_eq_of_lt (by omega), Nat.mod_eq_of_lt (by omega),
    Block.getElem?_realloc (by omega) (by omega)]

/-- The contents stay the same exactly when no element is behind the new end, or the moving
loops stay inside the old array. -/
theorem shrink_keeps_contents_iff (h : rb.Represents d) (hcap : 0 < cap) (hsize : rb.size ≤ cap)
    (hlt : cap < rb.cap) (dst : Bool) :
    KeepsContents rb cap dst ↔ rb.tail + rb.size ≤ cap ∨ rb.size = 0 ∨ rb.Movable cap := by
  have hd := h.size_eq
  by_cases hend : rb.tail + rb.size ≤ cap
  · refine iff_of_true ?_ (.inl hend)
    exact ⟨_, _, shrink_stay .succeed dst hcap hlt hend, rfl, rfl, h.contents_realloc hlt hend,
      trimmed_empty dst⟩
  · rw [or_iff_right hend]
    constructor
    · rintro ⟨rb', v, hcall, -⟩
      exact h.movable_of_shrink hcap hlt (by omega) hcall
    · intro hmov
      obtain ⟨rb', v, hcall, h', hv⟩ := h.shrink hcap hlt (by omega) hmov dst
      have htake : d.elems.take cap = d.elems := List.take_of_length_le (by omega)
      have hdrop : d.elems.drop cap = [] := List.drop_eq_nil_of_le (by omega)
      rw [htake] at h'
      rw [hdrop] at hv
      exact ⟨rb', v, hcall, h'.cap_eq, h'.size_eq.trans hd.symm,
        h'.contents_eq.trans h.contents_eq.symm, hv⟩

/-- Two elements move to the front of a shorter array. -/
theorem shrink_keeps_contents_moved :
    KeepsContents (⟨5, 4, 2, 2, [none, none, some 1, some 2, none]⟩ : Ringbuffer ℕ) 3 true := by
  have h : (⟨5, 4, 2, 2, [none, none, some 1, some 2, none]⟩ : Ringbuffer ℕ).Represents
      ⟨5, [1, 2]⟩ := represents_of_pos rfl (by decide) (by decide) rfl rfl
    (by unfold Block.Holds; decide)
  exact (shrink_keeps_contents_iff h (by decide) (by decide) (by decide) true).mpr
    (.inr (.inr (.inl (by decide))))

/-- Two elements that wrap around an array of four do not survive its shrinking to three. -/
theorem not_shrink_keeps_contents_wrapped :
    ¬ ∀ (rb : Ringbuffer ℕ) (d : Deque ℕ) (cap : ℕ) (dst : Bool), rb.Represents d → 0 < cap →
      rb.size ≤ cap → cap < rb.cap → KeepsContents rb cap dst := by
  intro hall
  have h : (⟨4, 1, 3, 2, [some 2, none, none, some 1]⟩ : Ringbuffer ℕ).Represents
      ⟨4, [1, 2]⟩ := represents_of_pos rfl (by decide) (by decide) rfl rfl
    (by unfold Block.Holds; decide)
  obtain ⟨rb', v, hcall, -⟩ := hall _ _ 3 false h (by decide) (by decide) (by decide)
  cases hcall

/-- The contents are split without loss unless the capacity is zero and a destination is
given, or the wrapped part is too long for the counter. -/
theorem shrink_splits_contents_iff (h : rb.Represents d) (hlt : cap < rb.size) (dst : Bool) :
    SplitsContents rb d.elems cap dst ↔
      (cap = 0 → dst = false) ∧ rb.tail + cap - rb.cap ≤ intMax := by
  have hd := h.size_eq
  have hle := h.size_le
  have ht := h.tail_lt (by omega)
  by_cases hcap : cap = 0
  · subst hcap
    rw [SplitsContents, shrink_zero .succeed dst (by omega), List.drop_zero]
    constructor
    · rintro ⟨rb', v, hcall, -, hv⟩
      refine ⟨fun _ => ?_, by rw [intMax]; omega⟩
      cases hcall
      cases dst with
      | false => rfl
      | true =>
        obtain ⟨w, hw, hrep⟩ := hv
        cases hw
        have hzero : 0 = d.elems.length := hrep.size_eq
        omega
    · rintro ⟨hdst, -⟩
      rw [hdst rfl]
      exact ⟨_, _, rfl, rfl, rfl⟩
  · have hmov : rb.Movable cap ↔ rb.tail + cap - rb.cap ≤ intMax := by
      rw [Movable, intMax]
      omega
    rw [and_iff_right fun hzero => absurd hzero hcap, ← hmov]
    constructor
    · rintro ⟨rb', v, hcall, -⟩
      have hmov := h.movable_of_shrink (Nat.pos_of_ne_zero hcap) (by omega) (by omega) hcall
      exact hmov.resolve_left (by omega)
    · intro hmov
      obtain ⟨rb', v, hcall, h', hv⟩ := h.shrink (Nat.pos_of_ne_zero hcap) (by omega) (by omega)
        (.inr hmov) dst
      exact ⟨rb', v, hcall, h'.contents_eq, hv⟩

/-- A full buffer that wraps around is cut after its first element. -/
theorem shrink_splits_contents_wrapped :
    SplitsContents (⟨3, 1, 1, 3, [some 3, some 1, some 2]⟩ : Ringbuffer ℕ) [1, 2, 3] 2 true := by
  have h : (⟨3, 1, 1, 3, [some 3, some 1, some 2]⟩ : Ringbuffer ℕ).Represents ⟨3, [1, 2, 3]⟩ :=
    represents_of_pos rfl (by decide) (by decide) rfl rfl
    (by unfold Block.Holds; decide)
  exact (shrink_splits_contents_iff h (by decide) true).mpr ⟨by decide, by decide⟩

/-- Shrinking to nothing drops the elements, although a destination is given. -/
theorem not_shrink_splits_contents_zero :
    ¬ ∀ (rb : Ringbuffer ℕ) (d : Deque ℕ) (cap : ℕ) (dst : Bool), rb.Represents d →
      cap < rb.size → SplitsContents rb d.elems cap dst := by
  intro hall
  have h : (⟨2, 1, 0, 1, [some 1, none]⟩ : Ringbuffer ℕ).Represents ⟨2, [1]⟩ :=
    represents_of_pos rfl (by decide) (by decide) rfl rfl
    (by unfold Block.Holds; decide)
  obtain ⟨rb', v, hcall, -, w, hw, hrep⟩ := hall _ _ 0 true h (by decide)
  cases hcall
  cases hw
  have hzero : 0 = [1].length := hrep.size_eq
  exact absurd hzero (by decide)

end Contents

section Invariant

variable {rb : Ringbuffer α} {d : Deque α} {cap : ℕ}

/-- Whatever a call stores next lies inside the array. -/
def Writable (rb : Ringbuffer α) : Prop :=
  ∀ (alloc : Bool) (e : α), (∃ r, pushFront alloc rb e = .ok r) ∧
    (∃ r, pushBack alloc rb e = .ok r) ∧ ∀ index, ∃ r, insert alloc rb index e = .ok r

/-- Shrinking leaves the representation invariant for the new capacity. -/
def Restores (rb : Ringbuffer α) (cap : ℕ) (dst : Bool) : Prop :=
  ∃ rb' v, shrink .succeed rb cap dst = .ok (rb', .ok, v) ∧ rb'.cap = cap ∧ rb'.WellFormed ∧
    Writable rb'

theorem Represents.writable (h : rb.Represents d) : Writable rb := by
  have hfront (e : α) : ∃ r, Ringbuffer.pushFront true rb e = .ok r := by
    obtain ⟨rb', hcall, -⟩ := h.pushFront e
    exact ⟨_, hcall⟩
  have hback (e : α) : ∃ r, Ringbuffer.pushBack true rb e = .ok r := by
    obtain ⟨rb', hcall, -⟩ := h.pushBack e
    exact ⟨_, hcall⟩
  have hinsert (index : ℕ) (e : α) : ∃ r, Ringbuffer.insert true rb index e = .ok r := by
    by_cases hindex : index ≤ d.elems.length
    · obtain ⟨rb', hcall, -⟩ := h.insert hindex e
      exact ⟨_, hcall⟩
    · exact ⟨_, if_pos (by rw [h.size_eq]; omega)⟩
  intro alloc e
  cases alloc with
  | true => exact ⟨hfront e, hback e, fun index => hinsert index e⟩
  | false =>
    refine ⟨?_, ?_, fun index => ?_⟩
    · rcases pushFront_false rb e with hcall | hcall
      · rw [hcall]
        exact hfront e
      · exact ⟨_, hcall⟩
    · rcases pushBack_false rb e with hcall | hcall
      · rw [hcall]
        exact hback e
      · exact ⟨_, hcall⟩
    · rcases insert_false rb index e with hcall | hcall
      · rw [hcall]
        exact hinsert index e
      · exact ⟨_, hcall⟩

theorem Represents.stay (h : rb.Represents d) (hcap : 0 < cap) (hlt : cap < rb.cap)
    (hend : rb.tail + rb.size < cap) :
    ({ rb with arr := rb.arr.realloc cap, cap } : Ringbuffer α).Represents ⟨cap, d.elems⟩ := by
  have hlen := h.arr_length
  have hsize := h.size_eq
  refine represents_of_pos (Block.length_realloc rb.arr cap) (by omega) (by omega) ?_ hsize
    fun j hj => ?_
  · rw [h.head_eq (by omega), Nat.mod_eq_of_lt (by omega), Nat.mod_eq_of_lt hend]
  · have hold := h.holds j hj
    rw [slot_of_lt (by omega)] at hold
    rw [slot_of_lt (by rw [Block.length_realloc]; omega),
      Block.getElem?_realloc (by omega) (by omega), hold]

/-- The invariant holds for the new capacity exactly when the elements end in front of the
new end, or are moved. -/
theorem shrink_restores_iff (h : rb.Represents d) (hcap : 0 < cap) (hlt : cap < rb.cap)
    (dst : Bool) :
    Restores rb cap dst ↔ rb.tail + rb.size < cap ∨
      (cap < rb.tail + rb.size ∧ (rb.size = 0 ∨ rb.Movable cap)) := by
  by_cases hend : rb.tail + rb.size ≤ cap
  · have hstay := shrink_stay .succeed dst hcap hlt hend
    rw [Restores, hstay]
    constructor
    · rintro ⟨rb', v, hcall, -, hwf, -⟩
      cases hcall
      refine .inl (Nat.lt_of_le_of_ne hend fun hsame => ?_)
      have ht := hwf.tail_lt hcap
      have hhead := hwf.head_eq hcap
      dsimp only at ht hhead
      rw [hsame, Nat.mod_self, h.head_eq (by omega), Nat.mod_eq_of_lt (by omega)] at hhead
      omega
    · intro hor
      have h' := h.stay hcap hlt (by omega)
      exact ⟨_, _, rfl, rfl, h'.toWellFormed, h'.writable⟩
  · rw [or_iff_right (by omega), and_iff_right (by omega)]
    constructor
    · rintro ⟨rb', v, hcall, -⟩
      exact h.movable_of_shrink hcap hlt (by omega) hcall
    · intro hmov
      obtain ⟨rb', v, hcall, h', -⟩ := h.shrink hcap hlt (by omega) hmov dst
      exact ⟨rb', v, hcall, h'.cap_eq, h'.toWellFormed, h'.writable⟩

/-- The elements end in front of the new end. -/
theorem shrink_restores_stay :
    Restores (⟨4, 2, 1, 1, [none, some 1, none, none]⟩ : Ringbuffer ℕ) 3 false := by
  have h : (⟨4, 2, 1, 1, [none, some 1, none, none]⟩ : Ringbuffer ℕ).Represents ⟨4, [1]⟩ :=
    represents_of_pos rfl (by decide) (by decide) rfl rfl
    (by unfold Block.Holds; decide)
  exact (shrink_restores_iff h (by decide) (by decide) false).mpr (.inl (by decide))

/-- An element that ends at the new end leaves the head behind the array. -/
theorem not_shrink_restores_at_end :
    ¬ ∀ (rb : Ringbuffer ℕ) (d : Deque ℕ) (cap : ℕ) (dst : Bool), rb.Represents d → 0 < cap →
      cap < rb.cap → Restores rb cap dst := by
  intro hall
  have h : (⟨3, 2, 1, 1, [none, some 1, none]⟩ : Ringbuffer ℕ).Represents ⟨3, [1]⟩ :=
    represents_of_pos rfl (by decide) (by decide) rfl rfl
    (by unfold Block.Holds; decide)
  obtain ⟨rb', v, hcall, -, hwf, -⟩ := hall _ _ 2 false h (by decide) (by decide)
  cases hcall
  exact absurd (hwf.head_eq (by decide)) (by decide)

end Invariant

end Chatd.Collections.Ringbuffer
