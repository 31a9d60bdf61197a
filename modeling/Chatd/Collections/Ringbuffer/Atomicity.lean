import Chatd.Collections.Ringbuffer.Shrunk

/-! # Ring buffer operations that fail

Growing and inserting fail before they change anything. `ringbuffer_shrink` has stepped the
head back when the copy of the wrapped part cannot be allocated, and has moved the elements
as well when the last `realloc` fails.
-/
namespace Chatd.Collections.Ringbuffer
open Library

variable {α : Type*}

inductive ResizeOp (α : Type*) where
  | expand (cap : ℕ)
  | insert (index : ℕ) (e : α)
  | pushFront (e : α)
  | pushBack (e : α)
  | shrink (cap : ℕ) (dst : Bool)
  deriving DecidableEq, Repr

variable (allocs : ShrinkAllocs) (rb : Ringbuffer α) (cap : ℕ)

/-- One call with the results of its allocations; growing has the `realloc` of the array
only. -/
def resize : ResizeOp α → Except Fault (Ringbuffer α × CResult)
  | .expand cap => expand allocs.arr rb cap
  | .insert index e => insert allocs.arr rb index e
  | .pushFront e => pushFront allocs.arr rb e
  | .pushBack e => pushBack allocs.arr rb e
  | .shrink cap dst => do
    let (rb, result, _) ← shrink allocs rb cap dst
    return (rb, result)

/-- A call that returns another code than `C_OK` leaves the contents and the invariant. -/
def Atomic (op : ResizeOp α) : Prop :=
  ∃ rb' result, resize allocs rb op = .ok (rb', result) ∧
    (result ≠ .ok → rb'.contents = rb.contents ∧ rb'.WellFormed)

/-- The slot of each element in front of the new end gets the value that it has. -/
def Undisturbed : Prop :=
  ∀ i < rb.size, (rb.tail + i) % rb.cap < cap →
    Block.slot rb.arr rb.tail ((rb.tail + i) % rb.cap) = Block.slot rb.arr rb.tail i

/-- No allocation of `ringbuffer_shrink` fails after the head has been stepped back or an
element has been moved, and the moving loops stay inside the array. -/
def FailsClean : ResizeOp α → Prop
  | .shrink cap dst =>
    0 < cap → cap < rb.cap → cap < rb.tail + rb.size → 0 < rb.size →
    (dst = true → cap < rb.size → allocs.dst = true) →
      if rb.cap < rb.tail + min rb.size cap ∧ allocs.holdHead = false then rb.size ≤ cap
      else rb.Movable cap ∧ (allocs.arr = false → rb.size ≤ cap ∧ rb.Undisturbed cap)
  | _ => True

section Growing

variable {allocs : ShrinkAllocs} {rb rb' : Ringbuffer α} {d : Deque α} {cap : ℕ}

/-- A call that does with memory what it should, and without it nothing, is atomic. -/
theorem atomic_of_false {f : Bool → Except Fault (Ringbuffer α × CResult)} (alloc : Bool)
    (h : rb.WellFormed) (htrue : ∃ rb' result, f true = .ok (rb', result) ∧
      (result ≠ .ok → rb' = rb))
    (hfalse : f false = f true ∨ f false = .ok (rb, .nomem)) :
    ∃ rb' result, f alloc = .ok (rb', result) ∧
      (result ≠ .ok → rb'.contents = rb.contents ∧ rb'.WellFormed) := by
  obtain ⟨rb', result, hcall, hsame⟩ := htrue
  have hok : result ≠ .ok → rb'.contents = rb.contents ∧ rb'.WellFormed := by
    intro hresult
    rw [hsame hresult]
    exact ⟨rfl, h⟩
  cases alloc with
  | true => exact ⟨rb', result, hcall, hok⟩
  | false =>
    rcases hfalse with hfalse | hfalse
    · exact ⟨rb', result, hfalse.trans hcall, hok⟩
    · exact ⟨rb, .nomem, hfalse, fun _ => ⟨rfl, h⟩⟩

theorem Represents.atomic_expand (h : rb.Represents d) (cap : ℕ) :
    Atomic allocs rb (.expand cap) := by
  refine atomic_of_false (f := fun alloc => Ringbuffer.expand alloc rb cap) allocs.arr
    h.toWellFormed ?_ (expand_false rb cap)
  by_cases hgreater : rb.cap > cap
  · exact ⟨rb, .capGreater, if_pos hgreater, fun _ => rfl⟩
  · have hcap : d.cap ≤ cap := by
      rw [← h.cap_eq]
      omega
    obtain ⟨rb', hcall, -⟩ := h.expand hcap
    exact ⟨rb', .ok, hcall, fun hne => absurd rfl hne⟩

theorem Represents.atomic_insert (h : rb.Represents d) (index : ℕ) (e : α) :
    Atomic allocs rb (.insert index e) := by
  refine atomic_of_false (f := fun alloc => Ringbuffer.insert alloc rb index e) allocs.arr
    h.toWellFormed ?_ (insert_false rb index e)
  by_cases hindex : index > rb.size
  · exact ⟨rb, .outOfBounds, if_pos hindex, fun _ => rfl⟩
  · have hle : index ≤ d.elems.length := by
      rw [← h.size_eq]
      omega
    obtain ⟨rb', hcall, -⟩ := h.insert hle e
    exact ⟨rb', .ok, hcall, fun hne => absurd rfl hne⟩

theorem Represents.atomic_pushFront (h : rb.Represents d) (e : α) :
    Atomic allocs rb (.pushFront e) := by
  refine atomic_of_false (f := fun alloc => Ringbuffer.pushFront alloc rb e) allocs.arr
    h.toWellFormed ?_ (pushFront_false rb e)
  obtain ⟨rb', hcall, -⟩ := h.pushFront e
  exact ⟨rb', .ok, hcall, fun hne => absurd rfl hne⟩

theorem Represents.atomic_pushBack (h : rb.Represents d) (e : α) :
    Atomic allocs rb (.pushBack e) := by
  refine atomic_of_false (f := fun alloc => Ringbuffer.pushBack alloc rb e) allocs.arr
    h.toWellFormed ?_ (pushBack_false rb e)
  obtain ⟨rb', hcall, -⟩ := h.pushBack e
  exact ⟨rb', .ok, hcall, fun hne => absurd rfl hne⟩

end Growing

section Shrinking

variable {allocs : ShrinkAllocs} {rb : Ringbuffer α} {d : Deque α} {cap : ℕ} {dst : Bool}

theorem shrink_trim_nomem (hcap : 0 < cap) (hlt : cap < rb.cap) (hfull : cap < rb.size)
    (halloc : allocs.dst = false) :
    ∃ v, shrink allocs rb cap true = .ok (rb, .nomem, v) := by
  have hcalloc : Vec.withCapacity allocs.dst (rb.size - cap) = ((none : Option (Vec α)), .nomem) :=
    if_pos ⟨by omega, halloc⟩
  have htrim : trim allocs rb cap (some ⟨0, 0, []⟩) = .ok (rb, .nomem, some ⟨0, 0, []⟩) := by
    rw [trim, if_pos (by omega), hcalloc]
  rw [shrink, withCapacity_zero]
  dsimp only
  rw [if_neg (by omega), if_neg (by omega), if_neg (by omega), if_neg (by omega), if_pos rfl,
    htrim]
  exact ⟨_, rfl⟩

theorem Represents.shrink_hold_nomem (h : rb.Represents d) (hcap : 0 < cap) (hlt : cap < rb.cap)
    (hend : cap < rb.tail + rb.size) (hdst : dst = true → cap < rb.size → allocs.dst = true)
    (hwrap : rb.cap < rb.tail + min rb.size cap) (halloc : allocs.holdHead = false) :
    ∃ v, Ringbuffer.shrink allocs rb cap dst =
      .ok ({ rb with head := (rb.tail + min rb.size cap) % rb.cap }, .nomem, v) := by
  have ht := h.tail_lt (by omega)
  obtain ⟨v, htrim, -⟩ := h.trim allocs dst hcap hlt hdst
  have hrotate : rotate allocs { rb with head := (rb.tail + min rb.size cap) % rb.cap } cap =
      .ok ({ rb with head := (rb.tail + min rb.size cap) % rb.cap }, .nomem) :=
    rotate_nomem ht rfl rfl hlt hwrap halloc
  rw [shrink_shift hcap hlt hend htrim, hrotate]
  exact ⟨v, rfl⟩

theorem WellFormed.head_kept_iff (h : rb.WellFormed) (hcap : 0 < cap) (hlt : cap < rb.cap)
    {arr : Block α} (hlen : arr.length = rb.cap) :
    ({ rb with arr, head := (rb.tail + min rb.size cap) % rb.cap } : Ringbuffer α).WellFormed ↔
      rb.size ≤ cap := by
  have ht := h.tail_lt (by omega)
  have hle := h.size_le
  constructor
  · intro hwf
    have hhead := hwf.head_eq (by dsimp only; omega)
    dsimp only at hhead
    rw [cyclic_eq ht (by omega), cyclic_eq ht hle] at hhead
    split_ifs at hhead <;> omega
  · intro hsize
    rw [Nat.min_eq_left hsize]
    exact ⟨hlen, hle, fun _ => ht, fun _ => rfl, fun hzero => by dsimp only at hzero; omega⟩

theorem WellFormed.contents_moved_iff (h : rb.WellFormed) (hpos : 0 < rb.cap) {arr : Block α}
    {head : ℕ} (hlen : arr.length = rb.cap)
    (hslots : ∀ j, arr[j]? = if j < cap then Block.slot rb.arr rb.tail j else rb.arr[j]?) :
    ({ rb with arr, head } : Ringbuffer α).contents = rb.contents ↔ rb.Undisturbed cap := by
  have ht := h.tail_lt hpos
  have hcontents : ({ rb with arr, head } : Ringbuffer α).contents = rb.contents ↔
      ∀ i < rb.size, (Block.slot arr rb.tail i).getD none =
        (Block.slot rb.arr rb.tail i).getD none := by
    rw [contents, contents, List.map_inj_left]
    simp only [List.mem_range, Block.slot, hlen, h.arr_length]
  rw [hcontents, Undisturbed]
  refine forall_congr' fun i => imp_congr_right fun hi => ?_
  obtain ⟨x, hx⟩ := Block.exists_slot hlen ht i
  obtain ⟨y, hy⟩ := Block.exists_slot h.arr_length ht i
  have hmoved := hslots ((rb.tail + i) % rb.cap)
  have hslot : arr[(rb.tail + i) % rb.cap]? = some x := by
    rw [← hlen]
    exact hx
  have hkept : rb.arr[(rb.tail + i) % rb.cap]? = some y := by
    rw [← h.arr_length]
    exact hy
  rw [hx, hy, Option.getD_some, Option.getD_some]
  rw [hslot, hkept] at hmoved
  by_cases hfront : (rb.tail + i) % rb.cap < cap
  · rw [if_pos hfront] at hmoved
    rw [imp_iff_right hfront, ← hmoved, Option.some.injEq]
  · rw [if_neg hfront, Option.some.injEq] at hmoved
    exact iff_of_true hmoved fun hlt => absurd hlt hfront

theorem atomic_of_unchanged (h : rb.WellFormed) {result : CResult} {v : Option (Vec α)}
    (hcall : shrink allocs rb cap dst = .ok (rb, result, v)) :
    Atomic allocs rb (.shrink cap dst) :=
  ⟨rb, result, by rw [resize, hcall]; rfl, fun _ => ⟨rfl, h⟩⟩

theorem atomic_of_ok {rb' : Ringbuffer α} {v : Option (Vec α)}
    (hcall : shrink allocs rb cap dst = .ok (rb', .ok, v)) : Atomic allocs rb (.shrink cap dst) :=
  ⟨rb', .ok, by rw [resize, hcall]; rfl, fun hne => absurd rfl hne⟩

theorem atomic_of_last {rb' : Ringbuffer α} {v v' : Option (Vec α)} (h : rb.WellFormed)
    (hcall : shrink allocs rb cap dst =
      .ok (if allocs.arr = false then (rb, .nomem, v) else (rb', .ok, v'))) :
    Atomic allocs rb (.shrink cap dst) := by
  cases halloc : allocs.arr with
  | true =>
    rw [halloc] at hcall
    exact atomic_of_ok hcall
  | false =>
    rw [halloc] at hcall
    exact atomic_of_unchanged h hcall

theorem atomic_of_nomem_iff {rb' : Ringbuffer α} {v : Option (Vec α)}
    (hcall : shrink allocs rb cap dst = .ok (rb', .nomem, v)) :
    Atomic allocs rb (.shrink cap dst) ↔ rb'.contents = rb.contents ∧ rb'.WellFormed := by
  rw [Atomic, resize, hcall]
  constructor
  · rintro ⟨rb'', result, hresize, hatomic⟩
    cases hresize
    exact hatomic nofun
  · intro hatomic
    exact ⟨rb', .nomem, rfl, fun _ => hatomic⟩

/-- A failure on the path that moves elements, behind the trimming. -/
theorem Represents.atomic_shift_iff (h : rb.Represents d) (hcap : 0 < cap) (hlt : cap < rb.cap)
    (hend : cap < rb.tail + rb.size) (hpos : 0 < rb.size)
    (hdst : dst = true → cap < rb.size → allocs.dst = true) :
    Atomic allocs rb (.shrink cap dst) ↔
      if rb.cap < rb.tail + min rb.size cap ∧ allocs.holdHead = false then rb.size ≤ cap
      else rb.Movable cap ∧ (allocs.arr = false → rb.size ≤ cap ∧ rb.Undisturbed cap) := by
  split
  case isTrue hhold =>
    obtain ⟨v, hcall⟩ := h.shrink_hold_nomem hcap hlt hend hdst hhold.1 hhold.2
    rw [atomic_of_nomem_iff hcall, h.head_kept_iff hcap hlt h.arr_length]
    exact and_iff_right rfl
  case isFalse hhold =>
    have hhold' (hwrap : rb.cap < rb.tail + min rb.size cap) : allocs.holdHead = true := by
      by_contra hfalse
      exact hhold ⟨hwrap, by simpa using hfalse⟩
    by_cases hmov : rb.Movable cap
    · obtain ⟨arr, v, hlen, hslots, -, hcall⟩ :=
        h.shrink_move allocs dst hcap hlt hend hpos hmov hdst hhold'
      rw [and_iff_right hmov]
      cases halloc : allocs.arr with
      | true =>
        rw [halloc] at hcall
        exact iff_of_true (atomic_of_ok hcall) nofun
      | false =>
        rw [halloc, if_pos rfl] at hcall
        rw [atomic_of_nomem_iff hcall, h.head_kept_iff hcap hlt hlen,
          h.contents_moved_iff (by omega) hlen hslots, imp_iff_right rfl]
        exact and_comm
    · refine iff_of_false ?_ fun hclean => hmov hclean.1
      rintro ⟨rb', result, hresize, -⟩
      rw [resize, h.shrink_error allocs dst hcap hlt hend (not_or.mpr ⟨by omega, hmov⟩) hdst
        hhold'] at hresize
      cases hresize

/-- Where nothing is trimmed or moved, a failure changes nothing. -/
theorem Represents.atomic_of_not_shift (h : rb.Represents d)
    (hshift : ¬ (0 < cap ∧ cap < rb.cap ∧ cap < rb.tail + rb.size ∧ 0 < rb.size)) :
    Atomic allocs rb (.shrink cap dst) := by
  by_cases hlower : rb.cap < cap
  · exact atomic_of_unchanged h.toWellFormed (if_pos hlower)
  by_cases hsame : rb.cap = cap
  · exact atomic_of_unchanged h.toWellFormed ((if_neg hlower).trans (if_pos hsame))
  by_cases hcap : cap = 0
  · subst hcap
    exact atomic_of_ok (shrink_zero allocs dst (by omega))
  by_cases hend : rb.tail + rb.size ≤ cap
  · exact atomic_of_last h.toWellFormed (shrink_stay allocs dst (by omega) (by omega) hend)
  · have hpos : 0 < cap := Nat.pos_of_ne_zero hcap
    obtain ⟨v, -, hcall⟩ := h.shrink_empty allocs dst hpos (by omega) (by omega) (by omega)
    exact atomic_of_last h.toWellFormed hcall

theorem Represents.atomic_shrink_iff (h : rb.Represents d) :
    Atomic allocs rb (.shrink cap dst) ↔ FailsClean allocs rb (.shrink cap dst) := by
  rw [FailsClean]
  by_cases hshift : 0 < cap ∧ cap < rb.cap ∧ cap < rb.tail + rb.size ∧ 0 < rb.size
  · obtain ⟨hcap, hlt, hend, hpos⟩ := hshift
    rw [imp_iff_right hcap, imp_iff_right hlt, imp_iff_right hend, imp_iff_right hpos]
    by_cases hdst : dst = true → cap < rb.size → allocs.dst = true
    · rw [imp_iff_right hdst]
      exact h.atomic_shift_iff hcap hlt hend hpos hdst
    · refine iff_of_true ?_ fun hdst' => absurd hdst' hdst
      simp only [Classical.not_imp, Bool.not_eq_true] at hdst
      obtain ⟨rfl, hfull, halloc⟩ := hdst
      obtain ⟨v, hcall⟩ := shrink_trim_nomem hcap hlt hfull halloc
      exact atomic_of_unchanged h.toWellFormed hcall
  · exact iff_of_true (h.atomic_of_not_shift hshift) fun hcap hlt hend hpos =>
      absurd ⟨hcap, hlt, hend, hpos⟩ hshift

/-- A call that fails leaves the ring buffer alone exactly when it is no shrinking that has
begun to change it. -/
theorem resize_atomic_iff (h : rb.Represents d) (allocs : ShrinkAllocs) (op : ResizeOp α) :
    Atomic allocs rb op ↔ FailsClean allocs rb op := by
  cases op with
  | expand cap => exact iff_of_true (h.atomic_expand cap) trivial
  | insert index e => exact iff_of_true (h.atomic_insert index e) trivial
  | pushFront e => exact iff_of_true (h.atomic_pushFront e) trivial
  | pushBack e => exact iff_of_true (h.atomic_pushBack e) trivial
  | shrink cap dst => exact h.atomic_shrink_iff

/-- The vector for the trimmed elements cannot be allocated. -/
theorem resize_atomic_trim_nomem :
    Atomic ⟨false, true, true⟩ (⟨3, 1, 1, 3, [some 3, some 1, some 2]⟩ : Ringbuffer ℕ)
      (.shrink 2 true) := by
  have h : (⟨3, 1, 1, 3, [some 3, some 1, some 2]⟩ : Ringbuffer ℕ).Represents ⟨3, [1, 2, 3]⟩ :=
    represents_of_pos rfl (by decide) (by decide) rfl rfl (by unfold Block.Holds; decide)
  refine (resize_atomic_iff h ⟨false, true, true⟩ (.shrink 2 true)).mpr ?_
  intro _ _ _ _ hdst
  cases hdst rfl (by decide)

/-- The last `realloc` fails when the elements have been moved. -/
theorem not_resize_atomic_realloc_nomem :
    ¬ ∀ (rb : Ringbuffer ℕ) (d : Deque ℕ) (allocs : ShrinkAllocs) (op : ResizeOp ℕ),
      rb.Represents d → Atomic allocs rb op := by
  intro hall
  have h : (⟨3, 0, 1, 2, [none, some 1, some 2]⟩ : Ringbuffer ℕ).Represents ⟨3, [1, 2]⟩ :=
    represents_of_pos rfl (by decide) (by decide) rfl rfl (by unfold Block.Holds; decide)
  obtain ⟨rb', result, hcall, hatomic⟩ := hall _ _ ⟨true, true, false⟩ (.shrink 2 false) h
  cases hcall
  exact absurd (hatomic nofun).1 (by decide)

end Shrinking

end Chatd.Collections.Ringbuffer
