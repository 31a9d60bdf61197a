import Mathlib.Data.List.Nodup
import Mathlib.Data.List.Perm.Subperm
import Chatd.Library.Block

/-! # Owned resources

What a program asks the system for and gives back under a number: blocks of memory under
their addresses, open files under their descriptors. A number that was given back may be
handed out again. Who owns a list of entries may use and give back these, whatever else is
in use.
-/
namespace Chatd.Library

/-- How the system chooses the number of a new resource, from those in use. -/
structure Numbering where
  pick : List ℕ → ℕ
  pick_not_mem : ∀ used, pick used ∉ used

/-- Some number below the count of those in use, or the count itself, is free. -/
theorem exists_unused (used : List ℕ) :
    ((List.range (used.length + 1)).find? fun n => decide (n ∉ used)).isSome = true := by
  rw [List.find?_isSome]
  by_contra hall
  have hsub : List.range (used.length + 1) ⊆ used := by
    intro n hn
    by_contra hfree
    exact hall ⟨n, hn, decide_eq_true hfree⟩
  have hlen := (List.nodup_range.subperm hsub).length_le
  rw [List.length_range] at hlen
  omega

/-- The lowest number that is not in use. -/
def Numbering.lowest : Numbering where
  pick used := ((List.range (used.length + 1)).find? fun n => decide (n ∉ used)).get
    (exists_unused used)
  pick_not_mem used := by
    have hfound := List.find?_some (Option.some_get (exists_unused used)).symm
    exact of_decide_eq_true hfound

/-- A use of what is not in use, or of a block outside of its slots. -/
inductive ResourceFault where
  | notInUse
  | access (fault : Fault)
  deriving DecidableEq, Repr

/-- What is in use, under pairwise distinct numbers. -/
structure Table (β : Type*) where
  entries : List (ℕ × β)
  nodup : (entries.map Prod.fst).Nodup

namespace Table

variable {β : Type*} (numbering : Numbering) (t : Table β) (n : ℕ) (b : β)

def empty : Table β := ⟨[], List.nodup_nil⟩

abbrev numbers : List ℕ := t.entries.map Prod.fst

def new : ℕ × Table β :=
  (numbering.pick t.numbers, ⟨(numbering.pick t.numbers, b) :: t.entries,
    List.nodup_cons.mpr ⟨numbering.pick_not_mem _, t.nodup⟩⟩)

def get : Except ResourceFault β :=
  match t.entries.lookup n with
  | some b => .ok b
  | none => .error .notInUse

/-- The entries with another content under a number. -/
def update (entries : List (ℕ × β)) : List (ℕ × β) :=
  entries.map fun e => if e.1 = n then (n, b) else e

variable {n b} in
theorem numbers_update (entries : List (ℕ × β)) :
    (update n b entries).map Prod.fst = entries.map Prod.fst := by
  rw [update, List.map_map]
  apply List.map_congr_left
  intro e _
  rw [Function.comp_apply]
  split
  case isTrue h => exact h.symm
  case isFalse => rfl

def put : Except ResourceFault (Table β) :=
  if n ∈ t.numbers then .ok ⟨update n b t.entries, by rw [numbers_update]; exact t.nodup⟩
  else .error .notInUse

def release : Except ResourceFault (Table β) :=
  if n ∈ t.numbers then
    .ok ⟨t.entries.filter fun e => e.1 ≠ n, t.nodup.sublist (List.filter_sublist.map Prod.fst)⟩
  else .error .notInUse

def Owns (own : List (ℕ × β)) : Prop := own.Perm t.entries

variable {numbering t n b} {own own' : List (ℕ × β)} {b' : β}

theorem owns_empty : (empty : Table β).Owns [] := .refl _

theorem Owns.perm (h : t.Owns own) (hp : own'.Perm own) : t.Owns own' := hp.trans h

theorem Owns.nodup (h : t.Owns own) : (own.map Prod.fst).Nodup :=
  (h.map Prod.fst).nodup_iff.mpr t.nodup

theorem Owns.mem_numbers (h : t.Owns own) : n ∈ t.numbers ↔ n ∈ own.map Prod.fst :=
  (h.map Prod.fst).mem_iff.symm

theorem Owns.not_mem (h : t.Owns ((n, b) :: own)) : n ∉ own.map Prod.fst :=
  (List.nodup_cons.mp h.nodup).1

theorem Owns.new (h : t.Owns own) (b : β) :
    (t.new numbering b).2.Owns (((t.new numbering b).1, b) :: own) := List.Perm.cons _ h

theorem lookup_of_mem {entries : List (ℕ × β)} (hn : (entries.map Prod.fst).Nodup)
    (hmem : (n, b) ∈ entries) : entries.lookup n = some b := by
  induction entries with
  | nil => cases hmem
  | cons e entries ih =>
    obtain ⟨m, c⟩ := e
    rw [List.map_cons, List.nodup_cons] at hn
    rcases List.mem_cons.mp hmem with heq | hmem
    · cases heq
      exact List.lookup_cons_self
    · have hne : n ≠ m := fun heq => hn.1 (List.mem_map.mpr ⟨(n, b), hmem, heq⟩)
      rw [List.lookup_cons, beq_false_of_ne hne]
      exact ih hn.2 hmem

theorem Owns.get (h : t.Owns ((n, b) :: own)) : t.get n = .ok b := by
  rw [Table.get, lookup_of_mem t.nodup (h.subset List.mem_cons_self)]

theorem update_of_not_mem {entries : List (ℕ × β)} (h : n ∉ entries.map Prod.fst) :
    update n b entries = entries := by
  rw [update]
  conv_rhs => rw [← List.map_id entries]
  apply List.map_congr_left
  intro e he
  rw [if_neg, id_eq]
  rintro rfl
  exact h (List.mem_map_of_mem he)

theorem Owns.put (h : t.Owns ((n, b) :: own)) (b' : β) :
    ∃ t', t.put n b' = .ok t' ∧ t'.Owns ((n, b') :: own) := by
  refine ⟨_, if_pos (h.mem_numbers.mpr List.mem_cons_self), ?_⟩
  have hperm := h.map fun e : ℕ × β => if e.1 = n then (n, b') else e
  rw [List.map_cons, if_pos rfl] at hperm
  have hown := update_of_not_mem (b := b') h.not_mem
  rw [update] at hown
  rwa [hown] at hperm

theorem Owns.release (h : t.Owns ((n, b) :: own)) :
    ∃ t', t.release n = .ok t' ∧ t'.Owns own := by
  refine ⟨_, if_pos (h.mem_numbers.mpr List.mem_cons_self), ?_⟩
  have hperm := h.filter fun e : ℕ × β => decide (e.1 ≠ n)
  rw [List.filter_cons_of_neg (by simp)] at hperm
  have hown : own.filter (fun e => decide (e.1 ≠ n)) = own := by
    apply List.filter_eq_self.mpr
    intro e he
    rw [decide_eq_true_eq]
    rintro rfl
    exact h.not_mem (List.mem_map_of_mem he)
  rwa [hown] at hperm

end Table

/-- A loop over the slots of a block, as a part of a run over a heap. -/
def liftFault {β : Type*} : Except Fault β → Except ResourceFault β
  | .ok x => .ok x
  | .error fault => .error (.access fault)

/-- A pointer to a block; `none` is `NULL`. -/
abbrev Pointer := Option ℕ

/-- The blocks in use, and whether the coming requests for memory are granted; those behind
the end of the list are. -/
structure Heap (α : Type*) where
  blocks : Table (Block α)
  grants : List Bool

namespace Heap

variable {α : Type*} (numbering : Numbering) (h : Heap α) (p : Pointer) (n : ℕ) (b : Block α)

/-- The answer to a request, and the heap that has given it. -/
def answer : Bool × Heap α := (h.grants.headD true, { h with grants := h.grants.tail })

def malloc : Pointer × Heap α :=
  let (granted, h) := h.answer
  if granted then
    let (p, blocks) := h.blocks.new numbering (.alloc n)
    (some p, { h with blocks })
  else (none, h)

def free : Except ResourceFault (Heap α) :=
  match p with
  | none => .ok h
  | some p => do
    let blocks ← h.blocks.release p
    return { h with blocks }

/-- The block behind a pointer, to be read or written as a whole. -/
def get : Except ResourceFault (Block α) :=
  match p with
  | none => .error (.access .nullDeref)
  | some p => h.blocks.get p

def put : Except ResourceFault (Heap α) :=
  match p with
  | none => .error (.access .nullDeref)
  | some p => do
    let blocks ← h.blocks.put p b
    return { h with blocks }

/-- A loop over the slots of the block behind a pointer. -/
def modify (f : Block α → Except Fault (Block α)) : Except ResourceFault (Heap α) := do
  let b ← h.get p
  let b ← liftFault (f b)
  h.put p b

/-- `realloc`, which moves the block; a refused request leaves it. -/
def realloc : Except ResourceFault (Pointer × Heap α) :=
  match p with
  | none => .ok (h.malloc numbering n)
  | some p => do
    let b ← h.blocks.get p
    let (granted, h) := h.answer
    if granted then
      let blocks ← h.blocks.release p
      let (q, blocks) := blocks.new numbering (b.realloc n)
      return (some q, { h with blocks })
    else return (none, h)

/-- What a sequence of operations has made of a heap: exactly these blocks are in use, and
some of the answers have been given. -/
structure Later (h h' : Heap α) (own : List (ℕ × Block α)) : Prop where
  owns : h'.blocks.Owns own
  grants : h'.grants <:+ h.grants

variable {h n b} {h₀ : Heap α} {q : ℕ} {b' : Block α} {own own' : List (ℕ × Block α)}

theorem Later.refl (hown : h.blocks.Owns own) : h.Later h own := ⟨hown, List.suffix_refl _⟩

theorem Later.perm (hl : h₀.Later h own) (hp : own'.Perm own) : h₀.Later h own' :=
  ⟨hl.owns.perm hp, hl.grants⟩

theorem answer_cases (h : Heap α) :
    h.answer = (true, { h with grants := h.grants.tail }) ∨
      h.answer = (false, { h with grants := h.grants.tail }) ∧ false ∈ h.grants := by
  rw [answer]
  cases h.grants with
  | nil => exact .inl rfl
  | cons granted grants => cases granted <;> simp

theorem tail_suffix {grants : List Bool} (hl : h.grants <:+ grants) : h.grants.tail <:+ grants :=
  (List.tail_suffix _).trans hl

theorem Later.malloc (hl : h₀.Later h own) (n : ℕ) :
    (∃ q h', h.malloc numbering n = (some q, h') ∧ h₀.Later h' ((q, .alloc n) :: own)) ∨
      ∃ h', h.malloc numbering n = (none, h') ∧ h₀.Later h' own ∧ false ∈ h₀.grants := by
  have hgrants := tail_suffix hl.grants
  rw [Heap.malloc]
  rcases answer_cases h with hanswer | ⟨hanswer, hrefused⟩
  · rw [hanswer]
    exact .inl ⟨_, _, rfl, hl.owns.new _, hgrants⟩
  · rw [hanswer]
    exact .inr ⟨_, rfl, ⟨hl.owns, hgrants⟩, hl.grants.subset hrefused⟩

theorem Later.free (hl : h₀.Later h ((q, b) :: own)) :
    ∃ h', h.free (some q) = .ok h' ∧ h₀.Later h' own := by
  obtain ⟨blocks, hrelease, hown⟩ := hl.owns.release
  rw [Heap.free, hrelease]
  exact ⟨_, rfl, hown, hl.grants⟩

theorem Later.get (hl : h₀.Later h ((q, b) :: own)) : h.get (some q) = .ok b := hl.owns.get

theorem Later.put (hl : h₀.Later h ((q, b) :: own)) (b' : Block α) :
    ∃ h', h.put (some q) b' = .ok h' ∧ h₀.Later h' ((q, b') :: own) := by
  obtain ⟨blocks, hput, hown⟩ := hl.owns.put b'
  rw [Heap.put, hput]
  exact ⟨_, rfl, hown, hl.grants⟩

theorem Later.modify (hl : h₀.Later h ((q, b) :: own)) {f : Block α → Except Fault (Block α)}
    (hf : f b = .ok b') :
    ∃ h', h.modify (some q) f = .ok h' ∧ h₀.Later h' ((q, b') :: own) := by
  obtain ⟨h', hput, hl'⟩ := hl.put b'
  rw [Heap.modify, hl.get, ok_bind, hf, liftFault, ok_bind, hput]
  exact ⟨h', rfl, hl'⟩

theorem Later.realloc (hl : h₀.Later h ((q, b) :: own)) (n : ℕ) :
    (∃ q' h', h.realloc numbering (some q) n = .ok (some q', h') ∧
        h₀.Later h' ((q', b.realloc n) :: own)) ∨
      ∃ h', h.realloc numbering (some q) n = .ok (none, h') ∧
        h₀.Later h' ((q, b) :: own) ∧ false ∈ h₀.grants := by
  have hgrants := tail_suffix hl.grants
  rw [Heap.realloc]
  dsimp only
  rw [hl.owns.get, ok_bind]
  rcases answer_cases h with hanswer | ⟨hanswer, hrefused⟩
  · obtain ⟨blocks, hrelease, hown⟩ := hl.owns.release
    rw [hanswer]
    dsimp only
    rw [if_pos rfl, hrelease]
    exact .inl ⟨_, _, rfl, hown.new _, hgrants⟩
  · rw [hanswer]
    exact .inr ⟨_, rfl, ⟨hl.owns, hgrants⟩, hl.grants.subset hrefused⟩

end Heap

end Chatd.Library
