import Mathlib.Data.List.Basic

/-! # Words and lines of a sequence

A separator cuts a sequence into pieces. The words are the non-empty pieces, the
maximal runs of other symbols; the lines are the pieces a delimiter ends, so that
a last unterminated piece is not a line.
-/
namespace Chatd.Library

variable {α : Type*} [DecidableEq α] {a : α}

/-- The maximal non-empty runs of symbols other than the separator, in order. -/
def words (a : α) (s : List α) : List (List α) := (s.splitOn a).filter fun w => w ≠ []

/-- The pieces ended by a delimiter, in order, without it. -/
def lines (a : α) (s : List α) : List (List α) := (s.splitOn a).dropLast

theorem words_append_cons (s t : List α) : words a (s ++ a :: t) = words a s ++ words a t := by
  rw [words, List.splitOn_append_cons_self, List.filter_append]
  rfl

@[simp] theorem words_nil : words a [] = [] := rfl

@[simp] theorem words_cons_self (s : List α) : words a (a :: s) = words a s :=
  words_append_cons [] s

theorem words_of_not_mem {s : List α} (h : a ∉ s) :
    words a s = if s = [] then [] else [s] := by
  rw [words, List.splitOn_eq_singleton h]
  by_cases hs : s = [] <;> simp [hs]

theorem lines_append_cons {s : List α} (h : a ∉ s) (t : List α) :
    lines a (s ++ a :: t) = s :: lines a t := by
  rw [lines, List.splitOn_append_cons_self, List.splitOn_eq_singleton h, List.singleton_append,
    List.dropLast_cons_of_ne_nil (List.splitOn_ne_nil a t)]
  rfl

theorem lines_of_not_mem {s : List α} (h : a ∉ s) : lines a s = [] := by
  rw [lines, List.splitOn_eq_singleton h]
  rfl

/-- The sequence is empty or its last piece is ended by a delimiter. -/
def Whole (a : α) (s : List α) : Prop := s = [] ∨ ∃ t, s = t ++ [a]

/-- Behind whole lines a new line begins. -/
theorem lines_append_of_whole {s : List α} (h : Whole a s) (t : List α) :
    lines a (s ++ t) = lines a s ++ lines a t := by
  rcases h with rfl | ⟨s, rfl⟩
  · rfl
  · rw [List.append_assoc, List.singleton_append, lines, lines, lines,
      List.splitOn_append_cons_self, List.splitOn_append_cons_self,
      List.dropLast_append_of_ne_nil (List.splitOn_ne_nil a t),
      List.dropLast_append_of_ne_nil (List.splitOn_ne_nil a [])]
    simp

/-- The first symbols of a sequence have its first lines. -/
theorem lines_append_isPrefix (s t : List α) : lines a s <+: lines a (s ++ t) := by
  by_cases h : a ∈ s
  · obtain ⟨x, y, rfl, hx⟩ := List.eq_append_cons_of_mem h
    rw [List.append_assoc, List.cons_append, lines_append_cons hx, lines_append_cons hx,
      List.cons_prefix_cons]
    exact ⟨rfl, lines_append_isPrefix y t⟩
  · rw [lines_of_not_mem h]
    exact List.nil_prefix
termination_by s.length
decreasing_by
  subst_vars
  simp only [List.length_append, List.length_cons]
  omega

theorem words_flatten {ws : List (List α)} (h : ∀ w ∈ ws, w ≠ [] ∧ a ∉ w) :
    words a (ws.map (a :: ·)).flatten = ws := by
  have hcons (w : List α) (hw : w ≠ [] ∧ a ∉ w) (t : List α) :
      words a (w ++ a :: t) = w :: words a (a :: t) := by
    rw [words_append_cons, words_of_not_mem hw.2, if_neg hw.1, words_cons_self,
      List.singleton_append]
  induction ws with
  | nil => rfl
  | cons w ws ih =>
    have hw := h w List.mem_cons_self
    have ih := ih fun v hv => h v (List.mem_cons_of_mem w hv)
    rw [List.map_cons, List.flatten_cons, List.cons_append, words_cons_self]
    cases ws with
    | nil =>
      rw [List.map_nil, List.flatten_nil, List.append_nil, words_of_not_mem hw.2, if_neg hw.1]
    | cons v ws =>
      rw [List.map_cons, List.flatten_cons, List.cons_append] at ih ⊢
      rw [hcons w hw, ih]

theorem lines_flatten {ls : List (List α)} (h : ∀ l ∈ ls, a ∉ l) {tail : List α} (ht : a ∉ tail) :
    lines a ((ls.map (· ++ [a])).flatten ++ tail) = ls := by
  induction ls with
  | nil => exact lines_of_not_mem ht
  | cons l ls ih =>
    rw [List.map_cons, List.flatten_cons, List.append_assoc, List.append_assoc,
      List.singleton_append, lines_append_cons (h l List.mem_cons_self),
      ih fun m hm => h m (List.mem_cons_of_mem l hm)]

omit [DecidableEq α] in
/-- A sequence is split in one way at its first separator. -/
theorem append_cons_inj_left {s s' t t' : List α} (hs : a ∉ s) (hs' : a ∉ s')
    (h : s ++ a :: t = s' ++ a :: t') : s = s' ∧ t = t' := by
  induction s generalizing s' with
  | nil =>
    cases s' with
    | nil => exact ⟨rfl, (List.cons.inj h).2⟩
    | cons b s' =>
      rw [(List.cons.inj h).1] at hs'
      exact absurd List.mem_cons_self hs'
  | cons b s ih =>
    cases s' with
    | nil =>
      rw [← (List.cons.inj h).1] at hs
      exact absurd List.mem_cons_self hs
    | cons b' s' =>
      rw [List.mem_cons, not_or] at hs hs'
      obtain ⟨hb, h⟩ := List.cons.inj h
      obtain ⟨rfl, rfl⟩ := ih hs.2 hs'.2 h
      exact ⟨by rw [hb], rfl⟩

end Chatd.Library
