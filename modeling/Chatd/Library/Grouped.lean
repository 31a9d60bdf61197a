import Mathlib.Data.List.Basic

/-! # Lists whose equal elements stand together

In a list without the pattern `a b a` the order of two different elements is the same
wherever they occur. A list stays so when its last element is repeated, or a new one added.
-/
namespace Chatd.Library

variable {α : Type*} {l l' : List α} {a b : α}

/-- No element returns behind a different one. -/
def Grouped (l : List α) : Prop := ∀ a b, a ≠ b → ¬ List.Sublist [a, b, a] l

theorem grouped_nil : Grouped ([] : List α) := by
  intro a b _ h
  cases h

theorem Grouped.sublist (h : Grouped l) (hs : l'.Sublist l) : Grouped l' := fun a b hne hab =>
  h a b hne (hab.trans hs)

theorem sublist_append_singleton {s : List α} (h : List.Sublist (s ++ [b]) (l ++ [a])) :
    List.Sublist (s ++ [b]) l ∨ b = a ∧ List.Sublist s l := by
  rw [← List.reverse_sublist, List.reverse_append, List.reverse_append] at h
  cases h with
  | cons _ h =>
    left
    rw [← List.reverse_sublist, List.reverse_append]
    exact h
  | cons_cons _ h => exact .inr ⟨rfl, List.reverse_sublist.mp h⟩

/-- An element is added that is new, or the last one once more. -/
theorem Grouped.append_singleton (h : Grouped l) (ha : a ∈ l → l.getLast? = some a) :
    Grouped (l ++ [a]) := by
  intro x y hne hs
  rcases sublist_append_singleton (s := [x, y]) hs with hs | ⟨rfl, hxy⟩
  · exact h x y hne hs
  · -- the pattern ends with the last element of the list itself
    obtain ⟨l, rfl⟩ := List.getLast?_eq_some_iff.mp (ha (hxy.subset List.mem_cons_self))
    rcases sublist_append_singleton (s := [x]) hxy with hxy | ⟨hyx, -⟩
    · exact h x y hne (hxy.append (List.Sublist.refl [x]))
    · exact hne hyx.symm

/-- Two elements never occur in both orders. -/
theorem Grouped.not_swapped (h : Grouped l) (hne : a ≠ b) (hab : List.Sublist [a, b] l) :
    ¬ List.Sublist [b, a] l := by
  intro hba
  induction l with
  | nil => cases hab
  | cons c l ih =>
    by_cases hca : c = a
    · subst hca
      refine h c b hne (List.Sublist.cons_cons c ?_)
      cases hba with
      | cons _ hba => exact hba
      | cons_cons _ _ => exact absurd rfl hne
    · by_cases hcb : c = b
      · subst hcb
        refine h c a (Ne.symm hne) (List.Sublist.cons_cons c ?_)
        cases hab with
        | cons _ hab => exact hab
        | cons_cons _ _ => exact absurd rfl hca
      · apply ih (h.sublist (List.sublist_cons_self c l))
        · cases hab with
          | cons _ hab => exact hab
          | cons_cons _ _ => exact absurd rfl hca
        · cases hba with
          | cons _ hba => exact hba
          | cons_cons _ _ => exact absurd rfl hcb

end Chatd.Library
