import Mathlib.Data.List.Nodup
import Chatd.Library.CString

/-! # Lookup, insertion and removal by name

`ConnectionPool` keeps its users and its channels in two vectors under one
template: the operations scan for the first element of a name.
-/
namespace Chatd.Net.Server.ConnectionPool
open Library

variable {ρ : Type*} (nameOf : ρ → Bytes) {vec : List ρ} {e f : ρ} {name : Bytes}

/-- The first element of a name. -/
def get (vec : List ρ) (name : Bytes) : Option ρ := vec.find? fun e => nameOf e == name

/-- Append an element unless its name is taken; says whether it was appended. -/
def push (vec : List ρ) (e : ρ) : List ρ × Bool :=
  if vec.any fun f => nameOf e == nameOf f then (vec, false) else (vec ++ [e], true)

/-- Drop the first element of a name; says whether there was one. -/
def remove (vec : List ρ) (name : Bytes) : List ρ × Bool :=
  (vec.eraseP fun e => nameOf e == name, vec.any fun e => nameOf e == name)

theorem push_of_mem (h : nameOf e ∈ vec.map nameOf) : push nameOf vec e = (vec, false) := by
  apply if_pos
  obtain ⟨f, hf, hname⟩ := List.mem_map.mp h
  exact List.any_eq_true.mpr ⟨f, hf, by simp [hname]⟩

theorem push_of_not_mem (h : nameOf e ∉ vec.map nameOf) :
    push nameOf vec e = (vec ++ [e], true) := by
  apply if_neg
  intro hany
  obtain ⟨f, hf, hname⟩ := List.any_eq_true.mp hany
  exact h (List.mem_map.mpr ⟨f, hf, (beq_iff_eq.mp hname).symm⟩)

theorem push_cases (vec : List ρ) (e : ρ) :
    push nameOf vec e = (vec, false) ∨
      push nameOf vec e = (vec ++ [e], true) ∧ nameOf e ∉ vec.map nameOf := by
  by_cases h : nameOf e ∈ vec.map nameOf
  · exact .inl (push_of_mem nameOf h)
  · exact .inr ⟨push_of_not_mem nameOf h, h⟩

theorem mem_of_get (h : get nameOf vec name = some e) : e ∈ vec := List.mem_of_find?_eq_some h

theorem nameOf_of_get (h : get nameOf vec name = some e) : nameOf e = name := by
  simpa using List.find?_some h

theorem get_nameOf (hn : (vec.map nameOf).Nodup) (he : e ∈ vec) :
    get nameOf vec (nameOf e) = some e := by
  cases hg : get nameOf vec (nameOf e) with
  | none => simpa using List.find?_eq_none.mp hg e he
  | some f =>
    rw [List.inj_on_of_nodup_map hn (mem_of_get nameOf hg) he (nameOf_of_get nameOf hg)]

theorem mem_remove_nameOf (hn : (vec.map nameOf).Nodup) (he : e ∈ vec) :
    f ∈ (remove nameOf vec (nameOf e)).1 ↔ f ∈ vec ∧ f ≠ e := by
  induction vec with
  | nil => cases he
  | cons x vec ih =>
    rw [List.map_cons, List.nodup_cons] at hn
    obtain ⟨hx, hn⟩ := hn
    have hname (y : ρ) (hy : y ∈ vec) : nameOf y ≠ nameOf x := fun h =>
      hx (h ▸ List.mem_map_of_mem hy)
    have hne (y : ρ) (hy : y ∈ vec) : y ≠ x := fun h => hname y hy (h ▸ rfl)
    rcases List.mem_cons.mp he with rfl | he
    · rw [remove, List.eraseP_cons_of_pos (by simp)]
      grind
    · have hxe : (nameOf x == nameOf e) = false := by simpa using (hname e he).symm
      rw [remove, List.eraseP_cons_of_neg (by simp [hxe])]
      have ih := ih hn he
      rw [remove] at ih
      grind

theorem remove_names_nodup (hn : (vec.map nameOf).Nodup) (name : Bytes) :
    ((remove nameOf vec name).1.map nameOf).Nodup :=
  hn.sublist (List.eraseP_sublist.map nameOf)

end Chatd.Net.Server.ConnectionPool
