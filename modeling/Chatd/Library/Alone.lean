import Mathlib.Data.Nat.Notation
import Chatd.Library.LockMachine

/-! # A thread that runs alone

While the other threads hold nothing, a thread is stopped by no mutex but one that it
holds itself. Its steps are then steps on the data and its own program point, and a
chain of them is a run of the system that the other threads take no part in.
-/
namespace Chatd.Library

variable {ι α μ σ π : Type*} {prog : Prog ι α μ σ π} {held : ι → π → List μ} {t : ι}

/-- A step of the thread that does not acquire what the thread holds. -/
def StepsAlone (prog : Prog ι α μ σ π) (held : ι → π → List μ) (t : ι) (x y : σ × π) : Prop :=
  ∃ a, (prog t a x.1 x.2).Moves x.1 y.1 y.2 ∧ ∀ m ∈ held t x.2, ¬ (prog t a x.1 x.2).Locks m

abbrev RunsAlone (prog : Prog ι α μ σ π) (held : ι → π → List μ) (t : ι) : σ × π → σ × π → Prop :=
  Relation.ReflTransGen (StepsAlone prog held t)

section Rules

variable {d e : σ} {p q : π} {m : μ} {y : σ × π} (a : α)

theorem RunsAlone.lock (h : prog t a d p = .lock m q) (hm : m ∉ held t p)
    (hr : RunsAlone prog held t (d, q) y) : RunsAlone prog held t (d, p) y := by
  refine .head ⟨a, ?_, fun n hn hl => ?_⟩ hr
  · rw [h]
    exact ⟨rfl, rfl⟩
  · rw [h] at hl
    exact hm (hl ▸ hn)

theorem RunsAlone.unlock (h : prog t a d p = .unlock m e q)
    (hr : RunsAlone prog held t (e, q) y) : RunsAlone prog held t (d, p) y := by
  refine .head ⟨a, ?_, fun n _ hl => ?_⟩ hr
  · rw [h]
    exact ⟨rfl, rfl⟩
  · rw [h] at hl
    exact hl

theorem RunsAlone.act (h : prog t a d p = .act e q)
    (hr : RunsAlone prog held t (e, q) y) : RunsAlone prog held t (d, p) y := by
  refine .head ⟨a, ?_, fun n _ hl => ?_⟩ hr
  · rw [h]
    exact ⟨rfl, rfl⟩
  · rw [h] at hl
    exact hl

end Rules

section Loops

variable {β : Type*} {d : σ} {xs : List β} {P : β → Bool} (scan : ℕ → π) (test : ℕ → β → π)

theorem getElem?_of_drop_eq_cons {x : β} {rest : List β} {i : ℕ} (h : xs.drop i = x :: rest) :
    xs[i]? = some x ∧ xs.drop (i + 1) = rest := by
  constructor
  · rw [← List.head?_drop, h]
    rfl
  · rw [← List.drop_drop, h]
    rfl

/-- A loop that goes on behind every element that fails a test gets to the first one
that passes it, or to the end. -/
theorem runsAlone_findIdx
    (hget : ∀ i x, xs[i]? = some x → RunsAlone prog held t (d, scan i) (d, test i x))
    (hmiss : ∀ i x, P x = false → RunsAlone prog held t (d, test i x) (d, scan (i + 1))) :
    RunsAlone prog held t (d, scan 0) (d, scan (xs.findIdx P)) := by
  suffices h : ∀ i ≤ xs.findIdx P, RunsAlone prog held t (d, scan 0) (d, scan i) from
    h _ (Nat.le_refl _)
  intro i hi
  induction i with
  | zero => exact .refl
  | succ i ih =>
    have hlt : i < xs.length := Nat.lt_of_lt_of_le hi List.findIdx_le_length
    have hfails : P xs[i] = false := by simpa using List.not_of_lt_findIdx hi
    exact (ih (Nat.le_of_succ_le hi)).trans
      ((hget i _ (List.getElem?_eq_getElem hlt)).trans (hmiss i _ hfails))

end Loops

section System

variable [DecidableEq ι] [DecidableEq μ] {c : Config ι μ σ π} {y : σ × π}

theorem Owned.exists_step (h : Owned held c) (hothers : ∀ s, s ≠ t → held s (c.pc s) = [])
    (hy : StepsAlone prog held t (c.data, c.pc t) y) :
    ∃ a c', Library.step prog c (t, a) = some c' ∧ c'.data = y.1 ∧ c'.pc t = y.2 := by
  obtain ⟨a, hmoves, hlocks⟩ := hy
  refine ⟨a, ?_⟩
  dsimp only at hmoves hlocks
  unfold Library.step
  dsimp only
  cases hp : prog t a c.data (c.pc t) with
  | lock m q =>
    rw [hp] at hmoves hlocks
    have hfree : c.owner m = none := by
      rw [Option.eq_none_iff_forall_ne_some]
      intro s hs
      have hheld := (h.owner_iff m s).mp hs
      by_cases hst : s = t
      · subst hst
        exact hlocks m hheld rfl
      · rw [hothers s hst] at hheld
        cases hheld
    rw [Config.exec, if_pos hfree]
    exact ⟨_, rfl, hmoves.1.symm, by rw [hmoves.2]; exact Function.update_self ..⟩
  | unlock m d q =>
    rw [hp] at hmoves
    exact ⟨_, rfl, hmoves.1.symm, by rw [hmoves.2]; exact Function.update_self ..⟩
  | act d q =>
    rw [hp] at hmoves
    exact ⟨_, rfl, hmoves.1.symm, by rw [hmoves.2]; exact Function.update_self ..⟩
  | halt =>
    rw [hp] at hmoves
    exact hmoves.elim

/-- What a thread does alone it does in the system while the others hold nothing. -/
theorem Owned.exists_run (hs : Scoped prog held) (h : Owned held c)
    (hothers : ∀ s, s ≠ t → held s (c.pc s) = [])
    (hy : RunsAlone prog held t (c.data, c.pc t) y) :
    ∃ (ls : List α) (c' : Config ι μ σ π), run (Library.step prog) c (ls.map (t, ·)) = some c' ∧
      c'.data = y.1 ∧ c'.pc t = y.2 ∧ ∀ s, s ≠ t → c'.pc s = c.pc s := by
  generalize hx : (c.data, c.pc t) = x at hy
  induction hy using Relation.ReflTransGen.head_induction_on generalizing c with
  | refl => exact ⟨[], c, rfl, by rw [← hx], by rw [← hx], fun _ _ => rfl⟩
  | head hstep hrest ih =>
    subst hx
    obtain ⟨a, c', hc', hdata, hpc⟩ := h.exists_step hothers hstep
    have hsame := (step_moves hc').2
    obtain ⟨ls, c'', hrun, hd, hp, hother⟩ :=
      ih (h.step hs hc') (fun s hst => by rw [hsame s hst]; exact hothers s hst)
        (Prod.ext hdata hpc)
    refine ⟨a :: ls, c'', ?_, hd, hp, fun s hst => (hother s hst).trans (hsame s hst)⟩
    rw [List.map_cons, run_cons _ hc']
    exact hrun

end System

end Chatd.Library
