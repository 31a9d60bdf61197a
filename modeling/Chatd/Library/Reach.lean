import Mathlib.Data.List.Induction
import Mathlib.Logic.Relation

/-! # Runs of a labelled partial step function

A system is given by a step function that is undefined where a label is not
enabled. Reachability carries a condition on the steps taken, so that the same
induction rule serves unrestricted runs and runs that avoid some step.
-/
namespace Chatd.Library

variable {S L : Type*} {step : S → L → Option S} {ok ok' : S → L → S → Prop}
  {init I : S → Prop}

/-- Follow a list of labels, failing at the first one that is not enabled. -/
def run (step : S → L → Option S) : S → List L → Option S
  | s, [] => some s
  | s, l :: ls => (step s l).bind fun s' => run step s' ls

theorem run_cons {s s' : S} {l : L} (ls : List L) (h : step s l = some s') :
    run step s (l :: ls) = run step s' ls := by
  rw [run, h, Option.bind_some]

theorem run_append (s : S) (ls ms : List L) :
    run step s (ls ++ ms) = (run step s ls).bind fun s' => run step s' ms := by
  induction ls generalizing s with
  | nil => rfl
  | cons l ls ih =>
    rw [List.cons_append, run, run]
    cases step s l with
    | none => rfl
    | some s' => exact ih s'

/-- The states reached from `init` by enabled steps that all meet `ok`. -/
inductive Reach (step : S → L → Option S) (ok : S → L → S → Prop) (init : S → Prop) : S → Prop
  | start {s : S} (h : init s) : Reach step ok init s
  | next {s s' : S} {l : L} (h : Reach step ok init s) (hs : step s l = some s')
      (hok : ok s l s') : Reach step ok init s'

def anyStep : S → L → S → Prop := fun _ _ _ => True

/-- The run lemma: what holds at the start and is kept by every admitted step
holds in every state reached. -/
theorem Reach.invariant (h0 : ∀ s, init s → I s)
    (hstep : ∀ s l s', I s → step s l = some s' → ok s l s' → I s') {s : S}
    (h : Reach step ok init s) : I s := by
  induction h with
  | start h => exact h0 _ h
  | next _ hs hok ih => exact hstep _ _ _ ih hs hok

/-- The run lemma for an invariant whose step rests on others, which are known of every
state reached. -/
theorem Reach.invariant_reached (h0 : ∀ s, init s → I s)
    (hstep : ∀ s l s', Reach step ok init s → I s → step s l = some s' → ok s l s' → I s') {s : S}
    (h : Reach step ok init s) : I s := by
  induction h with
  | start h => exact h0 _ h
  | next hr hs hok ih => exact hstep _ _ _ hr ih hs hok

theorem Reach.mono (hok : ∀ s l s', ok s l s' → ok' s l s') {s : S}
    (h : Reach step ok init s) : Reach step ok' init s := by
  induction h with
  | start h => exact .start h
  | next _ hs h' ih => exact .next ih hs (hok _ _ _ h')

/-- Follow a list of labels, failing also at the first step that a check refuses. -/
def checkedRun (step : S → L → Option S) (check : S → L → Bool) : S → List L → Option S :=
  run fun s l => if check s l then step s l else none

/-- A run whose steps pass a check that implies `ok` leads to a reached state. -/
theorem Reach.of_checkedRun {check : S → L → Bool}
    (hok : ∀ s l s', check s l = true → step s l = some s' → ok s l s') {s s' : S}
    (h : Reach step ok init s)
    (ls : List L) (hr : checkedRun step check s ls = some s') : Reach step ok init s' := by
  induction ls generalizing s with
  | nil => cases hr; exact h
  | cons l ls ih =>
    obtain ⟨t, hs, ht⟩ := Option.bind_eq_some_iff.mp hr
    cases hc : check s l with
    | true =>
      simp only [hc, if_true] at hs
      exact ih (.next h hs (hok _ _ _ hc hs)) ht
    | false =>
      simp only [hc, if_neg (Bool.false_ne_true)] at hs
      cases hs

theorem Reach.of_run {s : S} (hs : init s) {ls : List L}
    (hok : ∀ ms l t t', ms ++ [l] <+: ls → run step s ms = some t → step t l = some t' →
      ok t l t') (ms : List L) {t : S} (hms : ms <+: ls) (ht : run step s ms = some t) :
    Reach step ok init t := by
  induction ms using List.reverseRecOn generalizing t with
  | nil => cases ht; exact .start hs
  | append_singleton ms l ih =>
    rw [run_append] at ht
    obtain ⟨u, hu, htu⟩ := Option.bind_eq_some_iff.mp ht
    have hstep : step u l = some t := by simpa [run] using htu
    exact .next (ih ((List.prefix_append ms [l]).trans hms) hu) hstep (hok ms l u t hms hu hstep)

theorem exists_reach_of_checkedRun {c : S → L → Bool} {P : S → Bool}
    (hok : ∀ s l s', c s l = true → step s l = some s' → ok s l s') {s : S} (hs : init s)
    (ls : List L)
    (hr : (checkedRun step c s ls).any P = true) :
    ∃ s', Reach step ok init s' ∧ P s' = true := by
  cases he : checkedRun step c s ls with
  | none => rw [he] at hr; cases hr
  | some s' =>
    rw [he] at hr
    exact ⟨s', .of_checkedRun hok (.start hs) ls he, hr⟩

theorem exists_reach_of_run {P : S → Bool} {s : S} (hs : init s) (ls : List L)
    (hr : (run step s ls).any P = true) : ∃ s', Reach step anyStep init s' ∧ P s' = true :=
  exists_reach_of_checkedRun (c := fun _ _ => true) (fun _ _ _ _ _ => trivial) hs ls
    (by simpa only [checkedRun, if_true] using hr)

theorem exists_next_of_cycle {r : S → S → Prop} {s : S} (h : Relation.TransGen r s s) :
    ∃ s', r s s' ∧ Relation.TransGen r s' s' := by
  obtain ⟨s', hs, hr⟩ := Relation.TransGen.head'_iff.mp h
  exact ⟨s', hs, Relation.TransGen.tail' hr hs⟩

end Chatd.Library
