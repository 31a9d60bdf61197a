import Mathlib.Data.Nat.Notation
import Chatd.Library.Reach

/-! # Runs with a record

A record is a list to which every step may append events. It looks at the run and does not
take part in it: a run with a record is a run without one, and every run has a record.
-/
namespace Chatd.Library

/-- A state with the events of the run that led to it. -/
structure Logged (S E : Type*) where
  state : S
  log : List E
  deriving DecidableEq, Repr

section Recording

variable {S L E : Type*} (step : S → L → Option S) (emit : List E → S → L → S → List E)

/-- A step with the events that it appends. -/
def logged (r : Logged S E) (l : L) : Option (Logged S E) :=
  (step r.state l).map fun s => ⟨s, r.log ++ emit r.log r.state l s⟩

/-- A condition on the steps of the run itself. -/
def onState (ok : S → L → S → Prop) : Logged S E → L → Logged S E → Prop :=
  fun r l r' => ok r.state l r'.state

def unlogged (init : S → Prop) (r : Logged S E) : Prop := init r.state ∧ r.log = []

variable {step emit} {ok : S → L → S → Prop} {init : S → Prop} {r r' : Logged S E} {l : L}
  {s : S}

theorem logged_cases (h : logged step emit r l = some r') :
    step r.state l = some r'.state ∧ r'.log = r.log ++ emit r.log r.state l r'.state := by
  obtain ⟨s', hs, rfl⟩ := Option.map_eq_some_iff.mp h
  exact ⟨hs, rfl⟩

/-- A run with a record is a run. -/
theorem Reach.state (h : Reach (logged step emit) (onState ok) (unlogged init) r) :
    Reach step ok init r.state := by
  induction h with
  | start h0 => exact .start h0.1
  | next _ hs hok ih => exact .next ih (logged_cases hs).1 hok

/-- Every run has a record. -/
theorem Reach.exists_log (emit : List E → S → L → S → List E) (h : Reach step ok init s) :
    ∃ log, Reach (logged step emit) (onState ok) (unlogged init) ⟨s, log⟩ := by
  induction h with
  | start h0 => exact ⟨[], .start ⟨h0, rfl⟩⟩
  | @next s s' l _ hs hok ih =>
    obtain ⟨log, hlog⟩ := ih
    have hstep : logged step emit ⟨s, log⟩ l = some ⟨s', log ++ emit log s l s'⟩ := by
      rw [logged, hs]
      rfl
    exact ⟨_, .next hlog hstep hok⟩

end Recording

end Chatd.Library
