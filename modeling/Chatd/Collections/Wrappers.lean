import Chatd.Collections.Ringbuffer.Refinement
import Chatd.Collections.Vec.Refinement

/-! # The classes around the collections

A method of `Vec` or `Ringbuffer` passes its call to `UNWRAP`, which throws the code when
it is not `C_OK`. The macro writes its argument twice, so that the call is made again for
the code that is thrown.
-/
namespace Chatd.Collections
open Library

inductive Outcome (β : Type*) where
  | returned (value : Option β)
  | thrown (result : CResult)
  deriving DecidableEq, Repr

section Unwrap

variable {σ τ α : Type*}

/-- `if (e != C_OK) throw e;` for a call `e`; `allocs n` is the result of the allocation that
run `n` of the call makes, if it makes one. -/
def unwrap (call : Bool → σ → Except Fault (σ × CResult × Option (Slot α))) (allocs : ℕ → Bool)
    (s : σ) : Except Fault (σ × Outcome (Slot α)) := do
  let (s, result, out) ← call (allocs 0) s
  if result = .ok then return (s, .returned out)
  let (s, result, _) ← call (allocs 1) s
  return (s, .thrown result)

/-- A method returns exactly when the operation has taken effect once, and what it throws is
a failure that has left the contents alone. -/
def ThrowsFailures (call : Bool → σ → Except Fault (σ × CResult × Option (Slot α)))
    (Rep : σ → τ → Prop) (t : τ) (effect : τ × CResult × Option α) (allocs : ℕ → Bool) (s : σ) :
    Prop :=
  ∃ s' outcome, unwrap call allocs s = .ok (s', outcome) ∧
    ((∃ x, outcome = .returned x) ↔ effect.2.1 = .ok ∧ Rep s' effect.1) ∧
    (∀ x, outcome = .returned x → x = effect.2.2.map some) ∧
    ∀ result, outcome = .thrown result → result ≠ .ok ∧ Rep s' t

variable {call : Bool → σ → Except Fault (σ × CResult × Option (Slot α))} {Rep : σ → τ → Prop}
  {t : τ} {effect : τ × CResult × Option α} {allocates : Prop}

theorem throwsFailures_of_runs {allocs : ℕ → Bool} {s : σ}
    (hfirst : ∃ s', call (allocs 0) s = .ok (s', effect.2.1, effect.2.2.map some) ∧
      Rep s' effect.1)
    (hsecond : effect.2.1 ≠ .ok → ∀ s, Rep s t →
      ∃ s', call (allocs 1) s = .ok (s', effect.2.1, effect.2.2.map some) ∧ Rep s' effect.1)
    (hfail : effect.2.1 ≠ .ok → effect.1 = t) : ThrowsFailures call Rep t effect allocs s := by
  obtain ⟨s', hrun, h'⟩ := hfirst
  rw [ThrowsFailures, unwrap, hrun, ok_bind]
  dsimp only
  by_cases hok : effect.2.1 = .ok
  · rw [if_pos hok]
    refine ⟨s', _, rfl, iff_of_true ⟨_, rfl⟩ ⟨hok, h'⟩, ?_, nofun⟩
    intro x hx
    cases hx
    rfl
  · -- both runs fail in the same way
    obtain ⟨s'', hrun', h''⟩ := hsecond hok s' (by rwa [hfail hok] at h')
    rw [if_neg hok, hrun', ok_bind]
    refine ⟨s'', _, rfl, iff_of_false nofun fun htook => hok htook.1, nofun, ?_⟩
    intro result hresult
    cases hresult
    exact ⟨hok, by rwa [hfail hok] at h''⟩

theorem throwsFailures_nomem_iff {allocs : ℕ → Bool} {s : σ} (h : Rep s t)
    (hfirst : call (allocs 0) s = .ok (s, .nomem, none))
    (htrue : ∃ s', call true s = .ok (s', effect.2.1, effect.2.2.map some) ∧ Rep s' effect.1)
    (hfalse : call false s = .ok (s, .nomem, none)) (hok : effect.2.1 = .ok)
    (hnot : ¬ Rep s effect.1) :
    ThrowsFailures call Rep t effect allocs s ↔ allocs 1 = false := by
  rw [ThrowsFailures, unwrap, hfirst, ok_bind]
  dsimp only
  rw [if_neg (by simp)]
  cases allocs 1 with
  | true =>
    obtain ⟨s', hrun, -⟩ := htrue
    rw [hrun]
    refine iff_of_false ?_ nofun
    rintro ⟨s'', outcome, houtcome, -, -, hthrown⟩
    cases houtcome
    exact (hthrown _ rfl).1 hok
  | false =>
    rw [hfalse]
    refine iff_of_true ⟨s, .thrown .nomem, rfl, ?_, nofun, ?_⟩ rfl
    · exact iff_of_false nofun fun htook => hnot htook.2
    · intro result hresult
      cases hresult
      exact ⟨nofun, h⟩

/-- The macro is right about a call except when the first run of it fails for lack of memory
and the second one does not. -/
theorem throwsFailures_iff [Decidable allocates]
    (htrue : ∀ s, Rep s t → ∃ s', call true s = .ok (s', effect.2.1, effect.2.2.map some) ∧
      Rep s' effect.1)
    (hfalse : ∀ s, Rep s t →
      call false s = if allocates then .ok (s, .nomem, none) else call true s)
    (hfail : effect.2.1 ≠ .ok → effect.1 = t)
    (heffect : allocates → effect.2.1 = .ok ∧ ∀ s, Rep s t → ¬ Rep s effect.1)
    {allocs : ℕ → Bool} {s : σ} (h : Rep s t) :
    ThrowsFailures call Rep t effect allocs s ↔
      ¬ (allocates ∧ allocs 0 = false ∧ allocs 1 = true) := by
  by_cases hfirst : allocates ∧ allocs 0 = false
  · have hnomem : call false s = .ok (s, .nomem, none) := by
      rw [hfalse s h, if_pos hfirst.1]
    have hrun : call (allocs 0) s = .ok (s, .nomem, none) := by
      rw [hfirst.2, hnomem]
    obtain ⟨hok, hnot⟩ := heffect hfirst.1
    rw [throwsFailures_nomem_iff h hrun (htrue s h) hnomem hok (hnot s h)]
    simp [hfirst]
  · have hcall (b : Bool) (s : σ) (hs : Rep s t) (hb : ¬ (allocates ∧ b = false)) :
        call b s = call true s := by
      cases b with
      | true => rfl
      | false => rw [hfalse s hs, if_neg fun ha => hb ⟨ha, rfl⟩]
    refine iff_of_true (throwsFailures_of_runs ?_ (fun hne s hs => ?_) hfail)
      fun hne => hfirst ⟨hne.1, hne.2.1⟩
    · rw [hcall _ s h hfirst]
      exact htrue s h
    · rw [hcall _ s hs fun ha => hne (heffect ha.1).1]
      exact htrue s hs

end Unwrap

section Vec

variable {α : Type*} [DecidableEq α]

/-- The methods of `Vec` that pass a call to `UNWRAP`. -/
inductive VecMethod (α : Type*) where
  | expand (cap : ℕ)
  | insert (index : ℕ) (e : α)
  | push (e : α)
  | remove (index : ℕ)
  | removeByValue (e : α)
  | pop
  deriving DecidableEq, Repr

namespace VecMethod

def op : VecMethod α → VecOp α
  | .expand cap => .expand cap
  | .insert index e => .insert index e
  | .push e => .push e
  | .remove index => .remove index true
  | .removeByValue e => .removeByValue e
  | .pop => .pop true

def ofReturn {β : Type*} : VecReturn β → CResult × Option β
  | .code result dst => (result, dst)
  | .index _ => (.ok, none)

def call (m : VecMethod α) (alloc : Bool) (v : Vec α) :
    Except Fault (Vec α × CResult × Option (Slot α)) := do
  let (v, r) ← v.exec alloc m.op
  return (v, ofReturn r)

def effect (m : VecMethod α) (s : Sequence α) : Sequence α × CResult × Option α :=
  ((s.exec m.op).1, ofReturn (s.exec m.op).2)

def allocates (s : Sequence α) : VecMethod α → Bool
  | .expand cap => s.cap < cap
  | .insert index _ => index ≤ s.elems.length ∧ s.elems.length = s.cap
  | .push _ => s.elems.length = s.cap
  | _ => false

variable {s : Sequence α} {m : VecMethod α}

omit [DecidableEq α] in
theorem ofReturn_map {β γ : Type*} (f : β → γ) (r : VecReturn β) :
    ofReturn (r.map f) = ((ofReturn r).1, (ofReturn r).2.map f) := by
  cases r <;> rfl

theorem call_true (hfits : s.cap ≤ sizeMax) (v : Vec α) (h : v.Refines s) :
    ∃ v', m.call true v = .ok (v', (m.effect s).2.1, (m.effect s).2.2.map some) ∧
      v'.Refines (m.effect s).1 := by
  obtain ⟨v', hexec, h'⟩ := h.exec hfits m.op
  refine ⟨v', ?_, h'⟩
  rw [call, hexec, ok_bind]
  dsimp only
  rw [ofReturn_map]
  rfl

theorem call_false (v : Vec α) (h : v.Refines s) :
    m.call false v = if m.allocates s then .ok (v, .nomem, none) else m.call true v := by
  have hsize := h.size_eq
  have hcap := h.cap_eq
  cases m with
  | expand cap =>
    rw [call, call, op, Vec.exec, Vec.exec, Vec.expand_false, hcap, allocates]
    simp only [decide_eq_true_eq]
    split_ifs <;> rfl
  | insert index e =>
    simp only [call, op, Vec.exec, allocates, decide_eq_true_eq]
    rw [Vec.insert_false, hsize, hcap]
    split_ifs <;> rfl
  | push e =>
    simp only [call, op, Vec.exec, Vec.push, allocates, decide_eq_true_eq]
    rw [Vec.insert_false, hsize, hcap]
    by_cases hfull : s.elems.length = s.cap
    · rw [if_pos ⟨Nat.le_refl _, hfull⟩, if_pos hfull]
      rfl
    · rw [if_neg fun ha => hfull ha.2, if_neg hfull]
  | remove index => rfl
  | removeByValue e => rfl
  | pop => rfl

theorem effect_of_ne_ok (h : (m.effect s).2.1 ≠ .ok) : (m.effect s).1 = s := by
  cases m with
  | expand cap =>
    simp only [effect, op, Sequence.exec] at h ⊢
    split_ifs at h ⊢
    · rfl
    · exact absurd rfl h
  | insert index e =>
    simp only [effect, op, Sequence.exec] at h ⊢
    split_ifs at h ⊢
    · rfl
    · exact absurd rfl h
  | push e => exact absurd rfl h
  | remove index =>
    simp only [effect, op, Sequence.exec] at h ⊢
    cases hx : s.elems[index]? with
    | none => rfl
    | some x =>
      rw [hx] at h
      exact absurd rfl h
  | removeByValue e =>
    simp only [effect, op, Sequence.exec] at h ⊢
    split_ifs at h ⊢
    · exact absurd rfl h
    · rfl
  | pop =>
    simp only [effect, op, Sequence.exec] at h ⊢
    cases hx : s.elems.getLast? with
    | none => rfl
    | some x =>
      rw [hx] at h
      exact absurd rfl h

theorem effect_of_allocates (h : m.allocates s = true) :
    (m.effect s).2.1 = .ok ∧ ∀ v : Vec α, v.Refines s → ¬ v.Refines (m.effect s).1 := by
  have hcap (hne : (m.effect s).1.cap ≠ s.cap) (v : Vec α) (hv : v.Refines s) :
      ¬ v.Refines (m.effect s).1 := fun hv' => hne (hv'.cap_eq.symm.trans hv.cap_eq)
  have hroom (hfull : s.elems.length = s.cap) : s.room ≠ s.cap := by
    rw [Sequence.room, if_pos hfull, Vec.expandDelta]
    omega
  cases m with
  | expand cap =>
    simp only [allocates, decide_eq_true_eq] at h
    have heffect : (VecMethod.expand cap).effect s = ({ s with cap }, .ok, none) := by
      simp only [effect, op, Sequence.exec]
      rw [if_neg (by omega)]
      rfl
    rw [heffect] at hcap ⊢
    exact ⟨rfl, hcap (Nat.ne_of_gt h)⟩
  | insert index e =>
    simp only [allocates, decide_eq_true_eq] at h
    have heffect : (VecMethod.insert index e).effect s =
        (⟨s.room, s.elems.insertIdx index e⟩, .ok, none) := by
      simp only [effect, op, Sequence.exec]
      rw [if_neg (by omega)]
      rfl
    rw [heffect] at hcap ⊢
    exact ⟨rfl, hcap (hroom h.2)⟩
  | push e =>
    simp only [allocates, decide_eq_true_eq] at h
    exact ⟨rfl, hcap (hroom h)⟩
  | remove index => cases h
  | removeByValue e => cases h
  | pop => cases h

end VecMethod

end Vec

section Ringbuffer

variable {α : Type*}

/-- The methods of `Ringbuffer` that pass a call to `UNWRAP`. -/
inductive RingMethod (α : Type*) where
  | expand (cap : ℕ)
  | pushFront (e : α)
  | popFront
  | pushBack (e : α)
  | popBack
  deriving DecidableEq, Repr

namespace RingMethod

def op : RingMethod α → RingOp α
  | .expand cap => .expand cap
  | .pushFront e => .pushFront e
  | .popFront => .popFront
  | .pushBack e => .pushBack e
  | .popBack => .popBack

def call (m : RingMethod α) (alloc : Bool) (rb : Ringbuffer α) :
    Except Fault (Ringbuffer α × CResult × Option (Slot α)) :=
  match m with
  | .expand cap => do let (rb, result) ← rb.expand alloc cap; return (rb, result, none)
  | .pushFront e => do let (rb, result) ← rb.pushFront alloc e; return (rb, result, none)
  | .popFront => rb.popFront
  | .pushBack e => do let (rb, result) ← rb.pushBack alloc e; return (rb, result, none)
  | .popBack => rb.popBack

def allocates (d : Deque α) : RingMethod α → Bool
  | .expand cap => d.cap < cap
  | .pushFront _ => d.elems.length = d.cap
  | .pushBack _ => d.elems.length = d.cap
  | _ => false

variable {d : Deque α} {m : RingMethod α}

theorem call_true (rb : Ringbuffer α) (h : rb.Represents d) :
    ∃ rb', m.call true rb = .ok (rb', (d.exec m.op).2.1, (d.exec m.op).2.2.map some) ∧
      rb'.Represents (d.exec m.op).1 := by
  have hexec : m.call true rb = rb.exec m.op := by
    cases m <;> rfl
  have hallows : d.allows m.op = true := by
    cases m <;> rfl
  rw [hexec]
  exact h.exec hallows

theorem call_false (rb : Ringbuffer α) (h : rb.Represents d) :
    m.call false rb = if m.allocates d then .ok (rb, .nomem, none) else m.call true rb := by
  have hsize := h.size_eq
  have hcap := h.cap_eq
  have hroom : rb.makeRoom false = if d.elems.length = d.cap then .ok (rb, .nomem)
      else rb.makeRoom true := by
    rw [Ringbuffer.makeRoom, Ringbuffer.makeRoom, hsize, hcap]
    by_cases hfull : d.elems.length = d.cap
    · rw [if_pos hfull, if_pos hfull, Ringbuffer.expand,
        if_neg (by rw [Ringbuffer.expandDelta]; omega),
        if_neg (by rw [Ringbuffer.expandDelta]; omega), if_pos rfl]
    · rw [if_neg hfull, if_neg hfull, if_neg hfull]
  cases m with
  | expand cap =>
    simp only [call, allocates, decide_eq_true_eq]
    by_cases hgrow : d.cap < cap
    · rw [if_pos hgrow, Ringbuffer.expand, if_neg (by omega), if_neg (by omega), if_pos rfl]
      rfl
    · rw [if_neg hgrow, Ringbuffer.expand, Ringbuffer.expand]
      by_cases hgreater : rb.cap > cap
      · rw [if_pos hgreater, if_pos hgreater]
      · rw [if_neg hgreater, if_neg hgreater, if_pos (by omega), if_pos (by omega)]
  | pushFront e =>
    simp only [call, Ringbuffer.pushFront, hroom, allocates, decide_eq_true_eq]
    split_ifs <;> rfl
  | popFront => rfl
  | pushBack e =>
    simp only [call, Ringbuffer.pushBack, hroom, allocates, decide_eq_true_eq]
    split_ifs <;> rfl
  | popBack => rfl

theorem effect_of_ne_ok (h : (d.exec m.op).2.1 ≠ .ok) : (d.exec m.op).1 = d := by
  cases m with
  | expand cap =>
    simp only [op, Deque.exec] at h ⊢
    split_ifs at h ⊢
    · rfl
    · exact absurd rfl h
  | pushFront e => exact absurd rfl h
  | popFront =>
    simp only [op, Deque.exec] at h ⊢
    cases hx : d.elems.getLast? with
    | none => rfl
    | some x =>
      rw [hx] at h
      exact absurd rfl h
  | pushBack e => exact absurd rfl h
  | popBack =>
    obtain ⟨cap, elems⟩ := d
    cases elems with
    | nil => rfl
    | cons x xs => exact absurd rfl h

theorem effect_of_allocates (h : m.allocates d = true) : (d.exec m.op).2.1 = .ok ∧
    ∀ rb : Ringbuffer α, rb.Represents d → ¬ rb.Represents (d.exec m.op).1 := by
  have hcap (hne : (d.exec m.op).1.cap ≠ d.cap) (rb : Ringbuffer α) (hrb : rb.Represents d) :
      ¬ rb.Represents (d.exec m.op).1 := fun hrb' => hne (hrb'.cap_eq.symm.trans hrb.cap_eq)
  have hroom (hfull : d.elems.length = d.cap) : d.room ≠ d.cap := by
    rw [Deque.room, if_pos hfull, Ringbuffer.expandDelta]
    omega
  cases m with
  | expand cap =>
    simp only [allocates, decide_eq_true_eq] at h
    have heffect : d.exec (RingMethod.expand cap).op = ({ d with cap }, .ok, none) := by
      simp only [op, Deque.exec]
      rw [if_neg (by omega)]
    rw [heffect] at hcap ⊢
    exact ⟨rfl, hcap (Nat.ne_of_gt h)⟩
  | pushFront e =>
    simp only [allocates, decide_eq_true_eq] at h
    exact ⟨rfl, hcap (hroom h)⟩
  | popFront => cases h
  | pushBack e =>
    simp only [allocates, decide_eq_true_eq] at h
    exact ⟨rfl, hcap (hroom h)⟩
  | popBack => cases h

end RingMethod

end Ringbuffer

section Methods

variable {α : Type*} [DecidableEq α]

/-- Every method throws exactly the failures, unless its first run needs memory that only
its second run gets. -/
theorem methods_throw_failures_iff :
    (∀ (v : Vec α) (s : Sequence α) (m : VecMethod α) (allocs : ℕ → Bool), v.Refines s →
      s.cap ≤ sizeMax → (ThrowsFailures m.call Vec.Refines s (m.effect s) allocs v ↔
        ¬ (m.allocates s = true ∧ allocs 0 = false ∧ allocs 1 = true))) ∧
    ∀ (rb : Ringbuffer α) (d : Deque α) (m : RingMethod α) (allocs : ℕ → Bool),
      rb.Represents d → (ThrowsFailures m.call Ringbuffer.Represents d (d.exec m.op) allocs rb ↔
        ¬ (m.allocates d = true ∧ allocs 0 = false ∧ allocs 1 = true)) := by
  constructor
  · intro v s m allocs h hfits
    exact throwsFailures_iff (fun v hv => VecMethod.call_true hfits v hv) VecMethod.call_false
      VecMethod.effect_of_ne_ok VecMethod.effect_of_allocates h
  · intro rb d m allocs h
    exact throwsFailures_iff RingMethod.call_true RingMethod.call_false
      RingMethod.effect_of_ne_ok RingMethod.effect_of_allocates h

/-- Removing behind the end fails twice, and pushing into a buffer with room does not fail. -/
theorem methods_throw_failures_no_memory :
    ThrowsFailures (VecMethod.remove 1).call Vec.Refines (⟨1, [5]⟩ : Sequence ℕ)
      ((VecMethod.remove 1).effect ⟨1, [5]⟩) (fun _ => false) ⟨1, 1, [some 5]⟩ ∧
    ThrowsFailures (RingMethod.pushBack 7).call Ringbuffer.Represents (⟨1, []⟩ : Deque ℕ)
      (Deque.exec ⟨1, []⟩ (RingMethod.pushBack 7).op) (fun _ => false) ⟨1, 0, 0, 0, [none]⟩ := by
  have hv : (⟨1, 1, [some 5]⟩ : Vec ℕ).Refines ⟨1, [5]⟩ :=
    ⟨⟨rfl, Nat.le_refl 1, rfl, by decide⟩, rfl⟩
  have hrb : (⟨1, 0, 0, 0, [none]⟩ : Ringbuffer ℕ).Represents ⟨1, []⟩ :=
    Ringbuffer.represents_of_pos rfl (by decide) (by decide) rfl rfl nofun
  constructor
  · exact (methods_throw_failures_iff.1 _ _ (.remove 1) (fun _ => false) hv (by decide)).mpr
      (by decide)
  · exact (methods_throw_failures_iff.2 _ _ (.pushBack 7) (fun _ => false) hrb).mpr (by decide)

/-- The first run of a push finds no memory and the second one does: the element is pushed,
and `C_OK` is thrown. -/
theorem not_methods_throw_failures_push :
    ¬ ∀ (v : Vec ℕ) (s : Sequence ℕ) (m : VecMethod ℕ) (allocs : ℕ → Bool), v.Refines s →
      s.cap ≤ sizeMax → ThrowsFailures m.call Vec.Refines s (m.effect s) allocs v := by
  intro hall
  have hv : (⟨1, 1, [some 5]⟩ : Vec ℕ).Refines ⟨1, [5]⟩ :=
    ⟨⟨rfl, Nat.le_refl 1, rfl, by decide⟩, rfl⟩
  obtain ⟨v', outcome, houtcome, -, -, hthrown⟩ :=
    hall _ _ (.push 7) (fun n => n == 1) hv (by decide)
  cases houtcome
  exact (hthrown _ rfl).1 rfl

end Methods

end Chatd.Collections
