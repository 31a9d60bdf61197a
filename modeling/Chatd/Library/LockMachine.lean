import Mathlib.Logic.Function.Basic
import Mathlib.Data.List.Basic
import Chatd.Library.Reach

/-! # Threads sharing data and mutexes

A thread program says, from the shared data and its own program point, what the
thread does next: acquire a mutex, release one, change the data, or nothing. A
thread blocks exactly where it is about to acquire a mutex that some thread owns.
When the mutexes a program point holds form a stack that acquisitions push and
releases pop, as scoped lock objects do, the owner map is determined by the
program points of the threads.
-/
namespace Chatd.Library

/-- The next action of a thread. A release may change the data in the same step. -/
inductive Act (μ σ π : Type*) where
  | lock (m : μ) (p : π)
  | unlock (m : μ) (d : σ) (p : π)
  | act (d : σ) (p : π)
  | halt

/-- The action takes data `d` to data `d'` and the thread to the point `q`. -/
def Act.Moves {μ σ π : Type*} : Act μ σ π → (d d' : σ) → (q : π) → Prop
  | .lock _ p, d, d', q => d' = d ∧ q = p
  | .unlock _ e p, _, d', q => d' = e ∧ q = p
  | .act e p, _, d', q => d' = e ∧ q = p
  | .halt, _, _, _ => False

/-- The same action, with its program point placed in a larger program. -/
def Act.map {μ σ π π' : Type*} (f : π → π') : Act μ σ π → Act μ σ π'
  | .lock m p => .lock m (f p)
  | .unlock m d p => .unlock m d (f p)
  | .act d p => .act d (f p)
  | .halt => .halt

/-- The same action on one part of larger data; `g` puts the part back in its place. -/
def Act.mapData {μ σ σ' π : Type*} (g : σ → σ') : Act μ σ π → Act μ σ' π
  | .lock m p => .lock m p
  | .unlock m d p => .unlock m (g d) p
  | .act d p => .act (g d) p
  | .halt => .halt

/-- The action keeps the stack of held mutexes: `h` before it, `held` behind it. -/
def Act.Keeps {μ σ π : Type*} (held : π → List μ) (h : List μ) : Act μ σ π → Prop
  | .lock m q => held q = m :: h
  | .unlock m _ q => h = m :: held q
  | .act _ q => held q = h
  | .halt => True

def Act.Locks {μ σ π : Type*} (m : μ) : Act μ σ π → Prop
  | .lock m' _ => m' = m
  | _ => False

/-- The action acquires no mutex outside of `M` and leads to a point with the property. -/
def Act.LocksIn {μ σ π : Type*} (M : μ → Prop) (Q : π → Prop) : Act μ σ π → Prop
  | .lock m q => M m ∧ Q q
  | .unlock _ _ q | .act _ q => Q q
  | .halt => True

section Placed

variable {μ σ π π' : Type*} {f : π → π'} {act : Act μ σ π} {held : π' → List μ}

theorem Act.keeps_map {h : List μ} :
    (act.map f).Keeps held h ↔ act.Keeps (held ∘ f) h := by
  cases act <;> rfl

theorem Act.locks_map {m : μ} : (act.map f).Locks m ↔ act.Locks m := by
  cases act <;> rfl

theorem Act.moves_map {d d' : σ} {q : π'} :
    (act.map f).Moves d d' q ↔ ∃ p, act.Moves d d' p ∧ q = f p := by
  cases act <;> simp [Act.map, Act.Moves, and_assoc]

variable {M : μ → Prop}

theorem Act.locksIn_map {Q : π' → Prop} : (act.map f).LocksIn M Q ↔ act.LocksIn M (Q ∘ f) := by
  cases act <;> rfl

theorem Act.LocksIn.locks {Q : π → Prop} (h : act.LocksIn M Q) {m : μ} (hm : act.Locks m) :
    M m := by
  cases act with
  | lock m' q => exact hm ▸ h.1
  | _ => exact hm.elim

theorem Act.LocksIn.moves {Q : π → Prop} (h : act.LocksIn M Q) {d d' : σ} {q : π}
    (hm : act.Moves d d' q) : Q q := by
  cases act with
  | lock m' p => rw [hm.2]; exact h.2
  | unlock m' e p => rw [hm.2]; exact h
  | act e p => rw [hm.2]; exact h
  | halt => exact hm.elim

variable {σ' : Type*} {g : σ → σ'}

theorem Act.mapData_ite (q : Prop) [Decidable q] (act act' : Act μ σ π) :
    (if q then act else act').mapData g = if q then act.mapData g else act'.mapData g :=
  apply_ite ..

theorem Act.mapData_map : (act.map f).mapData g = (act.mapData g).map f := by
  cases act <;> rfl

theorem Act.eq_of_moves_mapData {d d' : σ'} {q : π} (h : (act.mapData g).Moves d d' q) :
    d' = d ∨ ∃ e, d' = g e := by
  cases act with
  | lock m p => exact .inl h.1
  | unlock m e p => exact .inr ⟨e, h.1⟩
  | act e p => exact .inr ⟨e, h.1⟩
  | halt => exact h.elim

theorem Act.moves_of_mapData {f : σ' → σ} (hfg : ∀ e, f (g e) = e) {d d' : σ'} {q : π}
    (h : (act.mapData g).Moves d d' q) : act.Moves (f d) (f d') q := by
  cases act with
  | lock m p => exact ⟨congrArg f h.1, h.2⟩
  | unlock m e p => exact ⟨(congrArg f h.1).trans (hfg e), h.2⟩
  | act e p => exact ⟨(congrArg f h.1).trans (hfg e), h.2⟩
  | halt => exact h.elim

theorem Act.mapData_of_inverse {f : σ' → σ} (hfg : ∀ e, f (g e) = e) :
    (act.mapData g).mapData f = act := by
  cases act with
  | lock m p | halt => rfl
  | unlock m e p | act e p => simp only [Act.mapData, hfg]

theorem Act.keeps_mapData {held : π → List μ} {h : List μ} :
    (act.mapData g).Keeps held h ↔ act.Keeps held h := by
  cases act <;> rfl

theorem Act.locks_mapData {m : μ} : (act.mapData g).Locks m ↔ act.Locks m := by
  cases act <;> rfl

theorem Act.locksIn_mapData {Q : π → Prop} : (act.mapData g).LocksIn M Q ↔ act.LocksIn M Q := by
  cases act <;> rfl

end Placed

/-- Shared data, the program point of every thread, and the owner of every mutex. -/
@[ext]
structure Config (ι μ σ π : Type*) where
  data : σ
  pc : ι → π
  owner : μ → Option ι

/-- A thread program, with a choice that resolves what the program leaves open. -/
abbrev Prog (ι α μ σ π : Type*) := ι → α → σ → π → Act μ σ π

section Execution

variable {ι α μ σ π : Type*} [DecidableEq ι] [DecidableEq μ]

def Config.exec (c : Config ι μ σ π) (t : ι) : Act μ σ π → Option (Config ι μ σ π)
  | .lock m p =>
    if c.owner m = none then
      some { c with pc := Function.update c.pc t p, owner := Function.update c.owner m (some t) }
    else none
  | .unlock m d p =>
    some { data := d, pc := Function.update c.pc t p, owner := Function.update c.owner m none }
  | .act d p => some { c with data := d, pc := Function.update c.pc t p }
  | .halt => none

/-- One step of one thread; the label names the thread and its choice. -/
def step (prog : Prog ι α μ σ π) (c : Config ι μ σ π) (l : ι × α) : Option (Config ι μ σ π) :=
  c.exec l.1 (prog l.1 l.2 c.data (c.pc l.1))

variable {prog : Prog ι α μ σ π} {c c' : Config ι μ σ π} {t : ι} {a : α}

/-- Everything a step can do, guards included. -/
theorem step_cases (h : step prog c (t, a) = some c') :
    (∃ m p, prog t a c.data (c.pc t) = .lock m p ∧ c.owner m = none ∧
      c' = { c with pc := Function.update c.pc t p
                    owner := Function.update c.owner m (some t) }) ∨
    (∃ m d p, prog t a c.data (c.pc t) = .unlock m d p ∧
      c' = { data := d, pc := Function.update c.pc t p
             owner := Function.update c.owner m none }) ∨
    (∃ d p, prog t a c.data (c.pc t) = .act d p ∧
      c' = { c with data := d, pc := Function.update c.pc t p }) := by
  unfold step at h
  dsimp only at h
  cases hp : prog t a c.data (c.pc t) with
  | lock m p =>
    rw [hp] at h
    by_cases ho : c.owner m = none
    · rw [Config.exec, if_pos ho] at h
      exact .inl ⟨m, p, rfl, ho, (Option.some.inj h).symm⟩
    · rw [Config.exec, if_neg ho] at h
      cases h
  | unlock m d p =>
    rw [hp] at h
    exact .inr (.inl ⟨m, d, p, rfl, (Option.some.inj h).symm⟩)
  | act d p =>
    rw [hp] at h
    exact .inr (.inr ⟨d, p, rfl, (Option.some.inj h).symm⟩)
  | halt => rw [hp] at h; cases h

theorem step_of_act {d : σ} {p : π} (h : prog t a c.data (c.pc t) = .act d p) :
    step prog c (t, a) = some { c with data := d, pc := Function.update c.pc t p } := by
  rw [step]
  dsimp only
  rw [h]
  rfl

theorem step_moves (h : step prog c (t, a) = some c') :
    (prog t a c.data (c.pc t)).Moves c.data c'.data (c'.pc t) ∧ ∀ s, s ≠ t → c'.pc s = c.pc s := by
  have hother (p : π) (s : ι) (hs : s ≠ t) : Function.update c.pc t p s = c.pc s :=
    Function.update_of_ne hs p c.pc
  rcases step_cases h with ⟨m, p, hp, -, rfl⟩ | ⟨m, d, p, hp, rfl⟩ | ⟨d, p, hp, rfl⟩
  · exact ⟨by rw [hp]; exact ⟨rfl, Function.update_self t p c.pc⟩, hother p⟩
  · exact ⟨by rw [hp]; exact ⟨rfl, Function.update_self t p c.pc⟩, hother p⟩
  · exact ⟨by rw [hp]; exact ⟨rfl, Function.update_self t p c.pc⟩, hother p⟩

end Execution

section Abstraction

variable {ι α μ σ σ' π : Type*} {g : σ → σ'}

/-- The same threads and mutexes over a view of the data. -/
def Config.mapData (g : σ → σ') (c : Config ι μ σ π) : Config ι μ σ' π :=
  ⟨g c.data, c.pc, c.owner⟩

variable [DecidableEq ι] [DecidableEq μ] {prog : Prog ι α μ σ π} {prog' : Prog ι α μ σ' π}
  {c : Config ι μ σ π}

theorem Config.exec_mapData (t : ι) (act : Act μ σ π) :
    (c.mapData g).exec t (act.mapData g) = (c.exec t act).map (Config.mapData g) := by
  cases act with
  | lock m p =>
    rw [Act.mapData, Config.exec, Config.exec]
    by_cases ho : c.owner m = none
    · rw [if_pos ho, if_pos (show (c.mapData g).owner m = none from ho)]
      rfl
    · rw [if_neg ho, if_neg (show ¬ (c.mapData g).owner m = none from ho)]
      rfl
  | unlock m d p => rfl
  | act d p => rfl
  | halt => rfl

/-- Where the next actions agree under the view, so do the steps. -/
theorem step_mapData {l : ι × α}
    (h : (prog l.1 l.2 c.data (c.pc l.1)).mapData g = prog' l.1 l.2 (g c.data) (c.pc l.1)) :
    Library.step prog' (c.mapData g) l = (Library.step prog c l).map (Config.mapData g) := by
  rw [Library.step, Library.step, ← c.exec_mapData, h]
  rfl

end Abstraction

section Ownership

variable {ι α μ σ π : Type*}

/-- The mutexes held at a program point form a stack kept by scoped lock objects. -/
structure Scoped (prog : Prog ι α μ σ π) (held : ι → π → List μ) : Prop where
  lock : ∀ {t a d p m q}, prog t a d p = .lock m q → held t q = m :: held t p
  unlock : ∀ {t a d p m d' q}, prog t a d p = .unlock m d' q → held t p = m :: held t q
  act : ∀ {t a d p d' q}, prog t a d p = .act d' q → held t q = held t p

theorem Scoped.of_keeps {prog : Prog ι α μ σ π} {held : ι → π → List μ}
    (h : ∀ t a d p, (prog t a d p).Keeps (held t) (held t p)) : Scoped prog held where
  lock {t a d p m q} hp := by simpa [hp, Act.Keeps] using h t a d p
  unlock {t a d p m d' q} hp := by simpa [hp, Act.Keeps] using h t a d p
  act {t a d p d' q} hp := by simpa [hp, Act.Keeps] using h t a d p

/-- The owner map says exactly what the program points hold, and nothing is held twice. -/
structure Owned (held : ι → π → List μ) (c : Config ι μ σ π) : Prop where
  owner_iff : ∀ m t, c.owner m = some t ↔ m ∈ held t (c.pc t)
  nodup : ∀ t, (held t (c.pc t)).Nodup

variable {held : ι → π → List μ} {c : Config ι μ σ π}

theorem Owned.unique (h : Owned held c) {m : μ} {s t : ι}
    (hs : m ∈ held s (c.pc s)) (ht : m ∈ held t (c.pc t)) : s = t := by
  rw [← h.owner_iff] at hs ht
  exact Option.some.inj (hs.symm.trans ht)

theorem owned_of_free (hp : ∀ t, held t (c.pc t) = []) (ho : ∀ m, c.owner m = none) :
    Owned held c where
  owner_iff m t := by simp [hp, ho]
  nodup t := by simp [hp]

variable [DecidableEq ι] [DecidableEq μ] {prog : Prog ι α μ σ π}

theorem Owned.lock (h : Owned held c) {t : ι} {m : μ} {p : π} (ho : c.owner m = none)
    (hp : held t p = m :: held t (c.pc t)) :
    Owned held { c with pc := Function.update c.pc t p
                        owner := Function.update c.owner m (some t) } where
  owner_iff m' s := by
    by_cases hs : s = t
    · subst hs
      by_cases hm : m' = m
      · simp [hm, hp]
      · simp [hm, hp, h.owner_iff]
    · by_cases hm : m' = m
      · subst hm
        have hn : m' ∉ held s (c.pc s) := by
          rw [← h.owner_iff, ho]
          simp
        simp [Function.update_of_ne hs, hn, Ne.symm hs]
      · simp [Function.update_of_ne hs, hm, h.owner_iff]
  nodup s := by
    by_cases hs : s = t
    · subst hs
      have hn : m ∉ held s (c.pc s) := by
        rw [← h.owner_iff, ho]
        simp
      simpa [hp, hn] using h.nodup s
    · simpa [Function.update_of_ne hs] using h.nodup s

theorem Owned.unlock (h : Owned held c) {t : ι} {m : μ} {d : σ} {p : π}
    (hp : held t (c.pc t) = m :: held t p) :
    Owned held { data := d, pc := Function.update c.pc t p
                 owner := Function.update c.owner m none } where
  owner_iff m' s := by
    have hd := h.nodup t
    rw [hp, List.nodup_cons] at hd
    by_cases hs : s = t
    · subst hs
      by_cases hm : m' = m
      · subst hm
        simp [hd.1]
      · simp [hm, h.owner_iff, hp]
    · by_cases hm : m' = m
      · subst hm
        have hn : m' ∉ held s (c.pc s) := fun hh =>
          hs (h.unique hh (by rw [hp]; exact List.mem_cons_self))
        simp [Function.update_of_ne hs, hn]
      · simp [Function.update_of_ne hs, hm, h.owner_iff]
  nodup s := by
    by_cases hs : s = t
    · subst hs
      have hd := h.nodup s
      rw [hp, List.nodup_cons] at hd
      simpa using hd.2
    · simpa [Function.update_of_ne hs] using h.nodup s

omit [DecidableEq μ] in
theorem Owned.act (h : Owned held c) {t : ι} {d : σ} {p : π}
    (hp : held t p = held t (c.pc t)) :
    Owned held { c with data := d, pc := Function.update c.pc t p } where
  owner_iff m s := by
    by_cases hs : s = t
    · subst hs
      simp [hp, h.owner_iff]
    · simp [Function.update_of_ne hs, h.owner_iff]
  nodup s := by
    by_cases hs : s = t
    · subst hs
      simpa [hp] using h.nodup s
    · simpa [Function.update_of_ne hs] using h.nodup s

/-- Scoped locking keeps the owner map in step with the program points. -/
theorem Owned.step (hs : Scoped prog held) (h : Owned held c) {l : ι × α} {c' : Config ι μ σ π}
    (hc : Library.step prog c l = some c') : Owned held c' := by
  rcases step_cases hc with ⟨m, p, hp, ho, rfl⟩ | ⟨m, d, p, hp, rfl⟩ | ⟨d, p, hp, rfl⟩
  · exact h.lock ho (hs.lock hp)
  · exact h.unlock (hs.unlock hp)
  · exact h.act (hs.act hp)

theorem Owned.of_reach (hs : Scoped prog held)
    {ok : Config ι μ σ π → ι × α → Config ι μ σ π → Prop} {init : Config ι μ σ π → Prop}
    (h0 : ∀ c, init c → Owned held c) (h : Reach (Library.step prog) ok init c) : Owned held c :=
  h.invariant h0 fun _ _ _ hi hc _ => hi.step hs hc

end Ownership

section WaitFor

variable {ι α μ σ π : Type*}

def Wants (prog : Prog ι α μ σ π) (c : Config ι μ σ π) (t : ι) (m : μ) : Prop :=
  ∃ a, (prog t a c.data (c.pc t)).Locks m

/-- The first thread is blocked on a mutex that the second one owns. -/
def WaitsFor (prog : Prog ι α μ σ π) (c : Config ι μ σ π) (s t : ι) : Prop :=
  ∃ m, Wants prog c s m ∧ c.owner m = some t

/-- A check for `WaitsFor`, with the choice of the waiting thread. -/
def Config.waitsFor [DecidableEq ι] (prog : Prog ι α μ σ π) (c : Config ι μ σ π) (s : ι) (a : α)
    (t : ι) : Bool :=
  match prog s a c.data (c.pc s) with
  | .lock m _ => c.owner m == some t
  | _ => false

theorem WaitsFor.of_waitsFor [DecidableEq ι] {prog : Prog ι α μ σ π} {c : Config ι μ σ π}
    {s t : ι} {a : α} (h : c.waitsFor prog s a t = true) : WaitsFor prog c s t := by
  rw [Config.waitsFor] at h
  split at h
  case h_1 m p hm => exact ⟨m, ⟨a, by rw [hm]; rfl⟩, by simpa using h⟩
  case h_2 => cases h

/-- Some thread waits for itself along a chain of threads, each waiting for the next. -/
def CircularWait (prog : Prog ι α μ σ π) (c : Config ι μ σ π) : Prop :=
  ∃ t, Relation.TransGen (WaitsFor prog c) t t

end WaitFor

end Chatd.Library
