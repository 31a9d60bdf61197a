import Mathlib.Data.List.Perm.Subperm
import Mathlib.Logic.Function.Basic
import Chatd.Collections.Wrappers
import Chatd.Net.Server.ConnectionPool

/-! # The vectors of users and channels

`ConnectionPool::get`, `push` and `remove` as loops over the vector of one of the two kinds,
whose elements are heap cells with a name. The vector implements a map from names to cells,
whatever allocations fail.
-/
namespace Chatd.Net.Server
open Library Collections

/-- `m_users` or `m_channels`, with the cells that `remove` has deleted. -/
structure Registry (κ : Type*) where
  vec : Vec κ
  deleted : List κ
  deriving DecidableEq, Repr

/-- A call; `allocs n` is the result of the allocation that run `n` of `vec_push` makes. -/
inductive RegistryCall (κ : Type*) where
  | get (name : Bytes)
  | push (elem : κ) (allocs : ℕ → Bool)
  | remove (name : Bytes)

inductive RegistryReturn (κ : Type*) where
  | got (elem : Option κ)
  | returned (done : Bool)
  | threw (result : CResult)
  deriving DecidableEq, Repr

namespace Registry

variable {κ : Type*} (nameOf : κ → Bytes) (r : Registry κ)

/-- The members as the constructor of `ConnectionPool` leaves them. -/
def start : Registry κ := ⟨⟨Vec.expandDelta, 0, .alloc Vec.expandDelta⟩, []⟩

/-- The loop with `n` elements left: the first one of a name, with its index. -/
def scan (arr : Block κ) (name : Bytes) : (n i : ℕ) → Except Fault (Option (ℕ × κ))
  | 0, _ => .ok none
  | n + 1, i => do
    match ← arr.load i with
    | none => .error .outOfBounds
    | some elem => if nameOf elem = name then return some (i, elem) else scan arr name n (i + 1)

/-- `vec_push` under `UNWRAP`. -/
def pushCall (elem : κ) (alloc : Bool) (v : Vec κ) :
    Except Fault (Vec κ × CResult × Option (Slot κ)) := do
  let (v, result) ← v.push alloc elem
  return (v, result, none)

/-- `vec_remove` under `UNWRAP`; it allocates nothing. -/
def removeCall (i : ℕ) (_ : Bool) (v : Vec κ) :
    Except Fault (Vec κ × CResult × Option (Slot κ)) := v.remove i true

def exec : RegistryCall κ → Except Fault (Registry κ × RegistryReturn κ)
  | .get name => do
    let found ← scan nameOf r.vec.arr name r.vec.size 0
    return (r, .got (found.map Prod.snd))
  | .push elem allocs => do
    match ← scan nameOf r.vec.arr (nameOf elem) r.vec.size 0 with
    | some _ => return (r, .returned false)
    | none =>
      let (vec, outcome) ← unwrap (pushCall elem) allocs r.vec
      match outcome with
      | .returned _ => return ({ r with vec }, .returned true)
      | .thrown result => return ({ r with vec }, .threw result)
  | .remove name => do
    match ← scan nameOf r.vec.arr name r.vec.size 0 with
    | none => return (r, .returned false)
    | some (i, elem) =>
      let (vec, outcome) ← unwrap (removeCall i) (fun _ => true) r.vec
      match outcome with
      | .returned _ => return (⟨vec, r.deleted ++ [elem]⟩, .returned true)
      | .thrown result => return ({ r with vec }, .threw result)

def execAll : Registry κ → List (RegistryCall κ) →
    Except Fault (Registry κ × List (RegistryReturn κ))
  | r, [] => .ok (r, [])
  | r, call :: calls => do
    let (r, result) ← exec nameOf r call
    let (r, results) ← execAll r calls
    return (r, result :: results)

end Registry

abbrev NameMap (κ : Type*) := Bytes → Option κ

/-- What a call does to the map, and what it may answer. A name that is taken stays with its
cell; a cell of a name that is free is added, although the code may be thrown behind it, or
is not for want of memory. -/
inductive NameMap.Answers {κ : Type*} (nameOf : κ → Bytes) :
    NameMap κ → RegistryCall κ → RegistryReturn κ → NameMap κ → Prop
  | get (m : NameMap κ) (name : Bytes) : Answers nameOf m (.get name) (.got (m name)) m
  | taken {m : NameMap κ} {elem : κ} {allocs : ℕ → Bool}
    (h : (m (nameOf elem)).isSome = true) :
    Answers nameOf m (.push elem allocs) (.returned false) m
  | pushed {m : NameMap κ} {elem : κ} {allocs : ℕ → Bool} (h : m (nameOf elem) = none) :
    Answers nameOf m (.push elem allocs) (.returned true)
      (Function.update m (nameOf elem) (some elem))
  | pushedLate {m : NameMap κ} {elem : κ} {allocs : ℕ → Bool} (h : m (nameOf elem) = none)
    (hallocs : allocs 0 = false ∧ allocs 1 = true) :
    Answers nameOf m (.push elem allocs) (.threw .ok)
      (Function.update m (nameOf elem) (some elem))
  | nomem {m : NameMap κ} {elem : κ} {allocs : ℕ → Bool} (h : m (nameOf elem) = none)
    (hallocs : allocs 0 = false ∧ allocs 1 = false) :
    Answers nameOf m (.push elem allocs) (.threw .nomem) m
  | remove (m : NameMap κ) (name : Bytes) :
    Answers nameOf m (.remove name) (.returned (m name).isSome) (Function.update m name none)

/-- The cells that a call deletes: the one of the name that it removes, if there is one. -/
def NameMap.deletes {κ : Type*} (m : NameMap κ) : RegistryCall κ → List κ
  | .remove name => (m name).toList
  | .get _ | .push _ _ => []

inductive NameMap.Runs {κ : Type*} (nameOf : κ → Bytes) :
    NameMap κ → List (RegistryCall κ) → List (RegistryReturn κ) → List κ → NameMap κ → Prop
  | nil (m : NameMap κ) : Runs nameOf m [] [] [] m
  | cons {m m₁ m' : NameMap κ} {call : RegistryCall κ} {result : RegistryReturn κ}
    {calls : List (RegistryCall κ)} {results : List (RegistryReturn κ)} {deleted : List κ}
    (h : Answers nameOf m call result m₁) (hrest : Runs nameOf m₁ calls results deleted m') :
    Runs nameOf m (call :: calls) (result :: results) (m.deletes call ++ deleted) m'

def RegistryCall.cell {κ : Type*} : RegistryCall κ → Option κ
  | .push elem _ => some elem
  | .get _ | .remove _ => none

namespace Registry

variable {κ : Type*} {nameOf : κ → Bytes} {v : Vec κ} {cells : List κ} {name : Bytes} {elem : κ}

theorem load_append {kept todo : List κ} (h : v.Represents (kept ++ elem :: todo)) :
    v.arr.load kept.length = .ok (some elem) := by
  have hslot := h.holds kept.length (by simp)
  rw [List.getElem?_append_right (Nat.le_refl _), Nat.sub_self, List.getElem?_cons_zero] at hslot
  exact Block.load_eq hslot

structure FirstOf (nameOf : κ → Bytes) (name : Bytes) (cells before : List κ) (elem : κ)
    (after : List κ) : Prop where
  cells_eq : cells = before ++ elem :: after
  name_eq : nameOf elem = name
  before_ne : ∀ e ∈ before, nameOf e ≠ name

theorem scan_from (nameOf : κ → Bytes) (name : Bytes) {kept todo : List κ}
    (h : v.Represents (kept ++ todo)) :
    (∃ before elem after, FirstOf nameOf name todo before elem after ∧
        scan nameOf v.arr name todo.length kept.length =
          .ok (some (kept.length + before.length, elem))) ∨
      (∀ e ∈ todo, nameOf e ≠ name) ∧
        scan nameOf v.arr name todo.length kept.length = .ok none := by
  induction todo generalizing kept with
  | nil => exact .inr ⟨fun e he => absurd he List.not_mem_nil, rfl⟩
  | cons elem todo ih =>
    rw [List.length_cons, scan, load_append h, ok_bind]
    dsimp only
    by_cases hname : nameOf elem = name
    · rw [if_pos hname]
      exact .inl ⟨[], elem, todo,
        ⟨rfl, hname, fun e he => absurd he List.not_mem_nil⟩, rfl⟩
    · rw [if_neg hname]
      have hnext : v.Represents ((kept ++ [elem]) ++ todo) := by
        rwa [List.append_assoc, List.singleton_append]
      have ih := ih hnext
      rw [List.length_append, List.length_singleton] at ih
      rcases ih with ⟨before, e, after, hfirst, hscan⟩ | ⟨hnone, hscan⟩
      · refine .inl ⟨elem :: before, e, after, ⟨?_, hfirst.name_eq, ?_⟩, ?_⟩
        · rw [hfirst.cells_eq, List.cons_append]
        · intro f hf
          rcases List.mem_cons.mp hf with rfl | hf
          · exact hname
          · exact hfirst.before_ne f hf
        · rw [hscan, List.length_cons, Nat.add_assoc, Nat.add_comm 1]
      · refine .inr ⟨fun f hf => ?_, hscan⟩
        rcases List.mem_cons.mp hf with rfl | hf
        · exact hname
        · exact hnone f hf

/-- The loop finds the first element of a name, and where it stands. -/
theorem scan_cases (h : v.Represents cells) (nameOf : κ → Bytes) (name : Bytes) :
    (∃ before elem after, FirstOf nameOf name cells before elem after ∧
        scan nameOf v.arr name v.size 0 = .ok (some (before.length, elem))) ∨
      (∀ e ∈ cells, nameOf e ≠ name) ∧ scan nameOf v.arr name v.size 0 = .ok none := by
  have hnil : v.Represents ([] ++ cells) := h
  have hscan := scan_from nameOf name hnil
  rw [← h.size_eq] at hscan
  simpa only [List.length_nil, Nat.zero_add] using hscan

theorem get_of_first {before after : List κ} (h : FirstOf nameOf name cells before elem after) :
    ConnectionPool.get nameOf cells name = some elem := by
  rw [ConnectionPool.get, h.cells_eq, List.find?_append, List.find?_eq_none.mpr
    fun e he => by simpa using h.before_ne e he, List.find?_cons_of_pos (by simpa using h.name_eq),
    Option.none_or]

theorem get_of_none (h : ∀ e ∈ cells, nameOf e ≠ name) :
    ConnectionPool.get nameOf cells name = none := by
  rw [ConnectionPool.get, List.find?_eq_none]
  intro e he
  simpa using h e he

theorem get_append (h : ∀ e ∈ cells, nameOf e ≠ nameOf elem) :
    ConnectionPool.get nameOf (cells ++ [elem]) =
      Function.update (ConnectionPool.get nameOf cells) (nameOf elem) (some elem) := by
  funext name
  by_cases hname : name = nameOf elem
  · rw [hname, Function.update_self]
    exact get_of_first ⟨rfl, rfl, h⟩
  · rw [Function.update_of_ne hname, ConnectionPool.get, ConnectionPool.get, List.find?_append]
    simp [Ne.symm hname]

theorem get_remove {before after : List κ} (h : FirstOf nameOf name cells before elem after)
    (hn : (cells.map nameOf).Nodup) :
    ConnectionPool.get nameOf (before ++ after) =
      Function.update (ConnectionPool.get nameOf cells) name none := by
  obtain ⟨rfl, rfl, hbefore⟩ := h
  rw [List.map_append, List.map_cons, List.nodup_append, List.nodup_cons] at hn
  funext name
  by_cases hname : name = nameOf elem
  · rw [hname, Function.update_self]
    apply get_of_none
    intro e he
    rcases List.mem_append.mp he with he | he
    · exact hbefore e he
    · exact fun heq => hn.2.1.1 (heq ▸ List.mem_map_of_mem he)
  · rw [Function.update_of_ne hname, ConnectionPool.get, ConnectionPool.get, List.find?_append,
      List.find?_append, List.find?_cons_of_neg (by simpa using Ne.symm hname)]

/-- `vec_push` behind the macro, which calls it again where it fails. -/
theorem unwrap_push (h : v.Represents cells) (elem : κ) (allocs : ℕ → Bool) :
    (∃ v', unwrap (pushCall elem) allocs v = .ok (v', .returned none) ∧
        v'.Represents (cells ++ [elem])) ∨
      (∃ v', unwrap (pushCall elem) allocs v = .ok (v', .thrown .ok) ∧
        v'.Represents (cells ++ [elem]) ∧ allocs 0 = false ∧ allocs 1 = true) ∨
      unwrap (pushCall elem) allocs v = .ok (v, .thrown .nomem) ∧
        allocs 0 = false ∧ allocs 1 = false := by
  obtain ⟨v', hpush, h', -⟩ := h.push elem
  have hcall (alloc : Bool) : pushCall elem alloc v =
      if alloc = false ∧ v.size = v.cap then .ok (v, .nomem, none)
      else .ok (v', .ok, none) := by
    cases alloc with
    | true =>
      rw [if_neg (by simp), pushCall, hpush]
      rfl
    | false =>
      rw [pushCall, Vec.push, Vec.insert_false]
      by_cases hfull : v.size = v.cap
      · rw [if_pos ⟨Nat.le_refl _, hfull⟩, if_pos ⟨rfl, hfull⟩]
        rfl
      · rw [if_neg fun hf => hfull hf.2, if_neg fun hf => hfull hf.2]
        rw [Vec.push] at hpush
        rw [hpush]
        rfl
  rw [unwrap, hcall]
  by_cases hfirst : allocs 0 = false ∧ v.size = v.cap
  · rw [if_pos hfirst, ok_bind]
    dsimp only
    rw [if_neg (by simp), hcall]
    cases hsecond : allocs 1 with
    | true =>
      rw [if_neg (by simp)]
      exact .inr (.inl ⟨v', rfl, h', hfirst.1, rfl⟩)
    | false =>
      rw [if_pos ⟨rfl, hfirst.2⟩]
      exact .inr (.inr ⟨rfl, hfirst.1, rfl⟩)
  · rw [if_neg hfirst]
    exact .inl ⟨v', rfl, h'⟩

theorem unwrap_remove {before after : List κ} (h : v.Represents (before ++ elem :: after)) :
    ∃ v' x, unwrap (removeCall before.length) (fun _ => true) v = .ok (v', .returned x) ∧
      v'.Represents (before ++ after) := by
  have hlt : before.length < (before ++ elem :: after).length := by simp
  obtain ⟨v', hremove, h', -⟩ := h.remove hlt true
  rw [List.eraseIdx_append_of_length_le (Nat.le_refl _), Nat.sub_self, List.eraseIdx_cons_zero]
    at h'
  rw [unwrap, removeCall, hremove]
  exact ⟨v', _, rfl, h'⟩

/-- The vector holds these cells, under distinct names. -/
structure Keeps (nameOf : κ → Bytes) (r : Registry κ) (cells : List κ) : Prop where
  represents : r.vec.Represents cells
  names : (cells.map nameOf).Nodup

/-- A call answers as the map of the cells, and deletes the cell of a name that it removes. -/
def AnswersAs (nameOf : κ → Bytes) (r : Registry κ) (cells : List κ) (call : RegistryCall κ) :
    Prop :=
  ∃ r' result cells', r.exec nameOf call = .ok (r', result) ∧ r'.Keeps nameOf cells' ∧
    NameMap.Answers nameOf (ConnectionPool.get nameOf cells) call result
      (ConnectionPool.get nameOf cells') ∧
    r'.deleted = r.deleted ++ NameMap.deletes (ConnectionPool.get nameOf cells) call ∧
    (r'.deleted ++ cells').Subperm (r.deleted ++ cells ++ call.cell.toList)

theorem Keeps.get {r : Registry κ} (h : r.Keeps nameOf cells) (name : Bytes) :
    AnswersAs nameOf r cells (.get name) := by
  obtain ⟨hrep, hnames⟩ := h
  refine ⟨r, .got (ConnectionPool.get nameOf cells name), cells, ?_, ⟨hrep, hnames⟩, .get _ _,
    (List.append_nil _).symm, ?_⟩
  · rw [Registry.exec]
    rcases scan_cases hrep nameOf name with ⟨before, elem, after, hfirst, hscan⟩ | ⟨hnone, hscan⟩
    · rw [hscan, get_of_first hfirst]
      rfl
    · rw [hscan, get_of_none hnone]
      rfl
  · rw [RegistryCall.cell, Option.toList_none, List.append_nil]

theorem Keeps.push {r : Registry κ} (h : r.Keeps nameOf cells) (elem : κ) (allocs : ℕ → Bool) :
    AnswersAs nameOf r cells (.push elem allocs) := by
  obtain ⟨hrep, hnames⟩ := h
  rw [AnswersAs, Registry.exec]
  rcases scan_cases hrep nameOf (nameOf elem) with ⟨before, e, after, hfirst, hscan⟩ |
    ⟨hfree, hscan⟩
  · rw [hscan]
    refine ⟨r, _, cells, rfl, ⟨hrep, hnames⟩, .taken ?_, (List.append_nil _).symm,
      (List.sublist_append_left _ _).subperm⟩
    rw [get_of_first hfirst]
    rfl
  · have hnone := get_of_none hfree
    have hnames' : ((cells ++ [elem]).map nameOf).Nodup := by
      rw [List.map_append, List.nodup_append]
      refine ⟨hnames, List.nodup_singleton _, ?_⟩
      simpa using hfree
    rw [hscan, ok_bind]
    dsimp only
    rcases unwrap_push hrep elem allocs with ⟨v', hpush, h'⟩ | ⟨v', hpush, h', hallocs⟩ |
      ⟨hpush, hallocs⟩
    · rw [hpush]
      refine ⟨_, _, cells ++ [elem], rfl, ⟨h', hnames'⟩, ?_, (List.append_nil _).symm, ?_⟩
      · rw [get_append hfree]
        exact .pushed hnone
      · rw [← List.append_assoc]
        exact List.Subperm.refl _
    · rw [hpush]
      refine ⟨_, _, cells ++ [elem], rfl, ⟨h', hnames'⟩, ?_, (List.append_nil _).symm, ?_⟩
      · rw [get_append hfree]
        exact .pushedLate hnone hallocs
      · rw [← List.append_assoc]
        exact List.Subperm.refl _
    · rw [hpush]
      exact ⟨_, _, cells, rfl, ⟨hrep, hnames⟩, .nomem hnone hallocs, (List.append_nil _).symm,
        (List.sublist_append_left _ _).subperm⟩

theorem Keeps.remove {r : Registry κ} (h : r.Keeps nameOf cells) (name : Bytes) :
    AnswersAs nameOf r cells (.remove name) := by
  obtain ⟨hrep, hnames⟩ := h
  rw [AnswersAs, Registry.exec, RegistryCall.cell, Option.toList_none, List.append_nil]
  rcases scan_cases hrep nameOf name with ⟨before, elem, after, hfirst, hscan⟩ | ⟨hnone, hscan⟩
  · have hremoved := get_remove hfirst hnames
    have hgot := get_of_first hfirst
    obtain ⟨rfl, -, -⟩ := hfirst
    obtain ⟨v', x, hremove, h'⟩ := unwrap_remove hrep
    rw [hscan, ok_bind]
    dsimp only
    rw [hremove]
    refine ⟨_, _, before ++ after, rfl, ⟨h', ?_⟩, ?_, ?_, ?_⟩
    · exact hnames.sublist (List.Sublist.map _ (by simp))
    · rw [hremoved]
      have hanswer := @NameMap.Answers.remove _ nameOf
        (ConnectionPool.get nameOf (before ++ elem :: after)) name
      rwa [hgot] at hanswer
    · rw [NameMap.deletes, hgot]
      rfl
    · apply List.Perm.subperm
      rw [List.append_assoc, List.singleton_append]
      exact (List.perm_middle.symm).append_left _
  · rw [hscan]
    have hdeletes : r.deleted =
        r.deleted ++ NameMap.deletes (ConnectionPool.get nameOf cells) (.remove name) := by
      rw [NameMap.deletes, get_of_none hnone]
      exact (List.append_nil _).symm
    refine ⟨r, _, cells, rfl, ⟨hrep, hnames⟩, ?_, hdeletes, List.Subperm.refl _⟩
    have hanswer := @NameMap.Answers.remove _ nameOf (ConnectionPool.get nameOf cells) name
    rw [get_of_none hnone, Function.update_eq_self_iff.mpr (get_of_none hnone).symm] at hanswer
    exact hanswer

theorem Keeps.exec {r : Registry κ} (h : r.Keeps nameOf cells) (call : RegistryCall κ) :
    AnswersAs nameOf r cells call := by
  cases call with
  | get name => exact h.get name
  | push elem allocs => exact h.push elem allocs
  | remove name => exact h.remove name

theorem Keeps.execAll {r : Registry κ} (h : r.Keeps nameOf cells)
    (calls : List (RegistryCall κ)) :
    ∃ r' results deleted cells', r.execAll nameOf calls = .ok (r', results) ∧
      r'.Keeps nameOf cells' ∧
      NameMap.Runs nameOf (ConnectionPool.get nameOf cells) calls results deleted
        (ConnectionPool.get nameOf cells') ∧ r'.deleted = r.deleted ++ deleted ∧
      (r'.deleted ++ cells').Subperm (r.deleted ++ cells ++ calls.filterMap RegistryCall.cell) := by
  induction calls generalizing r cells with
  | nil =>
    refine ⟨r, [], [], cells, rfl, h, .nil _, (List.append_nil _).symm, ?_⟩
    rw [List.filterMap_nil, List.append_nil]
  | cons call calls ih =>
    obtain ⟨r₁, result, cells₁, hexec, h₁, hanswer, hdeletes, hsub⟩ := h.exec call
    obtain ⟨r', results, deleted, cells', hrest, h', hruns, hdeleted, hsub'⟩ := ih h₁
    refine ⟨r', result :: results, _, cells', ?_, h', .cons hanswer hruns, ?_, ?_⟩
    · rw [Registry.execAll, hexec, ok_bind]
      dsimp only
      rw [hrest]
      rfl
    · rw [hdeleted, hdeletes, List.append_assoc]
    · have hcells : (call :: calls).filterMap RegistryCall.cell =
          call.cell.toList ++ calls.filterMap RegistryCall.cell := by
        cases call <;> rfl
      rw [hcells, ← List.append_assoc]
      exact hsub'.trans ((List.subperm_append_right _).mpr hsub)

theorem Keeps.start (nameOf : κ → Bytes) : (start : Registry κ).Keeps nameOf [] := by
  refine ⟨⟨Block.length_alloc _, Nat.zero_le _, rfl, fun i hi => ?_⟩, List.nodup_nil⟩
  exact absurd hi (Nat.not_lt_zero i)

end Registry

/-- Every run of `get`, `push` and `remove` over the vector, whatever allocations fail, stays
within the vector and answers as a map from names to cells. The cells that the vector holds are
the values of the map, under distinct names; those that were deleted are the cells of the names
that were removed; together they are among the cells that were pushed, each as often at most. -/
theorem registry_implements_map {κ : Type*} (nameOf : κ → Bytes)
    (calls : List (RegistryCall κ)) :
    ∃ r results cells, Registry.start.execAll nameOf calls = .ok (r, results) ∧
      r.vec.Represents cells ∧ (cells.map nameOf).Nodup ∧
      NameMap.Runs nameOf (fun _ => none) calls results r.deleted
        (fun name => cells.find? fun elem => nameOf elem == name) ∧
      (r.deleted ++ cells).Subperm (calls.filterMap RegistryCall.cell) := by
  obtain ⟨r, results, deleted, cells, hexec, hkeeps, hruns, hdeleted, hsub⟩ :=
    (Registry.Keeps.start nameOf).execAll calls
  obtain rfl : r.deleted = deleted := hdeleted
  exact ⟨r, results, cells, hexec, hkeeps.represents, hkeeps.names, hruns, hsub⟩

/-- Memory that runs out at the first call of `vec_push` but not at the second: the name is
taken although the code is thrown. -/
example : (Registry.start.execAll (fun k : ℕ => [UInt8.ofNat k]) (((List.range 16).map fun k =>
    .push k fun _ => true) ++ [.push 16 (fun n => n == 1), .get [16]])).map
      (fun x => x.2.drop 16) = .ok [.threw .ok, .got (some 16)] := by
  decide +kernel

end Chatd.Net.Server
