import Chatd.Net.Server.GarbageCollector

/-! # What a step of the pool does

A step belongs to the accepting thread, the garbage collector or one of the two threads
of a connection. The threads of a connection leave the flags of the others and the list
of connections alone.
-/
namespace Chatd.Net.Server
open Library Protocol

section Flags

variable {κ υ : Type*} [DecidableEq κ] (d : PoolState κ υ) (k : κ) (f : ConnFlags)

@[simp] theorem PoolState.setFlags_self : (d.setFlags k f).flags k = f := Function.update_self ..

theorem PoolState.setFlags_of_ne {j : κ} (h : j ≠ k) : (d.setFlags k f).flags j = d.flags j :=
  Function.update_of_ne h ..

theorem PoolState.setFlags_flags (j : κ) :
    (d.setFlags k f).flags j = if j = k then f else d.flags j := Function.update_apply ..

@[simp] theorem PoolState.setFlags_shared : (d.setFlags k f).shared = d.shared := rfl

@[simp] theorem PoolState.setFlags_conns : (d.setFlags k f).conns = d.conns := rfl

end Flags

def MainPc.isClosed {κ : Type*} : MainPc κ → Bool
  | .closed | .destroy _ | .strayRead => true
  | _ => false

theorem MainPc.ne_of_isClosed {κ : Type*} {p : MainPc κ} (h : p.isClosed = true) (k : κ) :
    p ≠ .ready k ∧ p ≠ .lockConns k ∧ p ≠ .push k := by
  cases p with
  | closed | destroy i | strayRead => exact ⟨nofun, nofun, nofun⟩
  | _ => cases h

section Steps

variable {κ υ : Type*} [DecidableEq κ] [DecidableEq υ] {accounts : Accounts υ} {session : κ → υ}
  {c c' : PoolConfig κ υ} {k : κ} {a : Input κ} {d d' : PoolState κ υ} {t : Thread κ}

/-- A step is one of the thread that its label names, from and to points of that thread. -/
theorem pool_step_cases (h : step (poolProg accounts session) c (t, a) = some c') :
    (∃ p q, t = .main ∧ c.pc .main = .main p ∧ c'.pc .main = .main q ∧
      (mainNext a c.data p).Moves c.data c'.data q) ∨
    (∃ p q, t = .gc ∧ c.pc .gc = .gc p ∧ c'.pc .gc = .gc q ∧
      (gcNext c.data p).Moves c.data c'.data q) ∨
    (∃ k p q, t = .rx k ∧ c.pc (.rx k) = .rx p ∧ c'.pc (.rx k) = .rx q ∧
      (rxNext accounts session a c.data k p).Moves c.data c'.data q) ∨
    (∃ k p q, t = .tx k ∧ c.pc (.tx k) = .tx p ∧ c'.pc (.tx k) = .tx q ∧
      (txNext a c.data k p).Moves c.data c'.data q) := by
  have hm := (step_moves h).1
  cases t with
  | main =>
    cases hp : c.pc .main with
    | main p =>
      rw [hp] at hm
      obtain ⟨q, hq, hq'⟩ := Act.moves_map.mp hm
      exact .inl ⟨p, q, rfl, rfl, hq', hq⟩
    | _ => rw [hp] at hm; exact hm.elim
  | gc =>
    cases hp : c.pc .gc with
    | gc p =>
      rw [hp] at hm
      obtain ⟨q, hq, hq'⟩ := Act.moves_map.mp hm
      exact .inr (.inl ⟨p, q, rfl, rfl, hq', hq⟩)
    | _ => rw [hp] at hm; exact hm.elim
  | rx k =>
    obtain ⟨p, q, hp, hq, hmoves⟩ := rx_of_moves hm
    exact .inr (.inr (.inl ⟨k, p, q, rfl, hp, hq, hmoves⟩))
  | tx k =>
    cases hp : c.pc (.tx k) with
    | tx p =>
      rw [hp] at hm
      obtain ⟨q, hq, hq'⟩ := Act.moves_map.mp hm
      exact .inr (.inr (.inr ⟨k, p, q, rfl, hp, hq', hq⟩))
    | _ => rw [hp] at hm; exact hm.elim

theorem handling_of_moves {p : Protocol.Pc υ} {q : RxPc υ}
    (h : (rxNext accounts session a d k (.handling p)).Moves d d' q) :
    (p = .idle ∧ d' = d ∧ q = .loop) ∨
      p ≠ .idle ∧ d' = { d with shared := d'.shared } ∧
        ∃ p', q = .handling p' ∧
          (handle accounts k (session k) d.shared p).Moves d.shared d'.shared p' := by
  rw [rxNext] at h
  split at h
  case isTrue hp => exact .inl ⟨hp, h⟩
  case isFalse hp =>
    have hshared := Act.moves_of_mapData (f := PoolState.shared) (fun _ => rfl) h
    obtain ⟨p', hp', hq⟩ := Act.moves_map.mp hshared
    refine .inr ⟨hp, ?_, p', hq, hp'⟩
    rcases Act.eq_of_moves_mapData h with hd | ⟨e, hd⟩
    · rw [hd]
    · rw [hd]

theorem login_of_moves {authenticated exits : Bool} {q : RxPc υ}
    (h : (rxNext accounts session (.login authenticated exits) d k .login).Moves d d' q) :
    q = .loop ∧ ∃ users, d.users <+: users ∧ d' = { d.setFlags k { (d.flags k).exit exits with
      authenticated := authenticated } with users := users } := by
  refine ⟨h.2, _, ?_, h.1⟩
  split
  · exact List.prefix_append ..
  · exact List.prefix_rfl

/-- What the `rx_thread` of a connection leaves alone. -/
theorem rx_frame {p q : RxPc υ} (h : (rxNext accounts session a d k p).Moves d d' q) :
    d'.conns = d.conns ∧ ∀ j, j ≠ k → d'.flags j = d.flags j := by
  cases p with
  | handling p =>
    rcases handling_of_moves h with ⟨-, hd, -⟩ | ⟨-, hd, -⟩
    · rw [hd]
      exact ⟨rfl, fun _ _ => rfl⟩
    · rw [hd]
      exact ⟨rfl, fun _ _ => rfl⟩
  | read =>
    cases a <;> grind [rxNext, Act.Moves, PoolState.setFlags_flags, PoolState.setFlags_conns]
  | login =>
    cases a with
    | login authenticated exits =>
      obtain ⟨-, users, -, rfl⟩ := login_of_moves h
      exact ⟨rfl, fun j hj => PoolState.setFlags_of_ne _ _ _ hj⟩
    | _ => exact h.elim
  | _ => grind [rxNext, Act.Moves, PoolState.setFlags_flags, PoolState.setFlags_conns]

omit [DecidableEq υ] in
theorem tx_frame {p q : TxPc} (h : (txNext a d k p : PoolAct κ υ TxPc).Moves d d' q) :
    d'.shared = d.shared ∧ d'.conns = d.conns ∧ ∀ j, j ≠ k → d'.flags j = d.flags j := by
  cases p with
  | drain => cases a <;> grind [txNext, Act.Moves, PoolState.setFlags_flags,
      PoolState.setFlags_conns, PoolState.setFlags_shared]
  | _ => grind [txNext, Act.Moves, PoolState.setFlags_flags, PoolState.setFlags_conns,
      PoolState.setFlags_shared]

omit [DecidableEq υ] in
/-- What the accepting thread does to the flags and to the list of connections. -/
theorem main_cases {p q : MainPc κ} (h : (mainNext a d p : PoolAct κ υ (MainPc κ)).Moves d d' q) :
    (∃ j, p = .serving ∧ q = .ready j ∧ (d.flags j).created = false ∧
      d' = d.setFlags j { d.flags j with created := true }) ∨
    (p = .serving ∧ q = .closed ∧ d'.flags = d.flags ∧ d'.conns = d.conns) ∨
    (∃ j, p = .ready j ∧ q = .lockConns j ∧
      d' = d.setFlags j { d.flags j with isReady := true }) ∨
    (∃ j, p = .lockConns j ∧ q = .push j ∧ d' = d) ∨
    (∃ j, p = .push j ∧ q = .serving ∧ d'.flags = d.flags ∧ d'.conns = d.conns ++ [j]) ∨
    (p.isClosed = true ∧ q.isClosed = true ∧ d' = d) := by
  cases p with
  | serving => cases a <;> grind [mainNext, Act.Moves]
  | destroy i =>
    rw [mainNext] at h
    split at h
    case isTrue =>
      split at h
      · obtain ⟨rfl, rfl⟩ := h
        simp [MainPc.isClosed]
      · obtain ⟨rfl, rfl⟩ := h
        simp [MainPc.isClosed]
    case isFalse => exact h.elim
  | _ => grind [mainNext, Act.Moves, MainPc.isClosed]

omit [DecidableEq υ] in
theorem destroy_cases {p q : MainPc κ}
    (h : (mainNext a d p : PoolAct κ υ (MainPc κ)).Moves d d' q) (hp : p.isClosed = true) :
    d' = d ∧ (p = .closed ∧ q = .destroy 0 ∧ d.gcExited = true ∨
      ∃ i, p = .destroy i ∧ i < d.users.length ∧
        ((∃ k, d.conns[i]? = some k ∧ q = .destroy (i + 1)) ∨
          d.conns[i]? = none ∧ q = .strayRead)) := by
  cases p with
  | closed =>
    rw [mainNext] at h
    split at h
    case isTrue hexited => exact ⟨h.1, .inl ⟨rfl, h.2, hexited⟩⟩
    case isFalse => exact h.elim
  | destroy i =>
    rw [mainNext] at h
    split at h
    case isTrue hlt =>
      cases hi : d.conns[i]? with
      | none =>
        rw [hi] at h
        exact ⟨h.1, .inr ⟨i, rfl, hlt, .inr ⟨hi, h.2⟩⟩⟩
      | some k =>
        rw [hi] at h
        exact ⟨h.1, .inr ⟨i, rfl, hlt, .inl ⟨k, hi, h.2⟩⟩⟩
    case isFalse => exact h.elim
  | strayRead => exact h.elim
  | _ => cases hp

omit [DecidableEq υ] in
/-- What the garbage collector does to the flags and to the list of connections. -/
theorem gc_cases {p q : GcPc κ} (h : (gcNext d p : PoolAct κ υ (GcPc κ)).Moves d d' q) :
    (∃ terminated i j, p = .kill terminated i j ∧ q = .joinRx terminated i j ∧
      d' = d.setFlags j { d.flags j with isKilled := true }) ∨
    (∃ terminated i j, q = .kill terminated i j ∧ j ∈ d.conns ∧ d'.flags = d.flags ∧
      d'.shared = d.shared ∧ d'.conns ⊆ d.conns) ∨
    (∀ terminated i j, q ≠ .kill terminated i j) ∧ d'.flags = d.flags ∧ d'.shared = d.shared ∧
      d'.conns = d.conns := by
  cases p with
  | sweep terminated i =>
    cases hi : d.conns[i]? with
    | none => grind [gcNext, Act.Moves]
    | some j =>
      have hj : j ∈ d.conns := List.mem_of_getElem? hi
      have hsub : d.conns.eraseIdx i ⊆ d.conns := List.eraseIdx_subset
      grind [gcNext, Act.Moves]
  | _ => grind [gcNext, Act.Moves]

omit [DecidableEq υ] in
theorem main_flags {p q : MainPc κ} (h : (mainNext a d p : PoolAct κ υ (MainPc κ)).Moves d d' q)
    (j : κ) :
    d'.flags j = { d.flags j with
      created := (d'.flags j).created, isReady := (d'.flags j).isReady } ∧
    ((d.flags j).isReady = true → (d'.flags j).isReady = true) ∧
    (p ≠ .ready j → (d'.flags j).isReady = (d.flags j).isReady) := by
  rcases main_cases h with ⟨i, rfl, -, -, rfl⟩ | ⟨-, -, hf, -⟩ | ⟨i, rfl, -, rfl⟩ | ⟨i, -, -, rfl⟩ |
    ⟨i, -, -, hf, -⟩ | ⟨-, -, rfl⟩
  · rw [PoolState.setFlags_flags]
    by_cases hj : j = i
    · rw [if_pos hj, hj]
      exact ⟨rfl, id, fun _ => rfl⟩
    · rw [if_neg hj]
      exact ⟨rfl, id, fun _ => rfl⟩
  · rw [hf]
    exact ⟨rfl, id, fun _ => rfl⟩
  · rw [PoolState.setFlags_flags]
    by_cases hj : j = i
    · rw [if_pos hj, hj]
      exact ⟨rfl, fun _ => rfl, fun hp => absurd rfl hp⟩
    · rw [if_neg hj]
      exact ⟨rfl, id, fun _ => rfl⟩
  · exact ⟨rfl, id, fun _ => rfl⟩
  · rw [hf]
    exact ⟨rfl, id, fun _ => rfl⟩
  · exact ⟨rfl, id, fun _ => rfl⟩

omit [DecidableEq υ] in
theorem gc_flags {p q : GcPc κ} (h : (gcNext d p : PoolAct κ υ (GcPc κ)).Moves d d' q) (j : κ) :
    d'.flags j = { d.flags j with isKilled := (d'.flags j).isKilled } := by
  rcases gc_cases h with ⟨-, -, i, -, -, rfl⟩ | ⟨-, -, i, -, -, hf, -⟩ | ⟨-, hf, -⟩
  · rw [PoolState.setFlags_flags]
    by_cases hj : j = i
    · rw [if_pos hj, hj]
    · rw [if_neg hj]
  · rw [hf]
  · rw [hf]

theorem rx_created {p q : RxPc υ} (h : (rxNext accounts session a d k p).Moves d d' q) (j : κ) :
    (d'.flags j).created = (d.flags j).created := by
  by_cases hj : j = k
  · subst hj
    cases p with
    | handling p =>
      rcases handling_of_moves h with ⟨-, hd, -⟩ | ⟨-, hd, -⟩ <;> rw [hd]
    | read => cases a <;> grind [rxNext, Act.Moves, PoolState.setFlags_self, ConnFlags.exit]
    | login =>
      cases a with
      | login authenticated exits =>
        obtain ⟨-, users, -, rfl⟩ := login_of_moves h
        dsimp only
        rw [PoolState.setFlags_self]
        rfl
      | _ => exact h.elim
    | _ => grind [rxNext, Act.Moves, PoolState.setFlags_self]
  · rw [(rx_frame h).2 j hj]

omit [DecidableEq υ] in
theorem tx_keeps {p q : TxPc} (h : (txNext a d k p : PoolAct κ υ TxPc).Moves d d' q) (j : κ) :
    (d'.flags j).created = (d.flags j).created ∧
      (d'.flags j).authenticated = (d.flags j).authenticated := by
  by_cases hj : j = k
  · subst hj
    cases p with
    | drain => cases a <;> grind [txNext, Act.Moves, PoolState.setFlags_self]
    | _ => grind [txNext, Act.Moves, PoolState.setFlags_self]
  · rw [(tx_frame h).2.2 j hj]
    exact ⟨rfl, rfl⟩

end Steps

end Chatd.Net.Server
