import Chatd.Net.Connection.TxThread

/-! # Mutual exclusion on the transmit queue

The lock objects of `tx_thread` end before its drain loop, so a sender owns the
mutex whenever it is inside the queue, and `tx_thread` never does. The queue is
exclusive exactly in the runs in which `tx_thread` never gets to its drain loop.
-/
namespace Chatd.Net.Connection
open Library

variable {κ : Type*}

/-- At most one thread is inside an operation on the queue, and it owns the mutex. -/
def QueueExclusive (c : State κ) : Prop :=
  ∀ t, inOp (c.pc t) = true →
    c.owner .txQueueM = some t ∧ ∀ s, inOp (c.pc s) = true → s = t

/-- The points of `tx_thread` up to its first look at the queue. -/
def beforeDrain : Pc → Bool
  | .start | .lockInitial | .unlockInitial | .sizeBegin _ | .exited => true
  | .head initialMessage => initialMessage
  | _ => false

section Points

variable {a : Choice} {d d' : Fields} {p q : Pc}

theorem held_of_inOp (hp : isTx p = false) (h : inOp p = true) : held p = [.txQueueM] := by
  cases p <;> simp_all [isTx, inOp, held]

theorem not_inOp_of_beforeDrain (h : beforeDrain p = true) : inOp p = false := by
  cases p <;> first | rfl | cases h

theorem beforeDrain_next (h : (next a d p).Moves d d' q) (hp : beforeDrain p = true)
    (hs : ∀ b, p ≠ .sizeBegin b) : beforeDrain q = true := by
  cases p with
  | idle => cases hp
  | _ =>
    rw [next] at h
    grind [Act.Moves, beforeDrain]

end Points

section Runs

variable [DecidableEq κ] {ok : State κ → Thread κ × Choice → State κ → Prop} {c c' : State κ}

/-- Senders exclude each other as long as `tx_thread` is not inside the queue. -/
theorem queueExclusive_of_reach (h : Reach (step (prog κ)) ok (· = initial κ) c)
    (hn : inOp (c.pc none) = false) : QueueExclusive c := by
  have hown := owned_of_reach h
  have hheld (t : Thread κ) (ht : inOp (c.pc t) = true) : held (c.pc t) = [.txQueueM] := by
    refine held_of_inOp ?_ ht
    cases t with
    | none => rw [hn] at ht; cases ht
    | some i => simpa using (isTx_iff_of_reach h (some i)).not
  intro t ht
  refine ⟨(hown.owner_iff _ _).mpr ?_, fun s hs => hown.unique (m := .txQueueM) ?_ ?_⟩
  · simp [hheld t ht]
  · simp [hheld s hs]
  · simp [hheld t ht]

theorem beforeDrain_of_reach
    (h : Reach (step (prog κ)) (fun c l _ => ∀ b, c.pc l.1 ≠ .sizeBegin b) (· = initial κ) c) :
    beforeDrain (c.pc none) = true := by
  refine h.invariant (I := fun c => beforeDrain (c.pc none) = true) ?_ ?_
  · rintro _ rfl
    rfl
  · rintro c ⟨t, a⟩ c' hI hs hok
    obtain ⟨hm, hother⟩ := step_moves hs
    cases t with
    | none => exact beforeDrain_next hm hI hok
    | some i => rw [hother none (by simp)]; exact hI

theorem not_queueExclusive_of_sizeBegin {l : Thread κ × Choice} {b : Bool}
    (h : Reach (step (prog κ)) ok (· = initial κ) c) (hl : c.pc l.1 = .sizeBegin b) :
    ∃ c', step (prog κ) c l = some c' ∧ ¬ QueueExclusive c' := by
  have hp : prog κ l.1 l.2 c.data (c.pc l.1) = .act c.data (.inSize b) := by
    rw [hl]
    rfl
  refine ⟨{ c with pc := Function.update c.pc l.1 (.inSize b) }, ?_, fun hx => ?_⟩
  · rw [step, hp]
    rfl
  have hin : inOp (Function.update c.pc l.1 (Pc.inSize b) l.1) = true := by
    rw [Function.update_self]
    rfl
  have howner : c.owner .txQueueM = some l.1 := (hx l.1 hin).1
  have hmem := ((owned_of_reach h).owner_iff _ _).mp howner
  rw [hl] at hmem
  cases hmem

/-- The operations on the queue exclude each other throughout a run exactly when
`tx_thread` never starts an iteration of its drain loop in it. -/
theorem queueExclusive_run_iff (ls : List (Thread κ × Choice)) :
    (∀ ms c, ms <+: ls → run (step (prog κ)) (initial κ) ms = some c → QueueExclusive c) ↔
      ∀ ms l c, ms ++ [l] <+: ls → run (step (prog κ)) (initial κ) ms = some c →
        ∀ b, c.pc l.1 ≠ .sizeBegin b := by
  constructor
  · intro hx ms l c hms hc b hb
    have hr : Reach (step (prog κ)) anyStep (· = initial κ) c := by
      refine .of_run ?_ ?_ ms List.prefix_rfl hc
      · rfl
      · exact fun _ _ _ _ _ _ _ => trivial
    obtain ⟨c', hs, hn⟩ := not_queueExclusive_of_sizeBegin hr hb
    refine hn (hx (ms ++ [l]) c' hms ?_)
    rw [run_append, hc, Option.bind_some, run_cons [] hs]
    rfl
  · intro hok ms c hms hc
    have hr : Reach (step (prog κ)) (fun c l _ => ∀ b, c.pc l.1 ≠ .sizeBegin b)
        (· = initial κ) c := by
      refine .of_run ?_ ?_ ms hms hc
      · rfl
      · exact fun ns l c _ hns hc _ => hok ns l c hns hc
    exact queueExclusive_of_reach hr (not_inOp_of_beforeDrain (beforeDrain_of_reach hr))

end Runs

/-- `tx_thread` pops a payload while a sender pushes the next one. -/
theorem not_queueExclusive_pop_during_push :
    ¬ ∀ c : State Unit, Reach (step (prog Unit)) anyStep (· = initial Unit) c →
      QueueExclusive c := by
  intro h
  have hrun : ∃ c : State Unit, Reach (step (prog Unit)) anyStep (· = initial Unit) c ∧
      (inOp (c.pc none) && inOp (c.pc (some ()))) = true :=
    exists_reach_of_run rfl
      (callSteps (.setReady true) 0 ++ callSteps (.sendStrliteral (ascii "a")) 5 ++ txSteps 7 ++
        callSteps (.sendStrliteral (ascii "b")) 2)
      (by decide)
  obtain ⟨c, hr, hc⟩ := hrun
  rw [Bool.and_eq_true] at hc
  cases (h c hr none hc.1).2 (some ()) hc.2

end Chatd.Net.Connection
