import Chatd.Net.Connection.TxThread

/-! # Wakeups of the transmit thread

Between its last look at the queue or at the termination flag and its wait,
`tx_thread` overlooks what the callers change. An overlooked change reaches it
only through a later notification, so as long as no caller spends the last owed
notification before the wait has begun, a blocked `tx_thread` has nothing to do.
-/
namespace Chatd.Net.Connection
open Library

variable {κ : Type*}

def inCall : Pc → Bool
  | .pushLock _ | .pushBegin _ | .inPush _ | .pushUnlock _ | .pushNotify _ => true
  | .gracefulExchange | .gracefulNotify => true
  | _ => false

/-- Nothing is left to do for a blocked `tx_thread` once every call has returned. -/
def NoLostWakeup (c : State κ) : Prop :=
  c.pc none = .blocked → c.data.cvWaiting = true → (∀ i, inCall (c.pc (some i)) = false) →
    c.data.txQueue = [] ∧ c.data.isGracefullyTerminated = false

/-- A caller that has changed the queue or the flag and still has to notify. -/
def owesNotify : Pc → Bool
  | .pushUnlock _ | .pushNotify _ | .gracefulNotify => true
  | _ => false

/-- The points from which `tx_thread` goes on to wait without reading the flag again. -/
def ignoresFlag (d : Fields) : Pc → Bool
  | .breakTest terminated => !terminated && !d.isKilled
  | .head initialMessage => !initialMessage && !d.isKilled
  | .lockWait | .wait => true
  | .blocked => d.cvWaiting
  | _ => false

/-- The points from which `tx_thread` goes on to wait, unless the flag ends it, without
reading the size of the queue again. -/
def ignoresQueue (d : Fields) : Pc → Bool
  | .gracefulTest terminated => !terminated
  | p => ignoresFlag d p

/-- `tx_thread` is on its way to wait, or waits, and has missed a payload or the flag. -/
def Overlooked (d : Fields) (p : Pc) : Prop :=
  (ignoresQueue d p = true ∧ d.txQueue ≠ []) ∨
    (ignoresFlag d p = true ∧ d.isGracefullyTerminated = true)

/-- Every overlooked change is still to be announced by some caller. -/
def Announced (c : State κ) : Prop :=
  Overlooked c.data (c.pc none) → ∃ i, owesNotify (c.pc (some i)) = true

/-- The thread is about to spend the last owed notification although `tx_thread` has
overlooked something and does not wait yet. -/
def LateNotify (c : State κ) (t : Thread κ) : Prop :=
  ((∃ p, c.pc t = .pushNotify p) ∨ c.pc t = .gracefulNotify) ∧ c.pc none ≠ .blocked ∧
    Overlooked c.data (c.pc none) ∧ ∀ s, s ≠ t → owesNotify (c.pc s) = false

section Points

variable {a : Choice} {d d' : Fields} {p q r : Pc}

theorem inCall_of_owesNotify (h : owesNotify p = true) : inCall p = true := by
  cases p <;> first | rfl | cases h

theorem not_isTx_of_owesNotify (h : owesNotify p = true) : isTx p = false := by
  cases p <;> first | rfl | cases h

/-- `tx_thread` looks at everything before it starts to ignore it. -/
theorem overlooked_of_tx_next (h : (next a d p).Moves d d' q) (hp : isTx p = true)
    (hk : ∀ b, p = .closeSelf b → d.isKilled = true) (ho : Overlooked d' q) : Overlooked d p := by
  unfold Overlooked at *
  cases p with
  | idle => cases hp
  | _ =>
    rw [next] at h
    grind [Act.Moves, isTx, ignoresQueue, ignoresFlag]

theorem ignoresFlag_mono (hk : d.isKilled = true → d'.isKilled = true)
    (hw : d'.cvWaiting = true → d.cvWaiting = true) (h : ignoresFlag d' p = true) :
    ignoresFlag d p = true := by
  cases p <;> grind [ignoresFlag]

theorem ignoresQueue_mono (hk : d.isKilled = true → d'.isKilled = true)
    (hw : d'.cvWaiting = true → d.cvWaiting = true) (h : ignoresQueue d' p = true) :
    ignoresQueue d p = true := by
  cases p <;> grind [ignoresQueue, ignoresFlag]

theorem isKilled_of_next (h : (next a d p).Moves d d' q) (hk : d.isKilled = true) :
    d'.isKilled = true := by
  cases p with
  | idle =>
    cases a with
    | call c => cases c <;> (obtain ⟨rfl, rfl⟩ := h; exact hk)
    | write ok => exact h.elim
  | _ =>
    rw [next] at h
    grind [Act.Moves, newPayload]

/-- A caller does not start a wait, and what it changes it still has to announce. -/
theorem caller_next (h : (next a d p).Moves d d' q) (hp : isTx p = false) :
    (d'.cvWaiting = true → d.cvWaiting = true) ∧
      (owesNotify q = false → d'.txQueue = d.txQueue ∧
        d'.isGracefullyTerminated = d.isGracefullyTerminated) := by
  cases p with
  | idle =>
    cases a with
    | call c => cases c <;> (obtain ⟨rfl, rfl⟩ := h; exact ⟨id, fun _ => ⟨rfl, rfl⟩⟩)
    | write ok => exact h.elim
  | _ =>
    rw [next] at h
    grind [Act.Moves, isTx, newPayload, owesNotify]

theorem overlooked_of_caller_next (h : (next a d p).Moves d d' q) (hp : isTx p = false)
    (hq : owesNotify q = false) (ho : Overlooked d' r) : Overlooked d r := by
  obtain ⟨hw, hd⟩ := caller_next h hp
  obtain ⟨hqueue, hflag⟩ := hd hq
  have hk := isKilled_of_next h
  rcases ho with ⟨hi, hne⟩ | ⟨hi, ht⟩
  · exact .inl ⟨ignoresQueue_mono hk hw hi, hqueue ▸ hne⟩
  · exact .inr ⟨ignoresFlag_mono hk hw hi, hflag ▸ ht⟩

theorem not_overlooked_of_notify (h : (next a d p).Moves d d' q)
    (hp : (∃ x, p = .pushNotify x) ∨ p = .gracefulNotify) : ¬ Overlooked d' .blocked := by
  have hw : d'.cvWaiting = false := by
    rcases hp with ⟨x, rfl⟩ | rfl <;> (obtain ⟨rfl, -⟩ := h; rfl)
  simp [Overlooked, ignoresQueue, ignoresFlag, hw]

theorem owesNotify_next (h : (next a d p).Moves d d' q) (hp : owesNotify p = true)
    (hq : owesNotify q = false) : (∃ x, p = .pushNotify x) ∨ p = .gracefulNotify := by
  cases p with
  | idle => cases hp
  | _ =>
    rw [next] at h
    grind [Act.Moves, owesNotify]

theorem isKilled_of_next_closeSelf {b : Bool} (h : (next a d p).Moves d d' (.closeSelf b)) :
    d'.isKilled = true := by
  cases p with
  | idle =>
    cases a with
    | call c => cases c <;> grind [next, Act.Moves, enter, newPayload]
    | write ok => exact h.elim
  | _ =>
    rw [next] at h
    grind [Act.Moves, newPayload]

end Points

section Runs

variable [DecidableEq κ] {ok : State κ → Thread κ × Choice → State κ → Prop} {c : State κ}

/-- The connection is closed by `terminate` only after its exchange of `m_is_killed`. -/
theorem isKilled_of_closeSelf (h : Reach (step (prog κ)) ok (· = initial κ) c) (t : Thread κ)
    (b : Bool) (ht : c.pc t = .closeSelf b) : c.data.isKilled = true := by
  refine h.invariant (I := fun c => ∀ t b, c.pc t = .closeSelf b → c.data.isKilled = true)
    ?_ ?_ t b ht
  · rintro _ rfl t b ht
    cases t <;> cases ht
  · rintro c ⟨s, a⟩ c' hI hs - t b ht
    obtain ⟨hm, hother⟩ := step_moves hs
    by_cases hts : t = s
    · subst hts
      rw [ht] at hm
      exact isKilled_of_next_closeSelf hm
    · rw [hother t hts] at ht
      exact isKilled_of_next hm (hI t b ht)

theorem announced_step {l : Thread κ × Choice} {c' : State κ}
    (hTx : ∀ t, isTx (c.pc t) = true ↔ t = none)
    (hk : ∀ t b, c.pc t = .closeSelf b → c.data.isKilled = true) (hI : Announced c)
    (hs : step (prog κ) c l = some c') (hok : ¬ LateNotify c l.1) : Announced c' := by
  obtain ⟨t, a⟩ := l
  obtain ⟨hm, hother⟩ := step_moves hs
  intro ho
  cases t with
  | none =>
    obtain ⟨i, hi⟩ := hI (overlooked_of_tx_next hm ((hTx none).mpr rfl) (hk none) ho)
    exact ⟨i, by rw [hother (some i) (by simp)]; exact hi⟩
  | some i =>
    rw [hother none (by simp)] at ho
    cases hq : owesNotify (c'.pc (some i)) with
    | true => exact ⟨i, hq⟩
    | false =>
      have hcaller : isTx (c.pc (some i)) = false := by simpa using (hTx (some i)).not
      have hbefore := overlooked_of_caller_next hm hcaller hq ho
      -- The notification of another caller is still owed after this step.
      suffices hex : ∃ s, s ≠ some i ∧ owesNotify (c.pc s) = true by
        obtain ⟨s, hsi, hs⟩ := hex
        cases s with
        | none =>
          have htx := (hTx none).mpr rfl
          rw [not_isTx_of_owesNotify hs] at htx
          cases htx
        | some j => exact ⟨j, by rw [hother (some j) hsi]; exact hs⟩
      by_cases hp : owesNotify (c.pc (some i)) = true
      · have hnotify := owesNotify_next hm hp hq
        by_cases hblocked : c.pc none = .blocked
        · rw [hblocked] at ho
          exact absurd ho (not_overlooked_of_notify hm hnotify)
        · by_contra hno
          push Not at hno
          exact hok ⟨hnotify, hblocked, hbefore, fun s hs => by simpa using hno s hs⟩
      · obtain ⟨j, hj⟩ := hI hbefore
        exact ⟨some j, fun hji => hp (hji ▸ hj), hj⟩

/-- If no notification comes too early, a blocked `tx_thread` has missed nothing. -/
theorem noLostWakeup_of_reach
    (h : Reach (step (prog κ)) (fun c l _ => ¬ LateNotify c l.1) (· = initial κ) c) :
    NoLostWakeup c := by
  have hann : Announced c := by
    apply Reach.invariant_reached (I := Announced) _ _ h
    · rintro _ rfl ho
      simp [Overlooked, initial, ignoresQueue, ignoresFlag] at ho
    · intro c l c' hr hI hs hok
      have hany := hr.mono fun _ _ _ _ => trivial
      exact announced_step (isTx_iff_of_reach hany) (isKilled_of_closeSelf hany) hI hs hok
  intro hblocked hwaiting hcalls
  have hno : ¬ Overlooked c.data (c.pc none) := by
    intro ho
    obtain ⟨i, hi⟩ := hann ho
    have hcall := hcalls i
    rw [inCall_of_owesNotify hi] at hcall
    cases hcall
  simpa [Overlooked, hblocked, hwaiting, ignoresQueue, ignoresFlag] using hno

end Runs

/-- Notifications sent before `tx_thread` has started or while it waits are not late. -/
theorem noLostWakeup_two_payloads :
    ∃ c : State Unit, (c.pc none = .blocked ∧ c.data.cvWaiting = true ∧ c.data.socket.length = 2) ∧
      NoLostWakeup c := by
  let check (c : State Unit) (l : Thread Unit × Choice) : Bool :=
    !owesNotify (c.pc l.1) || c.pc none == .start || c.pc none == .blocked
  have hok (c : State Unit) (l : Thread Unit × Choice) (c' : State Unit) (hc : check c l = true)
      (_ : step (prog Unit) c l = some c') : ¬ LateNotify c l.1 := by
    rintro ⟨hnotify, hblocked, ho, -⟩
    have howes : owesNotify (c.pc l.1) = true := by
      rcases hnotify with ⟨p, hp⟩ | hp <;> rw [hp] <;> rfl
    have hstart : c.pc none = .start := by simpa [check, howes, hblocked] using hc
    simp [hstart, Overlooked, ignoresQueue, ignoresFlag] at ho
  have hrun : ∃ c : State Unit,
      Reach (step (prog Unit)) (fun c l _ => ¬ LateNotify c l.1) (· = initial Unit) c ∧
        (c.pc none == .blocked && c.data.cvWaiting && c.data.socket.length == 2) = true :=
    exists_reach_of_checkedRun hok rfl
      (callSteps (.setReady true) 0 ++ callSteps (.sendStrliteral (ascii "a")) 5 ++ txSteps 16 ++
        callSteps (.sendStrliteral (ascii "b")) 5 ++ txSteps 14)
      (by decide)
  obtain ⟨c, hr, hc⟩ := hrun
  exact ⟨c, by simpa [and_assoc] using hc, noLostWakeup_of_reach hr⟩

/-- A payload pushed between the test of the flag and the wait is not noticed. -/
theorem not_noLostWakeup_push_before_wait :
    ¬ ∀ c : State Unit, Reach (step (prog Unit)) anyStep (· = initial Unit) c → NoLostWakeup c := by
  intro h
  have hrun : ∃ c : State Unit, Reach (step (prog Unit)) anyStep (· = initial Unit) c ∧
      (c.pc none == .blocked && c.data.cvWaiting && !inCall (c.pc (some ())) &&
        !c.data.txQueue.isEmpty) = true :=
    exists_reach_of_run rfl
      (callSteps (.setReady true) 0 ++ txSteps 6 ++ callSteps (.sendStrliteral (ascii "a")) 5 ++
        txSteps 5)
      (by decide)
  obtain ⟨c, hr, hc⟩ := hrun
  simp only [Bool.and_eq_true, Bool.not_eq_true', beq_iff_eq, List.isEmpty_eq_false_iff] at hc
  exact hc.2 (h c hr hc.1.1.1 hc.1.1.2 fun _ => hc.1.2).1

end Chatd.Net.Connection
