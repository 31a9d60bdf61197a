import Chatd.Net.Connection.TxThread

/-! # Flushing before a graceful close

A payload whose push has returned is in the queue, in the hands of `tx_thread`, or
written. `tx_thread` tests `m_is_gracefully_terminated` after it has found the
queue empty; a flag that is set between these two steps closes the socket on the
payloads pushed in between, and this is the only way to lose one.
-/
namespace Chatd.Net.Connection
open Library

variable {κ : Type*}

/-- A graceful close leaves no payload unwritten whose push returned before the flag was set. -/
def Flushed (d : Fields) : Prop :=
  d.closedGracefully = true → ∀ p ∈ d.returned, p ∈ d.socket

/-- The flag is about to be set while `tx_thread`, done with the queue, is about to
test it, and a payload whose push has returned is in the queue again. -/
def EarlyFlag (c : State κ) (t : Thread κ) : Prop :=
  c.pc t = .gracefulExchange ∧ c.data.isGracefullyTerminated = false ∧
    (∃ b, c.pc none = .gracefulTest b) ∧ ∃ p ∈ c.data.txQueue, p ∈ c.data.returned

def writeFails (c : State κ) (l : Thread κ × Choice) : Bool :=
  match c.pc l.1 with
  | .write _ => l.2 != .write true
  | _ => false

/-- Every socket write succeeds, and the flag is not set early. -/
def FlushStep (c : State κ) (l : Thread κ × Choice) : Prop :=
  writeFails c l = false ∧ ¬ EarlyFlag c l.1

/-- The payload is in the queue, popped and not yet written, or written. -/
def Accounted (d : Fields) (tx : Pc) (p : OutgoingPayload) : Prop :=
  p ∈ d.txQueue ∨ tx = .write p ∨ p ∈ d.socket

def pushed (p : OutgoingPayload) : Pc → Prop
  | .pushUnlock q | .pushNotify q => q = p
  | _ => False

/-- The points at which a set flag makes `tx_thread` close the socket without
reading the size of the queue again. -/
def closing : Pc → Bool
  | .gracefulTest _ | .killSelf _ | .closeSelf _ => true
  | _ => false

/-- The points behind the test of the flag on the way to the close. -/
def committed : Pc → Bool
  | .killSelf _ | .closeSelf _ => true
  | _ => false

/-- What the data and the point of `tx_thread` satisfy in a run that does not set the flag early. -/
structure TxInvariant (d : Fields) (tx : Pc) : Prop where
  accounted : ∀ p ∈ d.returned, Accounted d tx p
  empty : closing tx = true → d.isGracefullyTerminated = true → ∀ p ∈ d.returned, p ∈ d.socket
  committed : committed tx = true → d.isGracefullyTerminated = true
  closed : d.closedGracefully = true → d.isGracefullyTerminated = true
  flushed : Flushed d
  succeeded : tx ≠ .sizeBegin true ∧ tx ≠ .inSize true

section Points

variable {a : Choice} {d d' : Fields} {p q tx : Pc} {x : OutgoingPayload}

theorem closing_of_committed (h : committed p = true) : closing p = true := by
  cases p with
  | killSelf b => rfl
  | closeSelf b => rfl
  | _ => cases h

structure TxMoves (a : Choice) (d d' : Fields) (p q : Pc) : Prop where
  returned : d'.returned = d.returned
  flag : d'.isGracefullyTerminated = d.isGracefullyTerminated
  accounted : ∀ x, (∀ y, p = .write y → a = .write true) → Accounted d p x → Accounted d' q x
  socket : ∀ x ∈ d.socket, x ∈ d'.socket
  closes : closing q = true →
    closing p = true ∨ ∃ b, p = .inSize b ∧ (d.txQueue = [] ∨ b = true)
  commits : committed q = true → committed p = true ∨ d.isGracefullyTerminated = true
  closed : d'.closedGracefully = true → d.closedGracefully = true ∨ committed p = true
  failed : q = .sizeBegin true ∨ q = .inSize true →
    p = .sizeBegin true ∨ ∃ y, p = .write y ∧ a ≠ .write true

theorem txMoves (h : (next a d p).Moves d d' q) (hp : isTx p = true) : TxMoves a d d' p q := by
  cases p with
  | idle | sendTest _ | pushLock _ | pushBegin _ | inPush _ | pushUnlock _ | pushNotify _
  | gracefulExchange | gracefulNotify | killExchange | killClose | killNotify => cases hp
  | _ =>
    rw [next] at h
    constructor <;> grind [Act.Moves, Accounted, closing, committed]

theorem TxMoves.txInvariant (h : TxMoves a d d' p q) (hw : ∀ y, p = .write y → a = .write true)
    (hI : TxInvariant d p) : TxInvariant d' q where
  accounted x hx := h.accounted x hw (hI.accounted x (h.returned ▸ hx))
  empty hq hf x hx := by
    rw [h.returned] at hx
    rcases h.closes hq with hp | ⟨b, rfl, hqueue⟩
    · exact h.socket x (hI.empty hp (h.flag ▸ hf) x hx)
    · rcases hI.accounted x hx with hacc | hacc | hacc
      · rcases hqueue with hnil | rfl
        · rw [hnil] at hacc
          cases hacc
        · exact absurd rfl hI.succeeded.2
      · cases hacc
      · exact h.socket x hacc
  committed hq := by
    rw [h.flag]
    exact (h.commits hq).elim hI.committed id
  closed hc := by
    rw [h.flag]
    exact (h.closed hc).elim hI.closed hI.committed
  flushed hc x hx := by
    rw [h.returned] at hx
    rcases h.closed hc with hc | hp
    · exact h.socket x (hI.flushed hc x hx)
    · exact h.socket x (hI.empty (closing_of_committed hp) (hI.committed hp) x hx)
  succeeded := by
    have hq (hq : q = .sizeBegin true ∨ q = .inSize true) : False := by
      rcases h.failed hq with hp | ⟨y, hp, ha⟩
      · exact hI.succeeded.1 hp
      · exact ha (hw y hp)
    exact ⟨fun h => hq (.inl h), fun h => hq (.inr h)⟩

structure CallerMoves (d d' : Fields) (p q : Pc) : Prop where
  socket : d'.socket = d.socket
  closed : d'.closedGracefully = d.closedGracefully
  queue : ∀ x ∈ d.txQueue, x ∈ d'.txQueue
  flag : d.isGracefullyTerminated = true → d'.isGracefullyTerminated = true
  raised : d'.isGracefullyTerminated = true → d.isGracefullyTerminated = true ∨
    p = .gracefulExchange ∧ d'.returned = d.returned
  returned : ∀ x ∈ d'.returned, x ∈ d.returned ∨ pushed x p ∧ d.isGracefullyTerminated = false
  pushed : ∀ x, pushed x q → pushed x p ∨ x ∈ d'.txQueue

theorem callerMoves (h : (next a d p).Moves d d' q) (hp : isTx p = false) :
    CallerMoves d d' p q := by
  cases p with
  | idle =>
    cases a with
    | call c =>
      cases c <;> (obtain ⟨rfl, rfl⟩ := h; constructor <;> simp [enter, newPayload, pushed])
    | write ok => exact h.elim
  | start | head _ | lockInitial | unlockInitial | lockWait | wait | blocked | unlockWait
  | sizeBegin _ | inSize _ | popBegin | inPop | write _ | gracefulTest _ | killSelf _ | closeSelf _
  | breakTest _ | exited => cases hp
  | _ =>
    rw [next] at h
    constructor <;> grind [Act.Moves, newPayload, pushed]

theorem CallerMoves.accounted (h : CallerMoves d d' p q) (hx : Accounted d tx x) :
    Accounted d' tx x := by
  rcases hx with hx | hx | hx
  · exact .inl (h.queue x hx)
  · exact .inr (.inl hx)
  · exact .inr (.inr (h.socket ▸ hx))

theorem CallerMoves.txInvariant (h : CallerMoves d d' p q) (hI : TxInvariant d tx)
    (hpushed : ∀ x, Connection.pushed x p → Accounted d tx x)
    (hearly : p = .gracefulExchange → d.isGracefullyTerminated = false →
      (∃ b, tx = .gracefulTest b) → ∀ x ∈ d.txQueue, x ∉ d.returned) : TxInvariant d' tx where
  accounted x hx := by
    rcases h.returned x hx with hx | hx
    · exact h.accounted (hI.accounted x hx)
    · exact h.accounted (hpushed x hx.1)
  empty htx hf x hx := by
    rw [h.socket]
    cases hflag : d.isGracefullyTerminated with
    | true =>
      rcases h.returned x hx with hx | hx
      · exact hI.empty htx hflag x hx
      · rw [hflag] at hx
        cases hx.2
    | false =>
      rcases h.raised hf with hf | ⟨hp, hret⟩
      · rw [hflag] at hf
        cases hf
      have hcommitted := hI.committed
      have hacc := hI.accounted x (hret ▸ hx)
      cases tx with
      | gracefulTest b => grind [Accounted, hearly hp hflag ⟨b, rfl⟩ x]
      | _ => grind [closing, committed]
  committed htx := h.flag (hI.committed htx)
  closed hc := h.flag (hI.closed (h.closed ▸ hc))
  flushed hc x hx := by
    rw [h.socket]
    have hflag := hI.closed (h.closed ▸ hc)
    rcases h.returned x hx with hx | hx
    · exact hI.flushed (h.closed ▸ hc) x hx
    · rw [hflag] at hx
      cases hx.2
  succeeded := hI.succeeded

end Points

section Runs

variable [DecidableEq κ] {c c' : State κ}

structure FlushInvariant (c : State κ) : Prop where
  tx : TxInvariant c.data (c.pc none)
  pushed : ∀ i x, pushed x (c.pc (some i)) → Accounted c.data (c.pc none) x

omit [DecidableEq κ] in
theorem flushInvariant_initial : FlushInvariant (initial κ) where
  tx := by constructor <;> simp [initial, Flushed, committed]
  pushed i x h := h.elim

theorem FlushInvariant.step (hI : FlushInvariant c)
    (hTx : ∀ t, isTx (c.pc t) = true ↔ t = none) {l : Thread κ × Choice}
    (hs : Library.step (prog κ) c l = some c') (hok : FlushStep c l) : FlushInvariant c' := by
  obtain ⟨t, a⟩ := l
  obtain ⟨hm, hother⟩ := step_moves hs
  obtain ⟨hok, hearly⟩ := hok
  have hw (y : OutgoingPayload) (hy : c.pc t = .write y) : a = .write true := by
    simpa [writeFails, hy] using hok
  cases t with
  | none =>
    have htx := (hTx none).mpr rfl
    have hmoves := txMoves hm htx
    refine ⟨hmoves.txInvariant hw hI.tx, fun i x hx => ?_⟩
    rw [hother (some i) (by simp)] at hx
    exact hmoves.accounted x hw (hI.pushed i x hx)
  | some i =>
    have hmoves := callerMoves hm (by simpa using (hTx (some i)).not)
    have hnone : c'.pc none = c.pc none := hother none (by simp)
    refine ⟨?_, fun j x hx => ?_⟩
    · rw [hnone]
      apply hmoves.txInvariant hI.tx (hI.pushed i)
      intro hp hflag htest x hx hret
      exact hearly ⟨hp, hflag, htest, x, hx, hret⟩
    · rw [hnone]
      by_cases hji : j = i
      · subst hji
        rcases hmoves.pushed x hx with hx | hx
        · exact hmoves.accounted (hI.pushed j x hx)
        · exact .inl hx
      · rw [hother (some j) (by simpa using hji)] at hx
        exact hmoves.accounted (hI.pushed j x hx)

/-- A graceful close has flushed the queue if the flag was never set between the
last look at the queue and the test of the flag with a returned payload queued. -/
theorem flushed_of_reach (h : Reach (step (prog κ)) (fun c l _ => FlushStep c l)
    (· = initial κ) c) : Flushed c.data := by
  have hI : FlushInvariant c := by
    apply Reach.invariant_reached (I := FlushInvariant) _ _ h
    · rintro _ rfl
      exact flushInvariant_initial
    · intro c l c' hr hI hs hok
      exact hI.step (isTx_iff_of_reach (hr.mono fun _ _ _ _ => trivial)) hs hok
  exact hI.tx.flushed

end Runs

/-- The farewell of `/logout` reaches a client that waits for it. -/
theorem flushed_logout :
    ∃ c : State Unit, (c.data.closedGracefully = true ∧ c.data.returned.length = 2) ∧
      Flushed c.data := by
  let check (c : State Unit) (l : Thread Unit × Choice) : Bool :=
    !writeFails c l && (c.pc l.1 != .gracefulExchange || c.pc none == .blocked)
  have hok (c : State Unit) (l : Thread Unit × Choice) (c' : State Unit) (hc : check c l = true)
      (_ : step (prog Unit) c l = some c') : FlushStep c l := by
    simp only [check, Bool.and_eq_true, Bool.not_eq_true', Bool.or_eq_true, bne_iff_ne,
      beq_iff_eq] at hc
    refine ⟨hc.1, ?_⟩
    rintro ⟨hflag, -, ⟨b, htest⟩, -⟩
    rcases hc.2 with hne | hblocked
    · exact hne hflag
    · rw [htest] at hblocked
      cases hblocked
  have hrun : ∃ c : State Unit, Reach (step (prog Unit)) (fun c l _ => FlushStep c l)
      (· = initial Unit) c ∧
        (c.data.closedGracefully && c.data.returned.length == 2) = true :=
    exists_reach_of_checkedRun hok rfl
      (callSteps (.setReady true) 0 ++ callSteps (.sendStrliteral (ascii "hi\n")) 5 ++ txSteps 16 ++
        callSteps (.sendStrliteral (ascii "SRV: Bye!\n")) 5 ++ callSteps .gracefullyTerminate 2 ++
        txSteps 12)
      (by decide)
  obtain ⟨c, hr, hc⟩ := hrun
  exact ⟨c, by simpa using hc, flushed_of_reach hr⟩

/-- The farewell pushed between the last look at the queue and the test of the flag
is lost when the flag is set there too. -/
theorem not_flushed_logout_during_test :
    ¬ ∀ c : State Unit, Reach (step (prog Unit)) (fun c l _ => writeFails c l = false)
      (· = initial Unit) c → Flushed c.data := by
  intro h
  have hrun : ∃ c : State Unit, Reach (step (prog Unit)) (fun c l _ => writeFails c l = false)
      (· = initial Unit) c ∧
        (c.data.closedGracefully && c.data.socket == [] &&
          c.data.returned == [⟨0, .stringLiteral, ascii "SRV: Bye!\n"⟩]) = true :=
    exists_reach_of_checkedRun (c := fun c l => !writeFails c l) (fun _ _ _ h _ => by simpa using h)
      rfl
      (callSteps (.setReady true) 0 ++ txSteps 6 ++
        callSteps (.sendStrliteral (ascii "SRV: Bye!\n")) 5 ++ callSteps .gracefullyTerminate 2 ++
        txSteps 3)
      (by decide)
  obtain ⟨c, hr, hc⟩ := hrun
  simp only [Bool.and_eq_true, beq_iff_eq] at hc
  obtain ⟨⟨hclosed, hsocket⟩, hreturned⟩ := hc
  have hmem := h c hr hclosed ⟨0, .stringLiteral, ascii "SRV: Bye!\n"⟩ (by simp [hreturned])
  rw [hsocket] at hmem
  cases hmem

end Chatd.Net.Connection
