import Chatd.Library.CString
import Chatd.Library.LockMachine

/-! # The transmit side of a connection

Any number of threads call `send`, `send_strliteral`, `send_message`,
`gracefully_terminate` and `terminate` on a connection while its `tx_thread`
waits for payloads and writes them. Every program point below is one point of
the source between two atomic actions; a `Ringbuffer` operation on the transmit
queue has a point before it and a point inside it. `cv.wait` releases the mutex
and blocks in one step, `notify_one` wakes the waiter and is forgotten when there
is none, and a lock object releases at the end of its scope.
-/
namespace Chatd.Net.Connection
open Library

inductive PayloadKind where
  | stringLiteral
  | buff
  | message
  deriving DecidableEq, Repr

/-- An allocated payload; `bytes` is what is written to the socket for it. -/
structure OutgoingPayload where
  addr : ℕ
  kind : PayloadKind
  bytes : Bytes
  deriving DecidableEq, Repr

inductive Mutex where
  | txQueueM
  deriving DecidableEq, Repr

/-- The shared fields of a connection. The queue is listed in pop order, `socket`
holds the payloads written so far, and `returned` those whose `push_payload` call
returned while `m_is_gracefully_terminated` was false. -/
structure Fields where
  isReady : Bool
  isKilled : Bool
  isGracefullyTerminated : Bool
  txQueue : List OutgoingPayload
  cvWaiting : Bool
  streamClosed : Bool
  nextAddr : ℕ
  socket : List OutgoingPayload
  returned : List OutgoingPayload
  closedGracefully : Bool
  deriving DecidableEq, Repr

inductive Call where
  | send (bytes : Bytes)
  | sendStrliteral (bytes : Bytes)
  | sendMessage (bytes : Bytes)
  | gracefullyTerminate
  | terminate
  | setReady (ready : Bool)
  deriving DecidableEq, Repr

/-- What the program leaves open: the call an idle caller makes, and whether a
socket write succeeds. -/
inductive Choice where
  | call (c : Call)
  | write (ok : Bool)
  deriving DecidableEq, Repr

inductive Pc where
  -- tx_thread; the flag is the local variable `initial_message` or `terminated`
  | start
  | head (initialMessage : Bool)
  | lockInitial
  | unlockInitial
  | lockWait
  | wait
  | blocked
  | unlockWait
  | sizeBegin (terminated : Bool)
  | inSize (terminated : Bool)
  | popBegin
  | inPop
  | write (p : OutgoingPayload)
  | gracefulTest (terminated : Bool)
  | killSelf (terminated : Bool)
  | closeSelf (terminated : Bool)
  | breakTest (terminated : Bool)
  | exited
  -- a calling thread
  | idle
  | sendTest (bytes : Bytes)
  | pushLock (p : OutgoingPayload)
  | pushBegin (p : OutgoingPayload)
  | inPush (p : OutgoingPayload)
  | pushUnlock (p : OutgoingPayload)
  | pushNotify (p : OutgoingPayload)
  | gracefulExchange
  | gracefulNotify
  | killExchange
  | killClose
  | killNotify
  deriving DecidableEq, Repr

/-- `new OutgoingPayload` with its fields set, on the way to `push_payload`. -/
def newPayload (d : Fields) (kind : PayloadKind) (bytes : Bytes) : Fields × Pc :=
  ({ d with nextAddr := d.nextAddr + 1 }, .pushLock ⟨d.nextAddr, kind, bytes⟩)

/-- The first action of a call. `send` looks at the termination flag before it allocates. -/
def enter (d : Fields) : Call → Fields × Pc
  | .send bytes => (d, .sendTest bytes)
  | .sendStrliteral bytes => newPayload d .stringLiteral bytes
  | .sendMessage bytes => newPayload d .message bytes
  | .gracefullyTerminate => (d, .gracefulExchange)
  | .terminate => (d, .killExchange)
  | .setReady ready => ({ d with isReady := ready }, .idle)

/-- What a thread at a program point does next. -/
def next (a : Choice) (d : Fields) : Pc → Act Mutex Fields Pc
  | .start =>
    if d.isReady then .act d (.head true) else if d.isKilled then .act d .exited else .act d .start
  | .head initialMessage =>
    if d.isKilled then .act d .exited
    else if initialMessage then .act d .lockInitial
    else .act d .lockWait
  | .lockInitial => .lock .txQueueM .unlockInitial
  | .unlockInitial => .unlock .txQueueM d (.sizeBegin false)
  | .lockWait => .lock .txQueueM .wait
  | .wait => .unlock .txQueueM { d with cvWaiting := true } .blocked
  | .blocked => if d.cvWaiting then .halt else .lock .txQueueM .unlockWait
  -- the scope of the lock ends here, before the queue is drained
  | .unlockWait => .unlock .txQueueM d (.sizeBegin false)
  | .sizeBegin terminated => .act d (.inSize terminated)
  | .inSize terminated =>
    if d.txQueue ≠ [] ∧ terminated = false then .act d .popBegin
    else .act d (.gracefulTest terminated)
  | .popBegin => .act d .inPop
  | .inPop =>
    match d.txQueue with
    | [] => .halt
    | p :: rest => .act { d with txQueue := rest } (.write p)
  | .write p =>
    if a = .write true then .act { d with socket := d.socket ++ [p] } (.sizeBegin false)
    else .act { d with isReady := false } (.sizeBegin true)
  | .gracefulTest terminated =>
    if d.isGracefullyTerminated then .act d (.killSelf terminated)
    else .act d (.breakTest terminated)
  | .killSelf terminated =>
    if d.isKilled then .act d (.breakTest terminated)
    else .act { d with isKilled := true } (.closeSelf terminated)
  | .closeSelf terminated =>
    .act { d with streamClosed := true, closedGracefully := true, cvWaiting := false }
      (.breakTest terminated)
  | .breakTest terminated => if terminated then .act d .exited else .act d (.head false)
  | .exited => .halt
  | .idle =>
    match a with
    | .call c => .act (enter d c).1 (enter d c).2
    | .write _ => .halt
  | .sendTest bytes =>
    if d.isGracefullyTerminated then .act d .idle
    else .act (newPayload d .buff bytes).1 (newPayload d .buff bytes).2
  | .pushLock p => .lock .txQueueM (.pushBegin p)
  | .pushBegin p => .act d (.inPush p)
  | .inPush p => .act { d with txQueue := d.txQueue ++ [p] } (.pushUnlock p)
  | .pushUnlock p => .unlock .txQueueM d (.pushNotify p)
  | .pushNotify p =>
    .act { d with
      cvWaiting := false
      returned := if d.isGracefullyTerminated then d.returned else p :: d.returned } .idle
  | .gracefulExchange =>
    if d.isGracefullyTerminated then .act d .idle
    else .act { d with isGracefullyTerminated := true } .gracefulNotify
  | .gracefulNotify => .act { d with cvWaiting := false } .idle
  | .killExchange =>
    if d.isKilled then .act d .idle else .act { d with isKilled := true } .killClose
  | .killClose => .act { d with streamClosed := true } .killNotify
  | .killNotify => .act { d with cvWaiting := false } .idle

abbrev Thread (κ : Type*) := Option κ

abbrev State (κ : Type*) := Config (Thread κ) Mutex Fields Pc

def prog (κ : Type*) : Prog (Thread κ) Choice Mutex Fields Pc := fun _ a d p => next a d p

def initial (κ : Type*) : State κ where
  data := {
    isReady := false, isKilled := false, isGracefullyTerminated := false, txQueue := []
    cvWaiting := false, streamClosed := false, nextAddr := 0, socket := [], returned := []
    closedGracefully := false }
  pc t := if t = none then .start else .idle
  owner _ := none

def held : Pc → List Mutex
  | .unlockInitial | .wait | .unlockWait => [.txQueueM]
  | .pushBegin _ | .inPush _ | .pushUnlock _ => [.txQueueM]
  | _ => []

/-- The thread is inside a `Ringbuffer` operation on the transmit queue. -/
def inOp : Pc → Bool
  | .inSize _ | .inPop | .inPush _ => true
  | _ => false

def isTx : Pc → Bool
  | .start | .head _ | .lockInitial | .unlockInitial | .lockWait | .wait | .blocked
  | .unlockWait | .sizeBegin _ | .inSize _ | .popBegin | .inPop | .write _ | .gracefulTest _
  | .killSelf _ | .closeSelf _ | .breakTest _ | .exited => true
  | _ => false

section Points

variable {κ : Type*} {a : Choice} {d d' : Fields} {p q : Pc}

theorem held_enter (d : Fields) (c : Call) : held (enter d c).2 = [] := by
  cases c <;> rfl

theorem held_newPayload (d : Fields) (kind : PayloadKind) (bytes : Bytes) :
    held (newPayload d kind bytes).2 = [] := rfl

theorem isTx_enter (d : Fields) (c : Call) : isTx (enter d c).2 = false := by
  cases c <;> rfl

theorem isTx_newPayload (d : Fields) (kind : PayloadKind) (bytes : Bytes) :
    isTx (newPayload d kind bytes).2 = false := rfl

theorem next_keeps (a : Choice) (d : Fields) (p : Pc) : (next a d p).Keeps held (held p) := by
  cases p with
  | idle =>
    cases a with
    | call c => exact held_enter d c
    | write ok => trivial
  | _ =>
    rw [next]
    grind [Act.Keeps, held, held_newPayload]

theorem prog_scoped : Scoped (prog κ) fun _ => held := .of_keeps fun _ => next_keeps

/-- No step leads from the code of `tx_thread` to that of a caller, or back. -/
theorem isTx_next (h : (next a d p).Moves d d' q) : isTx q = isTx p := by
  cases p with
  | idle =>
    cases a with
    | call c => rw [h.2, isTx_enter]; rfl
    | write ok => exact h.elim
  | _ =>
    rw [next] at h
    grind [Act.Moves, isTx, isTx_newPayload]

theorem isTx_iff_of_reach [DecidableEq κ] {ok : State κ → Thread κ × Choice → State κ → Prop}
    {c : State κ} (h : Reach (step (prog κ)) ok (· = initial κ) c) (t : Thread κ) :
    isTx (c.pc t) = true ↔ t = none := by
  refine h.invariant (I := fun c => ∀ t, isTx (c.pc t) = true ↔ t = none) ?_ ?_ t
  · rintro _ rfl t
    cases t <;> simp [initial, isTx]
  · rintro c ⟨s, a⟩ c' hI hs - t
    obtain ⟨hm, hother⟩ := step_moves hs
    by_cases ht : t = s
    · subst ht
      rw [isTx_next hm, hI]
    · rw [hother t ht, hI]

theorem owned_of_reach [DecidableEq κ] {ok : State κ → Thread κ × Choice → State κ → Prop}
    {c : State κ} (h : Reach (step (prog κ)) ok (· = initial κ) c) : Owned (fun _ => held) c := by
  refine Owned.of_reach prog_scoped ?_ h
  rintro _ rfl
  refine owned_of_free (fun t => ?_) fun m => rfl
  cases t <;> rfl

end Points

section Schedules

def txSteps (n : ℕ) : List (Thread Unit × Choice) := List.replicate n (none, .write true)

def callSteps (c : Call) (n : ℕ) : List (Thread Unit × Choice) :=
  (some (), .call c) :: List.replicate n (some (), .write true)

end Schedules

end Chatd.Net.Connection
