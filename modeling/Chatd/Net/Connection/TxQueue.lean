import Chatd.Collections.Ringbuffer.Refinement
import Chatd.Net.Connection.TxThread

/-! # The transmit queue on the ring buffer

The transmit side with the real ring buffer in the place of the list of payloads. The
ring buffer holds the payloads in the order in which they were pushed, `tx_thread` takes
them from the other end, and every step is one of the transmit side over the list.
-/
namespace Chatd.Net.Connection
open Library Collections

/-- The fields of a connection with `m_tx_queue` as a ring buffer; the list of payloads in
`fields` is not used. The payloads pushed and those taken by `tx_thread` are recorded. -/
structure RingFields where
  fields : Fields
  ring : Ringbuffer OutgoingPayload
  pushed : List OutgoingPayload
  taken : List OutgoingPayload
  deriving DecidableEq, Repr

/-- `next` with the operations on the queue done on the ring buffer. -/
def ringNext (a : Choice) (d : RingFields) : Pc → Act Mutex RingFields Pc
  | .inSize terminated =>
    if d.ring.size ≠ 0 ∧ terminated = false then .act d .popBegin
    else .act d (.gracefulTest terminated)
  | .inPop =>
    match d.ring.popBack with
    | .ok (ring, .ok, some (some p)) => .act { d with ring, taken := d.taken ++ [p] } (.write p)
    -- `Ringbuffer::pop_back` throws
    | _ => .halt
  | .inPush p =>
    match d.ring.pushFront true p with
    | .ok (ring, .ok) => .act { d with ring, pushed := d.pushed ++ [p] } (.pushUnlock p)
    | _ => .halt
  | p => (next a d.fields p).mapData fun fields => { d with fields }

abbrev RingState (κ : Type*) := Config (Thread κ) Mutex RingFields Pc

def ringProg (κ : Type*) : Prog (Thread κ) Choice Mutex RingFields Pc := fun _ a d p =>
  ringNext a d p

/-- A connection whose queue is a ring buffer of the default capacity. -/
def ringInitial (κ : Type*) : RingState κ where
  data := {
    fields := (initial κ).data
    ring := ⟨Ringbuffer.vecExpandDelta, 0, 0, 0, Block.alloc Ringbuffer.vecExpandDelta⟩
    pushed := []
    taken := [] }
  pc := (initial κ).pc
  owner _ := none

/-- What `tx_thread` has written to the socket. -/
def RingFields.socketBytes (d : RingFields) : Bytes := (d.fields.socket.map (·.bytes)).flatten

def WriteSucceeds {κ : Type*} (c : RingState κ) (l : Thread κ × Choice) : Prop :=
  ∀ p, c.pc l.1 = .write p → l.2 = .write true

/-- The pending payloads are those pushed and not taken, in the order of their pushes. -/
def Queued (d : RingFields) (pending : List OutgoingPayload) : Prop :=
  d.pushed = d.taken ++ pending ∧ ∃ cap, d.ring.Represents ⟨cap, pending⟩

def RingFields.listed (d : RingFields) : Fields :=
  { d.fields with txQueue := d.ring.contents.filterMap id }

abbrev listedState {κ : Type*} (c : RingState κ) : State κ := c.mapData RingFields.listed

section Points

variable {a : Choice} {d d' : RingFields} {p q : Pc} {pending : List OutgoingPayload}

theorem Queued.contents_eq (h : Queued d pending) : d.ring.contents = pending.map some := by
  obtain ⟨cap, hring⟩ := h.2
  exact hring.contents_eq

theorem Queued.listed_eq (h : Queued d pending) :
    d.listed = { d.fields with txQueue := pending } := by
  rw [RingFields.listed, h.contents_eq, List.filterMap_map]
  congr 1
  exact List.filterMap_some

theorem Queued.popBack {x : OutgoingPayload} (h : Queued d (x :: pending)) :
    ∃ ring, d.ring.popBack = .ok (ring, .ok, some (some x)) ∧
      Queued { d with ring, taken := d.taken ++ [x] } pending := by
  obtain ⟨hpushed, cap, hring⟩ := h
  obtain ⟨ring, hpop, hring'⟩ := hring.popBack
  exact ⟨ring, hpop, by simp [hpushed], cap, hring'⟩

theorem Queued.popBack_nil (h : Queued d []) : d.ring.popBack = .ok (d.ring, .empty, none) := by
  obtain ⟨-, cap, hring⟩ := h
  rw [Ringbuffer.popBack, if_pos (show d.ring.size = 0 from hring.size_eq)]

theorem Queued.pushFront (h : Queued d pending) (x : OutgoingPayload) :
    ∃ ring, d.ring.pushFront true x = .ok (ring, .ok) ∧
      Queued { d with ring, pushed := d.pushed ++ [x] } (pending ++ [x]) := by
  obtain ⟨hpushed, cap, hring⟩ := h
  obtain ⟨ring, hpush, hring'⟩ := hring.pushFront x
  exact ⟨ring, hpush, by simp [hpushed], _, hring'⟩

theorem Queued.size_ne_iff (h : Queued d pending) : d.ring.size ≠ 0 ↔ pending ≠ [] := by
  obtain ⟨-, cap, hring⟩ := h
  rw [hring.size_eq]
  exact not_congr List.length_eq_zero_iff

/-- A step on the ring buffer is the step on the list. -/
theorem ringNext_listed (h : Queued d pending) (a : Choice) (p : Pc) :
    (ringNext a d p).mapData RingFields.listed = next a d.listed p := by
  cases p with
  | inSize terminated =>
    have hiff : (d.ring.size ≠ 0 ∧ terminated = false) ↔
        (d.listed.txQueue ≠ [] ∧ terminated = false) := by
      rw [h.size_ne_iff, h.listed_eq]
    rw [ringNext, next]
    by_cases hpop : d.listed.txQueue ≠ [] ∧ terminated = false
    · rw [if_pos (hiff.mpr hpop), if_pos hpop]
      rfl
    · rw [if_neg (mt hiff.mp hpop), if_neg hpop]
      rfl
  | inPop =>
    rw [ringNext, next, h.listed_eq]
    cases pending with
    | nil => rw [h.popBack_nil]; rfl
    | cons x pending =>
      obtain ⟨ring, hpop, h'⟩ := h.popBack
      rw [hpop]
      simp only [Act.mapData, h'.listed_eq]
  | inPush x =>
    obtain ⟨ring, hpush, h'⟩ := h.pushFront x
    rw [ringNext, next, hpush, h.listed_eq]
    simp only [Act.mapData, h'.listed_eq]
  | idle =>
    cases a with
    | call c => cases c <;> rfl
    | write ok => rfl
  | _ =>
    simp only [ringNext, next, Act.mapData_ite]
    rfl

theorem ringNext_eq (hsize : ∀ b, p ≠ .inSize b) (hpop : p ≠ .inPop) (hpush : ∀ x, p ≠ .inPush x) :
    ringNext a d p = (next a d.fields p).mapData fun fields => { d with fields } := by
  cases p with
  | inSize b => exact absurd rfl (hsize b)
  | inPop => exact absurd rfl hpop
  | inPush x => exact absurd rfl (hpush x)
  | _ => rfl

theorem queue_of_moves (h : (ringNext a d p).Moves d d' q) (hpop : p ≠ .inPop)
    (hpush : ∀ x, p ≠ .inPush x) :
    d'.ring = d.ring ∧ d'.pushed = d.pushed ∧ d'.taken = d.taken := by
  by_cases hsize : ∃ b, p = .inSize b
  · obtain ⟨b, rfl⟩ := hsize
    rw [ringNext] at h
    split at h <;> (rw [h.1]; exact ⟨rfl, rfl, rfl⟩)
  · rw [ringNext_eq (fun b hb => hsize ⟨b, hb⟩) hpop hpush] at h
    rcases Act.eq_of_moves_mapData h with rfl | ⟨e, rfl⟩ <;> exact ⟨rfl, rfl, rfl⟩

/-- Every step keeps the queue in the order of the pushes. -/
theorem Queued.of_moves (h : Queued d pending) (hm : (ringNext a d p).Moves d d' q) :
    ∃ pending', Queued d' pending' := by
  by_cases hpop : p = .inPop
  · subst hpop
    rw [ringNext] at hm
    cases pending with
    | nil => rw [h.popBack_nil] at hm; exact hm.elim
    | cons x pending =>
      obtain ⟨ring, hring, h'⟩ := h.popBack
      rw [hring] at hm
      exact ⟨pending, hm.1 ▸ h'⟩
  · by_cases hpush : ∃ x, p = .inPush x
    · obtain ⟨x, rfl⟩ := hpush
      obtain ⟨ring, hring, h'⟩ := h.pushFront x
      rw [ringNext, hring] at hm
      exact ⟨pending ++ [x], hm.1 ▸ h'⟩
    · obtain ⟨hring, hpushed, htaken⟩ := queue_of_moves hm hpop fun x hx => hpush ⟨x, hx⟩
      exact ⟨pending, by rw [hpushed, htaken]; exact h.1, by rw [hring]; exact h.2⟩

def inHand : Pc → List OutgoingPayload
  | .write p => [p]
  | _ => []

theorem inHand_enter (d : Fields) (c : Call) : inHand (enter d c).2 = [] := by
  cases c <;> rfl

theorem socket_enter (d : Fields) (c : Call) : (enter d c).1.socket = d.socket := by
  cases c <;> rfl

theorem socket_of_moves {d d' : Fields} (h : (next a d p).Moves d d' q) (hpop : p ≠ .inPop)
    (hwrite : ∀ x, p ≠ .write x) : d'.socket = d.socket ∧ inHand q = [] := by
  cases p with
  | idle =>
    cases a with
    | call c => rw [h.1, h.2]; exact ⟨socket_enter d c, inHand_enter d c⟩
    | write ok => exact h.elim
  | inPop => exact absurd rfl hpop
  | write x => exact absurd rfl (hwrite x)
  | _ =>
    rw [next] at h
    grind [Act.Moves, inHand, newPayload]

/-- A step takes a payload, writes the one in hand, or does neither. -/
theorem taken_of_moves (h : (ringNext a d p).Moves d d' q)
    (hw : ∀ x, p = .write x → a = .write true) :
    (d'.taken = d.taken ∧ d'.fields.socket = d.fields.socket ∧ inHand p = [] ∧ inHand q = []) ∨
    (∃ x, p = .inPop ∧ d'.taken = d.taken ++ [x] ∧ d'.fields.socket = d.fields.socket ∧
      inHand q = [x]) ∨
    ∃ x, p = .write x ∧ d'.taken = d.taken ∧ d'.fields.socket = d.fields.socket ++ [x] ∧
      inHand q = [] := by
  cases p with
  | inPop =>
    rw [ringNext] at h
    split at h
    case h_1 ring x hpop =>
      obtain ⟨rfl, rfl⟩ := h
      exact .inr (.inl ⟨x, rfl, rfl, rfl, rfl⟩)
    case h_2 => exact h.elim
  | write x =>
    rw [hw x rfl] at h
    obtain ⟨rfl, rfl⟩ := h
    exact .inr (.inr ⟨x, rfl, rfl, rfl, rfl⟩)
  | inPush x =>
    rw [ringNext] at h
    split at h
    case h_1 ring hpush =>
      obtain ⟨rfl, rfl⟩ := h
      exact .inl ⟨rfl, rfl, rfl, rfl⟩
    case h_2 => exact h.elim
  | inSize b =>
    rw [ringNext] at h
    split at h <;> (obtain ⟨rfl, rfl⟩ := h; exact .inl ⟨rfl, rfl, rfl, rfl⟩)
  | _ =>
    rw [ringNext_eq (by simp) (by simp) (by simp)] at h
    have htaken : d'.taken = d.taken := by
      rcases Act.eq_of_moves_mapData h with rfl | ⟨e, rfl⟩ <;> rfl
    obtain ⟨hsocket, hhand⟩ := socket_of_moves
      (Act.moves_of_mapData (f := RingFields.fields) (fun _ => rfl) h) (by simp) (by simp)
    exact .inl ⟨htaken, hsocket, rfl, hhand⟩

end Points

section Runs

variable {κ : Type*} [DecidableEq κ] {ok : RingState κ → Thread κ × Choice → RingState κ → Prop}
  {c c' : RingState κ}

theorem queued_ringInitial (κ : Type*) : Queued (ringInitial κ).data [] :=
  ⟨rfl, _, (Ringbuffer.Started.init rfl).represents⟩

theorem exists_queued (h : Reach (step (ringProg κ)) ok (· = ringInitial κ) c) :
    ∃ pending, Queued c.data pending := by
  refine h.invariant (I := fun c => ∃ pending, Queued c.data pending) ?_ ?_
  · rintro _ rfl
    exact ⟨[], queued_ringInitial κ⟩
  · rintro c ⟨t, a⟩ c' ⟨pending, hI⟩ hs -
    exact hI.of_moves (step_moves hs).1

/-- A run on the ring buffer is a run on the list. -/
theorem reach_listedState (h : Reach (step (ringProg κ)) ok (· = ringInitial κ) c) :
    Reach (step (prog κ)) anyStep (· = initial κ) (listedState c) := by
  induction h with
  | start h0 =>
    subst h0
    apply Reach.start
    rfl
  | @next c c' l h hs _ ih =>
    obtain ⟨pending, hqueued⟩ := exists_queued h
    have hstep : step (prog κ) (listedState c) l = some (listedState c') := by
      have hsame : step (prog κ) (listedState c) l = (step (ringProg κ) c l).map listedState :=
        step_mapData (ringNext_listed hqueued l.2 (c.pc l.1))
      rw [hsame, hs]
      rfl
    exact .next ih hstep trivial

theorem taken_eq (hok : ∀ c l c', ok c l c' → WriteSucceeds c l)
    (h : Reach (step (ringProg κ)) ok (· = ringInitial κ) c) :
    c.data.taken = c.data.fields.socket ++ inHand (c.pc none) := by
  induction h with
  | start h0 => rw [h0]; rfl
  | @next c c' l h hs hstep ih =>
    obtain ⟨t, a⟩ := l
    obtain ⟨hm, hother⟩ := step_moves hs
    have htx := isTx_iff_of_reach (reach_listedState h) t
    rcases taken_of_moves hm (fun x hx => hok _ _ _ hstep x hx) with
      ⟨htaken, hsocket, hp, hq⟩ | ⟨x, hp, htaken, hsocket, hq⟩ | ⟨x, hp, htaken, hsocket, hq⟩
    · rw [htaken, hsocket, ih]
      by_cases ht : t = none
      · rw [ht] at hp hq
        rw [hp, hq]
      · rw [hother none (Ne.symm ht)]
    · have ht : t = none := htx.mp (by rw [show (listedState c).pc t = _ from hp]; rfl)
      subst ht
      rw [htaken, hsocket, hq, ih, hp]
      simp [inHand]
    · have ht : t = none := htx.mp (by rw [show (listedState c).pc t = _ from hp]; rfl)
      subst ht
      rw [htaken, hsocket, hq, ih, hp]
      simp [inHand]

/-- The payloads taken and those pending are the payloads pushed, in the order of the
pushes; while writes succeed, the socket has got the first ones of them. -/
theorem transmit_queue_fifo (h : Reach (step (ringProg κ)) ok (· = ringInitial κ) c) :
    c.data.taken.map some ++ c.data.ring.contents = c.data.pushed.map some ∧
      ((∀ c l c', ok c l c' → WriteSucceeds c l) →
        ∃ n, c.data.socketBytes = ((c.data.pushed.take n).map (·.bytes)).flatten) := by
  obtain ⟨pending, hqueued⟩ := exists_queued h
  constructor
  · rw [hqueued.contents_eq, hqueued.1, List.map_append]
  · intro hok
    refine ⟨c.data.fields.socket.length, ?_⟩
    rw [hqueued.1, taken_eq hok h, List.append_assoc, List.take_left]
    rfl

end Runs

/-- Of two payloads pushed, the first one is written and the second one pending. -/
theorem transmit_queue_fifo_two_sends :
    ∃ c : RingState Unit, c.data.taken.length = 1 ∧ c.data.pushed.length = 2 ∧
      c.data.taken.map some ++ c.data.ring.contents = c.data.pushed.map some ∧
        ∃ n, c.data.socketBytes = ((c.data.pushed.take n).map (·.bytes)).flatten := by
  let check (c : RingState Unit) (l : Thread Unit × Choice) : Bool :=
    match c.pc l.1 with
    | .write _ => l.2 == .write true
    | _ => true
  have hok (c : RingState Unit) (l : Thread Unit × Choice) (c' : RingState Unit)
      (hc : check c l = true) (_ : step (ringProg Unit) c l = some c') : WriteSucceeds c l := by
    intro p hp
    simpa [check, hp] using hc
  have hrun : ∃ c : RingState Unit, Reach (step (ringProg Unit)) (fun c l _ => WriteSucceeds c l)
      (· = ringInitial Unit) c ∧
        (c.data.taken.length == 1 && c.data.pushed.length == 2) = true :=
    exists_reach_of_checkedRun hok rfl
      (callSteps (.setReady true) 0 ++ callSteps (.sendStrliteral (ascii "hi\n")) 5 ++
        callSteps (.sendMessage (ascii "<DM> @bob: ho\n")) 5 ++ txSteps 9) (by decide)
  obtain ⟨c, hr, hc⟩ := hrun
  rw [Bool.and_eq_true, beq_iff_eq, beq_iff_eq] at hc
  obtain ⟨hfifo, hsocket⟩ := transmit_queue_fifo hr
  exact ⟨c, hc.1, hc.2, hfifo, hsocket fun _ _ _ h => h⟩

end Chatd.Net.Connection
