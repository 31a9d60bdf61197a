import Chatd.Net.Connection.TxQueue
import Chatd.Protocol.Frames

/-! # From the queue to the wire

`tx_thread` writes a payload by calls of `tcp_stream_write`: one call for a string, and one
for each part of the frame of a message. A call may fail, or send some of its bytes only,
and the first one that does not send all of them ends the thread. So the bytes on the wire
are always the first bytes of the payloads, in the order of their pushes.
-/
namespace Chatd.Protocol
open Library

theorem sent_write_take (s : Outbound) (buff : Bytes) :
    ∃ n, (s.write buff).2.sent = s.sent ++ buff.take n := by
  rw [Outbound.write]
  split
  · exact ⟨0, (List.append_nil _).symm⟩
  · exact ⟨0, (List.append_nil _).symm⟩
  · exact ⟨_, rfl⟩

theorem sent_writeAll_take (buffs : List Bytes) (s : Outbound) :
    ∃ n, (writeAll buffs s).2.sent = s.sent ++ buffs.flatten.take n := by
  induction buffs generalizing s with
  | nil => exact ⟨0, (List.append_nil _).symm⟩
  | cons buff buffs ih =>
    rw [writeAll]
    split
    · rename_i s' hwrite
      obtain ⟨n, hn⟩ := ih s'
      refine ⟨buff.length + n, ?_⟩
      rw [hn, sent_write hwrite, List.flatten_cons, List.take_length_add_append,
        List.append_assoc]
    · rename_i s' hwrite
      obtain ⟨n, hn⟩ := sent_write_take s buff
      rw [hwrite] at hn
      refine ⟨min n buff.length, ?_⟩
      rw [hn, List.flatten_cons, List.take_append_of_le_length (by omega), List.take_eq_take_min]

end Chatd.Protocol

namespace Chatd.Net.Connection
open Library Protocol

/-- The calls of `tcp_stream_write` that are made for each payload. -/
structure Calls where
  parts : OutgoingPayload → List Bytes
  flatten_parts : ∀ p, (parts p).flatten = p.bytes

/-- A message with the name of its sender, for each payload that holds one. -/
def sendCalls (msg : ℕ → Bytes × Message) : Calls where
  parts p :=
    if p.kind = .message ∧ (msg p.addr).2.frame (msg p.addr).1 = p.bytes then
      (msg p.addr).2.parts (msg p.addr).1
    else [p.bytes]
  flatten_parts p := by
    split
    case isTrue h => rw [Message.flatten_parts, h.2]
    case isFalse => exact List.append_nil _

/-- The fields of a connection with the socket that `tx_thread` writes to. -/
structure WireFields where
  queue : RingFields
  socket : Outbound
  deriving DecidableEq, Repr

section Program

variable (calls : Calls)

/-- `ringNext` with the writes done on the socket. -/
def wireNext (a : Choice) (d : WireFields) : Pc → Act Mutex WireFields Pc
  | .write p =>
    (ringNext (.write (writeAll (calls.parts p) d.socket).1) d.queue (.write p)).mapData
      fun queue => ⟨queue, (writeAll (calls.parts p) d.socket).2⟩
  | p => (ringNext a d.queue p).mapData fun queue => { d with queue }

abbrev WireState (κ : Type*) := Config (Thread κ) Mutex WireFields Pc

def wireProg (κ : Type*) : Prog (Thread κ) Choice Mutex WireFields Pc := fun _ a d p =>
  wireNext calls a d p

/-- A connection over a socket that has sent nothing; `takes` says how its calls of `send`
will end. -/
def wireInitial (κ : Type*) (takes : List (Option ℕ)) : WireState κ where
  data := ⟨(ringInitial κ).data, ⟨[], takes⟩⟩
  pc := (initial κ).pc
  owner _ := none

end Program

def bytesOf (payloads : List OutgoingPayload) : Bytes := (payloads.map (·.bytes)).flatten

def stopped : Pc → Bool
  | .sizeBegin terminated | .inSize terminated | .gracefulTest terminated
  | .killSelf terminated | .closeSelf terminated | .breakTest terminated => terminated
  | .exited => true
  | _ => false

section Points

variable {calls : Calls} {a : Choice} {p q : Pc}

def outcome (calls : Calls) (a : Choice) (d : WireFields) : Pc → Choice
  | .write p => .write (writeAll (calls.parts p) d.socket).1
  | _ => a

/-- Away from the socket the program is that of the queue. -/
theorem wireNext_eq (h : ∀ x, p ≠ .write x) (d : WireFields) :
    wireNext calls a d p = (ringNext a d.queue p).mapData fun queue => { d with queue } := by
  cases p with
  | write x => exact absurd rfl (h x)
  | _ => rfl

theorem outcome_eq (h : ∀ x, p ≠ .write x) (d : WireFields) : outcome calls a d p = a := by
  cases p with
  | write x => exact absurd rfl (h x)
  | _ => rfl

theorem wireNext_queue (d : WireFields) :
    (wireNext calls a d p).mapData WireFields.queue =
      ringNext (outcome calls a d p) d.queue p := by
  by_cases h : ∃ x, p = .write x
  · obtain ⟨x, rfl⟩ := h
    rw [wireNext]
    exact Act.mapData_of_inverse (f := WireFields.queue) fun _ => rfl
  · have hp (x : OutgoingPayload) : p ≠ .write x := fun hx => h ⟨x, hx⟩
    rw [wireNext_eq hp, outcome_eq hp]
    exact Act.mapData_of_inverse (f := WireFields.queue) fun _ => rfl

/-- A step of the wire is one of the queue, and sends something only where it writes. -/
theorem wire_of_moves {d d' : WireFields} (h : (wireNext calls a d p).Moves d d' q) :
    (ringNext (outcome calls a d p) d.queue p).Moves d.queue d'.queue q ∧
      ((∃ x, p = .write x ∧ (writeAll (calls.parts x) d.socket).2 = d'.socket) ∨
        (∀ x, p ≠ .write x) ∧ d'.socket = d.socket) := by
  by_cases hx : ∃ x, p = .write x
  · obtain ⟨x, rfl⟩ := hx
    rw [wireNext] at h
    refine ⟨Act.moves_of_mapData (f := WireFields.queue) (fun _ => rfl) h, .inl ⟨x, rfl, ?_⟩⟩
    simp only [ringNext, next, Act.mapData_ite] at h
    split at h <;> rw [h.1]
  · have hp (x : OutgoingPayload) : p ≠ .write x := fun h => hx ⟨x, h⟩
    rw [wireNext_eq hp] at h
    rw [outcome_eq hp]
    refine ⟨Act.moves_of_mapData (f := WireFields.queue) (fun _ => rfl) h, .inr ⟨hp, ?_⟩⟩
    rcases Act.eq_of_moves_mapData h with hd | ⟨e, hd⟩ <;> rw [hd]

theorem stopped_of_moves {d d' : Fields} (h : (next a d p).Moves d d' q) (hpop : p ≠ .inPop)
    (hwrite : ∀ x, p ≠ .write x) : stopped p = true → stopped q = true := by
  cases p with
  | idle => exact nofun
  | inPop => exact absurd rfl hpop
  | write x => exact absurd rfl (hwrite x)
  | _ =>
    rw [next] at h
    grind [Act.Moves, stopped]

theorem queue_of_wire {d d' : RingFields} (h : (ringNext a d p).Moves d d' q) :
    (d'.taken = d.taken ∧ inHand p = [] ∧ inHand q = [] ∧
      (stopped p = true → stopped q = true)) ∨
    (∃ x, p = .inPop ∧ d'.taken = d.taken ++ [x] ∧ q = .write x) ∨
    ∃ x, p = .write x ∧ d'.taken = d.taken ∧ q = .sizeBegin (decide (a ≠ .write true)) := by
  cases p with
  | inPop =>
    rw [ringNext] at h
    split at h
    case h_1 ring x hpop =>
      obtain ⟨rfl, rfl⟩ := h
      exact .inr (.inl ⟨x, rfl, rfl, rfl⟩)
    case h_2 => exact h.elim
  | write x =>
    rw [ringNext_eq (by simp) (by simp) (by simp), next, Act.mapData_ite] at h
    split at h
    case isTrue ha =>
      obtain ⟨rfl, rfl⟩ := h
      exact .inr (.inr ⟨x, rfl, rfl, by simp [ha]⟩)
    case isFalse ha =>
      obtain ⟨rfl, rfl⟩ := h
      exact .inr (.inr ⟨x, rfl, rfl, by simp [ha]⟩)
  | inPush x =>
    rw [ringNext] at h
    split at h
    case h_1 ring hpush =>
      obtain ⟨rfl, rfl⟩ := h
      exact .inl ⟨rfl, rfl, rfl, fun hs => absurd hs Bool.false_ne_true⟩
    case h_2 => exact h.elim
  | inSize terminated =>
    rw [ringNext] at h
    split at h
    case isTrue hpop =>
      obtain ⟨rfl, rfl⟩ := h
      exact .inl ⟨rfl, rfl, rfl, fun hs => absurd hs (by simp [stopped, hpop.2])⟩
    case isFalse =>
      obtain ⟨rfl, rfl⟩ := h
      exact .inl ⟨rfl, rfl, rfl, id⟩
  | _ =>
    rw [ringNext_eq (by simp) (by simp) (by simp)] at h
    have htaken : d'.taken = d.taken := by
      rcases Act.eq_of_moves_mapData h with rfl | ⟨e, rfl⟩ <;> rfl
    have hfields := Act.moves_of_mapData (f := RingFields.fields) (fun _ => rfl) h
    exact .inl ⟨htaken, rfl, (socket_of_moves hfields (by simp) (by simp)).2,
      stopped_of_moves hfields (by simp) (by simp)⟩

end Points

section Runs

variable {κ : Type*} [DecidableEq κ] {calls : Calls} {takes : List (Option ℕ)}
  {ok : WireState κ → Thread κ × Choice → WireState κ → Prop} {c c' : WireState κ}

/-- A run on the wire is a run of the queue. -/
theorem reach_queue (h : Reach (step (wireProg calls κ)) ok (· = wireInitial κ takes) c) :
    Reach (step (ringProg κ)) anyStep (· = ringInitial κ) (c.mapData WireFields.queue) := by
  induction h with
  | start h0 =>
    subst h0
    apply Reach.start
    rfl
  | @next c c' l h hs _ ih =>
    let prog : Prog (Thread κ) Choice Mutex RingFields Pc := fun _ _ d p =>
      ringNext (outcome calls l.2 c.data (c.pc l.1)) d p
    have hsame : step prog (c.mapData WireFields.queue) l =
        (step (wireProg calls κ) c l).map (Config.mapData WireFields.queue) :=
      step_mapData (wireNext_queue c.data)
    rw [hs] at hsame
    exact .next (l := (l.1, outcome calls l.2 c.data (c.pc l.1))) ih hsame trivial

theorem bytesOf_append (xs ys : List OutgoingPayload) :
    bytesOf (xs ++ ys) = bytesOf xs ++ bytesOf ys := by
  rw [bytesOf, List.map_append, List.flatten_append]
  rfl

theorem bytesOf_singleton (x : OutgoingPayload) : bytesOf [x] = x.bytes := by
  simp [bytesOf]

/-- What has been sent are the first bytes of the payloads taken; until a write fails, all
but those of the payload in hand. -/
structure SentFirst (d : WireFields) (tx : Pc) : Prop where
  first : d.socket.sent <+: bytesOf d.queue.taken
  all : stopped tx = false → d.socket.sent ++ bytesOf (inHand tx) = bytesOf d.queue.taken

omit [DecidableEq κ] in
theorem SentFirst.tx {d d' : WireFields} {a : Choice} {p q : Pc} (hI : SentFirst d p)
    (h : (wireNext calls a d p).Moves d d' q) : SentFirst d' q := by
  obtain ⟨hqueue, hsocket⟩ := wire_of_moves h
  rcases queue_of_wire hqueue with ⟨htaken, hp, hq, hstop⟩ | ⟨x, rfl, htaken, rfl⟩ |
    ⟨x, rfl, htaken, rfl⟩
  · obtain ⟨-, hsame⟩ := hsocket.resolve_left fun ⟨x, hx, _⟩ => by rw [hx] at hp; cases hp
    refine ⟨?_, fun hrun => ?_⟩
    · rw [htaken, hsame]
      exact hI.first
    · rw [htaken, hsame, hq, ← hp]
      exact hI.all (by
        by_contra hstopped
        rw [hstop (by simpa using hstopped)] at hrun
        cases hrun)
  · obtain ⟨-, hsame⟩ := hsocket.resolve_left fun ⟨y, hy, _⟩ => by cases hy
    have hall := hI.all rfl
    have hnil : bytesOf (inHand .inPop) = [] := rfl
    rw [hnil, List.append_nil] at hall
    refine ⟨?_, fun _ => ?_⟩
    · rw [htaken, hsame, bytesOf_append, hall]
      exact List.prefix_append ..
    · rw [htaken, hsame, bytesOf_append, hall]
      rfl
  · obtain ⟨y, hy, hwrite⟩ := hsocket.resolve_right fun h => h.1 x rfl
    cases hy
    have hall := hI.all rfl
    have hhand : bytesOf (inHand (.write x)) = x.bytes := bytesOf_singleton x
    rw [hhand] at hall
    refine ⟨?_, fun hrun => ?_⟩
    · obtain ⟨n, hn⟩ := sent_writeAll_take (calls.parts x) d.socket
      rw [← hwrite, htaken, hn, calls.flatten_parts, ← hall]
      exact (List.prefix_append_right_inj _).mpr (List.take_prefix ..)
    · have hok : (writeAll (calls.parts x) d.socket).1 = true := by
        simpa [stopped, outcome] using hrun
      have hsent := sent_writeAll (Prod.ext hok hwrite : writeAll (calls.parts x) d.socket = _)
      rw [htaken, hsent, calls.flatten_parts, ← hall]
      exact List.append_nil _

theorem sentFirst_of_reach (h : Reach (step (wireProg calls κ)) ok (· = wireInitial κ takes) c) :
    SentFirst c.data (c.pc none) := by
  apply Reach.invariant_reached (I := fun c => SentFirst c.data (c.pc none)) _ _ h
  · rintro _ rfl
    exact ⟨List.prefix_rfl, fun _ => rfl⟩
  · rintro c ⟨t, a⟩ c' hr hI hs -
    obtain ⟨hm, hother⟩ := step_moves hs
    by_cases ht : t = none
    · subst ht
      exact hI.tx hm
    · have htx : ¬ isTx (c.pc t) = true :=
        mt (isTx_iff_of_reach (reach_listedState (reach_queue hr)) t).mp ht
      have hwrite (x : OutgoingPayload) : c.pc t ≠ .write x := by
        intro hx
        rw [hx] at htx
        exact htx rfl
      have hpop : c.pc t ≠ .inPop := by
        intro hx
        rw [hx] at htx
        exact htx rfl
      obtain ⟨hqueue, hsocket⟩ := wire_of_moves hm
      obtain ⟨-, hsame⟩ := hsocket.resolve_left fun ⟨x, hx, _⟩ => hwrite x hx
      obtain ⟨htaken, -⟩ := (queue_of_wire hqueue).resolve_right (by
        rintro (⟨x, hx, -⟩ | ⟨x, hx, -⟩)
        · exact hpop hx
        · exact hwrite x hx)
      rw [hother none (Ne.symm ht)]
      exact ⟨by rw [hsame, htaken]; exact hI.first, by rw [hsame, htaken]; exact hI.all⟩

theorem sent_isPrefix_pushed
    (h : Reach (step (wireProg calls κ)) ok (· = wireInitial κ takes) c) :
    c.data.socket.sent <+: bytesOf c.data.queue.pushed := by
  obtain ⟨pending, hqueued⟩ := exists_queued (reach_queue h)
  have hpushed : c.data.queue.pushed = c.data.queue.taken ++ pending := hqueued.1
  rw [hpushed, bytesOf_append]
  exact (sentFirst_of_reach h).first.trans (List.prefix_append ..)

/-- While `tx_thread` goes on, what has not been sent is in its hand or in the queue. -/
theorem sent_append_unsent
    (h : Reach (step (wireProg calls κ)) ok (· = wireInitial κ takes) c)
    (hrun : stopped (c.pc none) = false) :
    c.data.socket.sent ++
        bytesOf (inHand (c.pc none) ++ c.data.queue.ring.contents.filterMap id) =
      bytesOf c.data.queue.pushed := by
  obtain ⟨pending, hqueued⟩ := exists_queued (reach_queue h)
  have hpushed : c.data.queue.pushed = c.data.queue.taken ++ pending := hqueued.1
  have hring : c.data.queue.ring.contents = pending.map some := hqueued.contents_eq
  rw [hpushed, hring, List.filterMap_map, bytesOf_append, bytesOf_append,
    ← (sentFirst_of_reach h).all hrun, List.append_assoc]
  congr 3
  exact List.filterMap_some

/-- In every interleaving, and however the calls of `send` end, the bytes on the wire are the
first bytes of the payloads in the order of their pushes. Until a write fails, what is
missing is in the hand of `tx_thread` or in the queue. -/
theorem wire_gets_first_bytes
    (h : Reach (step (wireProg calls κ)) anyStep (· = wireInitial κ takes) c) :
    c.data.socket.sent <+: bytesOf c.data.queue.pushed ∧
      (stopped (c.pc none) = false →
        c.data.socket.sent ++
            bytesOf (inHand (c.pc none) ++ c.data.queue.ring.contents.filterMap id) =
          bytesOf c.data.queue.pushed) :=
  ⟨sent_isPrefix_pushed h, sent_append_unsent h⟩

end Runs

/-- A message is cut off in its second part. -/
theorem wire_gets_first_bytes_cut_off : ∃ c : WireState Unit,
    c.data.queue.pushed.length = 2 ∧ c.data.socket.sent = ascii "hi\n<DM> @b" ∧
      c.data.socket.sent <+: bytesOf c.data.queue.pushed := by
  let calls := sendCalls fun _ => (ascii "bob", .direct (ascii "al") (ascii "ho"))
  let takes := [some 100, some 100, some 1, some 100]
  have hrun : ∃ c : WireState Unit, Reach (step (wireProg calls Unit)) anyStep
      (· = wireInitial Unit takes) c ∧
        (c.data.queue.pushed.length == 2 && c.data.socket.sent == ascii "hi\n<DM> @b") = true :=
    exists_reach_of_run rfl
      (callSteps (.setReady true) 0 ++ callSteps (.sendStrliteral (ascii "hi\n")) 5 ++
        callSteps (.sendMessage (ascii "<DM> @bob: ho\n")) 5 ++ txSteps 14) (by decide)
  obtain ⟨c, hr, hc⟩ := hrun
  rw [Bool.and_eq_true, beq_iff_eq, beq_iff_eq] at hc
  exact ⟨c, hc.1, hc.2, (wire_gets_first_bytes hr).1⟩

end Chatd.Net.Connection
