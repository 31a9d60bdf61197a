import Chatd.Net.Connection.RxThread
import Chatd.Net.Connection.Wire

/-! # The other end of the wire

A peer that calls `tcp_stream_readuntil` until it fails reads the lines of what was sent,
however the network cuts it into chunks. A frame that is pushed where a line begins is a
line of its own, and its sender and its content can be read off it.
-/
namespace Chatd.Protocol
open Library

/-- What a frame tells: the channel, if it is one of a channel, its sender and its text. -/
inductive Shown where
  | direct (sender content : Bytes)
  | group (channel sender content : Bytes)
  | global (sender content : Bytes)
  deriving DecidableEq, Repr

def Message.shown (name : Bytes) : Message → Shown
  | .direct _ content => .direct name content
  | .group to_ content => .group to_ name content
  | .global content => .global name content

def splitAtFirst (c : UInt8) (s : Bytes) : Option (Bytes × Bytes) :=
  if c ∈ s then some (s.takeWhile (· ≠ c), (s.dropWhile (· ≠ c)).tail) else none

def behind (first s : Bytes) : Option Bytes :=
  if first.isPrefixOf s then some (s.drop first.length) else none

def readSigned (s : Bytes) : Option (Bytes × Bytes) := do
  let (sender, rest) ← splitAtFirst colon s
  let content ← behind [space] rest
  some (sender, content)

def decode (line : Bytes) : Option Shown :=
  if let some rest := behind (ascii "<DM> @") line then do
    let (sender, content) ← readSigned rest
    some (.direct sender content)
  else if let some rest := behind (ascii "<Global> @") line then do
    let (sender, content) ← readSigned rest
    some (.global sender content)
  else do
    let rest ← behind (ascii "#") line
    let (channel, rest) ← splitAtFirst space rest
    let rest ← behind (ascii "@") rest
    let (sender, content) ← readSigned rest
    some (.group channel sender content)

section Decoding

variable {c : UInt8} {name content xs ys line : Bytes} {msg : Message}

theorem splitAtFirst_append_cons (h : c ∉ xs) (ys : Bytes) :
    splitAtFirst c (xs ++ c :: ys) = some (xs, ys) := by
  have hall : ∀ b ∈ xs, decide (b ≠ c) = true := fun b hb => by
    rw [decide_eq_true_eq]
    rintro rfl
    exact h hb
  rw [splitAtFirst, if_pos (by simp), List.takeWhile_append_of_pos hall,
    List.dropWhile_append_of_pos hall, List.takeWhile_cons_of_neg (by simp),
    List.dropWhile_cons_of_neg (by simp), List.append_nil, List.tail_cons]

theorem behind_append (xs ys : Bytes) : behind xs (xs ++ ys) = some ys := by
  simp [behind]

theorem readSigned_eq (h : colon ∉ name) (content : Bytes) :
    readSigned (name ++ (ascii ": " ++ content)) = some (name, content) := by
  have hsep : ascii ": " = [colon, space] := by decide
  rw [readSigned, hsep, List.cons_append, splitAtFirst_append_cons h]
  simp [behind]

def Message.text (name : Bytes) : Message → Bytes
  | .direct _ content => ascii "<DM> @" ++ (name ++ (ascii ": " ++ content))
  | .group to_ content => ascii "#" ++ (to_ ++ (ascii " @" ++ (name ++ (ascii ": " ++ content))))
  | .global content => ascii "<Global> @" ++ (name ++ (ascii ": " ++ content))

theorem Message.frame_eq_text (name : Bytes) (msg : Message) :
    msg.frame name = msg.text name ++ [newline] := by
  have hend : ascii "\n" = [newline] := by decide
  cases msg <;> simp only [Message.frame, Message.text, signed, hend, List.append_assoc]

theorem not_mem_text (h : Clean name msg) : newline ∉ msg.text name := by
  obtain ⟨line, hline, hfree⟩ := oneLine_frame h
  rw [Message.frame_eq_text] at hline
  rwa [List.append_cancel_right hline]

/-- A line is read in one way, and as what was written. -/
theorem decode_text (h : Clean name msg) : decode (msg.text name) = some (msg.shown name) := by
  cases msg with
  | direct to_ content =>
    rw [Message.text, decode, behind_append]
    simp only
    rw [readSigned_eq h.name_colon]
    rfl
  | group to_ content =>
    -- the channel ends at the first space
    have hchannel : space ∉ to_ := h.channel_space
    have hat : ascii " @" = space :: ascii "@" := by decide
    have hdm : behind (ascii "<DM> @") (Message.text name (.group to_ content)) = none := rfl
    have hglobal : behind (ascii "<Global> @") (Message.text name (.group to_ content)) = none :=
      rfl
    rw [decode, hdm, hglobal, Message.text, behind_append, hat]
    simp only [Option.bind_eq_bind, Option.bind_some]
    rw [List.cons_append, splitAtFirst_append_cons hchannel, Option.bind_some, behind_append,
      Option.bind_some, readSigned_eq h.name_colon]
    rfl
  | global content =>
    have hdm : behind (ascii "<DM> @") (Message.text name (.global content)) = none := rfl
    rw [decode, hdm, Message.text, behind_append]
    simp only
    rw [readSigned_eq h.name_colon]
    rfl

end Decoding

end Chatd.Protocol

namespace Chatd.Net.Connection
open Library Tcp Protocol

/-- The lines that `tcp_stream_readuntil` hands over until it fails, an empty one for the
null pointer; `none` if the rounds granted do not suffice. -/
def readLines : (fuel : ℕ) → TcpStream → Except Fault (Option (List Bytes))
  | 0, _ => .ok none
  | fuel + 1, stream => do
    let r ← readuntil stream newline
    match r.result with
    | .reade => .ok (some [])
    | .ok => do
      let rest ← readLines fuel r.stream
      .ok (rest.map ((r.out.getD []).take r.len :: ·))

section Reading

/-- The lines read are those of the stream, whatever the chunks. -/
theorem readLines_eq {stream : TcpStream} (hs : stream.Held) {fuel : ℕ}
    (hf : stream.rest.length < fuel) :
    readLines fuel stream = .ok (some (lines newline stream.rest)) := by
  induction fuel generalizing stream with
  | zero => omega
  | succ fuel ih =>
    by_cases hc : newline ∈ stream.rest
    · obtain ⟨line, out, after, hread, hline⟩ := readuntil_ok hs hc
      have hrest : stream.rest.length = line.length + (after.rest.length + 1) := by
        rw [hline.rest, List.length_append, List.length_cons]
      have hout : (out.getD []).take line.length = line := by
        rcases hline.buffer with rfl | ⟨rfl, rfl⟩ <;> simp
      rw [readLines, hread, ok_bind]
      simp only
      rw [ih hline.held (by omega), ok_bind, Option.map_some, hout, hline.rest,
        lines_append_cons hline.not_mem]
    · obtain ⟨len, hread⟩ := readuntil_reade hc
      rw [readLines, hread, ok_bind, lines_of_not_mem hc]

theorem lines_frame {name before after : Bytes} {msg : Message} (hb : Whole newline before)
    (h : Clean name msg) :
    lines newline (before ++ (msg.frame name ++ after)) =
      lines newline before ++ msg.text name :: lines newline after := by
  rw [lines_append_of_whole hb, Message.frame_eq_text, List.append_assoc, List.singleton_append]
  congr 1
  exact lines_append_cons (not_mem_text h) after

end Reading

section Runs

variable {κ : Type*} [DecidableEq κ] {sender : ℕ → Bytes × Message} {takes : List (Option ℕ)}
  {c : WireState κ}

/-- Nothing is left in the queue or in the hand of a `tx_thread` whose writes succeeded. -/
def Drained (c : WireState κ) : Prop :=
  stopped (c.pc none) = false ∧ inHand (c.pc none) = [] ∧ c.data.queue.ring.contents = []

/-- A payload holds a message that was parsed, from a sender that has logged in. -/
structure Framed (sender : ℕ → Bytes × Message) (p : OutgoingPayload) : Prop where
  bytes_eq : p.bytes = (sender p.addr).2.frame (sender p.addr).1
  accepted : Accepted (sender p.addr).1
  produced : Produced (sender p.addr).2

/-- However the threads interleave, the writes end and the network cuts the bytes, the
lines that a peer reads are the first ones of those pushed, all of them once the queue is
drained, and a message pushed where a line begins is read as what it is. -/
theorem peer_reads_frames
    (h : Reach (step (wireProg (sendCalls sender) κ)) anyStep (· = wireInitial κ takes) c)
    {reads : List Chunk} (hreads : unread reads = c.data.socket.sent) {fuel : ℕ}
    (hf : (unread reads).length < fuel) :
    ∃ read, readLines fuel (accepted reads) = .ok (some read) ∧
      read <+: lines newline (bytesOf c.data.queue.pushed) ∧
      (Drained c → read = lines newline (bytesOf c.data.queue.pushed)) ∧
      ∀ before p after, c.data.queue.pushed = before ++ p :: after →
        Whole newline (bytesOf before) → Framed sender p →
        ∀ line, read[(lines newline (bytesOf before)).length]? = some line →
          decode line = some ((sender p.addr).2.shown (sender p.addr).1) := by
  have hheld : (accepted reads).Held := ⟨rfl, Nat.zero_lt_succ _⟩
  have hread : readLines fuel (accepted reads) = _ := readLines_eq hheld hf
  obtain ⟨unsent, hunsent⟩ := sent_isPrefix_pushed h
  have hfirst : lines newline c.data.socket.sent <+:
      lines newline (bytesOf c.data.queue.pushed) :=
    hunsent ▸ lines_append_isPrefix ..
  rw [show (accepted reads).rest = c.data.socket.sent from hreads] at hread
  refine ⟨_, hread, hfirst, fun hdrained => ?_, ?_⟩
  · obtain ⟨hrun, hhand, hring⟩ := hdrained
    have hall := sent_append_unsent h hrun
    rw [hhand, hring] at hall
    rw [← hall]
    exact congrArg (lines newline) (List.append_nil _).symm
  · intro before p after hpushed hwhole hframed line hline
    have hclean := clean_of_accepted hframed.accepted hframed.produced
    have hlines : lines newline (bytesOf c.data.queue.pushed) =
        lines newline (bytesOf before) ++
          (sender p.addr).2.text (sender p.addr).1 :: lines newline (bytesOf after) := by
      rw [hpushed, bytesOf_append, ← List.singleton_append, bytesOf_append, bytesOf_singleton,
        hframed.bytes_eq, lines_frame hwhole hclean]
    obtain ⟨hlt, rfl⟩ := List.getElem?_eq_some_iff.mp hline
    have hplace := List.prefix_iff_getElem?.mp hfirst _ hlt
    rw [hlines, List.getElem?_append_right (Nat.le_refl _), Nat.sub_self, List.getElem?_cons_zero]
      at hplace
    rw [← Option.some.inj hplace, decode_text hclean]

end Runs

/-- A direct message arrives in two pieces behind a greeting. -/
theorem peer_reads_frames_in_pieces : ∃ (c : WireState Unit) (reads : List Chunk),
    unread reads = c.data.socket.sent ∧ reads.length = 2 ∧
      ∃ read, readLines 100 (accepted reads) = .ok (some read) ∧
        read = lines newline (bytesOf c.data.queue.pushed) ∧
        ∀ line, read[1]? = some line →
          decode line = some (.direct (ascii "bob") (ascii "ho")) := by
  let sender : ℕ → Bytes × Message := fun _ => (ascii "bob", .direct (ascii "al") (ascii "ho"))
  let greeting : OutgoingPayload := ⟨0, .stringLiteral, ascii "hi\n"⟩
  let frame : OutgoingPayload := ⟨1, .message, ascii "<DM> @bob: ho\n"⟩
  have hrun : ∃ c : WireState Unit,
      Reach (step (wireProg (sendCalls sender) Unit)) anyStep
        (· = wireInitial Unit (List.replicate 6 (some 100))) c ∧
      decide (c.data.queue.pushed = [greeting, frame] ∧
        c.data.socket.sent = ascii "hi\n<DM> @bob: ho\n" ∧ stopped (c.pc none) = false ∧
        inHand (c.pc none) = [] ∧ c.data.queue.ring.contents = []) = true :=
    exists_reach_of_run rfl
      (callSteps (.setReady true) 0 ++ callSteps (.sendStrliteral (ascii "hi\n")) 5 ++
        callSteps (.sendMessage (ascii "<DM> @bob: ho\n")) 5 ++ txSteps 14) (by decide)
  obtain ⟨c, hr, hc⟩ := hrun
  obtain ⟨hpushed, hsent, hstopped, hhand, hring⟩ := of_decide_eq_true hc
  let reads : List Chunk := [⟨ascii "hi\n<DM> @b", by decide⟩, ⟨ascii "ob: ho\n", by decide⟩]
  have hreads : unread reads = c.data.socket.sent := by
    rw [hsent]
    decide
  have hframed : Framed sender frame := by
    refine ⟨by decide, accepted_iff.mpr ⟨by decide, by decide, List.all_eq_true.mp (by decide)⟩,
      ascii "@al ho", [], .payload (.directMessage 1 4 (ascii "@al" ++ 0 :: ascii "ho" ++ [0]) 6),
      by decide, ?_⟩
    rw [Parsed.Yields]
    decide
  have hfuel : (unread reads).length < 100 := by decide
  obtain ⟨read, hread, -, hall, hdecode⟩ := peer_reads_frames hr hreads hfuel
  refine ⟨c, reads, hreads, rfl, read, hread, hall ⟨hstopped, hhand, hring⟩, ?_⟩
  exact hdecode [greeting] frame [] hpushed (.inr ⟨ascii "hi", by decide⟩) hframed

end Chatd.Net.Connection
