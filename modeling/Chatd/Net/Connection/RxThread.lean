import Chatd.Net.Tcp.Stream

/-! # The receive side of a connection

`rx_thread` hands every line to `handle_payload` until the stream ends, and then
calls it once more with the null buffer, which frees the login buffers. An empty line
that `tcp_stream_readuntil` finds at the front of a chunk arrives as the null buffer too.
-/
namespace Chatd.Net.Connection
open Library Tcp

def newline : UInt8 := 10

/-- The arguments of a call of `handle_payload`. -/
structure PayloadCall where
  buff : Option Bytes
  len : ℕ
  deriving DecidableEq, Repr

/-- `handle_payload(NULL, 0)`. -/
def teardown : PayloadCall := ⟨none, 0⟩

/-- The calls of `rx_thread` on a connection that is not killed; `none` if the rounds
granted do not suffice. -/
def rxThread : (fuel : ℕ) → TcpStream → Except Fault (Option (List PayloadCall))
  | 0, _ => .ok none
  | fuel + 1, stream => do
    let r ← readuntil stream newline
    match r.result with
    | .reade => .ok (some [teardown])
    | .ok => do
      let calls ← rxThread fuel r.stream
      .ok (calls.map (⟨r.out, r.len⟩ :: ·))

/-- A stream as `tcp_listener_accept` sets it up. -/
def accepted (reads : List Chunk) : TcpStream := ⟨⟨buffCap, []⟩, reads⟩

def lineCall (line : Bytes) : PayloadCall := ⟨some (line ++ [0]), line.length⟩

def deliveredCalls (bytes : Bytes) : List PayloadCall :=
  (lines newline bytes).map lineCall ++ [teardown]

/-- An empty line begins with a chunk, and is taken for the teardown. -/
def emptyLineStartsChunk (stream : TcpStream) : Bool :=
  delimiterStartsChunk newline (lineStart newline stream.buff.bytes) stream.reads

theorem lineCall_eq_iff {before after : TcpStream} {line : Bytes} {out : Option Bytes}
    (h : LineRead newline before line out after) :
    ⟨out, line.length⟩ = lineCall line ↔ out.isNone = false := by
  rcases h.buffer with rfl | ⟨rfl, rfl⟩ <;> simp [lineCall]

theorem rxThread_succ {stream after : TcpStream} {line : Bytes} {out : Option Bytes}
    (hr : readuntil stream newline = .ok ⟨.ok, out, line.length, after⟩) {fuel : ℕ}
    {calls : List PayloadCall} (hc : rxThread fuel after = .ok (some calls)) :
    rxThread (fuel + 1) stream = .ok (some (⟨out, line.length⟩ :: calls)) := by
  rw [rxThread, hr, ok_bind]
  simp only
  rw [hc, ok_bind]
  rfl

/-- The loop ends with the stream, and its calls are the lines unless an empty line
begins with a chunk. -/
theorem rxThread_eq {stream : TcpStream} (hs : stream.Held) {fuel : ℕ}
    (hf : stream.rest.length < fuel) :
    ∃ calls, rxThread fuel stream = .ok (some calls) ∧
      (calls = deliveredCalls stream.rest ↔ emptyLineStartsChunk stream = false) := by
  induction fuel generalizing stream with
  | zero => omega
  | succ fuel ih =>
    by_cases hc : newline ∈ stream.rest
    · obtain ⟨line, out, after, hread, hline⟩ := readuntil_ok hs hc
      have hrest : stream.rest.length = line.length + (after.rest.length + 1) := by
        rw [hline.rest, List.length_append, List.length_cons]
      obtain ⟨calls, hcalls, hiff⟩ := ih hline.held (by omega)
      refine ⟨⟨out, line.length⟩ :: calls, rxThread_succ hread hcalls, ?_⟩
      rw [hline.rest, deliveredCalls, lines_append_cons hline.not_mem, List.map_cons,
        List.cons_append, List.cons_eq_cons, lineCall_eq_iff hline]
      rw [deliveredCalls] at hiff
      rw [hiff, emptyLineStartsChunk, emptyLineStartsChunk, hline.starts, Bool.or_eq_false_iff]
    · obtain ⟨len, hread⟩ := readuntil_reade hc
      refine ⟨[teardown], by rw [rxThread, hread, ok_bind], ?_⟩
      rw [TcpStream.rest, List.mem_append, not_or] at hc
      rw [deliveredCalls, TcpStream.rest, lines_of_not_mem (by simpa using hc),
        emptyLineStartsChunk, delimiterStartsChunk_of_not_mem _ hc.2]
      exact iff_of_true rfl rfl

/-- Every line is delivered as it was sent, whatever the chunks, if and only if no chunk
begins with a newline where a line starts. -/
theorem rxThread_delivers_iff (reads : List Chunk) :
    (∀ fuel, (unread reads).length < fuel →
      rxThread fuel (accepted reads) = .ok (some (deliveredCalls (unread reads)))) ↔
        delimiterStartsChunk newline true reads = false := by
  have hs : (accepted reads).Held := ⟨rfl, Nat.zero_lt_succ _⟩
  constructor
  · intro h
    obtain ⟨calls, hcalls, hiff⟩ := rxThread_eq hs (Nat.lt_succ_self _)
    have hdelivered := hcalls.symm.trans (h _ (Nat.lt_succ_self _))
    simp only [Except.ok.injEq, Option.some.injEq] at hdelivered
    exact hiff.mp hdelivered
  · intro h fuel hf
    obtain ⟨calls, hcalls, hiff⟩ := rxThread_eq hs hf
    rw [hcalls, hiff.mpr h]
    rfl

/-- An empty line alone in a packet is delivered as the teardown call. -/
theorem not_rxThread_delivers_empty_line :
    ¬ ∀ (reads : List Chunk) (fuel : ℕ), (unread reads).length < fuel →
      rxThread fuel (accepted reads) = .ok (some (deliveredCalls (unread reads))) := by
  intro h
  have hcalls := h [⟨[newline], by decide⟩] 2 (by decide)
  revert hcalls
  decide

end Chatd.Net.Connection
