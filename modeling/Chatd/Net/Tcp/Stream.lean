import Chatd.Library.CString
import Chatd.Library.Delimited

/-! # Reading up to a delimiter

`tcp_stream_readuntil` first looks for the delimiter in the bytes that an earlier
call left over, and otherwise reads chunks from the socket until one contains it;
what follows the delimiter in that chunk is held for the next call.
-/
namespace Chatd.Net.Tcp
open Library

/-- `TCP_STREAM_BUFF_CAP`. -/
def buffCap : ℕ := 128

/-- What one successful `read` hands over. -/
abbrev Chunk := { bytes : Bytes // bytes ≠ [] ∧ bytes.length ≤ buffCap }

/-- An allocation of `cap` bytes and the bytes written to its front. The null pointer
is the block without room. -/
structure Block where
  cap : ℕ
  bytes : Bytes
  deriving DecidableEq, Repr

def Block.null : Block := ⟨0, []⟩

def Block.realloc (b : Block) (cap : ℕ) : Block := ⟨cap, b.bytes.take cap⟩

/-- `b[len++] = c`. -/
def Block.append (b : Block) (c : UInt8) : Except Fault Block :=
  if b.bytes.length < b.cap then .ok { b with bytes := b.bytes ++ [c] } else .error .outOfBounds

/-- A stream with the results of the coming `read` calls, after which the peer has closed. -/
structure TcpStream where
  buff : Block
  reads : List Chunk

inductive TcpStreamResult where
  | ok
  | reade
  deriving DecidableEq, Repr

/-- The result of a call with its two output arguments; `out` is `none` for `NULL`. -/
structure Readuntil where
  result : TcpStreamResult
  out : Option Bytes
  len : ℕ
  stream : TcpStream

/-- The loop over a chunk: bytes go to the output up to the delimiter, and to a new
block behind it. -/
def scanChunk (c : UInt8) : (outbuff : Block) → (found : Option Block) → Bytes →
    Except Fault (Block × Option Block)
  | outbuff, found, [] => .ok (outbuff, found)
  | outbuff, some buff, b :: bs => do
    let buff ← buff.append b
    scanChunk c outbuff (some buff) bs
  | outbuff, none, b :: bs =>
    if b = c then scanChunk c outbuff (some ⟨buffCap, []⟩) bs
    else do
      let outbuff ← outbuff.append b
      scanChunk c outbuff none bs

def readChunks (c : UInt8) : (outbuff : Block) → List Chunk → Except Fault Readuntil
  | outbuff, [] => .ok ⟨.reade, none, outbuff.bytes.length, ⟨.null, []⟩⟩
  | outbuff, chunk :: reads => do
    let outbuff := outbuff.realloc (outbuff.bytes.length + chunk.1.length)
    let (outbuff, found) ← scanChunk c outbuff none chunk.1
    match found with
    | none => readChunks c outbuff reads
    | some buff =>
      if outbuff.bytes.length = 0 then .ok ⟨.ok, none, 0, ⟨buff, reads⟩⟩
      else do
        let out ← (outbuff.realloc (outbuff.bytes.length + 1)).append 0
        .ok ⟨.ok, some out.bytes, outbuff.bytes.length, ⟨buff, reads⟩⟩

/-- `tcp_stream_readuntil` -/
def readuntil (stream : TcpStream) (c : UInt8) : Except Fault Readuntil :=
  match stream.buff.bytes.findIdx? (· == c) with
  | some i =>
    .ok ⟨.ok, some (stream.buff.bytes.take i ++ [0]), i,
      { stream with buff := { stream.buff with bytes := stream.buff.bytes.drop (i + 1) } }⟩
  | none => readChunks c stream.buff stream.reads

def TcpStream.rest (stream : TcpStream) : Bytes :=
  stream.buff.bytes ++ (stream.reads.map Subtype.val).flatten

/-- Some chunk begins with the delimiter although a line starts there; `start` says
whether the bytes before the first chunk end a line. -/
def delimiterStartsChunk (c : UInt8) : (start : Bool) → List Chunk → Bool
  | _, [] => false
  | start, chunk :: reads =>
    start && chunk.1.head? == some c ||
      delimiterStartsChunk c (chunk.1.getLast? == some c) reads

def lineStart (c : UInt8) (before : Bytes) : Bool :=
  before.isEmpty || before.getLast? == some c

section Blocks

variable {c : UInt8} {b : Block} {cap : ℕ} {bs xs ys : Bytes}

theorem Block.append_of_lt (h : b.bytes.length < b.cap) (x : UInt8) :
    b.append x = .ok { b with bytes := b.bytes ++ [x] } := if_pos h

theorem scanChunk_of_not_mem (hc : c ∉ xs) (h : b.bytes.length + xs.length ≤ b.cap)
    (ys : Bytes) :
    scanChunk c b none (xs ++ ys) = scanChunk c { b with bytes := b.bytes ++ xs } none ys := by
  induction xs generalizing b with
  | nil => simp
  | cons x xs ih =>
    rw [List.mem_cons, not_or] at hc
    rw [List.length_cons] at h
    rw [List.cons_append, scanChunk, if_neg (Ne.symm hc.1), Block.append_of_lt (by omega), ok_bind,
      ih hc.2 (by simp only [List.length_append, List.length_singleton]; omega)]
    simp

theorem scanChunk_found (out : Block) (h : b.bytes.length + ys.length ≤ b.cap) :
    scanChunk c out (some b) ys = .ok (out, some { b with bytes := b.bytes ++ ys }) := by
  induction ys generalizing b with
  | nil => simp [scanChunk]
  | cons y ys ih =>
    rw [List.length_cons] at h
    rw [scanChunk, Block.append_of_lt (by omega), ok_bind,
      ih (by simp only [List.length_append, List.length_singleton]; omega)]
    simp

theorem scanChunk_none (hc : c ∉ xs) (h : b.bytes.length + xs.length ≤ b.cap) :
    scanChunk c b none xs = .ok ({ b with bytes := b.bytes ++ xs }, none) := by
  have hs := scanChunk_of_not_mem hc h []
  rw [List.append_nil] at hs
  rw [hs, scanChunk]

theorem scanChunk_some (hc : c ∉ xs) (h : b.bytes.length + xs.length ≤ b.cap)
    (hys : ys.length ≤ buffCap) :
    scanChunk c b none (xs ++ c :: ys) =
      .ok ({ b with bytes := b.bytes ++ xs }, some ⟨buffCap, ys⟩) := by
  rw [scanChunk_of_not_mem hc h, scanChunk, if_pos rfl, scanChunk_found _ (by simpa using hys)]
  simp

end Blocks

section Calls

variable {c : UInt8} {b : Block} {reads : List Chunk}

abbrev unread (reads : List Chunk) : Bytes := (reads.map Subtype.val).flatten

theorem delimiterStartsChunk_of_not_mem (start : Bool) (h : c ∉ unread reads) :
    delimiterStartsChunk c start reads = false := by
  induction reads generalizing start with
  | nil => rfl
  | cons chunk reads ih =>
    rw [unread, List.map_cons, List.flatten_cons, List.mem_append, not_or] at h
    have hhead : (chunk.1.head? == some c) = false := by
      simpa using fun hc => h.1 (List.mem_of_head? hc)
    rw [delimiterStartsChunk, hhead, Bool.and_false, Bool.false_or, ih _ h.2]

theorem realloc_append {n : ℕ} (h : b.bytes.length ≤ n) :
    b.realloc n = ⟨n, b.bytes⟩ := by
  rw [Block.realloc, List.take_of_length_le h]

theorem readChunks_skip {chunk : Chunk} (hc : c ∉ chunk.1) :
    readChunks c b (chunk :: reads) =
      readChunks c ⟨b.bytes.length + chunk.1.length, b.bytes ++ chunk.1⟩ reads := by
  rw [readChunks, realloc_append (by omega), scanChunk_none hc (by simp), ok_bind]

theorem readChunks_reade (hc : c ∉ unread reads) :
    ∃ len, readChunks c b reads = .ok ⟨.reade, none, len, ⟨.null, []⟩⟩ := by
  induction reads generalizing b with
  | nil => exact ⟨b.bytes.length, rfl⟩
  | cons chunk reads ih =>
    rw [unread, List.map_cons, List.flatten_cons, List.mem_append, not_or] at hc
    rw [readChunks_skip hc.1]
    exact ih hc.2

/-- The block of a stream between two calls. -/
def TcpStream.Held (stream : TcpStream) : Prop :=
  stream.buff.cap = buffCap ∧ stream.buff.bytes.length < buffCap

/-- Everything about a call that has read `line` without its delimiter. -/
structure LineRead (c : UInt8) (before : TcpStream) (line : Bytes) (out : Option Bytes)
    (after : TcpStream) : Prop where
  not_mem : c ∉ line
  rest : before.rest = line ++ c :: after.rest
  buffer : out = some (line ++ [0]) ∨ line = [] ∧ out = none
  held : after.Held
  starts : delimiterStartsChunk c (lineStart c before.buff.bytes) before.reads =
    (out.isNone || delimiterStartsChunk c (lineStart c after.buff.bytes) after.reads)

theorem getLast?_append_cons (xs ys : Bytes) :
    ((xs ++ c :: ys).getLast? == some c) = lineStart c ys := by
  cases ys with
  | nil => simp [lineStart]
  | cons y ys => simp [lineStart, List.getLast?_append]

theorem lineStart_append_cons (xs ys : Bytes) : lineStart c (xs ++ c :: ys) = lineStart c ys := by
  rw [lineStart, getLast?_append_cons]
  simp

theorem lineStart_of_not_mem {xs : Bytes} (h : c ∉ xs) : lineStart c xs = xs.isEmpty := by
  rw [lineStart, Bool.or_eq_left_iff_imp]
  intro hl
  exact absurd (List.mem_of_getLast? (by simpa using hl)) h

theorem LineRead.of_skipped {chunk : Chunk} {cap : ℕ} {line : Bytes} {out : Option Bytes}
    {after : TcpStream} (hb : c ∉ b.bytes) (hc : c ∉ chunk.1)
    (h : LineRead c ⟨⟨cap, b.bytes ++ chunk.1⟩, reads⟩ line out after) :
    LineRead c ⟨b, chunk :: reads⟩ line out after := by
  constructor
  case not_mem => exact h.not_mem
  case rest => simpa [TcpStream.rest] using h.rest
  case buffer => exact h.buffer
  case held => exact h.held
  case starts =>
    have hlast : (chunk.1.getLast? == some c) = false := by
      simpa using fun hl => hc (List.mem_of_getLast? hl)
    have hhead : (chunk.1.head? == some c) = false := by
      simpa using fun hh => hc (List.mem_of_head? hh)
    have hstart : lineStart c (b.bytes ++ chunk.1) = false := by
      rw [lineStart_of_not_mem (by simp [hb, hc])]
      simp [chunk.2.1]
    rw [← h.starts, delimiterStartsChunk, hhead, hlast, hstart]
    simp

theorem readChunks_found {chunk : Chunk} {xs ys : Bytes} (hb : c ∉ b.bytes) (hxs : c ∉ xs)
    (hchunk : chunk.1 = xs ++ c :: ys) :
    ∃ line out stream, readChunks c b (chunk :: reads) = .ok ⟨.ok, out, line.length, stream⟩ ∧
      LineRead c ⟨b, chunk :: reads⟩ line out stream := by
  have hcap := chunk.2.2
  have hys : ys.length < buffCap := by
    simp only [hchunk, List.length_append, List.length_cons] at hcap
    omega
  refine ⟨b.bytes ++ xs, if b.bytes ++ xs = [] then none else some (b.bytes ++ xs ++ [0]),
    ⟨⟨buffCap, ys⟩, reads⟩, ?_, ?_⟩
  · rw [readChunks, hchunk, realloc_append (by omega),
      scanChunk_some hxs (by simp only [List.length_append]; omega) (by omega), ok_bind]
    by_cases hline : b.bytes ++ xs = []
    · simp [hline]
    · rw [if_neg hline]
      simp only
      rw [if_neg (by rwa [List.length_eq_zero_iff]), realloc_append (by simp),
        Block.append_of_lt (by simp), ok_bind]
  · constructor
    case not_mem => simp [hb, hxs]
    case rest => simp [TcpStream.rest, hchunk]
    case buffer => by_cases hline : b.bytes ++ xs = [] <;> simp [hline]
    case held => exact ⟨rfl, hys⟩
    case starts =>
      simp only [delimiterStartsChunk, hchunk, getLast?_append_cons, lineStart_of_not_mem hb]
      congr 1
      cases xs with
      | nil => cases b.bytes <;> simp
      | cons x xs =>
        have hx : x ≠ c := fun h => hxs (h ▸ List.mem_cons_self)
        simp [hx]

/-- With a delimiter to come a line is returned, an empty one as `NULL`. -/
theorem readChunks_ok (hb : c ∉ b.bytes) (hc : c ∈ unread reads) :
    ∃ line out stream, readChunks c b reads = .ok ⟨.ok, out, line.length, stream⟩ ∧
      LineRead c ⟨b, reads⟩ line out stream := by
  induction reads generalizing b with
  | nil => simp at hc
  | cons chunk reads ih =>
    by_cases hmem : c ∈ chunk.1
    · obtain ⟨xs, ys, hchunk, hxs⟩ := List.eq_append_cons_of_mem hmem
      exact readChunks_found hb hxs hchunk
    · have hc : c ∈ unread reads := by
        simpa [unread, hmem] using hc
      obtain ⟨line, out, stream, hread, hline⟩ :=
        ih (b := ⟨b.bytes.length + chunk.1.length, b.bytes ++ chunk.1⟩) (by simp [hb, hmem]) hc
      rw [readChunks_skip hmem]
      exact ⟨line, out, stream, hread, hline.of_skipped hb hmem⟩

theorem findIdx?_of_not_mem {xs : Bytes} (h : c ∉ xs) : xs.findIdx? (· == c) = none := by
  rw [List.findIdx?_eq_none_iff]
  intro x hx
  rw [beq_eq_false_iff_ne]
  rintro rfl
  exact h hx

theorem findIdx?_append_cons {xs : Bytes} (hxs : c ∉ xs) (ys : Bytes) :
    (xs ++ c :: ys).findIdx? (· == c) = some xs.length := by
  rw [List.findIdx?_append, findIdx?_of_not_mem hxs, List.findIdx?_cons]
  simp

theorem readuntil_reade {stream : TcpStream} (hc : c ∉ stream.rest) :
    ∃ len, readuntil stream c = .ok ⟨.reade, none, len, ⟨.null, []⟩⟩ := by
  rw [TcpStream.rest, List.mem_append, not_or] at hc
  rw [readuntil, findIdx?_of_not_mem hc.1]
  exact readChunks_reade hc.2

/-- `tcp_stream_readuntil` returns the first line and leaves the bytes behind it. -/
theorem readuntil_ok {stream : TcpStream} (hs : stream.Held) (hc : c ∈ stream.rest) :
    ∃ line out after, readuntil stream c = .ok ⟨.ok, out, line.length, after⟩ ∧
      LineRead c stream line out after := by
  obtain ⟨⟨cap, bytes⟩, reads⟩ := stream
  by_cases hmem : c ∈ bytes
  · obtain ⟨xs, ys, rfl, hxs⟩ := List.eq_append_cons_of_mem hmem
    refine ⟨xs, some (xs ++ [0]), ⟨⟨cap, ys⟩, reads⟩, ?_, ?_⟩
    · rw [readuntil]
      simp only [findIdx?_append_cons hxs]
      simp
    · constructor
      case not_mem => exact hxs
      case rest => simp [TcpStream.rest]
      case buffer => exact .inl rfl
      case held =>
        have hlen := hs.2
        simp only [List.length_append, List.length_cons] at hlen
        exact ⟨hs.1, by simp only; omega⟩
      case starts => simp [lineStart_append_cons]
  · have hreads : c ∈ unread reads := by
      simpa [TcpStream.rest, hmem] using hc
    rw [readuntil]
    simp only [findIdx?_of_not_mem hmem]
    exact readChunks_ok hmem hreads

end Calls

end Chatd.Net.Tcp
