import Chatd.Library.Resources
import Chatd.Net.Tcp.Slots

/-! # Memory of a stream

The functions of a stream over a heap whose allocations may fail. Each block is owned by the
stream, by who was handed a line, or by nobody where the function returns without it.
-/
namespace Chatd.Net.Tcp
open Library

/-- `enum tcp_stream_result` -/
inductive TcpStreamCode where
  | ok
  | invalidHostname
  | cannotCreateSocket
  | cannotBindSocket
  | connectFailed
  | unexpected
  | nomem
  | reade
  | writee
  | terminatedLine
  deriving DecidableEq, Repr

/-- `struct tcp_stream`, with what `read` delivers while the descriptor is open; `none` is the
descriptor -1. -/
structure HeapStream where
  sockfd : Option ℕ
  buff : Pointer
  buffLen : ℕ
  reads : List Chunk

/-- The chunks that the coming calls of `read` deliver; on the descriptor -1 they fail. -/
def HeapStream.arriving (s : HeapStream) : List Chunk := if s.sockfd.isSome then s.reads else []

/-- The result of a call with its two output arguments, which count on success only. -/
structure HeapReaduntil where
  result : TcpStreamCode
  out : Pointer
  len : ℕ
  stream : HeapStream
  heap : Heap UInt8

/-- The heap, the stream and the variables `outbuff` and `*len` of a call. -/
structure Reading where
  heap : Heap UInt8
  stream : HeapStream
  outbuff : Pointer
  len : ℕ

namespace Reading

/-- `stream->buff[stream->buff_len++] = b` -/
def hold (r : Reading) (b : UInt8) : Except ResourceFault Reading := do
  let heap ← r.heap.modify r.stream.buff fun cells => cells.store r.stream.buffLen (some b)
  return { r with heap, stream := { r.stream with buffLen := r.stream.buffLen + 1 } }

/-- `outbuff[(*len)++] = b` -/
def emit (r : Reading) (b : UInt8) : Except ResourceFault Reading := do
  let heap ← r.heap.modify r.outbuff fun cells => cells.store r.len (some b)
  return { r with heap, len := r.len + 1 }

def returns (r : Reading) (result : TcpStreamCode) : HeapReaduntil :=
  ⟨result, none, r.len, r.stream, r.heap⟩

end Reading

section Functions

variable (numbering : Numbering)

/-- The loop over a chunk: whether the delimiter was found, or nothing where `malloc` failed. -/
def scanHeap (c : UInt8) : (found : Bool) → Reading → Bytes →
    Except ResourceFault (Reading × Option Bool)
  | found, r, [] => .ok (r, some found)
  | true, r, b :: bs => do
    let r ← r.hold b
    scanHeap c true r bs
  | false, r, b :: bs =>
    if b = c then
      let (buff, heap) := r.heap.malloc numbering buffCap
      let r := { r with heap, stream := { r.stream with buff } }
      if buff = none then .ok (r, none) else scanHeap c true r bs
    else do
      let r ← r.emit b
      scanHeap c false r bs

/-- A round of the loop over the chunks, with what `read` has delivered: the call returns or
goes on. -/
def readRound (c : UInt8) (r : Reading) (chunk : Chunk) :
    Except ResourceFault (HeapReaduntil ⊕ Reading) := do
  let (outbuff, heap) ← r.heap.realloc numbering r.outbuff (r.len + chunk.1.length)
  let r := { r with heap }
  if outbuff = none then return .inl (r.returns .nomem)
  let (r, found) ← scanHeap numbering c false { r with outbuff } chunk.1
  match found with
  | none => return .inl (r.returns .nomem)
  | some false => return .inr r
  | some true =>
    if r.len = 0 then do
      let heap ← r.heap.free r.outbuff
      return .inl ({ r with heap }.returns .ok)
    else do
      let (out, heap) ← r.heap.realloc numbering r.outbuff (r.len + 1)
      let heap ← heap.modify out fun cells => cells.store r.len (some 0)
      return .inl ⟨.ok, out, r.len, r.stream, heap⟩

def readEnd (r : Reading) : Except ResourceFault HeapReaduntil := do
  let heap ← r.heap.free r.outbuff
  return { r with heap }.returns .reade

def readHeap (c : UInt8) : Reading → List Chunk → Except ResourceFault HeapReaduntil
  | r, [] => readEnd { r with stream := { r.stream with reads := [] } }
  | r, chunk :: reads => do
    match ← readRound numbering c { r with stream := { r.stream with reads } } chunk with
    | .inl done => return done
    | .inr r => readHeap c r reads

def findHeld (heap : Heap UInt8) (s : HeapStream) (c : UInt8) :
    Except ResourceFault (Option ℕ) :=
  if s.buffLen = 0 then .ok none
  else do
    let cells ← heap.get s.buff
    liftFault (Collections.Vec.findIndex cells c s.buffLen 0)

/-- The call up to the loop over the chunks: it returns a line that is held, or takes the held
bytes for the output. -/
def readBegin (heap : Heap UInt8) (s : HeapStream) (c : UInt8) :
    Except ResourceFault (HeapReaduntil ⊕ Reading) := do
  match ← findHeld heap s c with
  | some i => do
    let (out, heap) := heap.malloc numbering (i + 1)
    if out = none then return .inl ⟨.nomem, none, 0, s, heap⟩
    let held ← heap.get s.buff
    let heap ← heap.modify out fun cells => do
      let cells ← held.copyTo 0 0 i 0 cells
      cells.store i (some 0)
    let heap ← heap.modify s.buff fun cells => cells.copy 0 (i + 1) (s.buffLen - (i + 1)) 0
    return .inl ⟨.ok, out, i, { s with buffLen := s.buffLen - (i + 1) }, heap⟩
  | none => return .inr ⟨heap, { s with buff := none, buffLen := 0 }, s.buff, s.buffLen⟩

/-- `tcp_stream_readuntil` -/
def readuntilHeap (heap : Heap UInt8) (s : HeapStream) (c : UInt8) :
    Except ResourceFault HeapReaduntil := do
  match ← readBegin numbering heap s c with
  | .inl done => return done
  | .inr r => readHeap numbering c r s.arriving

end Functions

/-- A pointer and the count of its filled slots, with the block that it owns: bytes that fill
it from its front, or no block behind `NULL`. -/
inductive Holding : Pointer → ℕ → Block → List (ℕ × Library.Block UInt8) → Prop
  | null : Holding none 0 .null []
  | block {q : ℕ} {b : Filled} {blk : Block} (h : b.Fills blk) :
    Holding (some q) b.len blk [(q, b.cells)]

inductive Backed : Pointer → List (ℕ × Library.Block UInt8) → Prop
  | null : Backed none []
  | block (q : ℕ) (b : Library.Block UInt8) : Backed (some q) [(q, b)]

/-- What a call hands over: a line in a block of its own, or `NULL`. -/
inductive Handed : Pointer → Option Bytes → List (ℕ × Library.Block UInt8) → Prop
  | null : Handed none none []
  | line {q : ℕ} (line : Bytes) : Handed (some q) (some line) [(q, line.map some)]

theorem Handed.fst_eq {p : Pointer} {out : Option Bytes} {e : List (ℕ × Library.Block UInt8)}
    (h : Handed p out e) : e.map Prod.fst = p.toList := by
  cases h with
  | null => rfl
  | line => rfl

section Rules

variable (numbering : Numbering) {h₀ h : Heap UInt8} {p : Pointer} {len n : ℕ}
  {blk blk' : Block} {x : UInt8} {e own : List (ℕ × Library.Block UInt8)}

theorem Holding.len_eq (hp : Holding p len blk e) : len = blk.bytes.length := by
  cases hp with
  | null => rfl
  | block hb => exact hb.len_eq

theorem Holding.isSome (hp : Holding p len blk e) (hcap : 0 < blk.cap) : p.isSome = true := by
  cases hp with
  | null => exact absurd hcap (Nat.lt_irrefl 0)
  | block => rfl

theorem Holding.full {q : ℕ} (hp : Holding (some q) len blk e)
    (hfull : blk.bytes.length = blk.cap) : e = [(q, blk.bytes.map some)] := by
  cases hp with
  | block hb => rw [hb.cells_eq hfull]

theorem Backed.length_eq (hp : Backed p e) : e.length = if p.isSome then 1 else 0 := by
  cases hp with
  | null => rfl
  | block => rfl

theorem Holding.backed (hp : Holding p len blk e) : Backed p e := by
  cases hp with
  | null => exact .null
  | block => exact .block _ _

theorem Holding.length_le_one (hp : Holding p len blk e) : e.length ≤ 1 := by
  rw [hp.backed.length_eq]
  split <;> decide

theorem Holding.length_eq_one (hp : Holding p len blk e) (hsome : p.isSome = true) :
    e.length = 1 := by
  rw [hp.backed.length_eq, if_pos hsome]

theorem Backed.free (hp : Backed p e) (hl : h₀.Later h (e ++ own)) :
    ∃ h', h.free p = .ok h' ∧ h₀.Later h' own := by
  cases hp with
  | null => exact ⟨h, rfl, hl⟩
  | block => exact hl.free

theorem Holding.store (hp : Holding p len blk e) (hl : h₀.Later h (e ++ own))
    (happ : blk.append x = .ok blk') :
    ∃ h' e', h.modify p (fun cells => cells.store len (some x)) = .ok h' ∧
      Holding p (len + 1) blk' e' ∧ h₀.Later h' (e' ++ own) := by
  cases hp with
  | null => cases happ
  | block hb =>
    rename_i q b
    obtain ⟨b', hpush, hb'⟩ := hb.push happ
    obtain ⟨cells, hstore, hok⟩ := bind_eq_ok hpush
    cases hok
    obtain ⟨h', hmod, hl'⟩ := hl.modify (f := fun cells => cells.store b.len (some x)) hstore
    exact ⟨h', [(q, cells)], hmod, .block hb', hl'⟩

/-- A request for room enough keeps the bytes, and the old block where it is refused. -/
theorem Holding.realloc (hp : Holding p len blk e) (hl : h₀.Later h (e ++ own))
    (hn : blk.bytes.length ≤ n) :
    (∃ q h' e', h.realloc numbering p n = .ok (some q, h') ∧
        Holding (some q) len ⟨n, blk.bytes⟩ e' ∧ h₀.Later h' (e' ++ own)) ∨
      ∃ h', h.realloc numbering p n = .ok (none, h') ∧ h₀.Later h' (e ++ own) ∧
        false ∈ h₀.grants := by
  cases hp with
  | null =>
    rcases hl.malloc numbering n with ⟨q, h', hmalloc, hl'⟩ |
      ⟨h', hmalloc, hl', hrefused⟩
    · exact .inl ⟨q, h', [(q, .alloc n)], congrArg Except.ok hmalloc,
        .block (b := ⟨.alloc n, 0⟩) (fills_alloc n), hl'⟩
    · exact .inr ⟨h', congrArg Except.ok hmalloc, hl', hrefused⟩
  | block hb =>
    rename_i q b
    rcases hl.realloc numbering n with ⟨q', h', hrealloc, hl'⟩ |
      ⟨h', hrealloc, hl', hrefused⟩
    · exact .inl ⟨q', h', [(q', b.cells.realloc n)], hrealloc, .block (hb.realloc hn), hl'⟩
    · exact .inr ⟨h', hrealloc, hl', hrefused⟩

end Rules

section Loops

variable (numbering : Numbering) {h₀ : Heap UInt8} {c : UInt8} {r : Reading} {blk : Block}
  {xs ys : Bytes} {e own : List (ℕ × Library.Block UInt8)}

theorem scanHeap_held (hp : Holding r.stream.buff r.stream.buffLen blk e)
    (hl : h₀.Later r.heap (e ++ own)) (hcap : blk.bytes.length + ys.length ≤ blk.cap) :
    ∃ heap e', scanHeap numbering c true r ys = .ok ({ r with
        heap, stream := { r.stream with buffLen := r.stream.buffLen + ys.length } }, some true) ∧
      Holding r.stream.buff (r.stream.buffLen + ys.length) ⟨blk.cap, blk.bytes ++ ys⟩ e' ∧
      h₀.Later heap (e' ++ own) := by
  induction ys generalizing r blk e with
  | nil =>
    rw [List.append_nil]
    exact ⟨r.heap, e, rfl, hp, hl⟩
  | cons y ys ih =>
    rw [List.length_cons] at hcap
    obtain ⟨heap, e', hstore, hp', hl'⟩ := hp.store hl (Block.append_of_lt (by omega) y)
    obtain ⟨heap', e'', hscan, hp'', hl''⟩ := ih (r := { r with
        heap, stream := { r.stream with buffLen := r.stream.buffLen + 1 } }) hp' hl' (by
      simp only [List.length_append, List.length_singleton]
      omega)
    refine ⟨heap', e'', ?_, ?_, hl''⟩
    · rw [scanHeap, Reading.hold, hstore, ok_bind, pure_eq_ok, ok_bind, hscan, List.length_cons,
        Nat.add_assoc, Nat.add_comm 1]
    · rw [List.length_cons, Nat.add_comm ys.length, ← Nat.add_assoc]
      simpa only [List.append_assoc, List.singleton_append] using hp''

theorem scanHeap_skip (hp : Holding r.outbuff r.len blk e) (hl : h₀.Later r.heap (e ++ own))
    (hc : c ∉ xs) (hcap : blk.bytes.length + xs.length ≤ blk.cap) :
    ∃ heap e', (∀ ys, scanHeap numbering c false r (xs ++ ys) =
        scanHeap numbering c false { r with heap, len := r.len + xs.length } ys) ∧
      Holding r.outbuff (r.len + xs.length) ⟨blk.cap, blk.bytes ++ xs⟩ e' ∧
      h₀.Later heap (e' ++ own) := by
  induction xs generalizing r blk e with
  | nil =>
    rw [List.append_nil]
    exact ⟨r.heap, e, fun _ => rfl, hp, hl⟩
  | cons x xs ih =>
    rw [List.mem_cons, not_or] at hc
    rw [List.length_cons] at hcap
    obtain ⟨heap, e', hstore, hp', hl'⟩ := hp.store hl (Block.append_of_lt (by omega) x)
    obtain ⟨heap', e'', hscan, hp'', hl''⟩ := ih (r := { r with heap, len := r.len + 1 })
      hp' hl' hc.2 (by
        simp only [List.length_append, List.length_singleton]
        omega)
    refine ⟨heap', e'', fun ys => ?_, ?_, hl''⟩
    · rw [List.cons_append, scanHeap, if_neg (Ne.symm hc.1), Reading.emit, hstore, ok_bind,
        pure_eq_ok, ok_bind, hscan, List.length_cons, Nat.add_assoc, Nat.add_comm 1]
    · rw [List.length_cons, Nat.add_comm xs.length, ← Nat.add_assoc]
      simpa only [List.append_assoc, List.singleton_append] using hp''

/-- What a call has made of a line that it hands over as `out`: the bytes behind it are held. -/
structure Delivers (h₀ : Heap UInt8) (own : List (ℕ × Library.Block UInt8)) (line : Bytes)
    (out : Option Bytes) (held : Block) (r : HeapReaduntil) : Prop where
  result : r.result = .ok
  len : r.len = line.length
  blocks : ∃ eo es, Handed r.out out eo ∧ Holding r.stream.buff r.stream.buffLen held es ∧
    h₀.Later r.heap (eo ++ (es ++ own))

/-- What is handed over for a line that was read. -/
def readLine (line : Bytes) : Option Bytes := if line = [] then none else some (line ++ [0])

/-- A call that gives up for want of memory leaves a stream without bytes, and at most one
block that nobody owns, which is there if the output was. -/
structure GivesUp (h₀ : Heap UInt8) (own : List (ℕ × Library.Block UInt8)) (outbuff : Pointer)
    (r : HeapReaduntil) : Prop where
  result : r.result = .nomem
  buff : r.stream.buff = none
  buffLen : r.stream.buffLen = 0
  refused : false ∈ h₀.grants
  blocks : ∃ lost, lost.length ≤ 1 ∧ (outbuff.isSome = true → lost.length = 1) ∧
    h₀.Later r.heap (lost ++ own)

theorem GivesUp.mono {outbuff : Pointer} {done : HeapReaduntil}
    (h : GivesUp h₀ own outbuff done) : GivesUp h₀ own none done := by
  obtain ⟨lost, hlost, -, hl⟩ := h.blocks
  exact ⟨h.result, h.buff, h.buffLen, h.refused, lost, hlost,
    fun hnone => absurd hnone Bool.false_ne_true, hl⟩

theorem readRound_skip {chunk : Chunk} (hp : Holding r.outbuff r.len blk e)
    (hl : h₀.Later r.heap (e ++ own)) (hbuff : r.stream.buff = none)
    (hlen : r.stream.buffLen = 0) (hc : c ∉ chunk.1) :
    (∃ r' cap e', readRound numbering c r chunk = .ok (.inr r') ∧ r'.stream = r.stream ∧
        Holding r'.outbuff r'.len ⟨cap, blk.bytes ++ chunk.1⟩ e' ∧
        h₀.Later r'.heap (e' ++ own) ∧ r'.outbuff.isSome = true) ∨
      ∃ done, readRound numbering c r chunk = .ok (.inl done) ∧ GivesUp h₀ own r.outbuff done ∧
        done.stream.sockfd = r.stream.sockfd := by
  have hsize := hp.len_eq
  rw [readRound]
  rcases hp.realloc numbering (n := r.len + chunk.1.length) hl (by omega) with
    ⟨q, heap, e₁, hrealloc, hp₁, hl₁⟩ | ⟨heap, hrealloc, hl₁, hrefused⟩
  · obtain ⟨heap', e', hscan, hp', hl'⟩ := scanHeap_skip numbering
      (r := { r with heap, outbuff := some q }) hp₁ hl₁ hc (by
        dsimp only
        omega)
    have hrun := hscan []
    rw [List.append_nil, scanHeap] at hrun
    refine .inl ⟨⟨heap', r.stream, some q, r.len + chunk.1.length⟩, _, e', ?_, rfl, hp', hl',
      rfl⟩
    rw [hrealloc, ok_bind]
    dsimp only
    rw [if_neg (by simp), hrun]
    rfl
  · refine .inr ⟨{ r with heap }.returns .nomem, ?_, ⟨rfl, hbuff, hlen, hrefused, e,
      hp.length_le_one, hp.length_eq_one, hl₁⟩, rfl⟩
    rw [hrealloc]
    rfl

/-- A round finds the end of a line of `n` bytes, at least one, and the request for room for the
byte behind the line is refused. -/
def Unterminated (numbering : Numbering) (c : UInt8) (n : ℕ) (r : Reading) (chunk : Chunk) :
    Prop :=
  ∃ q heap r' heap',
    r.heap.realloc numbering r.outbuff (r.len + chunk.1.length) = .ok (some q, heap) ∧
    scanHeap numbering c false { r with heap, outbuff := some q } chunk.1 =
      .ok (r', some true) ∧
    r'.len = n ∧ n ≠ 0 ∧ r'.heap.realloc numbering r'.outbuff (n + 1) = .ok (none, heap')

/-- Once the scan has found the end of the line, the line is handed over. -/
theorem readRound_of_found {r' : Reading} {chunk : Chunk} {q : ℕ} {heap : Heap UInt8}
    (hrealloc : r.heap.realloc numbering r.outbuff (r.len + chunk.1.length) = .ok (some q, heap))
    (hscan : scanHeap numbering c false { r with heap, outbuff := some q } chunk.1 =
      .ok (r', some true)) :
    readRound numbering c r chunk =
      if r'.len = 0 then do
        let heap ← r'.heap.free r'.outbuff
        return .inl ({ r' with heap }.returns .ok)
      else do
        let (out, heap) ← r'.heap.realloc numbering r'.outbuff (r'.len + 1)
        let heap ← heap.modify out fun cells => cells.store r'.len (some 0)
        return .inl ⟨.ok, out, r'.len, r'.stream, heap⟩ := by
  rw [readRound, hrealloc, ok_bind]
  dsimp only
  rw [if_neg (by simp), hscan, ok_bind]

theorem Unterminated.readRound {n : ℕ} {chunk : Chunk}
    (h : Unterminated numbering c n r chunk) :
    readRound numbering c r chunk = .error (.access .nullDeref) := by
  obtain ⟨q, heap, r', heap', hrealloc, hscan, rfl, hne, hrefused⟩ := h
  rw [readRound_of_found numbering hrealloc hscan, if_neg hne, hrefused]
  rfl

theorem scanHeap_found (hp : Holding r.outbuff r.len blk e) (hl : h₀.Later r.heap (e ++ own))
    (hlen : r.stream.buffLen = 0) (hc : c ∉ xs) (hcap : blk.bytes.length + xs.length ≤ blk.cap)
    (hroom : ys.length ≤ buffCap) :
    (∃ heap q eo es, scanHeap numbering c false r (xs ++ c :: ys) = .ok (⟨heap,
          { r.stream with buff := some q, buffLen := ys.length }, r.outbuff,
          r.len + xs.length⟩, some true) ∧
        Holding r.outbuff (r.len + xs.length) ⟨blk.cap, blk.bytes ++ xs⟩ eo ∧
        Holding (some q) ys.length ⟨buffCap, ys⟩ es ∧ h₀.Later heap (eo ++ (es ++ own))) ∨
      ∃ heap eo, scanHeap numbering c false r (xs ++ c :: ys) = .ok (⟨heap,
          { r.stream with buff := none }, r.outbuff, r.len + xs.length⟩, none) ∧
        Holding r.outbuff (r.len + xs.length) ⟨blk.cap, blk.bytes ++ xs⟩ eo ∧
        h₀.Later heap (eo ++ own) ∧ false ∈ h₀.grants := by
  obtain ⟨heap, eo, hskip, hout, hl'⟩ := scanHeap_skip numbering hp hl hc hcap
  have hscan := hskip (c :: ys)
  rw [scanHeap, if_pos rfl] at hscan
  rcases hl'.malloc numbering buffCap with ⟨q, heap', hmalloc, hl''⟩ |
    ⟨heap', hmalloc, hl'', hrefused⟩
  · have hempty : Holding (some q) r.stream.buffLen ⟨buffCap, []⟩ [(q, .alloc buffCap)] := by
      rw [hlen]
      exact .block (b := ⟨.alloc buffCap, 0⟩) (fills_alloc buffCap)
    have hfits : ([] : Bytes).length + ys.length ≤ buffCap := by
      rwa [List.length_nil, Nat.zero_add]
    obtain ⟨heap₁, es, hheld, hs, hl₁⟩ := scanHeap_held numbering (c := c)
      (r := ⟨heap', { r.stream with buff := some q }, r.outbuff, r.len + xs.length⟩) hempty hl''
      hfits
    dsimp only at hheld hs
    rw [hlen, Nat.zero_add] at hheld hs
    refine .inl ⟨heap₁, q, eo, es, ?_, hout, hs, hl₁.perm (List.perm_append_comm_assoc _ _ _)⟩
    rw [hscan, hmalloc]
    dsimp only
    rw [if_neg (by simp), hlen, hheld]
  · refine .inr ⟨heap', eo, ?_, hout, hl'', hrefused⟩
    rw [hscan, hmalloc]
    rfl

theorem terminate_line {p : Pointer} {len : ℕ} {heap : Heap UInt8}
    (hp : Holding p len blk e) (hl : h₀.Later heap (e ++ own)) :
    (∃ q heap' heap'', heap.realloc numbering p (len + 1) = .ok (some q, heap') ∧
        heap'.modify (some q) (fun cells => cells.store len (some 0)) = .ok heap'' ∧
        h₀.Later heap'' ((q, (blk.bytes ++ [0]).map some) :: own)) ∨
      ∃ heap', heap.realloc numbering p (len + 1) = .ok (none, heap') ∧ false ∈ h₀.grants := by
  have hlen := hp.len_eq
  rcases hp.realloc numbering (n := len + 1) hl (by omega) with
    ⟨q, heap', e', hrealloc, hp', hl'⟩ | ⟨heap', hrealloc, -, hrefused⟩
  · obtain ⟨heap'', e'', hstore, hp'', hl''⟩ := hp'.store hl' (Block.append_of_lt (by
      dsimp only
      omega) 0)
    have hfull := hp''.full (by
      dsimp only
      rw [List.length_append, List.length_singleton]
      omega)
    rw [hfull] at hl''
    exact .inl ⟨q, heap', heap'', hrealloc, hstore, hl''⟩
  · exact .inr ⟨heap', hrealloc, hrefused⟩

/-- A chunk with the delimiter ends the line, and its rest is held. -/
theorem readRound_found {chunk : Chunk} (hp : Holding r.outbuff r.len blk e)
    (hl : h₀.Later r.heap (e ++ own)) (hbuff : r.stream.buff = none)
    (hlen : r.stream.buffLen = 0) (hc : c ∉ xs) (hchunk : chunk.1 = xs ++ c :: ys) :
    (∃ done, readRound numbering c r chunk = .ok (.inl done) ∧
        done.stream.sockfd = r.stream.sockfd ∧ done.stream.reads = r.stream.reads ∧
        (Delivers h₀ own (blk.bytes ++ xs) (readLine (blk.bytes ++ xs)) ⟨buffCap, ys⟩ done ∨
          GivesUp h₀ own r.outbuff done)) ∨
      Unterminated numbering c (blk.bytes ++ xs).length r chunk ∧ false ∈ h₀.grants := by
  have hsize := hp.len_eq
  have hcap := chunk.2.2
  have hbytes : (blk.bytes ++ xs).length = r.len + xs.length := by
    rw [List.length_append, hsize]
  rw [hchunk, List.length_append, List.length_cons] at hcap
  rcases hp.realloc numbering (n := r.len + chunk.1.length) hl (by omega) with
    ⟨q, heap, e₁, hrealloc, hp₁, hl₁⟩ | ⟨heap, hrealloc, hl₁, hrefused⟩
  case inr =>
    refine .inl ⟨{ r with heap }.returns .nomem, ?_, rfl, rfl, .inr ⟨rfl, hbuff, hlen, hrefused, e,
      hp.length_le_one, hp.length_eq_one, hl₁⟩⟩
    rw [readRound, hrealloc]
    rfl
  have hroom : ys.length ≤ buffCap := by omega
  have hfound := scanHeap_found numbering (r := { r with heap, outbuff := some q }) hp₁ hl₁ hlen
    hc (by
      dsimp only
      rw [hchunk, List.length_append, List.length_cons]
      omega) hroom
  rw [← hchunk] at hfound
  rcases hfound with ⟨heap₂, q₂, eo, es, hscan, hout, hheld, hl₂⟩ |
    ⟨heap₂, eo, hscan, hout, hl₂, hrefused⟩
  case inr =>
    refine .inl ⟨⟨.nomem, none, r.len + xs.length, { r.stream with buff := none }, heap₂⟩, ?_,
      rfl, rfl, .inr ⟨rfl, rfl, hlen, hrefused, eo, hout.length_le_one,
        fun _ => hout.length_eq_one rfl, hl₂⟩⟩
    rw [readRound, hrealloc, ok_bind]
    dsimp only
    rw [if_neg (by simp), hscan]
    rfl
  set stream : HeapStream := { r.stream with buff := some q₂, buffLen := ys.length } with hstream
  by_cases hempty : r.len + xs.length = 0
  · have hline : blk.bytes ++ xs = [] := List.length_eq_zero_iff.mp (hbytes.trans hempty)
    obtain ⟨heap₃, hfree, hl₃⟩ := hout.backed.free hl₂
    refine .inl ⟨⟨.ok, none, r.len + xs.length, stream, heap₃⟩, ?_, rfl, rfl,
      .inl ⟨rfl, hbytes.symm, [], es, ?_, hheld, hl₃⟩⟩
    · rw [readRound_of_found numbering hrealloc hscan, if_pos hempty, hfree]
      rfl
    · rw [readLine, if_pos hline]
      exact .null
  · rcases terminate_line numbering hout hl₂ with
      ⟨q₃, heap₃, heap₄, hlast, hstore, hl₄⟩ | ⟨heap₃, hlast, hrefused⟩
    · have hline : blk.bytes ++ xs ≠ [] := by
        rw [← List.length_pos_iff]
        omega
      refine .inl ⟨⟨.ok, some q₃, r.len + xs.length, stream, heap₄⟩, ?_, rfl, rfl,
        .inl ⟨rfl, hbytes.symm, [_], es, ?_, hheld, hl₄⟩⟩
      · rw [readRound_of_found numbering hrealloc hscan, if_neg hempty, hlast, ok_bind]
        dsimp only
        rw [hstore]
        rfl
      · rw [readLine, if_neg hline]
        exact .line _
    · refine .inr ⟨⟨q, heap, _, heap₃, hrealloc, hscan, hbytes.symm, ?_, ?_⟩, hrefused⟩
      · rw [hbytes]
        exact hempty
      · rw [hbytes]
        exact hlast

theorem readEnd_spec (hp : Holding r.outbuff r.len blk e) (hl : h₀.Later r.heap (e ++ own)) :
    ∃ heap, readEnd r = .ok ({ r with heap }.returns .reade) ∧ h₀.Later heap own := by
  obtain ⟨heap, hfree, hl'⟩ := hp.backed.free hl
  rw [readEnd, hfree]
  exact ⟨heap, rfl, hl'⟩

end Loops

section Begin

variable (numbering : Numbering) {h₀ h : Heap UInt8} {s : HeapStream} {c : UInt8} {blk : Block}
  {e own : List (ℕ × Library.Block UInt8)}

theorem findHeld_spec (hp : Holding s.buff s.buffLen blk e) (hl : h₀.Later h (e ++ own)) :
    findHeld h s c = .ok (if c ∈ blk.bytes then some (blk.bytes.idxOf c) else none) := by
  obtain ⟨sockfd, buff, buffLen, reads⟩ := s
  dsimp only at hp
  cases hp with
  | null => rfl
  | block hb =>
    rename_i q b
    have hslots : ∀ j < blk.bytes.length, b.cells[0 + j]? = some blk.bytes[j]? := by
      intro j hj
      rw [Nat.zero_add]
      exact hb.holds j hj
    have hfind := Collections.Vec.findIndex_spec c hslots
    rw [← hb.len_eq] at hfind
    rw [findHeld]
    dsimp only
    by_cases hempty : b.len = 0
    · have hnil : blk.bytes = [] := List.length_eq_zero_iff.mp (hb.len_eq ▸ hempty)
      rw [if_pos hempty, hnil]
      rfl
    · rw [if_neg hempty, hl.get, ok_bind, hfind, liftFault]
      simp only [Nat.zero_add]

theorem readBegin_take (hp : Holding s.buff s.buffLen blk e) (hl : h₀.Later h (e ++ own))
    (hc : c ∉ blk.bytes) : readBegin numbering h s c =
      .ok (.inr ⟨h, { s with buff := none, buffLen := 0 }, s.buff, s.buffLen⟩) := by
  rw [readBegin, findHeld_spec hp hl, if_neg hc]
  rfl

/-- A line that is held is copied, and the bytes behind it move to the front. -/
theorem readBegin_found {xs ys : Bytes} (hp : Holding s.buff s.buffLen blk e)
    (hl : h₀.Later h (e ++ own)) (hbytes : blk.bytes = xs ++ c :: ys) (hc : c ∉ xs) :
    ∃ done, readBegin numbering h s c = .ok (.inl done) ∧
      done.stream.sockfd = s.sockfd ∧ done.stream.reads = s.reads ∧
      (Delivers h₀ own xs (some (xs ++ [0])) ⟨blk.cap, ys⟩ done ∨
        done.result = .nomem ∧ done.stream = s ∧ false ∈ h₀.grants ∧
          h₀.Later done.heap (e ++ own)) := by
  have hfind := findHeld_spec (c := c) hp hl
  rw [hbytes, if_pos (by simp), List.idxOf_append_of_notMem hc, List.idxOf_cons_self,
    Nat.add_zero] at hfind
  rw [readBegin, hfind, ok_bind]
  dsimp only
  obtain ⟨sockfd, buff, buffLen, reads⟩ := s
  dsimp only at hp
  cases hp with
  | null => simp [Block.null] at hbytes
  | block hb =>
    rename_i q b
    obtain ⟨cap, bytes⟩ := blk
    dsimp only at hbytes hfind
    subst hbytes
    rcases hl.malloc numbering (xs.length + 1) with ⟨q', h₁, hmalloc, hl₁⟩ |
      ⟨h₁, hmalloc, hl₁, hrefused⟩
    case inr =>
      rw [hmalloc]
      exact ⟨_, rfl, rfl, rfl, .inr ⟨rfl, rfl, hrefused, hl₁⟩⟩
    obtain ⟨held', htake, hheld'⟩ := takeHeld_spec hb
    obtain ⟨out, hcopy, hrest⟩ := bind_eq_ok htake
    obtain ⟨line, hstore, hrest⟩ := bind_eq_ok hrest
    obtain ⟨cells, hmove, hok⟩ := bind_eq_ok hrest
    cases hok
    have hl₂ := hl₁.perm (List.Perm.swap (q', .alloc (xs.length + 1)) (q, b.cells) own)
    have hfill : (do
        let cells ← b.cells.copyTo 0 0 xs.length 0 (Block.alloc (xs.length + 1))
        cells.store xs.length (some 0)) = .ok ((xs ++ [0]).map some) := by
      rw [hcopy, ok_bind, hstore]
    obtain ⟨h₃, hmod, hl₃⟩ := hl₁.modify (f := fun cells => do
      let cells ← b.cells.copyTo 0 0 xs.length 0 cells
      cells.store xs.length (some 0)) hfill
    obtain ⟨h₄, hmod', hl₄⟩ := (hl₃.perm (List.Perm.swap _ _ own)).modify hmove
    rw [hmalloc]
    dsimp only
    rw [if_neg (by simp), hl₂.get, ok_bind, hmod, ok_bind, hmod']
    exact ⟨_, rfl, rfl, rfl, .inl ⟨rfl, rfl, _, _, .line _, .block hheld',
      hl₄.perm (List.Perm.swap _ _ own)⟩⟩

end Begin

section Call

variable (numbering : Numbering) {h₀ : Heap UInt8} {c : UInt8}
  {own : List (ℕ × Library.Block UInt8)}

/-- How the loop over the chunks ends: `before` are the bytes that the call has still to
account for. -/
def Ends (h₀ : Heap UInt8) (own : List (ℕ × Library.Block UInt8)) (c : UInt8) (before : Bytes)
    (r : HeapReaduntil) : Prop :=
  (∃ line held, Delivers h₀ own line (readLine line) held r ∧ c ∉ line ∧
      line ++ [c] ++ (held.bytes ++ unread r.stream.reads) = before) ∨
    (r.result = .reade ∧ c ∉ before ∧ r.stream.buff = none ∧ r.stream.buffLen = 0 ∧
      h₀.Later r.heap own) ∨
    GivesUp h₀ own none r

/-- The loop over the chunks comes to a round that finds the end of a line of `n` bytes and has
no memory for the byte behind it. -/
inductive RunsOut (numbering : Numbering) (c : UInt8) (n : ℕ) : Reading → List Chunk → Prop
  | now {r : Reading} {chunk : Chunk} {reads : List Chunk}
    (h : Unterminated numbering c n { r with stream := { r.stream with reads } } chunk) :
    RunsOut numbering c n r (chunk :: reads)
  | later {r r' : Reading} {chunk : Chunk} {reads : List Chunk}
    (h : readRound numbering c { r with stream := { r.stream with reads } } chunk =
      .ok (.inr r'))
    (hrest : RunsOut numbering c n r' reads) : RunsOut numbering c n r (chunk :: reads)

theorem RunsOut.readHeap {n : ℕ} {r : Reading} {reads : List Chunk}
    (h : RunsOut numbering c n r reads) :
    readHeap numbering c r reads = .error (.access .nullDeref) := by
  induction h with
  | now h =>
    rw [Tcp.readHeap, h.readRound]
    rfl
  | later h _ ih =>
    rw [Tcp.readHeap, h]
    exact ih

/-- The loop over the chunks, each round of which keeps the bytes so far without a delimiter. -/
theorem readHeap_spec (reads : List Chunk) {r : Reading} {blk : Block}
    {e : List (ℕ × Library.Block UInt8)} (hp : Holding r.outbuff r.len blk e)
    (hl : h₀.Later r.heap (e ++ own)) (hbuff : r.stream.buff = none)
    (hlen : r.stream.buffLen = 0) (hc : c ∉ blk.bytes) :
    (∃ done, readHeap numbering c r reads = .ok done ∧ done.stream.sockfd = r.stream.sockfd ∧
        Ends h₀ own c (blk.bytes ++ unread reads) done) ∨
      (∃ line rest, line ++ [c] ++ rest = blk.bytes ++ unread reads ∧ c ∉ line ∧
        RunsOut numbering c line.length r reads) ∧ false ∈ h₀.grants := by
  induction reads generalizing r blk e with
  | nil =>
    obtain ⟨heap, hend, hl'⟩ := readEnd_spec
      (r := { r with stream := { r.stream with reads := [] } }) hp hl
    rw [readHeap, hend]
    refine .inl ⟨_, rfl, rfl, .inr (.inl ⟨rfl, ?_, hbuff, hlen, hl'⟩)⟩
    simpa [unread] using hc
  | cons chunk reads ih =>
    by_cases hmem : c ∈ chunk.1
    · obtain ⟨xs, ys, hchunk, hxs⟩ := List.eq_append_cons_of_mem hmem
      rcases readRound_found numbering
          (r := { r with stream := { r.stream with reads } }) hp hl hbuff hlen hxs hchunk with
        ⟨done, hround, hsock, hreads, hends⟩ | ⟨hlast, hrefused⟩
      · refine .inl ⟨done, by rw [readHeap, hround]; rfl, hsock, ?_⟩
        rcases hends with hdone | hdone
        · refine .inl ⟨_, _, hdone, by simp [hc, hxs], ?_⟩
          rw [hreads]
          simp [unread, hchunk]
        · exact .inr (.inr hdone.mono)
      · refine .inr ⟨⟨blk.bytes ++ xs, ys ++ unread reads, ?_, ?_, .now hlast⟩, hrefused⟩
        · simp [unread, hchunk]
        · simp [hc, hxs]
    · rcases readRound_skip numbering
          (r := { r with stream := { r.stream with reads } }) hp hl hbuff hlen hmem with
        ⟨r', cap, e', hround, hstream, hp', hl', -⟩ | ⟨done, hround, hdone, hsock⟩
      · rw [readHeap, hround, ok_bind]
        dsimp only
        have hloop := ih hp' hl' (by rw [hstream]; exact hbuff) (by rw [hstream]; exact hlen)
          (by simp [hc, hmem])
        rw [hstream] at hloop
        have hrest : blk.bytes ++ unread (chunk :: reads) =
            blk.bytes ++ chunk.1 ++ unread reads := by simp [unread]
        rw [hrest]
        exact hloop.imp_right fun ⟨⟨line, rest, hline, hc, hlast⟩, hrefused⟩ =>
          ⟨⟨line, rest, hline, hc, .later hround hlast⟩, hrefused⟩
      · refine .inl ⟨done, ?_, hsock, .inr (.inr hdone.mono)⟩
        rw [readHeap, hround]
        rfl

end Call

/-- A stream between two calls: what it holds stands at the front of a block of its own. -/
structure OwnedStream where
  heap : Heap UInt8
  stream : HeapStream
  held : Block
  block : List (ℕ × Library.Block UInt8)
  others : List (ℕ × Library.Block UInt8)
  holding : Holding stream.buff stream.buffLen held block
  owns : heap.blocks.Owns (block ++ others)

def OwnedStream.rest (s : OwnedStream) : Bytes := s.held.bytes ++ unread s.stream.arriving

theorem HeapStream.arriving_of_isSome {s : HeapStream} (h : s.sockfd.isSome = true) :
    s.arriving = s.reads := if_pos h

theorem HeapStream.arriving_of_not_isSome {s : HeapStream} (h : ¬ s.sockfd.isSome = true) :
    s.arriving = [] := if_neg h

theorem Delivers.after {s : OwnedStream} {line : Bytes} {out : Option Bytes} {held : Block}
    {r : HeapReaduntil} (h : Delivers s.heap s.others line out held r) :
    ∃ after : OwnedStream, after.heap = r.heap ∧ after.stream = r.stream ∧ after.held = held ∧
      ∃ e, Handed r.out out e ∧ after.others = e ++ s.others := by
  obtain ⟨eo, es, hhanded, hholding, hl⟩ := h.blocks
  exact ⟨⟨r.heap, r.stream, held, es, eo ++ s.others, hholding,
    hl.owns.perm (List.perm_append_comm_assoc _ _ _)⟩, rfl, rfl, rfl, eo, hhanded, rfl⟩

/-- Whatever requests for memory are refused, a call hands over a line in a block of its own, or
`NULL` for an empty one that was read; reports the end of the stream; or gives up: at once and
without a trace, or with at most one block that nobody owns. It faults nowhere but at the last
byte of a line that was read, if the request for its room is refused, and touches no other
block. -/
theorem readuntil_any_memory (numbering : Numbering) (s : OwnedStream) (c : UInt8) :
    (∃ r, readuntilHeap numbering s.heap s.stream c = .ok r ∧
      ((r.result = .ok ∧ ∃ (line : Bytes) (after : OwnedStream), after.heap = r.heap ∧
          after.stream = r.stream ∧ r.len = line.length ∧ c ∉ line ∧
          line ++ [c] ++ after.rest = s.rest ∧
          ∃ e, Handed r.out (if c ∈ s.held.bytes then some (line ++ [0]) else readLine line) e ∧
            after.others = e ++ s.others) ∨
        (r.result = .reade ∧ c ∉ s.rest ∧ r.stream.buff = none ∧ r.heap.blocks.Owns s.others) ∨
        (r.result = .nomem ∧ false ∈ s.heap.grants ∧
          (r.stream = s.stream ∧ r.heap.blocks.Owns (s.block ++ s.others) ∨
            r.stream.buff = none ∧ r.stream.buffLen = 0 ∧
              ∃ lost, lost.length ≤ 1 ∧ r.heap.blocks.Owns (lost ++ s.others))))) ∨
      readuntilHeap numbering s.heap s.stream c = .error (.access .nullDeref) ∧
        c ∉ s.held.bytes ∧ false ∈ s.heap.grants ∧
        ∃ line rest, line ++ [c] ++ rest = s.rest ∧ c ∉ line ∧ RunsOut numbering c line.length
          ⟨s.heap, { s.stream with buff := none, buffLen := 0 }, s.stream.buff, s.stream.buffLen⟩
          s.stream.arriving := by
  have hl : s.heap.Later s.heap (s.block ++ s.others) := .refl s.owns
  rw [readuntilHeap]
  by_cases hmem : c ∈ s.held.bytes
  · obtain ⟨xs, ys, hbytes, hxs⟩ := List.eq_append_cons_of_mem hmem
    obtain ⟨done, hbegin, hsock, hreads, hends⟩ :=
      readBegin_found numbering s.holding hl hbytes hxs
    rw [hbegin]
    refine .inl ⟨done, rfl, ?_⟩
    rcases hends with hdone | ⟨hresult, hstream, hrefused, hl'⟩
    · obtain ⟨after, hheap, hstream, hheld, hothers⟩ := hdone.after
      refine .inl ⟨hdone.result, xs, after, hheap, hstream, hdone.len, hxs, ?_,
        by rw [if_pos hmem]; exact hothers⟩
      rw [OwnedStream.rest, OwnedStream.rest, hheld, hstream, HeapStream.arriving,
        HeapStream.arriving, hsock, hreads, hbytes]
      simp
    · exact .inr (.inr ⟨hresult, hrefused, .inl ⟨hstream, hl'.owns⟩⟩)
  · rw [readBegin_take numbering s.holding hl hmem, ok_bind]
    dsimp only
    rcases readHeap_spec numbering s.stream.arriving
        (r := ⟨s.heap, { s.stream with buff := none, buffLen := 0 }, s.stream.buff,
          s.stream.buffLen⟩) s.holding hl rfl rfl hmem with
      ⟨done, hread, hsock, hends⟩ | ⟨⟨line, rest, hline, hc, hlast⟩, hrefused⟩
    · refine .inl ⟨done, hread, ?_⟩
      rcases hends with ⟨line, held, hdone, hc, hline⟩ | ⟨hresult, hc, hbuff, -, hl'⟩ | hdone
      · obtain ⟨after, hheap, hstream, hheld, hothers⟩ := hdone.after
        refine .inl ⟨hdone.result, line, after, hheap, hstream, hdone.len, hc, ?_,
          by rw [if_neg hmem]; exact hothers⟩
        -- A line that is not held has been read from an open descriptor.
        have hopen : s.stream.sockfd.isSome = true := by
          by_contra hclosed
          rw [HeapStream.arriving_of_not_isSome hclosed] at hline
          apply hmem
          have hin : c ∈ line ++ [c] ++ (held.bytes ++ unread done.stream.reads) := by simp
          rw [hline] at hin
          simpa [unread] using hin
        rw [OwnedStream.rest, hheld, hstream,
          HeapStream.arriving_of_isSome (by rw [hsock]; exact hopen)]
        exact hline
      · exact .inr (.inl ⟨hresult, hc, hbuff, hl'.owns⟩)
      · obtain ⟨lost, hlost, -, hl'⟩ := hdone.blocks
        exact .inr (.inr ⟨hdone.result, hdone.refused,
          .inr ⟨hdone.buff, hdone.buffLen, lost, hlost, hl'.owns⟩⟩)
    · exact .inr ⟨hlast.readHeap, hmem, hrefused, line, rest, hline, hc, hlast⟩

end Chatd.Net.Tcp
