import Chatd.Collections.Vec.Refinement
import Chatd.Net.Tcp.Stream

/-! # Reading up to a delimiter, slot by slot

The same function over blocks of slots, with every store and load inside or outside of the
allocation that it goes to. A block is filled from its front, and what has been filled is
the list that the function on lists works with.
-/
namespace Chatd.Net.Tcp
open Library

/-- A block, and how many of its slots have been filled. -/
structure Filled where
  cells : Library.Block UInt8
  len : ℕ
  deriving DecidableEq, Repr

namespace Filled

def null : Filled := ⟨[], 0⟩

/-- `b[len++] = x` -/
def push (b : Filled) (x : UInt8) : Except Fault Filled := do
  let cells ← b.cells.store b.len (some x)
  return ⟨cells, b.len + 1⟩

def realloc (b : Filled) (cap : ℕ) : Filled := { b with cells := b.cells.realloc cap }

end Filled

/-- `struct tcp_stream`, with the results of the coming `read` calls. -/
structure SlotStream where
  held : Filled
  reads : List Chunk

structure SlotReaduntil where
  result : TcpStreamResult
  out : Option (Library.Block UInt8)
  len : ℕ
  stream : SlotStream

/-- The delimiter stands at index `i` of the held bytes: those before it are copied and
terminated, those behind it move to the front. -/
def takeHeld (held : Filled) (i : ℕ) : Except Fault (Library.Block UInt8 × Filled) := do
  let out ← held.cells.copyTo 0 0 i 0 (.alloc (i + 1))
  let out ← out.store i (some 0)
  let cells ← held.cells.copy 0 (i + 1) (held.len - (i + 1)) 0
  return (out, ⟨cells, held.len - (i + 1)⟩)

def scanSlots (c : UInt8) : (outbuff : Filled) → (found : Option Filled) → Bytes →
    Except Fault (Filled × Option Filled)
  | outbuff, found, [] => .ok (outbuff, found)
  | outbuff, some buff, b :: bs => do
    let buff ← buff.push b
    scanSlots c outbuff (some buff) bs
  | outbuff, none, b :: bs =>
    if b = c then scanSlots c outbuff (some ⟨.alloc buffCap, 0⟩) bs
    else do
      let outbuff ← outbuff.push b
      scanSlots c outbuff none bs

def readSlots (c : UInt8) : (outbuff : Filled) → List Chunk → Except Fault SlotReaduntil
  | outbuff, [] => .ok ⟨.reade, none, outbuff.len, ⟨.null, []⟩⟩
  | outbuff, chunk :: reads => do
    let outbuff := outbuff.realloc (outbuff.len + chunk.1.length)
    let (outbuff, found) ← scanSlots c outbuff none chunk.1
    match found with
    | none => readSlots c outbuff reads
    | some buff =>
      if outbuff.len = 0 then .ok ⟨.ok, none, 0, ⟨buff, reads⟩⟩
      else do
        let out ← (outbuff.realloc (outbuff.len + 1)).push 0
        .ok ⟨.ok, some out.cells, outbuff.len, ⟨buff, reads⟩⟩

/-- `tcp_stream_readuntil` -/
def readuntilSlots (stream : SlotStream) (c : UInt8) : Except Fault SlotReaduntil := do
  match ← Collections.Vec.findIndex stream.held.cells c stream.held.len 0 with
  | some i =>
    let (out, held) ← takeHeld stream.held i
    return ⟨.ok, some out, i, { stream with held }⟩
  | none => readSlots c stream.held stream.reads

/-- The filled slots of a block are the bytes of a list. -/
structure Filled.Fills (b : Filled) (blk : Block) : Prop where
  length_eq : b.cells.length = blk.cap
  len_eq : b.len = blk.bytes.length
  len_le : b.len ≤ blk.cap
  holds : ∀ i < blk.bytes.length, b.cells[i]? = some blk.bytes[i]?

/-- Two results that differ in the blocks only, which hold the same. -/
structure SlotReaduntil.Refines (r : SlotReaduntil) (t : Readuntil) : Prop where
  result : r.result = t.result
  out : r.out = t.out.map fun bytes => bytes.map some
  len : r.len = t.len
  held : r.stream.held.Fills t.stream.buff
  reads : r.stream.reads = t.stream.reads

section Filling

variable {b : Filled} {blk blk' : Block} {x : UInt8} {n : ℕ}

theorem fills_null : Filled.null.Fills .null :=
  ⟨rfl, rfl, Nat.le_refl 0, fun i hi => absurd hi (Nat.not_lt_zero i)⟩

theorem fills_alloc (cap : ℕ) : (⟨.alloc cap, 0⟩ : Filled).Fills ⟨cap, []⟩ :=
  ⟨Block.length_alloc cap, rfl, Nat.zero_le cap, fun i hi => absurd hi (Nat.not_lt_zero i)⟩

theorem Filled.Fills.push (h : b.Fills blk) (happ : blk.append x = .ok blk') :
    ∃ b', b.push x = .ok b' ∧ b'.Fills blk' := by
  have hlen := h.length_eq
  have hsize := h.len_eq
  rw [Block.append] at happ
  split at happ
  case isFalse => cases happ
  case isTrue hlt =>
    cases happ
    refine ⟨⟨b.cells.set b.len (some x), b.len + 1⟩, ?_, ?_, ?_, ?_, fun i hi => ?_⟩
    · rw [Filled.push, Library.Block.store_eq (by omega), ok_bind]
      rfl
    · rw [List.length_set, hlen]
    · rw [List.length_append, List.length_singleton, hsize]
    · dsimp only
      omega
    · rw [List.length_append, List.length_singleton] at hi
      dsimp only
      by_cases hlast : i = b.len
      · rw [hlast, List.getElem?_set_self (by omega), hsize, List.getElem?_concat_length]
      · rw [List.getElem?_set_ne (Ne.symm hlast), h.holds i (by omega),
          List.getElem?_append_left (by omega)]

theorem Filled.Fills.realloc (h : b.Fills blk) (hn : blk.bytes.length ≤ n) :
    (b.realloc n).Fills ⟨n, blk.bytes⟩ := by
  have hlen := h.length_eq
  have hle := h.len_le
  have hsize := h.len_eq
  refine ⟨Library.Block.length_realloc b.cells n, hsize, ?_, fun i hi => ?_⟩
  · rw [Filled.realloc]
    dsimp only
    omega
  · dsimp only at hi
    rw [Filled.realloc, Library.Block.getElem?_realloc (by omega) (by omega)]
    exact h.holds i hi

theorem Filled.Fills.eq_null (h : b.Fills .null) : b = .null := by
  have hnil : b.cells = [] := List.length_eq_zero_iff.mp h.length_eq
  have hzero : b.len = 0 := h.len_eq
  obtain ⟨cells, len⟩ := b
  dsimp only at hnil hzero
  rw [hnil, hzero, Filled.null]

theorem Filled.Fills.cells_eq (h : b.Fills blk) (hfull : blk.bytes.length = blk.cap) :
    b.cells = blk.bytes.map some := by
  apply List.ext_getElem?
  intro i
  rw [List.getElem?_map]
  by_cases hi : i < blk.bytes.length
  · rw [h.holds i hi, List.getElem?_eq_getElem hi, Option.map_some]
  · rw [List.getElem?_eq_none (by rw [h.length_eq]; omega), List.getElem?_eq_none (by omega),
      Option.map_none]

end Filling

section Refinement

variable {c : UInt8} {out held : Filled} {blk blk' : Block} {found : Option Filled}
  {found' found'' : Option Block} {bs xs ys : Bytes} {reads : List Chunk}

/-- The held bytes up to a delimiter are copied and terminated, and those behind it stay. -/
theorem takeHeld_spec {cap : ℕ} (h : held.Fills ⟨cap, xs ++ c :: ys⟩) :
    ∃ held', takeHeld held xs.length = .ok ((xs ++ [0]).map some, held') ∧
      held'.Fills ⟨cap, ys⟩ := by
  have hlen := h.length_eq
  have hsize := h.len_eq
  have hle := h.len_le
  dsimp only at hlen hsize hle
  rw [List.length_append, List.length_cons] at hsize
  obtain ⟨out, hcopy, hout, hslots⟩ := Library.Block.copyTo_spec (.alloc (xs.length + 1))
    held.cells 0 0 xs.length (by omega) (by rw [Library.Block.length_alloc]; omega)
  rw [Library.Block.length_alloc] at hout
  obtain ⟨cells, hmove, hcells, hmoved⟩ := Library.Block.copy_spec held.cells 0 (xs.length + 1)
    (held.len - (xs.length + 1)) (by omega) (by omega) (by omega)
  have htext : out.set xs.length (some 0) = (xs ++ [0]).map some := by
    apply List.ext_getElem?
    intro i
    rw [List.getElem?_map, List.getElem?_append]
    by_cases hi : i < xs.length
    · rw [List.getElem?_set_ne (by omega), hslots, if_pos (by omega), if_pos hi, Nat.zero_add,
        Nat.sub_zero, h.holds i (by rw [List.length_append]; omega),
        List.getElem?_append_left hi, List.getElem?_eq_getElem hi, Option.map_some]
    · rw [if_neg hi]
      by_cases hlast : i = xs.length
      · rw [hlast, List.getElem?_set_self (by omega), Nat.sub_self, List.getElem?_cons_zero,
          Option.map_some]
      · rw [List.getElem?_set_ne (Ne.symm hlast), List.getElem?_eq_none (by omega),
          List.getElem?_eq_none (by rw [List.length_singleton]; omega), Option.map_none]
  refine ⟨⟨cells, held.len - (xs.length + 1)⟩, ?_, ⟨?_, ?_, ?_, fun i hi => ?_⟩⟩
  · rw [takeHeld, hcopy, ok_bind, Library.Block.store_eq (by omega), ok_bind, hmove, ok_bind, htext]
    rfl
  · rw [hcells, hlen]
  · dsimp only
    omega
  · dsimp only
    omega
  · dsimp only at hi ⊢
    rw [hmoved, if_pos (by omega), Nat.sub_zero,
      h.holds _ (by rw [List.length_append, List.length_cons]; omega),
      List.getElem?_append_right (by omega), show xs.length + 1 + i - xs.length = i + 1 by omega,
      List.getElem?_cons_succ]

/-- The loop over a chunk stores within the blocks when the one on lists does. -/
theorem scanSlots_refines (hout : out.Fills blk) (hfound : Option.Rel Filled.Fills found found')
    (h : scanChunk c blk found' bs = .ok (blk', found'')) :
    ∃ out' found₁, scanSlots c out found bs = .ok (out', found₁) ∧ out'.Fills blk' ∧
      Option.Rel Filled.Fills found₁ found'' := by
  induction bs generalizing out blk found found' with
  | nil =>
    rw [scanChunk] at h
    cases h
    exact ⟨out, found, by rw [scanSlots], hout, hfound⟩
  | cons b bs ih =>
    cases hfound with
    | some hbuff =>
      rw [scanChunk] at h
      obtain ⟨buff', happ, hrest⟩ := bind_eq_ok h
      obtain ⟨held, hpush, hheld⟩ := hbuff.push happ
      obtain ⟨out', found₁, hscan, hout', hfound'⟩ := ih hout (.some hheld) hrest
      refine ⟨out', found₁, ?_, hout', hfound'⟩
      rw [scanSlots, hpush, ok_bind, hscan]
    | none =>
      rw [scanChunk] at h
      rw [scanSlots]
      by_cases hb : b = c
      · rw [if_pos hb] at h ⊢
        exact ih hout (.some (fills_alloc buffCap)) h
      · rw [if_neg hb] at h ⊢
        obtain ⟨blk₁, happ, hrest⟩ := bind_eq_ok h
        obtain ⟨out₁, hpush, hout₁⟩ := hout.push happ
        obtain ⟨out', found₁, hscan, hout', hfound'⟩ := ih hout₁ .none hrest
        refine ⟨out', found₁, ?_, hout', hfound'⟩
        rw [hpush, ok_bind, hscan]

theorem readSlots_refines (hout : out.Fills blk) {t : Readuntil}
    (h : readChunks c blk reads = .ok t) : ∃ r, readSlots c out reads = .ok r ∧ r.Refines t := by
  induction reads generalizing out blk with
  | nil =>
    rw [readChunks] at h
    cases h
    exact ⟨_, rfl, rfl, rfl, hout.len_eq, fills_null, rfl⟩
  | cons chunk reads ih =>
    rw [readChunks] at h
    obtain ⟨⟨blk₁, found⟩, hscan, hrest⟩ := bind_eq_ok h
    rw [realloc_append (by omega)] at hscan
    have hgrown := hout.realloc (Nat.le_add_right blk.bytes.length chunk.1.length)
    obtain ⟨out₁, found₁, hslots, hout₁, hfound₁⟩ := scanSlots_refines hgrown .none hscan
    rw [readSlots, hout.len_eq]
    dsimp only
    rw [hslots, ok_bind]
    dsimp only at hrest
    cases hfound₁ with
    | none => exact ih hout₁ hrest
    | some hbuff =>
      dsimp only at hrest ⊢
      rw [hout₁.len_eq]
      by_cases hempty : blk₁.bytes.length = 0
      · rw [if_pos hempty] at hrest ⊢
        cases hrest
        exact ⟨_, rfl, rfl, rfl, rfl, hbuff, rfl⟩
      · rw [if_neg hempty] at hrest ⊢
        obtain ⟨blk₂, happ, hok⟩ := bind_eq_ok hrest
        cases hok
        rw [realloc_append (by omega)] at happ
        obtain ⟨out₂, hpush, hout₂⟩ := (hout₁.realloc (Nat.le_add_right _ 1)).push happ
        rw [hpush, ok_bind]
        refine ⟨_, rfl, rfl, ?_, rfl, hbuff, rfl⟩
        rw [Block.append, if_pos (by dsimp only; omega)] at happ
        cases happ
        exact congrArg some (hout₂.cells_eq (by simp))

/-- A call over blocks of slots makes no stray access and does what the one on lists does. -/
theorem readuntilSlots_refines {s : SlotStream} (hs : s.held.Fills blk) {t : Readuntil}
    (h : readuntil ⟨blk, s.reads⟩ c = .ok t) :
    ∃ r, readuntilSlots s c = .ok r ∧ r.Refines t := by
  have hslots : ∀ j < blk.bytes.length, s.held.cells[0 + j]? = some blk.bytes[j]? := by
    intro j hj
    rw [Nat.zero_add]
    exact hs.holds j hj
  have hfind := Collections.Vec.findIndex_spec c hslots
  rw [readuntil] at h
  rw [readuntilSlots, hs.len_eq, hfind, ok_bind]
  by_cases hmem : c ∈ blk.bytes
  · obtain ⟨xs, ys, hbytes, hxs⟩ := List.eq_append_cons_of_mem hmem
    obtain ⟨cap, bytes⟩ := blk
    dsimp only at hbytes hmem h ⊢
    subst hbytes
    obtain ⟨held, htake, hheld⟩ := takeHeld_spec hs
    rw [findIdx?_append_cons hxs] at h
    cases h
    rw [if_pos hmem, List.idxOf_append_of_notMem hxs, List.idxOf_cons_self, Nat.zero_add,
      Nat.add_zero]
    dsimp only
    rw [htake]
    refine ⟨_, rfl, rfl, ?_, rfl, ?_, rfl⟩
    · simp
    · simpa using hheld
  · rw [findIdx?_of_not_mem hmem] at h
    rw [if_neg hmem]
    exact readSlots_refines hs h

end Refinement

/-- A stream between two calls: fewer than 128 bytes at the front of a block of 128. -/
structure HeldStream where
  slots : SlotStream
  bytes : Bytes
  fills : slots.held.Fills ⟨buffCap, bytes⟩
  lt : bytes.length < buffCap

/-- The stream of `tcp_listener_accept`. -/
def HeldStream.accepted (reads : List Chunk) : HeldStream :=
  ⟨⟨⟨.alloc buffCap, 0⟩, reads⟩, [], fills_alloc buffCap, by decide⟩

def HeldStream.rest (s : HeldStream) : Bytes := s.bytes ++ unread s.slots.reads

/-- A call makes no access outside of a block. What it returns, the delimiter and what it
leaves are the bytes that it found, and the end of the stream is reported when no delimiter is
left. -/
theorem readuntil_conserves (s : HeldStream) (c : UInt8) :
    ∃ r, readuntilSlots s.slots c = .ok r ∧
      (r.result = .ok → ∃ (line : Bytes) (after : HeldStream), r.stream = after.slots ∧
        r.len = line.length ∧ (r.out = some ((line ++ [0]).map some) ∨ line = [] ∧ r.out = none) ∧
        c ∉ line ∧ line ++ [c] ++ after.rest = s.rest) ∧
      (r.result = .reade → c ∉ s.rest ∧ r.stream.held = .null) := by
  have hheld : TcpStream.Held ⟨⟨buffCap, s.bytes⟩, s.slots.reads⟩ := ⟨rfl, s.lt⟩
  by_cases hc : c ∈ s.rest
  · obtain ⟨line, out, after, hread, hline⟩ := readuntil_ok hheld hc
    obtain ⟨r, hslots, href⟩ := readuntilSlots_refines s.fills hread
    refine ⟨r, hslots, fun _ => ?_, fun hreade => ?_⟩
    · obtain ⟨⟨cap, bytes⟩, reads⟩ := after
      obtain ⟨hcap, hlt⟩ := hline.held
      dsimp only at hcap hlt
      subst hcap
      have hrest := hline.rest
      refine ⟨line, ⟨r.stream, bytes, href.held, hlt⟩, rfl, href.len, ?_, hline.not_mem, ?_⟩
      · rcases hline.buffer with hout | ⟨hnil, hout⟩
        · left
          rw [href.out, hout]
          rfl
        · right
          rw [href.out, hout]
          exact ⟨hnil, rfl⟩
      · rw [HeldStream.rest, href.reads, List.append_assoc, List.singleton_append]
        exact hrest.symm
    · rw [href.result] at hreade
      cases hreade
  · have hrest : c ∉ TcpStream.rest ⟨⟨buffCap, s.bytes⟩, s.slots.reads⟩ := hc
    obtain ⟨len, hread⟩ := readuntil_reade hrest
    obtain ⟨r, hslots, href⟩ := readuntilSlots_refines s.fills hread
    refine ⟨r, hslots, fun hok => ?_, fun _ => ⟨hc, ?_⟩⟩
    · rw [href.result] at hok
      cases hok
    · exact href.held.eq_null

end Chatd.Net.Tcp
