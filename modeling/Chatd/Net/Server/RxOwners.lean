import Chatd.Net.Server.Process

/-! # What an rx_thread owns

The block of its stream or the output of the call that it is in. A step hands a line over,
loses the output where memory runs out, or faults.
-/
namespace Chatd.Net.Server
open Library Tcp

/-- The blocks that a connection owns. A live one has a block between two calls; what a call
has read so far is in another one, and then the stream has none. -/
def Client.Owns (conn : Client) (e : List (ℕ × Library.Block UInt8)) : Prop :=
  conn.stream.sockfd.isSome = !conn.isKilled ∧
  match conn.rx with
  | .test => if conn.isKilled then Backed conn.stream.buff e
    else ∃ bytes, Holding conn.stream.buff conn.stream.buffLen ⟨buffCap, bytes⟩ e
  | .call => if conn.isKilled then conn.stream.buff = none ∧ e = []
    else ∃ bytes, Holding conn.stream.buff conn.stream.buffLen ⟨buffCap, bytes⟩ e
  | .reading outbuff len => conn.stream.buff = none ∧ conn.stream.buffLen = 0 ∧
    (∃ blk, Holding outbuff len blk e) ∧ (outbuff.isSome ∨ conn.isKilled)
  | .filled outbuff len _ => conn.stream.buff = none ∧ conn.stream.buffLen = 0 ∧
    (∃ blk, Holding outbuff len blk e) ∧ outbuff.isSome
  | .exited => Backed conn.stream.buff e

/-- The connection is about to look for a line in the held bytes of a stream that was
destroyed. -/
def Client.Dangling (conn : Client) : Prop :=
  conn.rx = .call ∧ conn.isKilled = true ∧ conn.stream.buffLen ≠ 0

/-- The connection is behind a `read` that ends a line, and the request for room for the byte
behind the line will be refused. -/
def Client.Unterminated (numbering : Numbering) (heap : Heap UInt8) (conn : Client) : Prop :=
  ∃ outbuff len chunk n, conn.rx = .filled outbuff len chunk ∧
    Tcp.Unterminated numbering Connection.newline n ⟨heap, conn.stream, outbuff, len⟩ chunk

/-- What a step of an `rx_thread` does to the blocks in use. -/
structure RxStep (numbering : Numbering) (h₀ : Heap UInt8)
    (own : List (ℕ × Library.Block UInt8)) (conn : Client) (next : RxResult) : Prop where
  isKilled : next.2.1.isKilled = conn.isKilled
  sockfd : next.2.1.stream.sockfd = conn.stream.sockfd
  blocks : ∃ e lines lost, next.2.1.Owns e ∧ lines.map Prod.fst = next.2.2 ∧
    lost.length = (if conn.abandons numbering h₀ then 1 else 0) ∧
    h₀.Later next.1 (lines ++ (lost ++ (e ++ own)))

section RxSteps

variable {numbering : Numbering} {h₀ : Heap UInt8} {conn : Client}
  {e own : List (ℕ × Library.Block UInt8)}

theorem owns_of_delivers {line held : Bytes} {out : Option Bytes} {done : HeapReaduntil}
    (h : Delivers h₀ own line out ⟨buffCap, held⟩ done)
    (hsock : done.stream.sockfd = conn.stream.sockfd)
    (hopen : conn.stream.sockfd.isSome = !conn.isKilled)
    (hkept : conn.abandons numbering h₀ = false) :
    RxStep numbering h₀ own conn (conn.continued (.inl done)) := by
  obtain ⟨eo, es, hhanded, hholding, hl⟩ := h.blocks
  rw [Client.continued, Client.returned, if_pos h.result]
  refine ⟨rfl, hsock, es, eo, [], ⟨by rw [← hopen, ← hsock], ?_⟩, hhanded.fst_eq,
    by rw [hkept]; rfl, hl⟩
  dsimp only
  split
  · exact hholding.backed
  · exact ⟨held, hholding⟩

theorem owns_of_fails (lost : List (ℕ × Library.Block UInt8)) {done : HeapReaduntil}
    (hresult : done.result ≠ .ok) (hsock : done.stream.sockfd = conn.stream.sockfd)
    (hopen : conn.stream.sockfd.isSome = !conn.isKilled) (hb : Backed done.stream.buff e)
    (hlost : lost.length = if conn.abandons numbering h₀ then 1 else 0)
    (hl : h₀.Later done.heap (lost ++ (e ++ own))) :
    RxStep numbering h₀ own conn (conn.continued (.inl done)) := by
  rw [Client.continued, Client.returned, if_neg hresult]
  exact ⟨rfl, hsock, e, [], lost, ⟨by rw [← hopen, ← hsock], hb⟩, rfl, hlost, hl⟩

theorem rxNext_of_dangling (ho : conn.Owns e) (hd : conn.Dangling) :
    conn.rxNext numbering h₀ = .error (.access .nullDeref) := by
  obtain ⟨hrx, hkilled, hlen⟩ := hd
  obtain ⟨-, hblock⟩ := ho
  rw [hrx, hkilled] at hblock
  have hbuff : conn.stream.buff = none := hblock.1
  rw [Client.rxNext, hrx]
  dsimp only
  rw [readBegin, findHeld, if_neg hlen, hbuff]
  rfl

theorem rxNext_of_unterminated (h : conn.Unterminated numbering h₀) :
    conn.rxNext numbering h₀ = .error (.access .nullDeref) := by
  obtain ⟨outbuff, len, chunk, n, hrx, hlast⟩ := h
  rw [Client.rxNext, hrx]
  dsimp only
  rw [hlast.readRound]
  rfl

theorem rxNext_test (ho : conn.Owns e) (hown : h₀.blocks.Owns (e ++ own)) (hrx : conn.rx = .test) :
    ∃ next, conn.rxNext numbering h₀ = .ok next ∧ RxStep numbering h₀ own conn next := by
  obtain ⟨stream, isKilled, rx⟩ := conn
  obtain rfl : rx = .test := hrx
  obtain ⟨hopen, hblock⟩ := ho
  refine ⟨_, rfl, rfl, rfl, e, [], [], ⟨hopen, ?_⟩, rfl, rfl, .refl hown⟩
  cases isKilled with
  | false => exact hblock
  | true => exact hblock

theorem rxNext_call (ho : conn.Owns e) (hown : h₀.blocks.Owns (e ++ own)) (hrx : conn.rx = .call)
    (hsafe : ¬ conn.Dangling) :
    ∃ next, conn.rxNext numbering h₀ = .ok next ∧ RxStep numbering h₀ own conn next := by
  have hl : h₀.Later h₀ (e ++ own) := .refl hown
  obtain ⟨stream, isKilled, rx⟩ := conn
  obtain rfl : rx = .call := hrx
  obtain ⟨hopen, hblock⟩ := ho
  cases isKilled with
  | true =>
    obtain ⟨hbuff, rfl⟩ := hblock
    dsimp only at hbuff
    have hempty : stream.buffLen = 0 := by
      by_contra hlen
      exact hsafe ⟨rfl, rfl, hlen⟩
    have hp : Holding stream.buff stream.buffLen .null [] := by
      rw [hbuff, hempty]
      exact .null
    have hbegin := readBegin_take numbering (c := Connection.newline) hp hl
      (List.not_mem_nil)
    rw [Client.rxNext]
    dsimp only
    rw [hbegin]
    exact ⟨_, rfl, rfl, rfl, [], [], [], ⟨hopen, rfl, rfl, ⟨_, hp⟩, .inr rfl⟩, rfl, rfl, hl⟩
  | false =>
    obtain ⟨bytes, hp⟩ := hblock
    dsimp only at hp
    rw [Client.rxNext]
    dsimp only
    by_cases hmem : Connection.newline ∈ bytes
    · obtain ⟨xs, ys, hbytes, hxs⟩ := List.eq_append_cons_of_mem hmem
      obtain ⟨done, hbegin, hsock, -, hends⟩ :=
        readBegin_found numbering hp hl hbytes hxs
      rw [hbegin]
      refine ⟨_, rfl, ?_⟩
      rcases hends with hdone | ⟨hresult, hstream, -, hl'⟩
      · exact owns_of_delivers hdone hsock hopen rfl
      · refine owns_of_fails [] (by rw [hresult]; decide) hsock hopen ?_ rfl hl'
        rw [hstream]
        exact hp.backed
    · rw [readBegin_take numbering hp hl hmem]
      refine ⟨_, rfl, rfl, rfl, e, [], [], ⟨hopen, rfl, rfl, ⟨_, hp⟩, ?_⟩, rfl, rfl, hl⟩
      exact .inl (hp.isSome (by decide : 0 < buffCap))

theorem rxNext_reading (ho : conn.Owns e) (hown : h₀.blocks.Owns (e ++ own)) {outbuff : Pointer}
    {len : ℕ} (hrx : conn.rx = .reading outbuff len) :
    ∃ next, conn.rxNext numbering h₀ = .ok next ∧ RxStep numbering h₀ own conn next := by
  have hl : h₀.Later h₀ (e ++ own) := .refl hown
  obtain ⟨stream, isKilled, rx⟩ := conn
  obtain rfl : rx = .reading outbuff len := hrx
  obtain ⟨hopen, hbuff, hlen, ⟨blk, hp⟩, hout⟩ := ho
  dsimp only at hopen hbuff hlen hout
  rw [Client.rxNext]
  dsimp only
  cases harriving : stream.arriving with
  | nil =>
    obtain ⟨heap, hend, hl'⟩ := readEnd_spec (r := ⟨h₀, stream, outbuff, len⟩) hp hl
    dsimp only
    rw [hend]
    refine ⟨_, rfl, owns_of_fails [] (e := []) TcpStreamCode.noConfusion rfl hopen ?_ rfl
      hl'⟩
    show Backed stream.buff []
    rw [hbuff]
    exact .null
  | cons chunk reads =>
    -- Only an open descriptor delivers.
    have hsock : stream.sockfd.isSome = true := by
      by_contra hclosed
      rw [HeapStream.arriving_of_not_isSome hclosed] at harriving
      cases harriving
    have hsome : outbuff.isSome = true := by
      rcases hout with hsome | hkilled
      · exact hsome
      · rw [hsock, hkilled] at hopen
        cases hopen
    exact ⟨_, rfl, rfl, rfl, e, [], [], ⟨hopen, hbuff, hlen, ⟨blk, hp⟩, hsome⟩, rfl, rfl, hl⟩

theorem abandons_of_filled {outbuff : Pointer} {len : ℕ} {chunk : Chunk}
    {r : HeapReaduntil ⊕ Reading} (hrx : conn.rx = .filled outbuff len chunk)
    (hround : readRound numbering Connection.newline ⟨h₀, conn.stream, outbuff, len⟩ chunk =
      .ok r) :
    conn.abandons numbering h₀ = Client.gaveUp r := by
  rw [Client.abandons, hrx]
  dsimp only
  rw [hround]

theorem owns_of_givesUp {outbuff : Pointer} {len : ℕ} {chunk : Chunk} {done : HeapReaduntil}
    (hrx : conn.rx = .filled outbuff len chunk)
    (hround : readRound numbering Connection.newline ⟨h₀, conn.stream, outbuff, len⟩ chunk =
      .ok (.inl done))
    (hdone : GivesUp h₀ own outbuff done) (hsome : outbuff.isSome = true)
    (hsock : done.stream.sockfd = conn.stream.sockfd)
    (hopen : conn.stream.sockfd.isSome = !conn.isKilled) :
    RxStep numbering h₀ own conn (conn.continued (.inl done)) := by
  obtain ⟨lost, -, hlost, hl⟩ := hdone.blocks
  refine owns_of_fails lost (e := []) (by rw [hdone.result]; decide) hsock hopen ?_ ?_ hl
  · rw [hdone.buff]
    exact .null
  · rw [abandons_of_filled hrx hround, Client.gaveUp, hdone.result]
    exact hlost hsome

theorem rxNext_filled (ho : conn.Owns e) (hown : h₀.blocks.Owns (e ++ own)) {outbuff : Pointer}
    {len : ℕ} {chunk : Chunk} (hrx : conn.rx = .filled outbuff len chunk) :
    (∃ next, conn.rxNext numbering h₀ = .ok next ∧ RxStep numbering h₀ own conn next) ∨
      conn.Unterminated numbering h₀ := by
  have hl : h₀.Later h₀ (e ++ own) := .refl hown
  obtain ⟨hopen, hblock⟩ := ho
  rw [hrx] at hblock
  obtain ⟨hbuff, hlen, ⟨blk, hp⟩, hsome⟩ := hblock
  have hkeeps {r : HeapReaduntil ⊕ Reading}
      (hround : readRound numbering Connection.newline ⟨h₀, conn.stream, outbuff, len⟩ chunk =
        .ok r) : conn.abandons numbering h₀ = Client.gaveUp r := abandons_of_filled hrx hround
  have hnext : conn.rxNext numbering h₀ =
      (readRound numbering Connection.newline ⟨h₀, conn.stream, outbuff, len⟩ chunk).map
        conn.continued := by
    rw [Client.rxNext, hrx]
    rfl
  rw [hnext]
  by_cases hmem : Connection.newline ∈ chunk.1
  · obtain ⟨xs, ys, hchunk, hxs⟩ := List.eq_append_cons_of_mem hmem
    rcases readRound_found numbering (r := ⟨h₀, conn.stream, outbuff, len⟩) hp hl
      hbuff hlen hxs hchunk with ⟨done, hround, hsock, -, hdone | hdone⟩ | ⟨hlast, -⟩
    · rw [hround]
      refine .inl ⟨_, rfl, owns_of_delivers hdone hsock hopen ?_⟩
      rw [hkeeps hround, Client.gaveUp, hdone.result]
      rfl
    · have hstep := owns_of_givesUp hrx hround hdone hsome hsock hopen
      rw [hround]
      exact .inl ⟨_, rfl, hstep⟩
    · exact .inr ⟨outbuff, len, chunk, _, hrx, hlast⟩
  · rcases readRound_skip numbering (r := ⟨h₀, conn.stream, outbuff, len⟩) hp hl
      hbuff hlen hmem with ⟨r, cap, e', hround, hstream, hp', hl', hout⟩ |
      ⟨done, hround, hdone, hsock⟩
    · have hkept := hkeeps hround
      obtain ⟨heap', stream', outbuff', len'⟩ := r
      dsimp only at hstream
      subst hstream
      rw [hround]
      refine .inl ⟨_, rfl, rfl, rfl, e', [], [], ⟨hopen, hbuff, hlen, ⟨_, hp'⟩, .inl hout⟩, rfl,
        ?_, hl'⟩
      rw [hkept]
      rfl
    · have hstep := owns_of_givesUp hrx hround hdone hsome hsock hopen
      rw [hround]
      exact .inl ⟨_, rfl, hstep⟩

/-- A step of an `rx_thread` is accounted for, unless it looks for a line in a stream that was
destroyed, or there is no memory for the byte behind a line. -/
theorem rxNext_cases (ho : conn.Owns e) (hown : h₀.blocks.Owns (e ++ own))
    (numbering : Numbering) :
    (∃ next, conn.rxNext numbering h₀ = .ok next ∧ RxStep numbering h₀ own conn next) ∨
      conn.Dangling ∨ conn.Unterminated numbering h₀ := by
  cases hrx : conn.rx with
  | test => exact .inl (rxNext_test ho hown hrx)
  | call =>
    by_cases hsafe : conn.Dangling
    · exact .inr (.inl hsafe)
    · exact .inl (rxNext_call ho hown hrx hsafe)
  | reading outbuff len => exact .inl (rxNext_reading ho hown hrx)
  | filled outbuff len chunk =>
    exact (rxNext_filled ho hown hrx).imp_right .inr
  | exited =>
    refine .inl ⟨(h₀, conn, []), ?_, rfl, rfl, e, [], [], ho, rfl, ?_, .refl hown⟩
    · rw [Client.rxNext, hrx]
    · rw [Client.abandons, hrx]
      rfl

end RxSteps

end Chatd.Net.Server
