import Chatd.Net.Tcp.Memory

/-! # Sockets

The functions that open and close descriptors. A descriptor is a number that the system may
hand out again once it is closed. The answers of the system are parameters of a call.
-/
namespace Chatd.Net.Tcp
open Library

/-- `enum tcp_listener_result` -/
inductive TcpListenerResult where
  | ok
  | invalidHostname
  | cannotCreateSocket
  | cannotBindSocket
  | listenFailed
  | acceptFailed
  | unexpected
  | nomem
  deriving DecidableEq, Repr

/-- `struct tcp_listener`; `none` is the descriptor -1. -/
structure TcpListener where
  sockfd : Option ℕ
  deriving DecidableEq, Repr

structure Resources where
  heap : Heap UInt8
  files : Table Unit

namespace Resources

variable (sys : Resources)

/-- `socket` or `accept`, with a new descriptor. -/
def openFile (descriptors : Numbering) : ℕ × Resources :=
  let (sockfd, files) := sys.files.new descriptors ()
  (sockfd, { sys with files })

/-- `close` -/
def closeFile (sockfd : ℕ) : Except ResourceFault Resources := do
  let files ← sys.files.release sockfd
  return { sys with files }

end Resources

/-- Which of the calls in `tcp_listener_init` succeed. -/
structure InitAnswers where
  inetPton : Bool
  socket : Bool
  bind : Bool
  listen : Bool
  deriving DecidableEq, Repr

section Functions

variable (numbering descriptors : Numbering) (sys : Resources)

/-- `tcp_listener_init` -/
def tcpListenerInit (listener : TcpListener) (answers : InitAnswers) :
    TcpListenerResult × TcpListener × Resources :=
  if answers.inetPton = false then (.invalidHostname, listener, sys)
  else if answers.socket = false then (.cannotCreateSocket, listener, sys)
  else
    let (sockfd, sys) := sys.openFile descriptors
    if answers.bind = false then (.cannotBindSocket, listener, sys)
    else if answers.listen = false then (.listenFailed, listener, sys)
    else (.ok, ⟨some sockfd⟩, sys)

/-- `tcp_listener_destroy` -/
def tcpListenerDestroy (listener : TcpListener) :
    Except ResourceFault (TcpListenerResult × TcpListener × Resources) :=
  match listener.sockfd with
  | none => .ok (.unexpected, listener, sys)
  | some sockfd => do
    let sys ← sys.closeFile sockfd
    return (.ok, ⟨none⟩, sys)

/-- `tcp_listener_accept`; `reads` is what the peer will send, if `accept` succeeds. -/
def tcpListenerAccept (listener : TcpListener) (stream : HeapStream) (accept : Bool)
    (reads : List Chunk) : Except ResourceFault (TcpListenerResult × HeapStream × Resources) :=
  match listener.sockfd with
  | none => .ok (.acceptFailed, stream, sys)
  | some listening => do
    let _ ← sys.files.get listening
    if accept = false then return (.acceptFailed, stream, sys)
    let (sockfd, sys) := sys.openFile descriptors
    let (buff, heap) := sys.heap.malloc numbering buffCap
    let stream := { stream with sockfd := some sockfd, buff, reads }
    if buff = none then return (.nomem, stream, { sys with heap })
    return (.ok, { stream with buffLen := 0 }, { sys with heap })

/-- `tcp_stream_destroy`, which leaves the count of held bytes. -/
def tcpStreamDestroy (stream : HeapStream) :
    Except ResourceFault (TcpStreamCode × HeapStream × Resources) := do
  let heap ← sys.heap.free stream.buff
  let stream := { stream with buff := none }
  let sys := { sys with heap }
  match stream.sockfd with
  | none => return (.unexpected, stream, sys)
  | some sockfd => do
    let sys ← sys.closeFile sockfd
    return (.ok, { stream with sockfd := none }, sys)

end Functions

/-- Exactly these blocks and descriptors are in use. -/
structure Resources.Owns (sys : Resources) (blocks : List (ℕ × Library.Block UInt8))
    (fds : List ℕ) : Prop where
  blocks : sys.heap.blocks.Owns blocks
  files : sys.files.Owns (fds.map fun fd => (fd, ()))

abbrev TcpListener.fds (listener : TcpListener) : List ℕ := listener.sockfd.toList

abbrev HeapStream.fds (s : HeapStream) : List ℕ := s.sockfd.toList

section Rules

variable (numbering descriptors : Numbering) {sys : Resources}
  {blocks blocks' : List (ℕ × Library.Block UInt8)} {fds fds' : List ℕ} {sockfd : ℕ}

theorem Resources.Owns.perm (h : sys.Owns blocks fds) (hb : blocks'.Perm blocks)
    (hf : fds'.Perm fds) : sys.Owns blocks' fds' :=
  ⟨h.blocks.perm hb, h.files.perm (hf.map _)⟩

theorem Resources.Owns.openFile (h : sys.Owns blocks fds) :
    (sys.openFile descriptors).2.Owns blocks ((sys.openFile descriptors).1 :: fds) :=
  ⟨h.blocks, h.files.new ()⟩

theorem Resources.Owns.closeFile (h : sys.Owns blocks (sockfd :: fds)) :
    ∃ sys', sys.closeFile sockfd = .ok sys' ∧ sys'.Owns blocks fds ∧ sys'.heap = sys.heap := by
  obtain ⟨files, hrelease, hown⟩ := h.files.release
  rw [Resources.closeFile, hrelease]
  exact ⟨_, rfl, ⟨h.blocks, hown⟩, rfl⟩

/-- A call of `tcp_listener_init` that opens a descriptor and fails leaves it open and unowned,
and a call that succeeds replaces that of the listener. -/
theorem tcpListenerInit_spec {listener : TcpListener} (h : sys.Owns blocks (listener.fds ++ fds))
    (answers : InitAnswers) :
    ∃ result listener' sys' lost,
      tcpListenerInit descriptors sys listener answers = (result, listener', sys') ∧
      sys'.Owns blocks (listener'.fds ++ (lost ++ fds)) ∧
      lost.length = (if result = .cannotBindSocket ∨ result = .listenFailed ∨
        (result = .ok ∧ listener.sockfd.isSome) then 1 else 0) := by
  have hopen := h.openFile descriptors
  rw [tcpListenerInit]
  cases answers.inetPton with
  | false => exact ⟨_, _, _, [], rfl, h, rfl⟩
  | true =>
  cases answers.socket with
  | false => exact ⟨_, _, _, [], rfl, h, rfl⟩
  | true =>
  have hlost : (sys.openFile descriptors).2.Owns blocks
      (listener.fds ++ ([(sys.openFile descriptors).1] ++ fds)) :=
    hopen.perm (.refl _) (List.perm_append_comm_assoc _ _ _)
  cases answers.bind with
  | false => exact ⟨_, _, _, _, rfl, hlost, rfl⟩
  | true =>
  cases answers.listen with
  | false => exact ⟨_, _, _, _, rfl, hlost, rfl⟩
  | true =>
  refine ⟨_, _, _, listener.fds, rfl, hopen, ?_⟩
  obtain ⟨_ | sockfd⟩ := listener <;> rfl

theorem tcpListenerDestroy_spec {listener : TcpListener}
    (h : sys.Owns blocks (listener.fds ++ fds)) :
    ∃ result sys', tcpListenerDestroy sys listener = .ok (result, ⟨none⟩, sys') ∧
      sys'.Owns blocks fds := by
  obtain ⟨sockfd⟩ := listener
  cases sockfd with
  | none => exact ⟨_, _, rfl, h⟩
  | some sockfd =>
    obtain ⟨sys', hclose, hown, -⟩ := Resources.Owns.closeFile h
    refine ⟨.ok, sys', ?_, hown⟩
    rw [tcpListenerDestroy]
    dsimp only
    rw [hclose]
    rfl

structure Opened (sys : Resources) (blocks : List (ℕ × Library.Block UInt8)) (fds : List ℕ)
    (reads : List Chunk) (s : HeapStream) : Prop where
  reads_eq : s.reads = reads
  sockfd : s.sockfd.isSome = true
  owns : ∃ e, Holding s.buff s.buffLen ⟨buffCap, []⟩ e ∧ sys.Owns (e ++ blocks) (s.fds ++ fds)

theorem Resources.Owns.allocate (h : sys.Owns blocks (sockfd :: fds)) (reads : List Chunk) :
    (∃ q heap, sys.heap.malloc numbering buffCap = (some q, heap) ∧
        Opened { sys with heap } blocks fds reads ⟨some sockfd, some q, 0, reads⟩) ∨
      ∃ heap, sys.heap.malloc numbering buffCap = (none, heap) ∧
        ({ sys with heap } : Resources).Owns blocks (sockfd :: fds) ∧
          false ∈ sys.heap.grants := by
  rcases (Heap.Later.refl h.blocks).malloc numbering buffCap with
    ⟨q, heap, hmalloc, hl⟩ | ⟨heap, hmalloc, hl, hrefused⟩
  · exact .inl ⟨q, heap, hmalloc, rfl, rfl, [(q, .alloc buffCap)],
      .block (b := ⟨.alloc buffCap, 0⟩) (fills_alloc buffCap), hl.owns, h.files⟩
  · exact .inr ⟨heap, hmalloc, ⟨hl.owns, h.files⟩, hrefused⟩

theorem tcpListenerAccept_spec {listener : TcpListener} (stream : HeapStream)
    (h : sys.Owns blocks (listener.fds ++ fds)) (accept : Bool) (reads : List Chunk) :
    ∃ result stream' sys',
      tcpListenerAccept numbering descriptors sys listener stream accept reads =
        .ok (result, stream', sys') ∧
      (result = .acceptFailed ∧ stream' = stream ∧ sys'.Owns blocks (listener.fds ++ fds) ∨
        (result = .nomem ∧ false ∈ sys.heap.grants ∧
          ∃ lost, sys'.Owns blocks (lost :: (listener.fds ++ fds))) ∨
        result = .ok ∧ Opened sys' blocks (listener.fds ++ fds) reads stream') := by
  obtain ⟨_ | listening⟩ := listener
  · exact ⟨_, _, _, rfl, .inl ⟨rfl, rfl, h⟩⟩
  rw [tcpListenerAccept]
  dsimp only
  rw [Table.Owns.get (b := ()) h.files, ok_bind]
  cases accept with
  | false => exact ⟨_, _, _, rfl, .inl ⟨rfl, rfl, h⟩⟩
  | true =>
    have hopen := h.openFile descriptors
    rw [if_neg (by decide)]
    rcases hopen.allocate numbering reads with ⟨q, heap, hmalloc, hnew⟩ |
      ⟨heap, hmalloc, hlost, hrefused⟩
    · rw [hmalloc]
      exact ⟨_, _, _, rfl, .inr (.inr ⟨rfl, hnew⟩)⟩
    · rw [hmalloc]
      exact ⟨_, _, _, rfl, .inr (.inl ⟨rfl, hrefused, _, hlost⟩)⟩

theorem tcpStreamDestroy_spec {s : HeapStream} {e : List (ℕ × Library.Block UInt8)}
    (hb : Backed s.buff e) (h : sys.Owns (e ++ blocks) (s.fds ++ fds)) :
    ∃ result sys', tcpStreamDestroy sys s =
        .ok (result, { s with sockfd := none, buff := none }, sys') ∧ sys'.Owns blocks fds := by
  obtain ⟨heap, hfree, hl⟩ := hb.free (.refl h.blocks)
  rw [tcpStreamDestroy, hfree, ok_bind]
  obtain ⟨_ | sockfd, buff, buffLen, reads⟩ := s
  · exact ⟨_, _, rfl, hl.owns, h.files⟩
  · have hfreed : ({ sys with heap } : Resources).Owns blocks (sockfd :: fds) :=
      ⟨hl.owns, h.files⟩
    obtain ⟨sys', hclose, hown, -⟩ := hfreed.closeFile
    dsimp only
    rw [hclose]
    exact ⟨_, _, rfl, hown⟩

end Rules

end Chatd.Net.Tcp
