import Chatd.Library.Logged
import Chatd.Net.Connection.RxThread
import Chatd.Net.Tcp.Sockets

/-! # The process and its resources

The `Server`, its connections and their `rx_thread`s over the resources of the process. What an
`rx_thread` does up to the next test of its loop or call of `read`, and behind a `read` that has
delivered, is one step; `terminate` and the accepting thread may come between any two. The
record of a run lists what was left open or allocated without an owner.
-/
namespace Chatd.Net.Server
open Library Tcp

/-- Where an `rx_thread` is: at the test of its loop, about to call `tcp_stream_readuntil`,
in `read`, behind a `read` that has delivered, or gone. -/
inductive RxAt where
  | test
  | call
  | reading (outbuff : Pointer) (len : ℕ)
  | filled (outbuff : Pointer) (len : ℕ) (chunk : Chunk)
  | exited
  deriving DecidableEq

/-- A connection: its `m_stream` and `m_is_killed`, and where its `rx_thread` is. -/
structure Client where
  stream : HeapStream
  isKilled : Bool
  rx : RxAt

/-- The process, with the `struct tcp_stream` of `serve_forever` and the lines that
`handle_payload` was given and has not freed. -/
structure Process where
  sys : Resources
  listener : TcpListener
  accepting : HeapStream
  conns : List Client
  lines : List ℕ

inductive ServerEvent where
  | bind (answers : InitAnswers)
  | accept (answer : Bool) (grants : List Bool) (reads : List Chunk)
  | destroy
  | rx (k : ℕ) (grants : List Bool)
  | terminate (k : ℕ)
  | freeLine (i : ℕ)

inductive Leak where
  | file
  | block
  deriving DecidableEq, Repr

/-- The resources with the answers to the coming requests for memory. -/
def granting (sys : Resources) (grants : List Bool) : Resources :=
  { sys with heap := { sys.heap with grants } }

/-- A connection after a step of its `rx_thread`, with the heap and the line handed over. -/
abbrev RxResult := Heap UInt8 × Client × List ℕ

namespace Client

variable (numbering : Numbering) (heap : Heap UInt8) (conn : Client)

/-- `tcp_stream_readuntil` returns to the loop of `rx_thread`. -/
def returned (done : HeapReaduntil) : RxResult :=
  if done.result = .ok then
    (done.heap, { conn with stream := done.stream, rx := .test }, done.out.toList)
  else (done.heap, { conn with stream := done.stream, rx := .exited }, [])

/-- A part of a call has ended: the call returns, or waits for `read`. -/
def continued : HeapReaduntil ⊕ Reading → RxResult
  | .inl done => conn.returned done
  | .inr r => (r.heap, { conn with stream := r.stream, rx := .reading r.outbuff r.len }, [])

/-- A step of `rx_thread`. -/
def rxNext : Except ResourceFault RxResult :=
  match conn.rx with
  | .test =>
    .ok (heap, { conn with rx := if conn.isKilled then .exited else .call }, [])
  | .call => do
    let r ← readBegin numbering heap conn.stream Connection.newline
    return conn.continued r
  | .reading outbuff len =>
    match conn.stream.arriving with
    | [] => do
      let done ← readEnd ⟨heap, conn.stream, outbuff, len⟩
      return conn.returned done
    | chunk :: reads =>
      .ok (heap, { conn with
        stream := { conn.stream with reads }, rx := .filled outbuff len chunk }, [])
  | .filled outbuff len chunk => do
    let r ← readRound numbering Connection.newline ⟨heap, conn.stream, outbuff, len⟩ chunk
    return conn.continued r
  | .exited => .ok (heap, conn, [])

def gaveUp : HeapReaduntil ⊕ Reading → Bool
  | .inl done => done.result == .nomem
  | .inr _ => false

def abandons : Bool :=
  match conn.rx with
  | .filled outbuff len chunk =>
    match readRound numbering Connection.newline ⟨heap, conn.stream, outbuff, len⟩ chunk with
    | .ok r => gaveUp r
    | .error _ => false
  | _ => false

end Client

namespace Process

variable (numbering descriptors : Numbering) (p : Process)

/-- `Server::bind` -/
def bind (answers : InitAnswers) : Process :=
  let (_, listener, sys) := tcpListenerInit descriptors p.sys p.listener answers
  { p with listener, sys }

/-- A round of `serve_forever`, with `ConnectionPool::push` for the stream accepted. -/
def accept (answer : Bool) (grants : List Bool) (reads : List Chunk) :
    Except ResourceFault Process := do
  let (result, accepting, sys) ← tcpListenerAccept numbering descriptors
    (granting p.sys grants) p.listener p.accepting answer reads
  let p := { p with accepting, sys }
  if result = .ok then return { p with conns := p.conns ++ [⟨accepting, false, .test⟩] }
  else return p

/-- `Server::~Server` -/
def destroy : Except ResourceFault Process := do
  let (_, listener, sys) ← tcpListenerDestroy p.sys p.listener
  return { p with listener, sys }

def rx (k : ℕ) (conn : Client) (grants : List Bool) : Except ResourceFault Process := do
  let (heap, conn, lines) ← conn.rxNext numbering (granting p.sys grants).heap
  return { p with
    sys := { p.sys with heap }, conns := p.conns.set k conn, lines := p.lines ++ lines }

/-- `Connection::terminate` -/
def terminate (k : ℕ) (conn : Client) : Except ResourceFault Process :=
  if conn.isKilled then .ok p
  else do
    let (_, stream, sys) ← tcpStreamDestroy p.sys conn.stream
    return { p with sys, conns := p.conns.set k { conn with stream, isKilled := true } }

/-- Who was given a line frees it. -/
def freeLine (i line : ℕ) : Except ResourceFault Process := do
  let heap ← p.sys.heap.free (some line)
  return { p with sys := { p.sys with heap }, lines := p.lines.eraseIdx i }

def next : ServerEvent → Option (Except ResourceFault Process)
  | .bind answers => some (.ok (p.bind descriptors answers))
  | .accept answer grants reads => some (p.accept numbering descriptors answer grants reads)
  | .destroy => some p.destroy
  | .rx k grants => p.conns[k]?.map fun conn => p.rx numbering k conn grants
  | .terminate k => p.conns[k]?.map fun conn => p.terminate k conn
  | .freeLine i => p.lines[i]?.map fun line => p.freeLine i line

/-- What a step leaves without an owner: the descriptor of a socket that cannot listen, of a
listener that is bound again, of a stream without a block, and the output of a call that gives
up. -/
def leaks : ServerEvent → List Leak
  | .bind answers =>
    match (tcpListenerInit descriptors p.sys p.listener answers).1 with
    | .cannotBindSocket | .listenFailed => [.file]
    | .ok => if p.listener.sockfd.isSome then [.file] else []
    | _ => []
  | .accept answer grants reads =>
    match tcpListenerAccept numbering descriptors (granting p.sys grants) p.listener p.accepting
      answer reads with
    | .ok (.nomem, _, _) => [.file]
    | _ => []
  | .rx k grants =>
    match p.conns[k]? with
    | some conn =>
      if conn.abandons numbering (granting p.sys grants).heap then [.block] else []
    | none => []
  | _ => []

def start : Process :=
  ⟨⟨⟨.empty, []⟩, .empty⟩, ⟨none⟩, ⟨none, none, 0, []⟩, [], []⟩

end Process

section Machine

variable (numbering descriptors : Numbering)

/-- A step of the process, which ends with a fault. -/
def processStep (p : Except ResourceFault Process) (l : ServerEvent) :
    Option (Except ResourceFault Process) :=
  match p with
  | .ok p => p.next numbering descriptors l
  | .error _ => none

def leaked (_ : List Leak) (p : Except ResourceFault Process) (l : ServerEvent)
    (_ : Except ResourceFault Process) : List Leak :=
  match p with
  | .ok p => p.leaks numbering descriptors l
  | .error _ => []

/-- The states that some run of the process reaches, with its record. -/
abbrev Serving (r : Logged (Except ResourceFault Process) Leak) : Prop :=
  Reach (logged (processStep numbering descriptors) (leaked numbering descriptors))
    (onState anyStep) (unlogged (· = .ok .start)) r

end Machine

section Uninterrupted

variable {numbering : Numbering} {heap : Heap UInt8} {conn : Client} {c : UInt8}

def RxAt.inCall : RxAt → Bool
  | .reading _ _ | .filled _ _ _ => true
  | _ => false

/-- The parts of a call one after the other, up to the one that returns to the loop. -/
inductive Client.Calls (numbering : Numbering) :
    Heap UInt8 → Client → Except ResourceFault RxResult → Prop
  | fails {heap : Heap UInt8} {conn : Client} {fault : ResourceFault}
    (h : conn.rxNext numbering heap = .error fault) : Calls numbering heap conn (.error fault)
  | returns {heap : Heap UInt8} {conn : Client} {next : RxResult}
    (h : conn.rxNext numbering heap = .ok next) (hrx : next.2.1.rx.inCall = false) :
    Calls numbering heap conn (.ok next)
  | goesOn {heap heap' : Heap UInt8} {conn conn' : Client} {result : Except ResourceFault RxResult}
    (h : conn.rxNext numbering heap = .ok (heap', conn', [])) (hrx : conn'.rx.inCall = true)
    (hrest : Calls numbering heap' conn' result) : Calls numbering heap conn result

theorem Client.returned_inCall (conn : Client) (done : HeapReaduntil) :
    (conn.returned done).2.1.rx.inCall = false := by
  rw [Client.returned]
  split <;> rfl

theorem Client.returned_congr {conn' : Client} (h : conn'.isKilled = conn.isKilled) :
    conn'.returned = conn.returned := by
  funext done
  rw [Client.returned, Client.returned, h]

theorem scanHeap_stream {found : Bool} {r r' : Reading} {bs : Bytes} {out : Option Bool}
    (h : scanHeap numbering c found r bs = .ok (r', out)) :
    r'.stream.sockfd = r.stream.sockfd ∧ r'.stream.reads = r.stream.reads := by
  induction bs generalizing found r with
  | nil =>
    cases h
    exact ⟨rfl, rfl⟩
  | cons b bs ih =>
    cases found with
    | true =>
      rw [scanHeap] at h
      obtain ⟨r₁, hhold, hrest⟩ := bind_eq_ok h
      obtain ⟨heap, -, hok⟩ := bind_eq_ok hhold
      cases hok
      have hsame := ih hrest
      exact hsame
    | false =>
      rw [scanHeap] at h
      split at h
      case isTrue =>
        dsimp only at h
        split at h
        case isTrue =>
          cases h
          exact ⟨rfl, rfl⟩
        case isFalse =>
          have hsame := ih h
          exact hsame
      case isFalse =>
        obtain ⟨r₁, hemit, hrest⟩ := bind_eq_ok h
        obtain ⟨heap, -, hok⟩ := bind_eq_ok hemit
        cases hok
        have hsame := ih hrest
        exact hsame

theorem readRound_stream {r r' : Reading} {chunk : Chunk}
    (h : readRound numbering c r chunk = .ok (.inr r')) :
    r'.stream.sockfd = r.stream.sockfd ∧ r'.stream.reads = r.stream.reads := by
  rw [readRound] at h
  obtain ⟨⟨outbuff, heap⟩, -, h⟩ := bind_eq_ok h
  dsimp only at h
  split at h
  case isTrue => cases h
  case isFalse =>
    obtain ⟨⟨r₁, found⟩, hscan, h⟩ := bind_eq_ok h
    have hsame := scanHeap_stream hscan
    cases found with
    | none => cases h
    | some all =>
      cases all with
      | false =>
        cases h
        exact hsame
      | true =>
        dsimp only at h
        split at h
        case isTrue =>
          obtain ⟨heap, -, h⟩ := bind_eq_ok h
          cases h
        case isFalse =>
          obtain ⟨⟨out, heap⟩, -, h⟩ := bind_eq_ok h
          obtain ⟨heap, -, h⟩ := bind_eq_ok h
          cases h

theorem readBegin_stream {stream : HeapStream} {r : Reading}
    (h : readBegin numbering heap stream c = .ok (.inr r)) :
    r.stream.sockfd = stream.sockfd ∧ r.stream.reads = stream.reads := by
  rw [readBegin] at h
  obtain ⟨found, -, h⟩ := bind_eq_ok h
  cases found with
  | none =>
    cases h
    exact ⟨rfl, rfl⟩
  | some i =>
    dsimp only at h
    split at h
    case isTrue => cases h
    case isFalse =>
      obtain ⟨held, -, h⟩ := bind_eq_ok h
      obtain ⟨heap, -, h⟩ := bind_eq_ok h
      obtain ⟨heap, -, h⟩ := bind_eq_ok h
      cases h

theorem calls_of_reading {outbuff : Pointer} {len : ℕ}
    (hopen : conn.stream.sockfd.isSome = true) (hrx : conn.rx = .reading outbuff len) :
    conn.Calls numbering heap ((readHeap numbering Connection.newline
      ⟨heap, conn.stream, outbuff, len⟩ conn.stream.reads).map conn.returned) := by
  generalize hreads : conn.stream.reads = reads
  induction reads generalizing heap conn outbuff len with
  | nil =>
    have harriving : conn.stream.arriving = [] := by
      rw [HeapStream.arriving_of_isSome hopen, hreads]
    have hsame : ({ conn.stream with reads := [] } : HeapStream) = conn.stream := by
      rw [← hreads]
    have hnext : conn.rxNext numbering heap =
        (readEnd ⟨heap, conn.stream, outbuff, len⟩).map conn.returned := by
      rw [Client.rxNext, hrx]
      dsimp only
      rw [harriving]
      rfl
    rw [readHeap]
    dsimp only
    rw [hsame]
    cases hend : readEnd ⟨heap, conn.stream, outbuff, len⟩ with
    | error fault =>
      rw [hend] at hnext
      exact .fails hnext
    | ok done =>
      rw [hend] at hnext
      exact .returns hnext (conn.returned_inCall done)
  | cons chunk reads ih =>
    have harriving : conn.stream.arriving = chunk :: reads := by
      rw [HeapStream.arriving_of_isSome hopen, hreads]
    set filled : Client := { conn with
      stream := { conn.stream with reads }, rx := .filled outbuff len chunk } with hfilled
    have hread : conn.rxNext numbering heap = .ok (heap, filled, []) := by
      rw [Client.rxNext, hrx]
      dsimp only
      rw [harriving]
    refine .goesOn hread rfl ?_
    have hround : filled.rxNext numbering heap =
        (readRound numbering Connection.newline
          ⟨heap, { conn.stream with reads }, outbuff, len⟩ chunk).map filled.continued := rfl
    rw [readHeap]
    dsimp only
    cases hr : readRound numbering Connection.newline
      ⟨heap, { conn.stream with reads }, outbuff, len⟩ chunk with
    | error fault =>
      rw [hr] at hround
      exact .fails hround
    | ok r =>
      rw [hr] at hround
      cases r with
      | inl done =>
        have hback : filled.returned = conn.returned := Client.returned_congr rfl
        rw [Except.map, Client.continued, hback] at hround
        exact .returns hround (conn.returned_inCall done)
      | inr r =>
        obtain ⟨hsockfd, hrest⟩ := readRound_stream hr
        set next : Client := { filled with
          stream := r.stream, rx := .reading r.outbuff r.len } with hnext
        have hback : next.returned = conn.returned := Client.returned_congr rfl
        have hopen' : next.stream.sockfd.isSome = true := by
          rw [hnext]
          dsimp only
          rw [hsockfd]
          exact hopen
        have hloop : next.Calls numbering r.heap _ := ih hopen' rfl hrest
        rw [hback] at hloop
        exact .goesOn hround rfl hloop

/-- Without a step of another thread in between, what an `rx_thread` does from the test of its
loop on is a call of `tcp_stream_readuntil`. -/
theorem calls_readuntil (hopen : conn.stream.sockfd.isSome = true) (hrx : conn.rx = .call) :
    conn.Calls numbering heap
      ((readuntilHeap numbering heap conn.stream Connection.newline).map conn.returned) := by
  have hnext : conn.rxNext numbering heap =
      (readBegin numbering heap conn.stream Connection.newline).map conn.continued := by
    rw [Client.rxNext, hrx]
    rfl
  rw [readuntilHeap]
  cases hbegin : readBegin numbering heap conn.stream Connection.newline with
  | error fault =>
    rw [hbegin] at hnext
    exact .fails hnext
  | ok r =>
    rw [hbegin] at hnext
    cases r with
    | inl done => exact .returns hnext (conn.returned_inCall done)
    | inr r =>
      obtain ⟨hsockfd, hreads⟩ := readBegin_stream hbegin
      set next : Client := { conn with
        stream := r.stream, rx := .reading r.outbuff r.len } with hnextConn
      have hback : next.returned = conn.returned := Client.returned_congr rfl
      have hopen' : next.stream.sockfd.isSome = true := by
        rw [hnextConn]
        dsimp only
        rw [hsockfd]
        exact hopen
      have hloop : next.Calls numbering r.heap _ := calls_of_reading hopen' rfl
      rw [hback, hnextConn] at hloop
      dsimp only at hloop
      rw [hreads, ← HeapStream.arriving_of_isSome hopen] at hloop
      exact .goesOn hnext rfl hloop

end Uninterrupted

end Chatd.Net.Server
