import Chatd.Protocol.Handlers.LastLock

/-! # The threads of the pool

The accepting thread, the garbage collector, and an `rx_thread` and a `tx_thread`
for each connection. A connection is logged in as one fixed user, and what it does
with a line is the handler of that line. Joining a thread is a step that is enabled
once the thread has exited. The transmit queue mutex is left out: its owner acquires
no other mutex and ends its critical section in any case, so no chain of waiting
threads goes through it.
-/
namespace Chatd.Net.Server
open Library Protocol

/-- The atomic flags of a connection, whether it is logged in, and what has become
of its two threads. -/
structure ConnFlags where
  created : Bool
  isReady : Bool
  isKilled : Bool
  isGracefullyTerminated : Bool
  authenticated : Bool
  rxExited : Bool
  txExited : Bool
  deriving DecidableEq, Repr

/-- `gracefully_terminate`, where a line ends in it. -/
def ConnFlags.exit (f : ConnFlags) (exits : Bool) : ConnFlags :=
  { f with isGracefullyTerminated := f.isGracefullyTerminated || exits }

/-- What the threads share: the data of the handlers, the connections with their
flags, the users who have registered, and `m_is_running`. -/
structure PoolState (κ υ : Type*) where
  shared : Shared κ υ
  flags : κ → ConnFlags
  conns : List κ
  users : List υ
  isRunning : Bool
  gcExited : Bool

inductive Thread (κ : Type*) where
  | main
  | gc
  | rx (k : κ)
  | tx (k : κ)
  deriving DecidableEq, Repr

/-- What the program leaves open: clients connecting, the end of accepting, what
`tcp_stream_readuntil` returns, wake-ups of the condition variable, and how the
queue and the socket answer. A `login` line looks a user up or adds one, an `other`
line takes no mutex; `exits` says whether the line ends in `gracefully_terminate`. -/
inductive Input (κ : Type*) where
  | accept (k : κ)
  | close
  | line (l : Line)
  | login (authenticated exits : Bool)
  | other (exits : Bool)
  | readFails
  | wake
  | written
  | drained
  | writeFails
  deriving DecidableEq, Repr

inductive MainPc (κ : Type*) where
  | serving
  | ready (k : κ)
  | lockConns (k : κ)
  | push (k : κ)
  | closed
  | destroy (i : ℕ)
  | strayRead
  deriving DecidableEq, Repr

inductive GcPc (κ : Type*) where
  | sleep
  | lockConns (terminated : Bool)
  | sweep (terminated : Bool) (i : ℕ)
  | kill (terminated : Bool) (i : ℕ) (k : κ)
  | joinRx (terminated : Bool) (i : ℕ) (k : κ)
  | joinTx (terminated : Bool) (i : ℕ) (k : κ)
  | exited
  deriving DecidableEq, Repr

inductive RxPc (υ : Type*) where
  | start
  | killedTest
  | loop
  | read
  | lockUsers
  | login
  | handling (p : Protocol.Pc υ)
  | teardown
  | exited
  deriving DecidableEq, Repr

inductive TxPc where
  | start
  | killedTest
  | head (initialMessage : Bool)
  | wait
  | drain
  | gracefulTest (terminated : Bool)
  | breakTest (terminated : Bool)
  | exited
  deriving DecidableEq, Repr

inductive ThreadPc (κ υ : Type*) where
  | main (p : MainPc κ)
  | gc (p : GcPc κ)
  | rx (p : RxPc υ)
  | tx (p : TxPc)
  deriving DecidableEq, Repr

abbrev PoolAct (κ υ π : Type*) := Act (Mutex υ) (PoolState κ υ) π

section Threads

variable {κ υ : Type*} [DecidableEq κ] [DecidableEq υ] (accounts : Accounts υ) (session : κ → υ)
  (a : Input κ) (d : PoolState κ υ)

def PoolState.setFlags (k : κ) (f : ConnFlags) : PoolState κ υ :=
  { d with flags := Function.update d.flags k f }

/-- `Server::serve_forever` with `ConnectionPool::push` for each accepted stream, and
`ConnectionPool::~ConnectionPool` behind it, up to a read behind the end of `m_conns`. -/
def mainNext : MainPc κ → PoolAct κ υ (MainPc κ)
  | .serving =>
    match a with
    | .accept k =>
      if (d.flags k).created then .halt
      else .act (d.setFlags k { d.flags k with created := true }) (.ready k)
    | .close => .act { d with isRunning := false } .closed
    | _ => .halt
  | .ready k => .act (d.setFlags k { d.flags k with isReady := true }) (.lockConns k)
  | .lockConns k => .lock .mConnsM (.push k)
  | .push k => .unlock .mConnsM { d with conns := d.conns ++ [k] } .serving
  | .closed => if d.gcExited then .act d (.destroy 0) else .halt
  | .destroy i =>
    -- the loop runs over the users and deletes `m_conns[i]`
    if i < d.users.length then
      match d.conns[i]? with
      | some _ => .act d (.destroy (i + 1))
      | none => .act d .strayRead
    else .halt
  | .strayRead => .halt

/-- The thread of `ConnectionPool::ConnectionPool`, with `Connection::shutdown` in place. -/
def gcNext : GcPc κ → PoolAct κ υ (GcPc κ)
  | .sleep => .act d (.lockConns !d.isRunning)
  | .lockConns terminated => .lock .mConnsM (.sweep terminated 0)
  | .sweep terminated i =>
    match d.conns[i]? with
    | none =>
      .unlock .mConnsM { d with gcExited := terminated } (if terminated then .exited else .sleep)
    | some k =>
      if terminated then .act d (.kill terminated i k)
      else if (d.flags k).isReady then .act d (.sweep terminated (i + 1))
      else .act { d with conns := d.conns.eraseIdx i } (.kill terminated i k)
  | .kill terminated i k =>
    .act (d.setFlags k { d.flags k with isKilled := true }) (.joinRx terminated i k)
  | .joinRx terminated i k =>
    if (d.flags k).rxExited then .act d (.joinTx terminated i k) else .halt
  | .joinTx terminated i k =>
    if (d.flags k).txExited then .act d (.sweep terminated (if terminated then i + 1 else i))
    else .halt
  | .exited => .halt

/-- `Connection::rx_thread` -/
def rxNext (k : κ) : RxPc υ → PoolAct κ υ (RxPc υ)
  | .start =>
    if (d.flags k).created = false then .halt
    else if (d.flags k).isReady then .act d .loop
    else .act d .killedTest
  | .killedTest =>
    if (d.flags k).isKilled then .act (d.setFlags k { d.flags k with rxExited := true }) .exited
    else .act d .start
  | .loop => if (d.flags k).isKilled then .act d .teardown else .act d .read
  | .read =>
    match a with
    | .readFails => .act (d.setFlags k { d.flags k with isReady := false }) .teardown
    | .line l => if (d.flags k).authenticated then .act d (.handling (enter l)) else .halt
    | .login _ _ => if (d.flags k).authenticated then .halt else .act d .lockUsers
    | .other exits => .act (d.setFlags k ((d.flags k).exit exits)) .loop
    | _ => .halt
  | .lockUsers => .lock .mUsersM .login
  | .login =>
    match a with
    | .login authenticated exits =>
      .unlock .mUsersM
        { d.setFlags k { (d.flags k).exit exits with authenticated := authenticated } with
          -- a user that cannot be looked up is added
          users := if authenticated && !d.users.contains (session k) then d.users ++ [session k]
            else d.users } .loop
    | _ => .halt
  | .handling p =>
    if p = .idle then .act d .loop
    else ((handle accounts k (session k) d.shared p).map .handling).mapData
      fun shared => { d with shared }
  | .teardown => .act (d.setFlags k { d.flags k with rxExited := true }) .exited
  | .exited => .halt

/-- `Connection::tx_thread` -/
def txNext (k : κ) : TxPc → PoolAct κ υ TxPc
  | .start =>
    if (d.flags k).created = false then .halt
    else if (d.flags k).isReady then .act d (.head true)
    else .act d .killedTest
  | .killedTest =>
    if (d.flags k).isKilled then .act (d.setFlags k { d.flags k with txExited := true }) .exited
    else .act d .start
  | .head initialMessage =>
    if (d.flags k).isKilled then .act (d.setFlags k { d.flags k with txExited := true }) .exited
    else if initialMessage then .act d .drain
    else .act d .wait
  | .wait => if a = .wake then .act d .drain else .halt
  | .drain =>
    match a with
    | .written => .act d .drain
    | .drained => .act d (.gracefulTest false)
    | .writeFails => .act (d.setFlags k { d.flags k with isReady := false }) (.gracefulTest true)
    | _ => .halt
  | .gracefulTest terminated =>
    if (d.flags k).isGracefullyTerminated then
      .act (d.setFlags k { d.flags k with isKilled := true }) (.breakTest terminated)
    else .act d (.breakTest terminated)
  | .breakTest terminated =>
    if terminated then .act (d.setFlags k { d.flags k with txExited := true }) .exited
    else .act d (.head false)
  | .exited => .halt

def poolProg : Prog (Thread κ) (Input κ) (Mutex υ) (PoolState κ υ) (ThreadPc κ υ) := fun t a d p =>
  match t, p with
  | .main, .main p => (mainNext a d p).map .main
  | .gc, .gc p => (gcNext d p).map .gc
  | .rx k, .rx p => (rxNext accounts session a d k p).map .rx
  | .tx k, .tx p => (txNext a d k p).map .tx
  | _, _ => .halt

def MainPc.held : MainPc κ → List (Mutex υ)
  | .push _ => [.mConnsM]
  | _ => []

def GcPc.held : GcPc κ → List (Mutex υ)
  | .sweep _ _ | .kill _ _ _ | .joinRx _ _ _ | .joinTx _ _ _ => [.mConnsM]
  | _ => []

def RxPc.held (u : υ) : RxPc υ → List (Mutex υ)
  | .login => [.mUsersM]
  | .handling p => Protocol.held u p
  | _ => []

def poolHeld : Thread κ → ThreadPc κ υ → List (Mutex υ)
  | .main, .main p => p.held
  | .gc, .gc p => p.held
  | .rx k, .rx p => p.held (session k)
  | _, _ => []

end Threads

abbrev PoolConfig (κ υ : Type*) := Config (Thread κ) (Mutex υ) (PoolState κ υ) (ThreadPc κ υ)

def opened (κ υ : Type*) : PoolConfig κ υ where
  data := {
    shared := ⟨.empty, [], []⟩
    flags := fun _ => ⟨false, false, false, false, false, false, false⟩
    conns := []
    users := []
    isRunning := true
    gcExited := false }
  pc
    | .main => .main .serving
    | .gc => .gc .sleep
    | .rx _ => .rx .start
    | .tx _ => .tx .start
  owner _ := none

/-- The `rx_thread` is in a handler that has a mutex still to acquire whose owner may
wait in turn. -/
def RxPc.mayWait {υ : Type*} : RxPc υ → Bool
  | .handling p => Protocol.mayWait p
  | _ => false

def ThreadPc.mayWait {κ υ : Type*} : ThreadPc κ υ → Bool
  | .rx p => p.mayWait
  | _ => false

/-- The thread is where the handler of a message calls `send_msg`. -/
def InSendMsg {κ υ : Type*} : ThreadPc κ υ → Prop
  | .rx (.handling (.chat (.lockConns _))) | .rx (.handling (.chat (.groupLoop _ _)))
  | .rx (.handling (.chat (.globalLoop _ _))) => True
  | _ => False

section Joining

variable {κ υ : Type*} [DecidableEq κ] [DecidableEq υ] (accounts : Accounts υ) (session : κ → υ)
  (c : PoolConfig κ υ)

/-- The garbage collector owns `m_conns_m` and waits to join the `rx_thread` of `k`, which
waits for `m_conns_m` in `send_msg`, directly or behind a chain of waiting threads. -/
def BlockedForGood : Prop :=
  ∃ terminated i k s, c.pc .gc = .gc (.joinRx terminated i k) ∧
    (c.data.flags k).rxExited = false ∧ c.owner .mConnsM = some .gc ∧
    Relation.ReflTransGen (WaitsFor (poolProg accounts session) c) (.rx k) s ∧
    Wants (poolProg accounts session) c s .mConnsM ∧ InSendMsg (c.pc s)

/-- The step leaves the garbage collector joining an `rx_thread` with such a mutex ahead:
`shutdown` kills the connection of one, or a thread that it joins takes another line. -/
def joinsHandler (l : Thread κ × Input κ) : Bool :=
  match c.pc .gc with
  | .gc (.kill _ _ k) => l.1 == .gc && (c.pc (.rx k)).mayWait
  | .gc (.joinRx _ _ k) =>
    l.1 == .rx k && c.pc (.rx k) == .rx .read && match l.2 with
      | .line _ => true
      | _ => false
  | _ => false

def JoinsQuiet : Prop :=
  ∀ terminated i k, c.pc .gc = .gc (.joinRx terminated i k) →
    (c.pc (.rx k)).mayWait = false

variable {accounts session c} {c' : PoolConfig κ υ} {k : κ} {a : Input κ} {d d' : PoolState κ υ}
  {t : Thread κ} {m : Mutex υ}

theorem rx_of_moves {p q : ThreadPc κ υ}
    (h : (poolProg accounts session (.rx k) a d p).Moves d d' q) :
    ∃ p' q', p = .rx p' ∧ q = .rx q' ∧ (rxNext accounts session a d k p').Moves d d' q' := by
  cases p with
  | rx p =>
    obtain ⟨q', hq, rfl⟩ := Act.moves_map.mp h
    exact ⟨p, q', rfl, rfl, hq⟩
  | _ => exact h.elim

theorem rx_of_locks {p : ThreadPc κ υ} (h : (poolProg accounts session (.rx k) a d p).Locks m) :
    ∃ p', p = .rx p' ∧ (rxNext accounts session a d k p').Locks m := by
  cases p with
  | rx p => exact ⟨p, rfl, Act.locks_map.mp h⟩
  | _ => exact h.elim

omit [DecidableEq υ] in
theorem kill_of_moves {p : GcPc κ} {terminated : Bool} {i : ℕ}
    (h : (gcNext d p).Moves d d' (.joinRx terminated i k)) : p = .kill terminated i k := by
  cases p <;> grind [gcNext, Act.Moves]

theorem rxNext_locksIn {p : Protocol.Pc υ} (h : Protocol.mayWait p = false) :
    (rxNext accounts session a d k (.handling p)).LocksIn isLeaf fun q => q.mayWait = false := by
  rw [rxNext]
  split
  · rfl
  · exact Act.locksIn_mapData.mpr (Act.locksIn_map.mpr (handle_locksIn h))

/-- An `rx_thread` without such a mutex ahead stays so, unless it takes another line. -/
theorem mayWait_of_moves {p q : RxPc υ} (h : (rxNext accounts session a d k p).Moves d d' q)
    (hp : p.mayWait = false) (hline : p = .read → ∀ l, a ≠ .line l) : q.mayWait = false := by
  cases p with
  | handling p => exact (rxNext_locksIn hp).moves h
  | read => cases a <;> grind [rxNext, Act.Moves, RxPc.mayWait]
  | login => cases a <;> grind [rxNext, Act.Moves, RxPc.mayWait]
  | _ => grind [rxNext, Act.Moves, RxPc.mayWait]

theorem JoinsQuiet.step (hI : JoinsQuiet c) {l : Thread κ × Input κ}
    (hs : Library.step (poolProg accounts session) c l = some c') (hok : joinsHandler c l = false) :
    JoinsQuiet c' := by
  obtain ⟨t, a⟩ := l
  obtain ⟨hm, hother⟩ := step_moves hs
  intro terminated i k hgc
  by_cases ht : t = .gc
  · subst ht
    rw [hother (.rx k) (by simp)]
    cases hp : c.pc .gc with
    | gc p =>
      rw [hp] at hm
      obtain ⟨q, hq, hq'⟩ := Act.moves_map.mp hm
      rw [hgc] at hq'
      cases hq'
      rw [kill_of_moves hq] at hp
      simpa [joinsHandler, hp] using hok
    | _ => rw [hp] at hm; exact hm.elim
  · rw [hother .gc (Ne.symm ht)] at hgc
    have hquiet := hI terminated i k hgc
    by_cases hk : t = .rx k
    · subst hk
      obtain ⟨p, q, hp, hq, hmoves⟩ := rx_of_moves hm
      rw [hp] at hquiet
      rw [hq]
      apply mayWait_of_moves hmoves hquiet
      intro hread l hl
      simp [joinsHandler, hgc, hp, hread, hl] at hok
    · rw [hother (.rx k) (Ne.symm hk)]
      exact hquiet

omit [DecidableEq υ] in
theorem mainNext_keeps (p : MainPc κ) :
    (mainNext a d p).Keeps (MainPc.held : MainPc κ → List (Mutex υ)) p.held := by
  cases p with
  | serving => cases a <;> grind [mainNext, Act.Keeps, MainPc.held]
  | _ => grind [mainNext, Act.Keeps, MainPc.held]

omit [DecidableEq υ] in
theorem gcNext_keeps (p : GcPc κ) :
    (gcNext d p).Keeps (GcPc.held : GcPc κ → List (Mutex υ)) p.held := by
  cases p <;> grind [gcNext, Act.Keeps, GcPc.held]

theorem rxNext_keeps (p : RxPc υ) :
    (rxNext accounts session a d k p).Keeps (RxPc.held (session k)) (p.held (session k)) := by
  cases p with
  | handling p =>
    rw [rxNext]
    split
    case isTrue hp => rw [hp]; rfl
    case isFalse => exact Act.keeps_mapData.mpr (Act.keeps_map.mpr (handle_keeps p))
  | read => cases a <;> grind [rxNext, Act.Keeps, RxPc.held, held_enter]
  | login => cases a <;> grind [rxNext, Act.Keeps, RxPc.held]
  | _ => grind [rxNext, Act.Keeps, RxPc.held]

omit [DecidableEq υ] in
theorem txNext_keeps (p : TxPc) :
    (txNext a d k p).Keeps (fun _ => ([] : List (Mutex υ))) [] := by
  cases p with
  | drain => cases a <;> grind [txNext, Act.Keeps]
  | _ => grind [txNext, Act.Keeps]

theorem poolProg_scoped : Scoped (poolProg accounts session) (poolHeld session) := by
  apply Scoped.of_keeps
  intro t a d p
  cases t with
  | main =>
    cases p with
    | main p => exact Act.keeps_map.mpr (mainNext_keeps p)
    | _ => trivial
  | gc =>
    cases p with
    | gc p => exact Act.keeps_map.mpr (gcNext_keeps p)
    | _ => trivial
  | rx k =>
    cases p with
    | rx p => exact Act.keeps_map.mpr (rxNext_keeps p)
    | _ => trivial
  | tx k =>
    cases p with
    | tx p => exact Act.keeps_map.mpr (txNext_keeps p)
    | _ => trivial

/-- A thread that the garbage collector joins waits for leaf mutexes only. -/
theorem isLeaf_of_wants (hk : (c.pc (.rx k)).mayWait = false)
    (h : Wants (poolProg accounts session) c (.rx k) m) : isLeaf m := by
  obtain ⟨a, h⟩ := h
  obtain ⟨p, hp, h⟩ := rx_of_locks h
  rw [hp] at hk
  cases p with
  | lockUsers => rw [← h]; trivial
  | handling p => exact (rxNext_locksIn hk).locks h
  | read => cases a <;> grind [rxNext, Act.Locks]
  | login => cases a <;> exact h.elim
  | _ => grind [rxNext, Act.Locks]

omit [DecidableEq κ] [DecidableEq υ] in
theorem MainPc.not_isLeaf {p : MainPc κ} (h : m ∈ p.held) : ¬ isLeaf m := by
  cases p with
  | push k => obtain rfl := List.mem_singleton.mp h; exact id
  | _ => cases h

omit [DecidableEq κ] [DecidableEq υ] in
theorem GcPc.not_isLeaf {p : GcPc κ} (h : m ∈ p.held) : ¬ isLeaf m := by
  cases p with
  | sleep | lockConns _ | exited => cases h
  | _ => obtain rfl := List.mem_singleton.mp h; exact id

omit [DecidableEq κ] [DecidableEq υ] in
theorem rx_of_isLeaf {p : ThreadPc κ υ} (hm : isLeaf m) (h : m ∈ poolHeld session t p) :
    ∃ k q, t = .rx k ∧ p = .rx q ∧ m ∈ q.held (session k) := by
  cases t with
  | main =>
    cases p with
    | main p => exact absurd hm (p.not_isLeaf h)
    | _ => cases h
  | gc =>
    cases p with
    | gc p => exact absurd hm (p.not_isLeaf h)
    | _ => cases h
  | rx k =>
    cases p with
    | rx q => exact ⟨k, q, rfl, rfl, h⟩
    | _ => cases h
  | tx k => cases p <;> cases h

/-- The owner of a leaf mutex waits for nothing. -/
theorem not_wants_of_isLeaf {n : Mutex υ} (hn : isLeaf n) (ht : n ∈ poolHeld session t (c.pc t)) :
    ¬ Wants (poolProg accounts session) c t m := by
  rintro ⟨a, h⟩
  obtain ⟨k, q, rfl, hq, hheld⟩ := rx_of_isLeaf hn ht
  rw [hq] at h
  have h := Act.locks_map.mp h
  cases q with
  | login => cases a <;> exact h.elim
  | handling p =>
    rw [rxNext] at h
    split at h
    · exact h.elim
    · have hpool := not_isPool_of_locks (Act.locks_map.mp (Act.locks_mapData.mp h)) hheld
      rw [isPool_of_isLeaf hn] at hpool
      cases hpool
  | _ => cases hheld

/-- A thread that the garbage collector joins is not in the way of the join. -/
theorem not_blockedForGood (hown : Owned (poolHeld session) c) (hI : JoinsQuiet c) :
    ¬ BlockedForGood accounts session c := by
  rintro ⟨terminated, i, k, s, hgc, -, -, hchain, hwants, -⟩
  have hk := hI terminated i k hgc
  rcases hchain.cases_head with rfl | ⟨t, ⟨m, hm, howner⟩, ht⟩
  · exact isLeaf_of_wants hk hwants
  · have hleaf := isLeaf_of_wants hk hm
    have hheld := (hown.owner_iff _ t).mp howner
    rcases ht.cases_head with rfl | ⟨t', ⟨m, hm, -⟩, -⟩
    · exact not_wants_of_isLeaf hleaf hheld hwants
    · exact not_wants_of_isLeaf hleaf hheld hm

/-- If `shutdown` never kills a connection whose `rx_thread` is in a handler with a mutex
still to acquire whose owner may wait, and no thread being joined takes another line, the
garbage collector never blocks the pool for good. -/
theorem not_blockedForGood_of_reach
    (h : Reach (step (poolProg accounts session)) (fun c l _ => joinsHandler c l = false)
      (· = opened κ υ) c) : ¬ BlockedForGood accounts session c := by
  have hown : Owned (poolHeld session) c := by
    refine Owned.of_reach poolProg_scoped ?_ h
    rintro _ rfl
    refine owned_of_free (fun t => ?_) fun _ => rfl
    cases t <;> rfl
  have hI : JoinsQuiet c := by
    refine h.invariant ?_ fun _ _ _ hI hs hok => hI.step hs hok
    rintro _ rfl terminated i k hgc
    cases hgc
  exact not_blockedForGood hown hI

end Joining

section Schedules

def loggedIn : List (Thread Unit × Input Unit) :=
  (.main, .accept ()) :: List.replicate 3 (.main, .wake) ++
    [(.rx (), .wake), (.rx (), .wake), (.rx (), .login true false), (.rx (), .wake),
      (.rx (), .login true false), (.rx (), .wake)]

def writeFailed : List (Thread Unit × Input Unit) :=
  [(.tx (), .wake), (.tx (), .wake), (.tx (), .writeFails)]

def collected : List (Thread Unit × Input Unit) := List.replicate 4 (.gc, .wake)

/-- The garbage collector joins a thread that ends its `/subscribe`. -/
theorem not_blockedForGood_subscribe :
    ∃ c : PoolConfig Unit Bool, c.pc .gc = .gc (.joinRx false 0 ()) ∧
      c.pc (.rx ()) = .rx (.handling (.subscribe .unlockUser)) ∧
      ¬ BlockedForGood pair (fun _ => true) c := by
  have hok (c : PoolConfig Unit Bool) (l : Thread Unit × Input Unit) (c' : PoolConfig Unit Bool)
      (hc : (!joinsHandler c l) = true) (_ : step (poolProg pair fun _ => true) c l = some c') :
      joinsHandler c l = false := by simpa using hc
  have hrun : ∃ c : PoolConfig Unit Bool,
      Reach (step (poolProg pair fun _ => true)) (fun c l _ => joinsHandler c l = false)
        (· = opened Unit Bool) c ∧
        (c.pc .gc == .gc (.joinRx false 0 ()) &&
          c.pc (.rx ()) == .rx (.handling (.subscribe .unlockUser))) = true :=
    exists_reach_of_checkedRun hok rfl
      (loggedIn ++ [(.rx (), .line (.subscribe (ascii "room") (ascii "pw")))] ++
        List.replicate 11 (.rx (), .wake) ++ writeFailed ++ collected) (by decide)
  obtain ⟨c, hr, hc⟩ := hrun
  rw [Bool.and_eq_true, beq_iff_eq, beq_iff_eq] at hc
  exact ⟨c, hc.1, hc.2, not_blockedForGood_of_reach hr⟩

/-- A write fails while the `rx_thread` is on its way to `send_msg`. -/
theorem blockedForGood_direct_message :
    ¬ ∀ c : PoolConfig Unit Bool,
      Reach (step (poolProg pair fun _ => true)) anyStep (· = opened Unit Bool) c →
        ¬ BlockedForGood pair (fun _ => true) c := by
  intro h
  have hrun : ∃ c : PoolConfig Unit Bool,
      Reach (step (poolProg pair fun _ => true)) anyStep (· = opened Unit Bool) c ∧
        (c.pc .gc == .gc (.joinRx false 0 ()) && (!(c.data.flags ()).rxExited &&
          (c.owner .mConnsM == some .gc &&
            c.pc (.rx ()) == .rx (.handling (.chat (.lockConns (ascii "bob"))))))) = true :=
    exists_reach_of_run rfl
      (loggedIn ++ [(.rx (), .line (.message (.direct (ascii "bob") (ascii "hi"))))] ++
        writeFailed ++ collected) (by decide)
  obtain ⟨c, hr, hc⟩ := hrun
  simp only [Bool.and_eq_true, beq_iff_eq, Bool.not_eq_true'] at hc
  obtain ⟨hgc, hexited, howner, hrx⟩ := hc
  have hwants : Wants (poolProg pair fun _ => true) c (.rx ()) .mConnsM :=
    ⟨.wake, by rw [hrx]; rfl⟩
  exact h c hr ⟨false, 0, (), .rx (), hgc, hexited, howner, .refl, hwants, by rw [hrx]; trivial⟩

end Schedules

end Chatd.Net.Server
