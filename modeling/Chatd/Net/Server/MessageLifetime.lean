import Chatd.Library.Reach
import Chatd.Library.SharedPtr
import Chatd.Protocol.Dispatch

/-! # The lifetime of a chat message

Every call of `send_msg` makes a shared pointer from the raw message and queues a
heap copy of it at each connection of the addressed user. `tx_thread` deletes the
payload it has popped, and with it the pointer to the copy, but not the copy. So a
call destroys the message exactly when it finds no connection, and the message
outlives the others.
-/
namespace Chatd.Net.Server
open Library Protocol

/-- What `send_msg` looks at in a connection. -/
structure Conn (κ : Type*) where
  id : κ
  user : Option Bytes

/-- A call of `send_msg`: the addressed name, whether it is read out of the message,
and `m_conns` while the call holds its mutex. -/
structure Visit (κ : Type*) where
  username : Bytes
  inMessage : Bool
  conns : List (Conn κ)

/-- The connection belongs to the addressed user. -/
def Visit.matches {κ : Type*} (v : Visit κ) (conn : Conn κ) : Bool :=
  conn.user == some v.username

def Visit.online {κ : Type*} (v : Visit κ) : Bool := v.conns.any v.matches

/-- Where the dispatching thread is: before its next call, or in the loop of one. -/
inductive DispatchPc (κ : Type*) where
  | calling (visits : List (Visit κ))
  | sending (msg : ℕ) (visit : Visit κ) (conns : List (Conn κ)) (visits : List (Visit κ))

/-- The message, the dispatching thread, and the control blocks queued at each connection. -/
structure MessageState (κ : Type*) where
  object : SharedObject
  pc : DispatchPc κ
  queue : κ → List ℕ

/-- A step of the dispatching thread, or of a `tx_thread` that pops its next payload. -/
inductive MessageStep (κ : Type*) where
  | dispatch
  | tx (conn : κ)

section Steps

variable {κ : Type*} [DecidableEq κ]

/-- `Connection::send_message`: the copy for the parameter, and the heap copy that is queued. -/
def sendMessage (s : MessageState κ) (msg : ℕ) (conn : κ) : MessageState κ :=
  { s with
    object := ((s.object.copy msg).copy msg).release msg
    queue := Function.update s.queue conn (s.queue conn ++ [msg]) }

/-- `strcmp(conn->user->name, username)` reads the message if the name lies in it. -/
def readUsername (s : MessageState κ) (visit : Visit κ) (conn : Conn κ) : MessageState κ :=
  if visit.inMessage && conn.user.isSome then { s with object := s.object.read } else s

/-- One round of the loop of `send_msg`. -/
def sendRound (s : MessageState κ) (msg : ℕ) (visit : Visit κ) (conn : Conn κ) : MessageState κ :=
  if visit.matches conn then sendMessage (readUsername s visit conn) msg conn.id
  else readUsername s visit conn

def messageStep (s : MessageState κ) : MessageStep κ → Option (MessageState κ)
  | .dispatch =>
    match s.pc with
    | .calling [] => none
    | .calling (v :: visits) =>
      some { s with object := s.object.construct, pc := .sending s.object.next v v.conns visits }
    | .sending msg v (conn :: conns) visits =>
      some { sendRound s msg v conn with pc := .sending msg v conns visits }
    | .sending msg _ [] visits =>
      some { s with object := s.object.release msg, pc := .calling visits }
  | .tx conn =>
    match s.queue conn with
    | [] => none
    -- `delete payload` leaves the heap copy of the shared pointer alone
    | _ :: queue =>
      some { s with object := s.object.read, queue := Function.update s.queue conn queue }

def parsed (visits : List (Visit κ)) : MessageState κ := ⟨.raw, .calling visits, fun _ => []⟩

end Steps

section Accounting

variable {κ : Type*} {visits : List (Visit κ)}

/-- The queues are empty until a copy has been queued, and stay non-empty from then on
if no `tx_thread` runs. -/
def QueueTracks (noTx : Prop) (queue : κ → List ℕ) (queued : Bool) : Prop :=
  (queued = false → ∀ k, queue k = []) ∧ (noTx → queued = true → ∃ k, queue k ≠ [])

/-- The calls completed so far determine how often the message has been destroyed. -/
inductive Accounting (noTx : Prop) (visits : List (Visit κ)) : MessageState κ → Prop
  | calling {o : SharedObject} {queue : κ → List ℕ} (completed rest : List (Visit κ))
      (hvisits : visits = completed ++ rest)
      (hdestroyed : o.destroyed = completed.countP fun v => !v.online)
      (hqueue : QueueTracks noTx queue (completed.any Visit.online)) :
      Accounting noTx visits ⟨o, .calling rest, queue⟩
  | sending {o : SharedObject} {queue : κ → List ℕ} {msg : ℕ} {v : Visit κ}
      (completed rest : List (Visit κ)) (sent conns : List (Conn κ))
      (hvisits : visits = completed ++ v :: rest) (hconns : v.conns = sent ++ conns)
      (hdestroyed : o.destroyed = completed.countP fun v => !v.online)
      (hrefs : o.refs msg = sent.countP v.matches + 1)
      (hqueue : QueueTracks noTx queue (completed.any Visit.online || sent.any v.matches)) :
      Accounting noTx visits ⟨o, .sending msg v conns rest, queue⟩

theorem accounting_parsed (noTx : Prop) (visits : List (Visit κ)) :
    Accounting noTx visits (parsed visits) :=
  .calling [] visits rfl rfl ⟨fun _ _ => rfl, fun _ h => by cases h⟩

variable [DecidableEq κ] {noTx : Prop} {s s' : MessageState κ}

omit [DecidableEq κ] in
theorem readUsername_refs (v : Visit κ) (conn : Conn κ) :
    (readUsername s v conn).object.refs = s.object.refs := by
  rw [readUsername]
  split <;> rfl

omit [DecidableEq κ] in
theorem readUsername_destroyed (v : Visit κ) (conn : Conn κ) :
    (readUsername s v conn).object.destroyed = s.object.destroyed := by
  rw [readUsername]
  split <;> rfl

omit [DecidableEq κ] in
theorem readUsername_queue (v : Visit κ) (conn : Conn κ) :
    (readUsername s v conn).queue = s.queue := by
  rw [readUsername]
  split <;> rfl

theorem queueTracks_push (queue : κ → List ℕ) (queued : Bool) (k : κ) (msg : ℕ) :
    QueueTracks noTx (Function.update queue k (queue k ++ [msg])) (queued || true) :=
  ⟨fun h => by simp at h, fun _ _ => ⟨k, by simp⟩⟩

theorem sendMessage_object (msg : ℕ) (k : κ) :
    (sendMessage s msg k).object.refs msg = s.object.refs msg + 1 ∧
      (sendMessage s msg k).object.destroyed = s.object.destroyed := by
  refine ⟨by simp [sendMessage], ?_⟩
  rw [sendMessage, SharedObject.release_destroyed_of_ne (by simp)]
  rfl

theorem accounting_sendRound {msg : ℕ} {v : Visit κ} {completed rest : List (Visit κ)}
    {sent conns : List (Conn κ)} {conn : Conn κ}
    (hvisits : visits = completed ++ v :: rest) (hconns : v.conns = sent ++ conn :: conns)
    (hdestroyed : s.object.destroyed = completed.countP fun v => !v.online)
    (hrefs : s.object.refs msg = sent.countP v.matches + 1)
    (hqueue : QueueTracks noTx s.queue (completed.any Visit.online || sent.any v.matches)) :
    Accounting noTx visits { sendRound s msg v conn with pc := .sending msg v conns rest } := by
  have hsent : v.conns = sent ++ [conn] ++ conns := by simp [hconns]
  rw [sendRound]
  by_cases hmatch : v.matches conn = true
  · rw [if_pos hmatch]
    obtain ⟨hr, hd⟩ := sendMessage_object (s := readUsername s v conn) msg conn.id
    refine .sending completed rest (sent ++ [conn]) conns hvisits hsent (hd.trans ?_)
      (hr.trans ?_) ?_
    · rw [readUsername_destroyed, hdestroyed]
    · rw [readUsername_refs, hrefs]
      simp [hmatch]
    · have hq : QueueTracks noTx _ _ := queueTracks_push (readUsername s v conn).queue
        (completed.any Visit.online || sent.any v.matches) conn.id msg
      simpa [hmatch, sendMessage] using hq
  · rw [if_neg hmatch]
    refine .sending completed rest (sent ++ [conn]) conns hvisits hsent ?_ ?_ ?_
    · rw [readUsername_destroyed, hdestroyed]
    · rw [readUsername_refs, hrefs]
      simp [hmatch]
    · rw [readUsername_queue]
      simpa [hmatch] using hqueue

theorem accounting_dispatch (h : Accounting noTx visits s)
    (hs : messageStep s .dispatch = some s') : Accounting noTx visits s' := by
  cases h with
  | calling completed rest hvisits hdestroyed hqueue =>
    cases rest with
    | nil => cases hs
    | cons v rest =>
      cases hs
      exact .sending completed rest [] v.conns hvisits rfl hdestroyed (by simp)
        (by simpa using hqueue)
  | sending completed rest sent conns hvisits hconns hdestroyed hrefs hqueue =>
    cases conns with
    | nil =>
      cases hs
      rename_i o queue msg v
      have honline : v.online = sent.any v.matches := by
        rw [Visit.online, hconns, List.append_nil]
      refine .calling (completed ++ [v]) rest (by simp [hvisits]) ?_
        (by simpa [honline] using hqueue)
      rw [List.countP_append, List.countP_singleton, ← hdestroyed, honline]
      -- The last pointer of the block is released exactly if nothing was queued.
      cases hany : sent.any v.matches with
      | true =>
        have hpos : 0 < sent.countP v.matches := by
          simpa [List.countP_pos_iff] using hany
        have hne : o.refs msg ≠ 1 := by omega
        rw [SharedObject.release_destroyed_of_ne hne]
        rfl
      | false =>
        have hzero : sent.countP v.matches = 0 := by
          simpa [List.countP_eq_zero] using hany
        have hone : o.refs msg = 1 := by omega
        rw [SharedObject.release_destroyed_of_one hone]
        rfl
    | cons conn conns =>
      cases hs
      exact accounting_sendRound hvisits hconns hdestroyed hrefs hqueue

theorem messageStep_tx {k : κ} (hs : messageStep s (.tx k) = some s') :
    ∃ msg rest, s.queue k = msg :: rest ∧
      s' = { s with object := s.object.read, queue := Function.update s.queue k rest } := by
  cases hk : s.queue k with
  | nil =>
    simp only [messageStep, hk] at hs
    cases hs
  | cons msg rest =>
    simp only [messageStep, hk, Option.some.injEq] at hs
    exact ⟨msg, rest, rfl, hs.symm⟩

theorem accounting_tx {k : κ} (h : Accounting False visits s)
    (hs : messageStep s (.tx k) = some s') : Accounting False visits s' := by
  obtain ⟨msg, rest, hk, rfl⟩ := messageStep_tx hs
  have hnonempty (queued : Bool) (hq : QueueTracks False s.queue queued) :
      QueueTracks False (Function.update s.queue k rest) queued := by
    refine ⟨fun hqueued => ?_, fun hf => hf.elim⟩
    rw [hq.1 hqueued k] at hk
    cases hk
  cases h with
  | calling completed visits hvisits hdestroyed hqueue =>
    exact .calling completed visits hvisits hdestroyed (hnonempty _ hqueue)
  | sending completed visits sent conns hvisits hconns hdestroyed hrefs hqueue =>
    exact .sending completed visits sent conns hvisits hconns hdestroyed hrefs
      (hnonempty _ hqueue)

omit [DecidableEq κ] in
/-- If at most one call is made or all find a connection, the message is destroyed
only at the end, with nothing queued. -/
theorem destroyed_cases (h : Accounting noTx visits s)
    (hvisits : visits.length ≤ 1 ∨ ∀ v ∈ visits, v.online = true) :
    s.object.destroyed = 0 ∨
      s.object.destroyed = 1 ∧ s.pc = .calling [] ∧ ∀ k, s.queue k = [] := by
  rcases hvisits with hlen | honline
  · cases h with
    | calling completed rest hv hdestroyed hqueue =>
      match completed with
      | [] => exact .inl hdestroyed
      | [v] =>
        cases hon : v.online with
        | true => exact .inl (by simpa [hon] using hdestroyed)
        | false =>
          have hrest : rest = [] := by
            rw [hv] at hlen
            simpa using hlen
          subst hrest
          exact .inr ⟨by simpa [hon] using hdestroyed, rfl, hqueue.1 (by simp [hon])⟩
      | v :: v' :: completed => simp [hv] at hlen
    | sending completed rest sent conns hv hconns hdestroyed hrefs hqueue =>
      have hnil : completed = [] := by
        rw [hv] at hlen
        simp only [List.length_append, List.length_cons] at hlen
        exact List.eq_nil_of_length_eq_zero (by omega)
      subst hnil
      exact .inl hdestroyed
  · left
    have hzero (completed rest : List (Visit κ)) (hv : visits = completed ++ rest) :
        (completed.countP fun v => !v.online) = 0 := by
      rw [List.countP_eq_zero]
      intro v hmem
      simp [honline v (by simp [hv, hmem])]
    cases h with
    | calling completed rest hv hdestroyed hqueue => exact hdestroyed.trans (hzero _ _ hv)
    | sending completed rest sent conns hv hconns hdestroyed hrefs hqueue =>
      exact hdestroyed.trans (hzero _ _ hv)

theorem readDestroyed_step {l : MessageStep κ} (hs : messageStep s l = some s')
    (hlive : s.object.destroyed = 0) : s'.object.readDestroyed = s.object.readDestroyed := by
  cases l with
  | dispatch =>
    obtain ⟨object, pc, queue⟩ := s
    match pc with
    | .calling [] => cases hs
    | .calling (v :: visits) => cases hs; rfl
    | .sending msg v [] visits => cases hs; rfl
    | .sending msg v (conn :: conns) visits =>
      cases hs
      have hread : readUsername ⟨object, .sending msg v (conn :: conns) visits, queue⟩ v conn =
          ⟨object, .sending msg v (conn :: conns) visits, queue⟩ := by
        rw [readUsername, SharedObject.read_of_live hlive, ite_self]
      rw [sendRound, hread]
      by_cases hmatch : v.matches conn = true
      · rw [if_pos hmatch]
        rfl
      · rw [if_neg hmatch]
  | tx k =>
    obtain ⟨msg, rest, -, rfl⟩ := messageStep_tx hs
    rw [SharedObject.read_of_live hlive]

theorem accounting_of_reach (h : Reach messageStep anyStep (· = parsed visits) s) :
    Accounting False visits s := by
  apply Reach.invariant (I := Accounting False visits) _ _ h
  · rintro _ rfl
    exact accounting_parsed False visits
  · intro s l s' hacc hs _
    cases l with
    | dispatch => exact accounting_dispatch hacc hs
    | tx k => exact accounting_tx hacc hs

/-- What holds in every state of every run if at most one call is made or all find a
connection. -/
theorem safe_of_reach (hvisits : visits.length ≤ 1 ∨ ∀ v ∈ visits, v.online = true)
    (h : Reach messageStep anyStep (· = parsed visits) s) : s.object.Safe := by
  have hread : s.object.readDestroyed = false := by
    apply Reach.invariant_reached (I := fun s => s.object.readDestroyed = false) _ _ h
    · rintro _ rfl
      rfl
    · intro s l s' hr hread hs _
      rcases destroyed_cases (accounting_of_reach hr) hvisits with hlive | ⟨-, hpc, hqueue⟩
      · rw [readDestroyed_step hs hlive, hread]
      · cases l with
        | dispatch => simp [messageStep, hpc] at hs
        | tx k => simp [messageStep, hqueue] at hs
  refine ⟨?_, hread⟩
  rcases destroyed_cases (accounting_of_reach h) hvisits with hlive | ⟨hone, -⟩ <;> omega

def callSteps : List (Visit κ) → ℕ
  | [] => 0
  | v :: visits => v.conns.length + 2 + callSteps visits

def remaining : DispatchPc κ → ℕ
  | .calling visits => callSteps visits
  | .sending _ _ conns visits => conns.length + 1 + callSteps visits

theorem exists_dispatch_step (h : s.pc ≠ .calling []) :
    ∃ s', messageStep s .dispatch = some s' ∧ remaining s'.pc < remaining s.pc := by
  obtain ⟨object, pc, queue⟩ := s
  match pc with
  | .calling [] => exact absurd rfl h
  | .calling (v :: visits) =>
    refine ⟨_, rfl, ?_⟩
    simp only [remaining, callSteps]
    omega
  | .sending msg v [] visits =>
    refine ⟨_, rfl, ?_⟩
    simp only [remaining]
    omega
  | .sending msg v (conn :: conns) visits =>
    refine ⟨_, rfl, ?_⟩
    simp only [remaining, List.length_cons]
    omega

theorem exists_dispatched
    (h : Reach messageStep (fun _ l _ => l = .dispatch) (· = parsed visits) s) :
    ∃ s', Reach messageStep (fun _ l _ => l = .dispatch) (· = parsed visits) s' ∧
      s'.pc = .calling [] := by
  induction hn : remaining s.pc using Nat.strongRecOn generalizing s with
  | _ n ih =>
    by_cases hpc : s.pc = .calling []
    · exact ⟨s, h, hpc⟩
    · obtain ⟨s', hs, hlt⟩ := exists_dispatch_step hpc
      exact ih _ (hn ▸ hlt) (h.next hs rfl) rfl

theorem safe_iff (visits : List (Visit κ)) :
    (∀ s, Reach messageStep anyStep (· = parsed visits) s → s.object.Safe) ↔
      visits.length ≤ 1 ∨ ∀ v ∈ visits, v.online = true := by
  refine ⟨fun hsafe => ?_, fun hvisits s h => safe_of_reach hvisits h⟩
  by_contra hno
  rw [not_or, Nat.not_le] at hno
  obtain ⟨hlen, hoffline⟩ := hno
  obtain ⟨s, hr, hpc⟩ := exists_dispatched (.start (rfl : parsed visits = parsed visits))
  have hacc : Accounting True visits s := by
    refine hr.invariant (I := Accounting True visits) ?_ ?_
    · rintro _ rfl
      exact accounting_parsed True visits
    · rintro s l s' hI hs rfl
      exact accounting_dispatch hI hs
  have hany : Reach messageStep anyStep (· = parsed visits) s := hr.mono fun _ _ _ _ => trivial
  have hle := (hsafe s hany).1
  cases hacc with
  | sending => cases hpc
  | calling completed rest hv hdestroyed hqueue =>
    cases hpc
    rw [List.append_nil] at hv
    subst hv
    -- All calls are over: one of two or more has found a connection, its copy is still queued.
    have hcount : (visits.countP fun v => !v.online) ≤ 1 := hdestroyed ▸ hle
    have honline : visits.any Visit.online = true := by
      by_contra hnone
      have hall : (visits.countP fun v => !v.online) = visits.length := by
        rw [List.countP_eq_length]
        intro v hv
        simpa using fun h => hnone (List.any_eq_true.mpr ⟨v, hv, h⟩)
      omega
    have hpos : 0 < visits.countP fun v => !v.online := by
      rw [List.countP_pos_iff]
      simpa using hoffline
    obtain ⟨k, hk⟩ := hqueue.2 trivial honline
    obtain ⟨msg, rest, hmsg⟩ := List.exists_cons_of_ne_nil hk
    have hnext := hany.next (l := .tx k) (by simp only [messageStep, hmsg]; rfl) trivial
    have hread := (hsafe _ hnext).2
    simp only [SharedObject.read, Bool.or_eq_false_iff, bne_eq_false_iff_eq] at hread
    omega

end Accounting

section Dispatch

variable {υ κ : Type*} [DecidableEq κ] (accounts : Accounts υ) (w : World υ) (u : υ)

/-- The calls of `send_msg` for a message of `u`, with `m_conns` at each of them. -/
def visitsOf (msg : Message) (conns : ℕ → List (Conn κ)) : List (Visit κ) :=
  (dispatch accounts w u msg).1.mapIdx fun i name => ⟨name, msg.isDirect, conns i⟩

/-- A message that `handle_payload` sends is destroyed at most once and never read
afterwards, whatever the order of the steps, if and only if it addresses at most one
user or every addressed user has a connection when its turn comes. -/
theorem message_safe_iff (msg : Message) (conns : ℕ → List (Conn κ)) :
    (∀ s, Reach messageStep anyStep (· = parsed (visitsOf accounts w u msg conns)) s →
      s.object.Safe) ↔
        (dispatch accounts w u msg).1.length ≤ 1 ∨
          ∀ v ∈ visitsOf accounts w u msg conns, v.online = true := by
  rw [safe_iff, visitsOf, List.length_mapIdx]

end Dispatch

section Offline

def trio : Accounts (Fin 3) where
  name i := [97 + UInt8.ofNat i.val]
  name_injective i j := by revert i j; decide

def trioWorld : World (Fin 3) where
  channels _ := [0]
  channel _ := ⟨ascii "room", ascii "pw", [0, 1, 2]⟩
  pool := [0]
  next := 1

/-- A group message to two subscribers without a connection is destroyed twice. -/
theorem message_not_safe_two_offline :
    ¬ ∀ (msg : Message) (conns : ℕ → List (Conn Unit)) (s : MessageState Unit),
      Reach messageStep anyStep (· = parsed (visitsOf trio trioWorld 0 msg conns)) s →
        s.object.Safe := by
  intro h
  have hrun : ∃ s : MessageState Unit,
      Reach messageStep anyStep
        (· = parsed (visitsOf trio trioWorld 0 (.group (ascii "room") (ascii "hi"))
          fun _ => [⟨(), some (trio.name 0)⟩])) s ∧
        decide (2 ≤ s.object.destroyed) = true :=
    exists_reach_of_run rfl (List.replicate 6 .dispatch) (by decide)
  obtain ⟨s, hr, hs⟩ := hrun
  have hle := (h _ _ s hr).1
  have hge : 2 ≤ s.object.destroyed := of_decide_eq_true hs
  omega

end Offline

end Chatd.Net.Server
