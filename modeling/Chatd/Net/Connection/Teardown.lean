import Mathlib.Data.List.Nodup
import Chatd.Library.Logged
import Chatd.Net.Connection.Wire

/-! # The payloads of a connection

A payload is allocated by a call of `send`, `send_strliteral` or `send_message`, and deleted
by `tx_thread` behind its write, or by the destructor of the connection where it is still in
the queue. A payload that holds a buffer is deleted together with it. The record of a run
lists the payloads that `tx_thread` has deleted.
-/
namespace Chatd.Net.Connection
open Library Collections

/-- The loop of `Connection::~Connection` from index `i` on, with `n` payloads left. -/
def destroyFrom (ring : Ringbuffer OutgoingPayload) :
    (n i : ℕ) → Except Fault (List OutgoingPayload)
  | 0, _ => .ok []
  | n + 1, i => do
    match ← ring.get i with
    | some payload =>
      let rest ← destroyFrom ring n (i + 1)
      return payload :: rest
    | none => .error .nullDeref

/-- The payloads that `Connection::~Connection` deletes. -/
def destroyPayloads (ring : Ringbuffer OutgoingPayload) : Except Fault (List OutgoingPayload) :=
  destroyFrom ring ring.size 0

/-- The payload that a thread has allocated and not pushed, or taken and not deleted. -/
def payloadOf : Pc → List OutgoingPayload
  | .pushLock p | .pushBegin p | .inPush p | .write p => [p]
  | _ => []

section Destroy

variable {ring : Ringbuffer OutgoingPayload} {d : Deque OutgoingPayload}

theorem destroyFrom_eq (h : ring.Represents d) {taken rest : List OutgoingPayload}
    (hd : d.elems = taken ++ rest) :
    destroyFrom ring rest.length taken.length = .ok rest := by
  induction rest generalizing taken with
  | nil => rfl
  | cons x rest ih =>
    have hlt : taken.length < d.elems.length := by
      rw [hd, List.length_append, List.length_cons]
      omega
    have hget : ring.get taken.length = .ok (some x) := by
      rw [Ringbuffer.get, Block.load_slot h.arr_length (h.holds _ hlt)]
      simp [hd]
    have hrest := ih (hd.trans (List.append_assoc taken [x] rest).symm)
    rw [List.length_append, List.length_singleton] at hrest
    rw [List.length_cons, destroyFrom, hget, ok_bind]
    dsimp only
    rw [hrest]
    rfl

theorem destroyPayloads_eq (h : ring.Represents d) : destroyPayloads ring = .ok d.elems := by
  rw [destroyPayloads, h.size_eq]
  exact destroyFrom_eq h (List.nil_append _).symm

end Destroy

section Record

/-- `delete payload` behind a write. -/
def payloadsDeleted {κ : Type*} (_ : List OutgoingPayload) (c : RingState κ)
    (l : Thread κ × Choice) (_ : RingState κ) : List OutgoingPayload :=
  match c.pc l.1 with
  | .write p => [p]
  | _ => []

variable (κ : Type*) [DecidableEq κ]

/-- The threads of a connection with the record of the payloads deleted. -/
abbrev deleteStep (r : Logged (RingState κ) OutgoingPayload) (l : Thread κ × Choice) :
    Option (Logged (RingState κ) OutgoingPayload) :=
  logged (step (ringProg κ)) payloadsDeleted r l

/-- The states of a connection that some run reaches, with its record. -/
abbrev Deleting (r : Logged (RingState κ) OutgoingPayload) : Prop :=
  Reach (deleteStep κ) (onState anyStep) (unlogged (· = ringInitial κ)) r

/-- Every payload allocated has been pushed, or is in the hand of the thread that allocated
it, and no two payloads have one address. -/
structure Ledger (c : RingState κ) : Prop where
  pushed_nodup : (c.data.pushed.map (·.addr)).Nodup
  pushed_lt : ∀ p ∈ c.data.pushed, p.addr < c.data.fields.nextAddr
  fresh : ∀ t ≠ none, ∀ p ∈ payloadOf (c.pc t), p.addr < c.data.fields.nextAddr ∧
    p.addr ∉ c.data.pushed.map (·.addr)
  distinct : ∀ s ≠ none, ∀ t ≠ none, ∀ p ∈ payloadOf (c.pc s), ∀ q ∈ payloadOf (c.pc t),
    p.addr = q.addr → s = t
  all : ∀ a < c.data.fields.nextAddr, a ∈ c.data.pushed.map (·.addr) ∨
    ∃ t ≠ none, ∃ p ∈ payloadOf (c.pc t), p.addr = a

end Record

section Steps

variable {a : Choice} {p q : Pc}

theorem payloadOf_of_next {d d' : Fields} (h : (next a d p).Moves d d' q) (htx : isTx p = false)
    (hpush : ∀ x, p ≠ .inPush x) :
    payloadOf q = payloadOf p ∧ d'.nextAddr = d.nextAddr ∨
      payloadOf p = [] ∧ (∃ x, payloadOf q = [x] ∧ x.addr = d.nextAddr) ∧
        d'.nextAddr = d.nextAddr + 1 := by
  cases p with
  | idle =>
    cases a with
    | call c =>
      obtain ⟨rfl, rfl⟩ := h
      cases c with
      | send bytes | gracefullyTerminate | terminate | setReady ready => exact .inl ⟨rfl, rfl⟩
      | sendStrliteral bytes | sendMessage bytes => exact .inr ⟨rfl, ⟨_, rfl, rfl⟩, rfl⟩
    | write ok => exact h.elim
  | sendTest bytes =>
    rw [next] at h
    split at h
    · obtain ⟨rfl, rfl⟩ := h
      exact .inl ⟨rfl, rfl⟩
    · obtain ⟨rfl, rfl⟩ := h
      exact .inr ⟨rfl, ⟨_, rfl, rfl⟩, rfl⟩
  | inPush x => exact absurd rfl (hpush x)
  | pushLock x | pushBegin x | pushUnlock x | pushNotify x | gracefulExchange | gracefulNotify
  | killExchange | killClose | killNotify =>
    rw [next] at h
    grind [Act.Moves, payloadOf]
  | _ => cases htx

theorem nextAddr_of_next {d d' : Fields} (h : (next a d p).Moves d d' q) (htx : isTx p = true) :
    d'.nextAddr = d.nextAddr := by
  cases p with
  | idle | sendTest _ | pushLock _ | pushBegin _ | inPush _ | pushUnlock _ | pushNotify _
  | gracefulExchange | gracefulNotify | killExchange | killClose | killNotify => cases htx
  | _ =>
    rw [next] at h
    grind [Act.Moves]

theorem caller_of_moves {d d' : RingFields} (h : (ringNext a d p).Moves d d' q)
    (htx : isTx p = false) :
    (payloadOf q = payloadOf p ∧ d'.pushed = d.pushed ∧
      d'.fields.nextAddr = d.fields.nextAddr) ∨
    (payloadOf p = [] ∧ (∃ x, payloadOf q = [x] ∧ x.addr = d.fields.nextAddr) ∧
      d'.pushed = d.pushed ∧ d'.fields.nextAddr = d.fields.nextAddr + 1) ∨
    ∃ x, payloadOf p = [x] ∧ payloadOf q = [] ∧ d'.pushed = d.pushed ++ [x] ∧
      d'.fields.nextAddr = d.fields.nextAddr := by
  by_cases hpush : ∃ x, p = .inPush x
  · obtain ⟨x, rfl⟩ := hpush
    rw [ringNext] at h
    split at h
    case h_1 ring hring =>
      obtain ⟨rfl, rfl⟩ := h
      exact .inr (.inr ⟨x, rfl, rfl, rfl, rfl⟩)
    case h_2 => exact h.elim
  · have hpush' (x : OutgoingPayload) : p ≠ .inPush x := fun hx => hpush ⟨x, hx⟩
    have hsize (b : Bool) : p ≠ .inSize b := by
      rintro rfl
      cases htx
    have hpop : p ≠ .inPop := by
      rintro rfl
      cases htx
    have hpushed := (queue_of_moves h hpop hpush').2.1
    rw [ringNext_eq hsize hpop hpush'] at h
    have hfields := Act.moves_of_mapData (f := RingFields.fields) (fun _ => rfl) h
    rcases payloadOf_of_next hfields htx hpush' with ⟨hq, hn⟩ | ⟨hp, hx, hn⟩
    · exact .inl ⟨hq, hpushed, hn⟩
    · exact .inr (.inl ⟨hp, hx, hpushed, hn⟩)

theorem tx_of_moves {d d' : RingFields} (h : (ringNext a d p).Moves d d' q)
    (htx : isTx p = true) :
    d'.pushed = d.pushed ∧ d'.fields.nextAddr = d.fields.nextAddr := by
  cases p with
  | inSize b =>
    rw [ringNext] at h
    split at h <;> (rw [h.1]; exact ⟨rfl, rfl⟩)
  | inPop =>
    rw [ringNext] at h
    split at h
    · rw [h.1]
      exact ⟨rfl, rfl⟩
    · exact h.elim
  | idle | sendTest _ | pushLock _ | pushBegin _ | inPush _ | pushUnlock _ | pushNotify _
  | gracefulExchange | gracefulNotify | killExchange | killClose | killNotify => cases htx
  | _ =>
    have hpushed := (queue_of_moves h (by simp) (by simp)).2.1
    rw [ringNext_eq (by simp) (by simp) (by simp)] at h
    exact ⟨hpushed,
      nextAddr_of_next (Act.moves_of_mapData (f := RingFields.fields) (fun _ => rfl) h) htx⟩

end Steps

section Runs

variable {κ : Type*} {c c' : RingState κ} {r : Logged (RingState κ) OutgoingPayload}
  {t : Thread κ}

theorem Ledger.same (hI : Ledger κ c) (hpushed : c'.data.pushed = c.data.pushed)
    (hnext : c'.data.fields.nextAddr = c.data.fields.nextAddr)
    (hhand : ∀ s ≠ none, payloadOf (c'.pc s) = payloadOf (c.pc s)) : Ledger κ c' := by
  constructor
  case pushed_nodup =>
    rw [hpushed]
    exact hI.pushed_nodup
  case pushed_lt =>
    rw [hpushed, hnext]
    exact hI.pushed_lt
  case fresh =>
    intro s hs
    rw [hpushed, hnext, hhand s hs]
    exact hI.fresh s hs
  case distinct =>
    intro s hs u hu
    rw [hhand s hs, hhand u hu]
    exact hI.distinct s hs u hu
  case all =>
    intro a ha
    rw [hnext] at ha
    rw [hpushed]
    refine (hI.all a ha).imp id ?_
    rintro ⟨s, hs, hp⟩
    exact ⟨s, hs, by rw [hhand s hs]; exact hp⟩

theorem Ledger.allocate (hI : Ledger κ c) (ht : t ≠ none)
    (hother : ∀ s, s ≠ t → c'.pc s = c.pc s) (hpushed : c'.data.pushed = c.data.pushed)
    (hnext : c'.data.fields.nextAddr = c.data.fields.nextAddr + 1) {x : OutgoingPayload}
    (hx : payloadOf (c'.pc t) = [x]) (haddr : x.addr = c.data.fields.nextAddr)
    (hold : payloadOf (c.pc t) = []) : Ledger κ c' := by
  have hcases (s : Thread κ) (p : OutgoingPayload) (hp : p ∈ payloadOf (c'.pc s)) :
      s = t ∧ p = x ∨ s ≠ t ∧ p ∈ payloadOf (c.pc s) := by
    by_cases hs : s = t
    · rw [hs, hx] at hp
      exact .inl ⟨hs, List.mem_singleton.mp hp⟩
    · rw [hother s hs] at hp
      exact .inr ⟨hs, hp⟩
  constructor
  case pushed_nodup =>
    rw [hpushed]
    exact hI.pushed_nodup
  case pushed_lt =>
    intro p hp
    rw [hpushed] at hp
    rw [hnext]
    exact Nat.lt_succ_of_lt (hI.pushed_lt p hp)
  case fresh =>
    intro s hs p hp
    rw [hpushed, hnext]
    rcases hcases s p hp with ⟨-, rfl⟩ | ⟨-, hp⟩
    · refine ⟨by omega, fun hmem => ?_⟩
      obtain ⟨y, hy, heq⟩ := List.mem_map.mp hmem
      have hlt := hI.pushed_lt y hy
      omega
    · have hfresh := hI.fresh s hs p hp
      exact ⟨Nat.lt_succ_of_lt hfresh.1, hfresh.2⟩
  case distinct =>
    intro s hs u hu p hp q hq heq
    rcases hcases s p hp with ⟨rfl, rfl⟩ | ⟨-, hp⟩ <;>
      rcases hcases u q hq with ⟨rfl, rfl⟩ | ⟨-, hq⟩
    · rfl
    · have hlt := (hI.fresh u hu q hq).1
      omega
    · have hlt := (hI.fresh s hs p hp).1
      omega
    · exact hI.distinct s hs u hu p hp q hq heq
  case all =>
    intro a ha
    rw [hpushed]
    rw [hnext] at ha
    rcases Nat.lt_succ_iff_lt_or_eq.mp ha with ha | rfl
    · refine (hI.all a ha).imp id ?_
      rintro ⟨s, hs, p, hp, hpa⟩
      have hst : s ≠ t := by
        rintro rfl
        rw [hold] at hp
        cases hp
      exact ⟨s, hs, p, by rwa [hother s hst], hpa⟩
    · exact .inr ⟨t, ht, x, by rw [hx]; exact List.mem_singleton_self x, haddr⟩

theorem Ledger.push (hI : Ledger κ c) (ht : t ≠ none) (hother : ∀ s, s ≠ t → c'.pc s = c.pc s)
    {x : OutgoingPayload} (hpushed : c'.data.pushed = c.data.pushed ++ [x])
    (hnext : c'.data.fields.nextAddr = c.data.fields.nextAddr)
    (hx : payloadOf (c.pc t) = [x]) (hnew : payloadOf (c'.pc t) = []) : Ledger κ c' := by
  have hmem : x ∈ payloadOf (c.pc t) := by rw [hx]; exact List.mem_singleton_self x
  have hfresh := hI.fresh t ht x hmem
  have hcases (s : Thread κ) (p : OutgoingPayload) (hp : p ∈ payloadOf (c'.pc s)) :
      s ≠ t ∧ p ∈ payloadOf (c.pc s) := by
    by_cases hs : s = t
    · rw [hs, hnew] at hp
      cases hp
    · rw [hother s hs] at hp
      exact ⟨hs, hp⟩
  constructor
  case pushed_nodup =>
    rw [hpushed, List.map_append, List.nodup_append]
    refine ⟨hI.pushed_nodup, List.nodup_singleton _, ?_⟩
    rintro b hb _ hb' rfl
    rw [List.map_singleton, List.mem_singleton] at hb'
    exact hfresh.2 (hb' ▸ hb)
  case pushed_lt =>
    intro p hp
    rw [hpushed] at hp
    rw [hnext]
    rcases List.mem_append.mp hp with hp | hp
    · exact hI.pushed_lt p hp
    · rw [List.mem_singleton.mp hp]
      exact hfresh.1
  case fresh =>
    intro s hs p hp
    obtain ⟨hst, hp⟩ := hcases s p hp
    rw [hpushed, hnext, List.map_append, List.mem_append, not_or]
    refine ⟨(hI.fresh s hs p hp).1, (hI.fresh s hs p hp).2, fun heq => hst ?_⟩
    rw [List.map_singleton, List.mem_singleton] at heq
    exact hI.distinct s hs t ht p hp x hmem heq
  case distinct =>
    intro s hs u hu p hp q hq
    exact hI.distinct s hs u hu p (hcases s p hp).2 q (hcases u q hq).2
  case all =>
    intro a ha
    rw [hnext] at ha
    rw [hpushed, List.map_append, List.mem_append]
    rcases hI.all a ha with ha | ⟨s, hs, p, hp, rfl⟩
    · exact .inl (.inl ha)
    · by_cases hst : s = t
      · rw [hst, hx] at hp
        rw [List.mem_singleton.mp hp]
        exact .inl (.inr (List.mem_singleton_self _))
      · exact .inr ⟨s, hs, p, by rwa [hother s hst], rfl⟩

variable [DecidableEq κ]

theorem ledger_of_reach {ok : RingState κ → Thread κ × Choice → RingState κ → Prop}
    (h : Reach (step (ringProg κ)) ok (· = ringInitial κ) c) : Ledger κ c := by
  apply Reach.invariant_reached (I := Ledger κ) _ _ h
  · rintro _ rfl
    have hnil (t : Thread κ) : payloadOf ((ringInitial κ).pc t) = [] := by
      cases t <;> rfl
    constructor
    case pushed_nodup => exact List.nodup_nil
    case pushed_lt => exact nofun
    case fresh =>
      intro t _ p hp
      rw [hnil t] at hp
      cases hp
    case distinct =>
      intro s _ t _ p hp
      rw [hnil s] at hp
      cases hp
    case all => exact nofun
  · rintro c ⟨t, a⟩ c' hr hI hs -
    obtain ⟨hm, hother⟩ := step_moves hs
    have htx := isTx_iff_of_reach (reach_listedState hr) t
    by_cases ht : t = none
    · obtain ⟨hpushed, hnext⟩ := tx_of_moves hm (htx.mpr ht)
      exact hI.same hpushed hnext fun s hs => by rw [hother s (ht ▸ hs)]
    · have hcaller : isTx (c.pc t) = false := Bool.eq_false_iff.mpr (mt htx.mp ht)
      rcases caller_of_moves hm hcaller with ⟨hhand, hpushed, hnext⟩ |
        ⟨hold, ⟨x, hx, haddr⟩, hpushed, hnext⟩ | ⟨x, hx, hnew, hpushed, hnext⟩
      · refine hI.same hpushed hnext fun s _ => ?_
        by_cases hst : s = t
        · rw [hst, hhand]
        · rw [hother s hst]
      · exact hI.allocate ht hother hpushed hnext hx haddr hold
      · exact hI.push ht hother hpushed hnext hx hnew

theorem deleted_of_deleting (h : Deleting κ r) :
    r.log ++ inHand (r.state.pc none) = r.state.data.taken := by
  apply Reach.invariant_reached (I := fun r : Logged (RingState κ) OutgoingPayload =>
    r.log ++ inHand (r.state.pc none) = r.state.data.taken) _ _ h
  · rintro ⟨c, log⟩ ⟨rfl, rfl⟩
    rfl
  · rintro r ⟨t, a⟩ r' hr hI hstep -
    obtain ⟨hs, hlog⟩ := logged_cases hstep
    obtain ⟨hm, hother⟩ := step_moves hs
    have htx := isTx_iff_of_reach (reach_listedState hr.state) t
    rw [hlog, payloadsDeleted]
    by_cases ht : t = none
    · subst ht
      rcases queue_of_wire hm with ⟨htaken, hp, hq, -⟩ | ⟨x, hp, htaken, hq⟩ |
        ⟨x, hp, htaken, hq⟩
      · rw [htaken, hq, ← hI, hp]
        cases hpc : r.state.pc none with
        | write x => rw [hpc] at hp; cases hp
        | _ => exact List.append_nil _
      · rw [hp] at hI
        rw [hp, htaken, hq, ← hI]
        rfl
      · rw [hp] at hI
        rw [hp, htaken, hq, ← hI]
        exact List.append_nil _
    · have hcaller : ¬ isTx (r.state.pc t) = true := mt htx.mp ht
      rw [hother none (Ne.symm ht)]
      rcases queue_of_wire hm with ⟨htaken, -⟩ | ⟨x, hp, -⟩ | ⟨x, hp, -⟩
      · rw [htaken, ← hI]
        cases hpc : r.state.pc t with
        | write x => exact absurd (by rw [hpc]; rfl) hcaller
        | _ => exact congrArg (· ++ _) (List.append_nil _)
      · exact absurd (by rw [hp]; rfl) hcaller
      · exact absurd (by rw [hp]; rfl) hcaller

/-- The payloads that have been pushed are those deleted, the one in the hand of `tx_thread`
and those in the queue. -/
theorem exists_pushed_eq (h : Deleting κ r) :
    ∃ pending, Queued r.state.data pending ∧
      r.state.data.pushed = r.log ++ (inHand (r.state.pc none) ++ pending) := by
  obtain ⟨pending, hqueued⟩ := exists_queued h.state
  refine ⟨pending, hqueued, ?_⟩
  rw [hqueued.1, ← deleted_of_deleting h, List.append_assoc]

theorem payloadOf_tx (h : Deleting κ r) :
    payloadOf (r.state.pc none) = inHand (r.state.pc none) := by
  have htx := (isTx_iff_of_reach (reach_listedState h.state) none).mpr rfl
  have htx : isTx (r.state.pc none) = true := htx
  cases hp : r.state.pc none with
  | pushLock x | pushBegin x | inPush x => rw [hp] at htx; cases htx
  | _ => rfl

/-- In every interleaving a payload is deleted at most once, and never while it is in the
queue or in the hand of a thread; when all threads are through, the destructor deletes
exactly the payloads that are left. -/
theorem payload_deleted_once (h : Deleting κ r) :
    (r.log.map (·.addr)).Nodup ∧
    (∀ p ∈ r.log, some p ∉ r.state.data.ring.contents ∧
      ∀ t, p.addr ∉ (payloadOf (r.state.pc t)).map (·.addr)) ∧
    ((∀ t, payloadOf (r.state.pc t) = []) →
      ∃ rest, destroyPayloads r.state.data.ring = .ok rest ∧
        ((r.log ++ rest).map (·.addr)).Perm (List.range r.state.data.fields.nextAddr)) := by
  obtain ⟨pending, hqueued, hpushed⟩ := exists_pushed_eq h
  have hI := ledger_of_reach h.state
  have hnodup := hI.pushed_nodup
  rw [hpushed, List.map_append, List.nodup_append] at hnodup
  obtain ⟨hlog, -, hapart⟩ := hnodup
  refine ⟨hlog, fun p hp => ?_, fun hthrough => ?_⟩
  · have hp' : p.addr ∈ r.log.map (·.addr) := List.mem_map_of_mem hp
    have hnot (q : OutgoingPayload) (hq : q ∈ inHand (r.state.pc none) ++ pending)
        (heq : p.addr = q.addr) : False :=
      hapart p.addr hp' q.addr (List.mem_map_of_mem hq) heq
    constructor
    · intro hmem
      rw [hqueued.contents_eq] at hmem
      obtain ⟨q, hq, hqp⟩ := List.mem_map.mp hmem
      exact hnot q (List.mem_append_right _ hq) (by rw [Option.some.inj hqp])
    · intro t hmem
      obtain ⟨q, hq, heq⟩ := List.mem_map.mp hmem
      by_cases ht : t = none
      · rw [ht, payloadOf_tx h] at hq
        exact hnot q (List.mem_append_left _ hq) heq.symm
      · refine (hI.fresh t ht q hq).2 ?_
        rw [hpushed, List.map_append, heq]
        exact List.mem_append_left _ hp'
  · obtain ⟨cap, hring⟩ := hqueued.2
    refine ⟨pending, destroyPayloads_eq hring, ?_⟩
    have hhand : inHand (r.state.pc none) = [] := by rw [← payloadOf_tx h, hthrough]
    rw [hhand, List.nil_append] at hpushed
    rw [← hpushed]
    apply (List.perm_ext_iff_of_nodup hI.pushed_nodup List.nodup_range).mpr
    intro a
    rw [List.mem_range]
    constructor
    · intro ha
      obtain ⟨p, hp, rfl⟩ := List.mem_map.mp ha
      exact hI.pushed_lt p hp
    · intro ha
      rcases hI.all a ha with ha | ⟨t, -, p, hp, -⟩
      · exact ha
      · rw [hthrough t] at hp
        cases hp

end Runs

/-- One payload is written, a second one is left to the destructor. -/
theorem payload_deleted_once_two_sends : ∃ r : Logged (RingState Unit) OutgoingPayload,
    Deleting Unit r ∧ r.log.map (·.addr) = [0] ∧ r.state.data.fields.nextAddr = 2 ∧
      ∃ rest, destroyPayloads r.state.data.ring = .ok rest ∧
        ((r.log ++ rest).map (·.addr)).Perm (List.range r.state.data.fields.nextAddr) := by
  have hrun : ∃ r, Deleting Unit r ∧ decide (r.log.map (·.addr) = [0] ∧
      r.state.data.fields.nextAddr = 2 ∧ payloadOf (r.state.pc none) = [] ∧
      payloadOf (r.state.pc (some ())) = []) = true :=
    exists_reach_of_run (s := ⟨ringInitial Unit, []⟩) ⟨rfl, rfl⟩
      (callSteps (.setReady true) 0 ++ callSteps (.sendStrliteral (ascii "hi\n")) 5 ++
        txSteps 10 ++ callSteps (.send (ascii "bob")) 6) (by decide)
  obtain ⟨r, hr, hP⟩ := hrun
  obtain ⟨hlog, hnext, htx, hcaller⟩ := of_decide_eq_true hP
  refine ⟨r, hr, hlog, hnext, (payload_deleted_once hr).2.2 fun t => ?_⟩
  cases t with
  | none => exact htx
  | some t => exact hcaller

end Chatd.Net.Connection
