import Chatd.Protocol.Handlers.LockOrder

/-! # The last waits of a handler

The owner of `m_users_m` or `m_channels_m` waits for nothing. From some point on a
handler acquires no other mutex, so it runs to its end whatever the other threads own.
-/
namespace Chatd.Protocol
open Library Net.Server

/-- The owner of the mutex waits for nothing. -/
def isLeaf {υ : Type*} : Mutex υ → Prop
  | .mChannelsM | .mUsersM => True
  | _ => False

theorem isPool_of_isLeaf {υ : Type*} {m : Mutex υ} (h : isLeaf m) : isPool m = true := by
  cases m <;> first | rfl | exact h.elim

/-! The handler has a mutex still to acquire whose owner may wait in turn. -/

def Subscribe.mayWait : Subscribe.Pc → Bool
  | .pushed _ ok => ok
  | .addUser _ | .unlockUser => false
  | _ => true

def Unsubscribe.mayWait : Unsubscribe.Pc → Bool
  | .lockUser _ | .scan _ _ | .test _ _ _ => true
  | _ => false

def Delete.mayWait {υ : Type*} : Delete.Pc υ → Bool
  | .poolRemove _ _ | .unlockUsers _ => false
  | _ => true

def ListUsers.mayWait : ListUsers.Pc → Bool
  | .list _ | .unlockUser => false
  | _ => true

def Chat.mayWait {υ : Type*} : Chat.Pc υ → Bool
  | .send _ => false
  | .found channel => channel.isSome
  | _ => true

/-- The connection is in a handler that has a mutex still to acquire whose owner may
wait in turn. -/
def mayWait {υ : Type*} : Pc υ → Bool
  | .idle => false
  | .subscribe p => Subscribe.mayWait p
  | .unsubscribe p => Unsubscribe.mayWait p
  | .delete p => Delete.mayWait p
  | .listUsers p => ListUsers.mayWait p
  | .chat p => Chat.mayWait p

variable {ι υ : Type*} [DecidableEq υ] {accounts : Accounts υ} {t : ι} {u : υ} {d : Shared ι υ}

/-- At the next point, if the handler does not end, nothing of the kind is left. -/
def DoneAt {π : Type*} (mayWait : π → Bool) (p : Option π) : Prop := ∀ q ∈ p, mayWait q = false

theorem Subscribe.next_locksIn {p : Subscribe.Pc} (h : mayWait p = false) :
    (Subscribe.next t u d p).LocksIn isLeaf (DoneAt mayWait) := by
  cases p <;> grind [mayWait, Subscribe.next, Act.LocksIn, DoneAt]

theorem Unsubscribe.next_locksIn {p : Unsubscribe.Pc} (h : mayWait p = false) :
    (Unsubscribe.next accounts t u d p).LocksIn isLeaf (DoneAt mayWait) := by
  cases p <;> grind [mayWait, Unsubscribe.next, Act.LocksIn, DoneAt, isLeaf]

theorem Delete.next_locksIn {p : Delete.Pc υ} (h : mayWait p = false) :
    (Delete.next t u d p).LocksIn isLeaf (DoneAt mayWait) := by
  cases p <;> grind [mayWait, Delete.next, Act.LocksIn, DoneAt]

omit [DecidableEq υ] in
theorem ListUsers.next_locksIn {p : ListUsers.Pc} (h : mayWait p = false) :
    (ListUsers.next accounts t u d p).LocksIn isLeaf (DoneAt mayWait) := by
  cases p <;> grind [mayWait, ListUsers.next, Act.LocksIn, DoneAt]

omit [DecidableEq υ] in
theorem Chat.next_locksIn {p : Chat.Pc υ} (h : mayWait p = false) :
    (Chat.next accounts t u d p).LocksIn isLeaf (DoneAt mayWait) := by
  cases p with
  | found channel => cases channel <;> grind [mayWait, Chat.next, Act.LocksIn, DoneAt]
  | _ => grind [mayWait, Chat.next, Act.LocksIn, DoneAt]

omit [DecidableEq υ] in
theorem locksIn_place {π : Type*} {f : π → Pc υ} {act : HandlerAct ι υ π}
    (h : act.LocksIn isLeaf (DoneAt fun q => mayWait (f q))) :
    (act.map (place f)).LocksIn isLeaf fun q => mayWait q = false := by
  have hplace : (fun q : Pc υ => mayWait q = false) ∘ place f = DoneAt fun q => mayWait (f q) := by
    funext p
    cases p <;> simp [place, DoneAt, mayWait]
  rw [Act.locksIn_map, hplace]
  exact h

/-- From that point on, a handler waits for leaf mutexes only. -/
theorem handle_locksIn {p : Pc υ} (h : mayWait p = false) :
    (handle accounts t u d p).LocksIn isLeaf fun q => mayWait q = false := by
  cases p with
  | idle => trivial
  | subscribe p => exact locksIn_place (Subscribe.next_locksIn h)
  | unsubscribe p => exact locksIn_place (Unsubscribe.next_locksIn h)
  | delete p => exact locksIn_place (Delete.next_locksIn h)
  | listUsers p => exact locksIn_place (ListUsers.next_locksIn h)
  | chat p => exact locksIn_place (Chat.next_locksIn h)

end Chatd.Protocol
