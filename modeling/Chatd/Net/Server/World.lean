import Mathlib.Logic.Function.Basic
import Chatd.Net.Server.ConnectionPool

/-! # Users, channels and the pool

Users and channels refer to each other through shared pointers: a user lists the
channels it is subscribed to, a channel its subscribers, and the pool the channels
that can be found by name. Channels are numbered in the order of their allocation.
-/
namespace Chatd.Net.Server
open Library

/-- The registered users. `push<User>` refuses a name that is taken, and a name never
changes. -/
structure Accounts (υ : Type*) where
  name : υ → Bytes
  name_injective : Function.Injective name

structure User where
  name : Bytes
  password : Bytes
  deriving DecidableEq, Repr

abbrev UserRef := ℕ

abbrev ChannelRef := ℕ

structure Channel (υ : Type*) where
  name : Bytes
  password : Bytes
  users : List υ

/-- The lists that the commands read and change, `m_channels` being `pool`; the
channels below `next` have been allocated. -/
@[ext]
structure World (υ : Type*) where
  channels : υ → List ChannelRef
  channel : ChannelRef → Channel υ
  pool : List ChannelRef
  next : ChannelRef

namespace World

variable {υ : Type*} (w : World υ)

def name (c : ChannelRef) : Bytes := (w.channel c).name

def users (c : ChannelRef) : List υ := (w.channel c).users

def find (cs : List ChannelRef) (name : Bytes) : Option ChannelRef :=
  cs.find? fun c => w.name c == name

def empty : World υ := ⟨fun _ => [], fun _ => ⟨[], [], []⟩, [], 0⟩

/-- `make_shared<Channel>`; the new object is `w.next`. -/
def newChannel (name password : Bytes) : World υ :=
  { w with
    channel := Function.update w.channel w.next ⟨name, password, []⟩
    next := w.next + 1 }

theorem newChannel_channel_of_lt (name password : Bytes) {c : ChannelRef} (h : c < w.next) :
    (w.newChannel name password).channel c = w.channel c :=
  Function.update_of_ne (Nat.ne_of_lt h) ..

@[simp] theorem newChannel_name_next (name password : Bytes) :
    (w.newChannel name password).name w.next = name := by
  simp [newChannel, World.name]

theorem newChannel_name_of_lt (name password : Bytes) {c : ChannelRef} (h : c < w.next) :
    (w.newChannel name password).name c = w.name c := by
  rw [World.name, newChannel_channel_of_lt w name password h, World.name]

theorem newChannel_users_of_lt (name password : Bytes) {c : ChannelRef} (h : c < w.next) :
    (w.newChannel name password).users c = w.users c := by
  rw [World.users, newChannel_channel_of_lt w name password h, World.users]

def setUsers (c : ChannelRef) (us : List υ) : World υ :=
  { w with channel := Function.update w.channel c { w.channel c with users := us } }

@[simp] theorem setUsers_channels (c : ChannelRef) (us : List υ) :
    (w.setUsers c us).channels = w.channels := rfl

@[simp] theorem setUsers_pool (c : ChannelRef) (us : List υ) :
    (w.setUsers c us).pool = w.pool := rfl

@[simp] theorem setUsers_next (c : ChannelRef) (us : List υ) :
    (w.setUsers c us).next = w.next := rfl

@[simp] theorem setUsers_name (c : ChannelRef) (us : List υ) : (w.setUsers c us).name = w.name := by
  funext d
  by_cases h : d = c
  · subst h
    simp [setUsers, name]
  · simp [setUsers, name, h]

@[simp] theorem setUsers_users_self (c : ChannelRef) (us : List υ) :
    (w.setUsers c us).users c = us := by
  simp [setUsers, users]

@[simp] theorem setUsers_password (c d : ChannelRef) (us : List υ) :
    ((w.setUsers c us).channel d).password = (w.channel d).password := by
  by_cases h : d = c
  · subst h
    simp [setUsers]
  · simp [setUsers, h]

theorem setUsers_users_of_ne {c d : ChannelRef} (h : d ≠ c) (us : List υ) :
    (w.setUsers c us).users d = w.users d := by
  simp [setUsers, users, h]

variable [DecidableEq υ]

def setChannels (u : υ) (cs : List ChannelRef) : World υ :=
  { w with channels := Function.update w.channels u cs }

@[simp] theorem setChannels_channel (u : υ) (cs : List ChannelRef) :
    (w.setChannels u cs).channel = w.channel := rfl

@[simp] theorem setChannels_pool (u : υ) (cs : List ChannelRef) :
    (w.setChannels u cs).pool = w.pool := rfl

@[simp] theorem setChannels_next (u : υ) (cs : List ChannelRef) :
    (w.setChannels u cs).next = w.next := rfl

@[simp] theorem setChannels_name (u : υ) (cs : List ChannelRef) :
    (w.setChannels u cs).name = w.name := rfl

@[simp] theorem setChannels_users (u : υ) (cs : List ChannelRef) :
    (w.setChannels u cs).users = w.users := rfl

@[simp] theorem setChannels_channels_self (u : υ) (cs : List ChannelRef) :
    (w.setChannels u cs).channels u = cs := Function.update_self ..

theorem setChannels_channels_of_ne {u v : υ} (h : v ≠ u) (cs : List ChannelRef) :
    (w.setChannels u cs).channels v = w.channels v := Function.update_of_ne h ..

end World

/-- The two sides of the subscriptions to the channels in `P` agree, no list repeats
an element, and of these channels the pool holds exactly those that have a
subscriber, under distinct names. -/
structure ConsistentOn {υ : Type*} (P : ChannelRef → Prop) (w : World υ) : Prop where
  mem_users_iff : ∀ u c, P c → (u ∈ w.users c ↔ c ∈ w.channels u)
  channels_nodup : ∀ u, (w.channels u).Nodup
  users_nodup : ∀ c, P c → (w.users c).Nodup
  mem_pool_iff : ∀ c, P c → (c ∈ w.pool ↔ w.users c ≠ [])
  names_nodup : (w.pool.map w.name).Nodup

abbrev Consistent {υ : Type*} (w : World υ) : Prop := ConsistentOn (fun _ => True) w

namespace Consistent

variable {υ : Type*} {w : World υ} {u : υ} {c d : ChannelRef}

theorem mem_pool (hw : Consistent w) (h : c ∈ w.channels u) : c ∈ w.pool := by
  rw [hw.mem_pool_iff c trivial]
  exact List.ne_nil_of_mem ((hw.mem_users_iff u c trivial).mpr h)

theorem channels_names_nodup (hw : Consistent w) (u : υ) :
    ((w.channels u).map w.name).Nodup := by
  apply (hw.channels_nodup u).map_on
  intro c hc d hd hname
  exact List.inj_on_of_nodup_map hw.names_nodup (hw.mem_pool hc) (hw.mem_pool hd) hname

theorem find_name (hw : Consistent w) (h : c ∈ w.channels u) :
    w.find (w.channels u) (w.name c) = some c := by
  cases hf : w.find (w.channels u) (w.name c) with
  | none => simpa using List.find?_eq_none.mp hf c h
  | some d =>
    have hd : d ∈ w.channels u := List.mem_of_find?_eq_some hf
    have hname : w.name d = w.name c := by simpa using List.find?_some hf
    rw [List.inj_on_of_nodup_map hw.names_nodup (hw.mem_pool hd) (hw.mem_pool h) hname]

end Consistent

end Chatd.Net.Server
