import Chatd.Protocol.Handlers

/-! # Data races of the handlers

The vectors that the connections share have a mutex each: `channels_m` for the channels of a
user, `users_m` for the subscribers of a channel, and `m_channels_m` for the pool. An action
touches a vector when it is not the same action over another content of it; that is where it
reads the vector or writes it. Two places touch a vector without its mutex.
-/
namespace Chatd.Protocol
open Library Net.Server

inductive Cell (υ : Type*) where
  | channels (v : υ)
  | users (c : ChannelRef)
  | pool
  deriving DecidableEq, Repr

inductive Patch (υ : Type*) where
  | channels (v : υ) (cs : List ChannelRef)
  | users (c : ChannelRef) (us : List υ)
  | pool (cs : List ChannelRef)
  deriving DecidableEq, Repr

def Patch.cell {υ : Type*} : Patch υ → Cell υ
  | .channels v _ => .channels v
  | .users c _ => .users c
  | .pool _ => .pool

namespace Cell

variable {υ : Type*}

def guard : Cell υ → Mutex υ
  | .channels v => .channelsM v
  | .users c => .usersM c
  | .pool => .mChannelsM

theorem guard_injective : Function.Injective (guard : Cell υ → Mutex υ) := by
  intro x y h
  cases x <;> cases y <;> cases h <;> rfl

def Exists (w : World υ) : Cell υ → Prop
  | .users c => c < w.next
  | _ => True

def Same (w w' : World υ) : Cell υ → Prop
  | .channels v => w'.channels v = w.channels v
  | .users c => w'.users c = w.users c
  | .pool => w'.pool = w.pool

end Cell

section Touching

variable {ι υ : Type*} [DecidableEq υ]

def Patch.apply (w : World υ) : Patch υ → World υ
  | .channels v cs => w.setChannels v cs
  | .users c us => w.setUsers c us
  | .pool cs => { w with pool := cs }

def Shared.patch (y : Patch υ) (d : Shared ι υ) : Shared ι υ := d.setWorld (y.apply d.world)

variable (accounts : Accounts υ) (t : ι) (u : υ) (d : Shared ι υ) (p : Pc υ) (x : Cell υ)

/-- The next action is not the same over another content of the vector. -/
def Touches : Prop :=
  ∃ y : Patch υ, y.cell = x ∧
    handle accounts t u (d.patch y) p ≠ (handle accounts t u d p).mapData (Shared.patch y)

def Changes : Prop :=
  ∃ d' q, (handle accounts t u d p).Moves d d' q ∧ ¬ x.Same d.world d'.world

/-- The loop over the subscribers in the handler of a global message, and the loop of
`cmd::Delete` over the channels of a subscriber, that counts with the channels of the
requester. -/
def Unprotected : Prop :=
  (∃ i j c, p = .chat (.globalLoop i j) ∧ (d.world.channels u)[i]? = some c ∧ x = .users c) ∨
    ∃ name channel i chUser, p = .delete (.member name channel i chUser) ∧ chUser ≠ u ∧
      x = .channels u

end Touching

section Patching

variable {ι υ : Type*} [DecidableEq υ] {accounts : Accounts υ} {t : ι} {u : υ} {d : Shared ι υ}
  {y : Patch υ} {w : World υ}

@[simp] theorem Shared.patch_world : (d.patch y).world = y.apply d.world := rfl

@[simp] theorem Shared.patch_reply (text : Bytes) :
    (d.patch y).reply t text = (d.reply t text).patch y := rfl

@[simp] theorem Shared.patch_sendMsg (name : Bytes) :
    (d.patch y).sendMsg t name = (d.sendMsg t name).patch y := rfl

@[simp] theorem Patch.apply_name : (y.apply w).name = w.name := by
  cases y with
  | users c us => exact World.setUsers_name ..
  | _ => rfl

@[simp] theorem Patch.apply_next : (y.apply w).next = w.next := by
  cases y <;> rfl

@[simp] theorem Patch.apply_password (c : ChannelRef) :
    ((y.apply w).channel c).password = (w.channel c).password := by
  cases y with
  | users c us => exact World.setUsers_password ..
  | _ => rfl

/-- A vector with another mutex than that of the patch is as it was. -/
theorem Patch.apply_channels {v : υ} (h : y.cell.guard ≠ .channelsM v) :
    (y.apply w).channels v = w.channels v := by
  cases y with
  | channels v' cs =>
    apply World.setChannels_channels_of_ne
    rintro rfl
    exact h rfl
  | _ => rfl

theorem Patch.apply_users {c : ChannelRef} (h : y.cell.guard ≠ .usersM c) :
    (y.apply w).users c = w.users c := by
  cases y with
  | users c' us =>
    apply World.setUsers_users_of_ne
    rintro rfl
    exact h rfl
  | _ => rfl

theorem Patch.apply_pool (h : y.cell.guard ≠ .mChannelsM) : (y.apply w).pool = w.pool := by
  cases y with
  | pool cs => exact absurd rfl h
  | _ => rfl

theorem Patch.apply_setChannels {v : υ} (h : y.cell.guard ≠ .channelsM v)
    (cs : List ChannelRef) : (y.apply w).setChannels v cs = y.apply (w.setChannels v cs) := by
  cases y with
  | channels v' cs' =>
    have hne : v' ≠ v := fun heq => h (by rw [heq]; rfl)
    simp only [Patch.apply, World.setChannels]
    rw [Function.update_comm hne]
  | _ => rfl

theorem Patch.apply_setUsers {c : ChannelRef} (h : y.cell.guard ≠ .usersM c) (us : List υ) :
    (y.apply w).setUsers c us = y.apply (w.setUsers c us) := by
  cases y with
  | users c' us' =>
    have hne : c' ≠ c := fun heq => h (by rw [heq]; rfl)
    simp only [Patch.apply, World.setUsers, Function.update_of_ne hne,
      Function.update_of_ne (Ne.symm hne)]
    rw [Function.update_comm hne]
  | _ => rfl

theorem Patch.apply_setPool (h : y.cell.guard ≠ .mChannelsM) (cs : List ChannelRef) :
    { y.apply w with pool := cs } = y.apply { w with pool := cs } := by
  cases y with
  | pool cs => exact absurd rfl h
  | _ => rfl

theorem Patch.apply_newChannel (h : y.cell.Exists w) (name password : Bytes) :
    (y.apply w).newChannel name password = y.apply (w.newChannel name password) := by
  cases y with
  | users c us =>
    have hne : c ≠ w.next := Nat.ne_of_lt h
    simp only [Patch.apply, World.setUsers, World.newChannel, Function.update_of_ne hne]
    rw [Function.update_comm hne]
  | _ => rfl

theorem Patch.apply_find {name : Bytes} (cs : List ChannelRef) :
    (y.apply w).find cs name = w.find cs name := by
  rw [World.find, Patch.apply_name, World.find]

end Patching

section Handlers

variable {ι υ : Type*} [DecidableEq υ] {accounts : Accounts υ} {t : ι} {u : υ} {d : Shared ι υ}
  {y : Patch υ}

theorem Shared.patch_setWorld {w w' : World υ} (h : w' = y.apply w) :
    (d.patch y).setWorld w' = (d.setWorld w).patch y := by
  rw [h]
  rfl

theorem Subscribe.next_patch {p : Subscribe.Pc} (hy : y.cell.guard ∉ Subscribe.held u p)
    (ha : y.cell.Exists d.world) :
    Subscribe.next t u (d.patch y) p = (Subscribe.next t u d p).mapData (Shared.patch y) := by
  cases p with
  | scan name password =>
    have hu := Patch.apply_channels (w := d.world) (fun h => hy (List.mem_singleton.mpr h))
    simp only [Subscribe.next, Shared.patch_world, hu, Patch.apply_find, Act.mapData_ite]
    rfl
  | get name password =>
    have hpool := Patch.apply_pool (w := d.world) fun h => hy (by rw [h]; exact List.mem_cons_self)
    simp only [Subscribe.next, Shared.patch_world, Patch.apply_name, hpool]
    rfl
  | found name password channel =>
    cases channel with
    | some channel =>
      simp only [Subscribe.next, Shared.patch_world, Patch.apply_password, Act.mapData_ite]
      rfl
    | none =>
      simp only [Subscribe.next, Shared.patch_world, Patch.apply_next]
      rw [Shared.patch_setWorld (Patch.apply_newChannel ha name password)]
      rfl
  | push newChannel =>
    have hguard : y.cell.guard ≠ .mChannelsM := fun h => hy (by rw [h]; exact List.mem_cons_self)
    simp only [Subscribe.next, Shared.patch_world, Patch.apply_name,
      Patch.apply_pool (w := d.world) hguard]
    rw [Shared.patch_setWorld (Patch.apply_setPool hguard _)]
    rfl
  | pushed newChannel ok =>
    cases ok <;> rfl
  | join joined =>
    have hguard : y.cell.guard ≠ .channelsM u := fun h => hy (List.mem_singleton.mpr h)
    simp only [Subscribe.next, Shared.patch_world, Patch.apply_channels (w := d.world) hguard]
    rw [Shared.patch_setWorld (Patch.apply_setChannels hguard _)]
    rfl
  | addUser joined =>
    have hguard : y.cell.guard ≠ .usersM joined := fun h => hy (by rw [h]; exact List.mem_cons_self)
    simp only [Subscribe.next, Shared.patch_world, Patch.apply_users (w := d.world) hguard]
    rw [Shared.patch_setWorld (Patch.apply_setUsers hguard _)]
    rfl
  | _ => rfl

theorem Unsubscribe.next_patch {p : Unsubscribe.Pc} (hy : y.cell.guard ∉ Unsubscribe.held u p) :
    Unsubscribe.next accounts t u (d.patch y) p =
      (Unsubscribe.next accounts t u d p).mapData (Shared.patch y) := by
  cases p with
  | scan name i =>
    have hu := Patch.apply_channels (w := d.world) (fun h => hy (List.mem_singleton.mpr h))
    simp only [Unsubscribe.next, Shared.patch_world, hu]
    split <;> rfl
  | test name i channel =>
    have hguard : y.cell.guard ≠ .channelsM u := fun h => hy (by rw [h]; simp [Unsubscribe.held])
    simp only [Unsubscribe.next, Shared.patch_world, Patch.apply_name, Act.mapData_ite,
      Patch.apply_channels (w := d.world) hguard]
    rw [Shared.patch_setWorld (Patch.apply_setChannels hguard _)]
    rfl
  | eraseUser channel =>
    have hguard : y.cell.guard ≠ .usersM channel :=
      fun h => hy (by rw [h]; exact List.mem_cons_self)
    simp only [Unsubscribe.next, Shared.patch_world, Patch.apply_users (w := d.world) hguard]
    rw [Shared.patch_setWorld (Patch.apply_setUsers hguard _)]
    rfl
  | testEmpty channel =>
    have hguard : y.cell.guard ≠ .usersM channel :=
      fun h => hy (by rw [h]; exact List.mem_cons_self)
    simp only [Unsubscribe.next, Shared.patch_world, Patch.apply_users (w := d.world) hguard,
      Act.mapData_ite]
    rfl
  | poolRemove channel =>
    have hguard : y.cell.guard ≠ .mChannelsM := fun h => hy (by rw [h]; exact List.mem_cons_self)
    simp only [Unsubscribe.next, Shared.patch_world, Patch.apply_name,
      Patch.apply_pool (w := d.world) hguard]
    rw [Shared.patch_setWorld (Patch.apply_setPool hguard _)]
    rfl
  | _ => rfl

theorem removeFromUser_patch {w : World υ} {chUser : υ} (h : y.cell.guard ≠ .channelsM chUser)
    (c : ChannelRef) (name : Bytes) (n j : ℕ) :
    removeFromUser (y.apply w) c name chUser n j =
      (removeFromUser w c name chUser n j).map y.apply := by
  induction n generalizing j with
  | zero => rfl
  | succ n ih =>
    rw [removeFromUser, removeFromUser, Patch.apply_channels h, Patch.apply_name]
    cases (w.channels chUser)[j]? with
    | none => rfl
    | some d =>
      dsimp only
      split
      · rw [Patch.apply_setChannels h]
        rfl
      · exact ih (j + 1)

theorem Delete.next_patch {p : Delete.Pc υ} (hy : y.cell.guard ∉ Delete.held u p)
    (hu : ∀ name channel i chUser, p = .member name channel i chUser →
      y.cell.guard ≠ .channelsM u) :
    Delete.next t u (d.patch y) p = (Delete.next t u d p).mapData (Shared.patch y) := by
  cases p with
  | scan name i =>
    have hguard : y.cell.guard ≠ .channelsM u := fun h => hy (List.mem_singleton.mpr h)
    simp only [Delete.next, Shared.patch_world, Patch.apply_channels (w := d.world) hguard]
    split <;> rfl
  | test name i channel =>
    simp only [Delete.next, Shared.patch_world, Patch.apply_name, Act.mapData_ite]
    rfl
  | members name channel i =>
    have hguard : y.cell.guard ≠ .usersM channel := fun h => hy (List.mem_singleton.mpr h)
    simp only [Delete.next, Shared.patch_world, Patch.apply_users (w := d.world) hguard]
    split <;> rfl
  | member name channel i chUser =>
    have hguard : y.cell.guard ≠ .channelsM chUser :=
      fun h => hy (by rw [h]; exact List.mem_cons_self)
    simp only [Delete.next, Shared.patch_world, removeFromUser_patch (w := d.world) hguard,
      Patch.apply_channels (w := d.world) (hu name channel i chUser rfl)]
    cases removeFromUser d.world channel name chUser (d.world.channels u).length 0 <;> rfl
  | poolRemove name channel =>
    have hguard : y.cell.guard ≠ .mChannelsM := fun h => hy (by rw [h]; exact List.mem_cons_self)
    simp only [Delete.next, Shared.patch_world, Patch.apply_name,
      Patch.apply_pool (w := d.world) hguard]
    rw [Shared.patch_setWorld (Patch.apply_setPool hguard _)]
    rfl
  | _ => rfl

theorem ListUsers.next_patch {p : ListUsers.Pc} (hy : y.cell.guard ∉ ListUsers.held u p) :
    ListUsers.next accounts t u (d.patch y) p =
      (ListUsers.next accounts t u d p).mapData (Shared.patch y) := by
  cases p with
  | scan name i =>
    have hguard : y.cell.guard ≠ .channelsM u := fun h => hy (List.mem_singleton.mpr h)
    simp only [ListUsers.next, Shared.patch_world, Patch.apply_channels (w := d.world) hguard]
    split <;> rfl
  | test name i channel =>
    simp only [ListUsers.next, Shared.patch_world, Patch.apply_name, Act.mapData_ite]
    rfl
  | list channel =>
    have hguard : y.cell.guard ≠ .usersM channel :=
      fun h => hy (by rw [h]; exact List.mem_cons_self)
    simp only [ListUsers.next, Shared.patch_world, Patch.apply_users (w := d.world) hguard]
    rfl
  | _ => rfl

theorem Chat.next_patch {p : Chat.Pc υ} (hy : y.cell.guard ∉ Chat.held u p)
    (hu : ∀ i j c, p = .globalLoop i j → (d.world.channels u)[i]? = some c →
      y.cell.guard ≠ .usersM c) :
    Chat.next accounts t u (d.patch y) p =
      (Chat.next accounts t u d p).mapData (Shared.patch y) := by
  cases p with
  | get to_ =>
    have hguard : y.cell.guard ≠ .mChannelsM := fun h => hy (List.mem_singleton.mpr h)
    simp only [Chat.next, Shared.patch_world, Patch.apply_name,
      Patch.apply_pool (w := d.world) hguard]
    rfl
  | found channel =>
    cases channel <;> rfl
  | test channel =>
    have hguard : y.cell.guard ≠ .usersM channel := fun h => hy (List.mem_singleton.mpr h)
    have hin : isInChannel accounts (y.apply d.world) u channel =
        isInChannel accounts d.world u channel := by
      rw [isInChannel, Patch.apply_users hguard, isInChannel]
    simp only [Chat.next, Shared.patch_world, hin, Act.mapData_ite]
    rfl
  | groupLoop channel i =>
    have hguard : y.cell.guard ≠ .usersM channel := fun h => hy (List.mem_singleton.mpr h)
    simp only [Chat.next, Shared.patch_world, Patch.apply_users (w := d.world) hguard]
    split
    · rfl
    · simp only [Act.mapData_ite]
      rfl
  | start =>
    have hguard : y.cell.guard ≠ .channelsM u := fun h => hy (List.mem_singleton.mpr h)
    simp only [Chat.next, Shared.patch_world, Patch.apply_channels (w := d.world) hguard,
      Act.mapData_ite]
    rfl
  | globalLoop i j =>
    have hguard : y.cell.guard ≠ .channelsM u := fun h => hy (List.mem_singleton.mpr h)
    simp only [Chat.next, Shared.patch_world, Patch.apply_channels (w := d.world) hguard]
    cases hi : (d.world.channels u)[i]? with
    | none => rfl
    | some c =>
      simp only [Patch.apply_users (w := d.world) (hu i j c rfl hi)]
      split
      · rfl
      · simp only [Act.mapData_ite]
        rfl
  | _ => rfl

/-- An action that touches a vector holds its mutex, but for the two places without it. -/
theorem guard_of_touches {p : Pc υ} {x : Cell υ} (hx : x.Exists d.world)
    (h : Touches accounts t u d p x) : x.guard ∈ held u p ∨ Unprotected u d p x := by
  obtain ⟨y, rfl, hne⟩ := h
  by_contra hnot
  rw [not_or] at hnot
  obtain ⟨hy, hun⟩ := hnot
  apply hne
  cases p with
  | idle => rfl
  | subscribe p => rw [handle, handle, Subscribe.next_patch hy hx, Act.mapData_map]
  | unsubscribe p => rw [handle, handle, Unsubscribe.next_patch hy, Act.mapData_map]
  | delete p =>
    rw [handle, handle, Delete.next_patch hy, Act.mapData_map]
    rintro name channel i chUser rfl hu
    refine hun (.inr ⟨name, channel, i, chUser, rfl, ?_, Cell.guard_injective hu⟩)
    rintro rfl
    exact hy (by rw [hu]; exact List.mem_cons_self)
  | listUsers p => rw [handle, handle, ListUsers.next_patch hy, Act.mapData_map]
  | chat p =>
    rw [handle, handle, Chat.next_patch hy, Act.mapData_map]
    rintro i j c rfl hc hu
    exact hun (.inl ⟨i, j, c, rfl, hc, Cell.guard_injective hu⟩)

def Cell.patch (w : World υ) : Cell υ → Patch υ
  | .channels v => .channels v (w.channels v)
  | .users c => .users c (w.users c)
  | .pool => .pool w.pool

omit [DecidableEq υ] in
@[simp] theorem Cell.patch_cell {x : Cell υ} (w : World υ) : (x.patch w).cell = x := by
  cases x <;> rfl

theorem Cell.patch_apply {x : Cell υ} (w : World υ) : (x.patch w).apply w = w := by
  cases x with
  | channels v => simp [Cell.patch, Patch.apply, World.setChannels]
  | users c => simp [Cell.patch, Patch.apply, World.setUsers, World.users]
  | pool => rfl

theorem Cell.same_patch {x : Cell υ} (w w' : World υ) : x.Same w ((x.patch w).apply w') := by
  cases x with
  | channels v => simp [Cell.patch, Patch.apply, Cell.Same]
  | users c => simp [Cell.patch, Patch.apply, Cell.Same]
  | pool => rfl

theorem Changes.touches {p : Pc υ} {x : Cell υ} (h : Changes accounts t u d p x) :
    Touches accounts t u d p x := by
  obtain ⟨d', q, hm, hne⟩ := h
  refine ⟨x.patch d.world, Cell.patch_cell _, fun heq => hne ?_⟩
  have hself : d.patch (x.patch d.world) = d := by
    rw [Shared.patch, Cell.patch_apply]
    rfl
  rw [hself] at heq
  rw [heq] at hm
  rcases Act.eq_of_moves_mapData hm with rfl | ⟨e, rfl⟩
  · cases x <;> rfl
  · exact Cell.same_patch _ _

/-- What the two places without a mutex touch is left as it is. -/
theorem Unprotected.not_changes {p : Pc υ} {x : Cell υ} (h : Unprotected u d p x) :
    ¬ Changes accounts t u d p x := by
  rintro ⟨d', q, hm, hne⟩
  apply hne
  rcases h with ⟨i, j, c, rfl, hc, rfl⟩ | ⟨name, channel, i, chUser, rfl, hu, rfl⟩
  · obtain ⟨r, hm, -⟩ := Act.moves_map.mp hm
    simp only [Chat.next, hc] at hm
    grind [Act.Moves, Cell.Same]
  · obtain ⟨r, hm, -⟩ := Act.moves_map.mp hm
    rw [Delete.next] at hm
    cases hr : removeFromUser d.world channel name chUser (d.world.channels u).length 0 with
    | error e =>
      rw [hr] at hm
      exact hm.elim
    | ok w =>
      rw [hr] at hm
      have hguard : ((Cell.channels u).patch d.world).cell.guard ≠ .channelsM chUser := fun h =>
        hu (Mutex.channelsM.inj h).symm
      have hpatch := removeFromUser_patch (w := d.world) hguard channel name
        (d.world.channels u).length 0
      rw [Cell.patch_apply, hr] at hpatch
      rw [hm.1, Shared.setWorld_world, Except.ok.inj hpatch]
      exact Cell.same_patch _ _

theorem guard_of_changes {p : Pc υ} {x : Cell υ} (hx : x.Exists d.world)
    (h : Changes accounts t u d p x) : x.guard ∈ held u p :=
  (guard_of_touches hx h.touches).resolve_right fun hun => hun.not_changes h

end Handlers

section Runs

variable {ι υ : Type*} [DecidableEq ι] [DecidableEq υ] (accounts : Accounts υ) (session : ι → υ)
  (c : HandlerState ι υ) (s t : ι) (x : Cell υ)

/-- Of two threads the one is about to change a vector, and the other one about to read it or
to change it. -/
def Racing : Prop :=
  s ≠ t ∧ x.Exists c.data.world ∧ Changes accounts s (session s) c.data (c.pc s) x ∧
    Touches accounts t (session t) c.data (c.pc t) x

variable {accounts session c}

/-- In every interleaving two threads race for a vector only where the one that does not
hold the mutex is in one of two loops; every other access holds the mutex of its vector. -/
theorem races_only_unprotected
    (h : Reach (step (handlers accounts session)) anyStep (· = started ι υ) c) :
    (∀ s t x, Racing accounts session c s t x →
      x.guard ∈ held (session s) (c.pc s) ∧ Unprotected (session t) c.data (c.pc t) x) ∧
    ∀ t (x : Cell υ), x.Exists c.data.world →
      Touches accounts t (session t) c.data (c.pc t) x →
      x.guard ∈ held (session t) (c.pc t) ∨ Unprotected (session t) c.data (c.pc t) x := by
  have howned := handlers_owned_of_reach h
  constructor
  · rintro s t x ⟨hne, hx, hs, ht⟩
    have hguard := guard_of_changes hx hs
    exact ⟨hguard, (guard_of_touches hx ht).resolve_left fun hheld =>
      hne (howned.unique hguard hheld)⟩
  · intro t x hx ht
    exact guard_of_touches hx ht

end Runs

section Schedules

variable {ι υ : Type*} [DecidableEq υ] {accounts : Accounts υ} {t : ι} {u : υ} {d : Shared ι υ}
  {c : ChannelRef}

theorem changes_addUser :
    Changes accounts t u d (.subscribe (.addUser c)) (.users c) := by
  refine ⟨_, _, ⟨rfl, rfl⟩, fun h => ?_⟩
  have hlen := congrArg List.length h
  simp [Shared.setWorld] at hlen

theorem touches_globalLoop (hc : d.world.channels u = [c]) (hu : d.world.users c = [u]) :
    Touches accounts t u d (.chat (.globalLoop 0 0)) (.users c) := by
  refine ⟨.users c [], rfl, fun h => ?_⟩
  simp [handle, Chat.next, Patch.apply, hc, hu, Act.map, Act.mapData, place] at h

theorem changes_join : Changes accounts t u d (.subscribe (.join c)) (.channels u) := by
  refine ⟨_, _, ⟨rfl, rfl⟩, fun h => ?_⟩
  have hlen := congrArg List.length h
  simp [Shared.setWorld] at hlen

theorem touches_member {name : Bytes} {i : ℕ} {v : υ} (hv : v ≠ u)
    (hu : d.world.channels u = []) (hc : d.world.channels v = [c]) (hname : d.world.name c = name) :
    Touches accounts t u d (.delete (.member name c i v)) (.channels u) := by
  refine ⟨.channels u [c], rfl, fun h => ?_⟩
  have hchannels : (d.world.setChannels u [c]).channels v = [c] := by
    rw [World.setChannels_channels_of_ne _ hv, hc]
  simp only [handle, Delete.next, Shared.patch_world, Patch.apply, World.setChannels_channels_self,
    hu, List.length_cons, List.length_nil, removeFromUser, hchannels, List.getElem?_cons_zero,
    World.setChannels_name, hname, if_true, Act.map, Act.mapData, Act.unlock.injEq] at h
  have hsame := congrArg (fun d => d.world.channels v) h.2.1
  simp [Shared.setWorld, Shared.patch, Patch.apply, World.setChannels_channels_of_ne _ hv, hc]
    at hsame

end Schedules

/-- A subscriber of a channel sends a global message while another user subscribes. -/
theorem races_only_unprotected_global : ∃ c : HandlerState Bool Bool,
    Racing pair id c false true (.users 0) ∧
      Cell.guard (.users 0) ∈ held false (c.pc false) ∧
      Unprotected true c.data (c.pc true) (.users 0) := by
  have hrun : ∃ c, Reach (step (handlers pair id)) anyStep (· = started Bool Bool) c ∧
      decide (c.pc true = .chat (.globalLoop 0 0) ∧ c.pc false = .subscribe (.addUser 0) ∧
        c.data.world.channels true = [0] ∧ c.data.world.users 0 = [true] ∧
        0 < c.data.world.next) = true :=
    exists_reach_of_run rfl
      (lineSteps true (.subscribe (ascii "room") (ascii "pw")) 12 ++
        lineSteps true (.message (.global (ascii "hi"))) 2 ++
        lineSteps false (.subscribe (ascii "room") (ascii "pw")) 7) (by decide)
  obtain ⟨c, hr, hP⟩ := hrun
  obtain ⟨htrue, hfalse, hchannels, husers, hnext⟩ := of_decide_eq_true hP
  have hrace : Racing pair id c false true (.users 0) := by
    refine ⟨by decide, hnext, ?_, ?_⟩
    · rw [hfalse]
      exact changes_addUser
    · rw [htrue]
      exact touches_globalLoop hchannels husers
  exact ⟨c, hrace, (races_only_unprotected hr).1 _ _ _ hrace⟩

/-- The first two connections are of one user: it deletes a channel on the one while it
subscribes to another one on the other. -/
theorem racing_delete : ∃ c : HandlerState (Fin 3) Bool,
    Reach (step (handlers pair fun i => decide (i ≠ 2))) anyStep (· = started (Fin 3) Bool) c ∧
      Racing pair (fun i => decide (i ≠ 2)) c 1 0 (.channels true) := by
  have hrun : ∃ c, Reach (step (handlers pair fun i => decide (i ≠ 2))) anyStep
        (· = started (Fin 3) Bool) c ∧
      decide (c.pc 0 = .delete (.member (ascii "room") 0 1 false) ∧
        c.pc 1 = .subscribe (.join 1) ∧ c.data.world.channels true = [] ∧
        c.data.world.channels false = [0] ∧ c.data.world.name 0 = ascii "room") = true :=
    exists_reach_of_run rfl
      (lineSteps 0 (.subscribe (ascii "room") (ascii "pw")) 12 ++
        lineSteps 2 (.subscribe (ascii "room") (ascii "pw")) 9 ++
        lineSteps 0 (.delete (ascii "room")) 8 ++
        lineSteps 1 (.subscribe (ascii "hall") (ascii "pw")) 8) (by decide)
  obtain ⟨c, hr, hP⟩ := hrun
  obtain ⟨hdelete, hsubscribe, hnone, hone, hname⟩ := of_decide_eq_true hP
  refine ⟨c, hr, by decide, trivial, ?_, ?_⟩
  · rw [hsubscribe]
    exact changes_join
  · rw [hdelete]
    exact touches_member (by decide) hnone hone hname

end Chatd.Protocol
