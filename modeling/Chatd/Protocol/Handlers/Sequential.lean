import Chatd.Library.Alone
import Chatd.Protocol.Handlers

/-! # The handlers without interleaving

A handler that runs alone computes what the sequential reading of its source says.
-/
namespace Chatd.Protocol
open Library Net.Server

variable {ι υ : Type*} [DecidableEq υ]

abbrev HandlerRuns (accounts : Accounts υ) (session : ι → υ) (t : ι) :
    Shared ι υ × Pc υ → Shared ι υ × Pc υ → Prop :=
  RunsAlone (handlers accounts session) (fun t => held (session t)) t

variable {accounts : Accounts υ} {session : ι → υ} {t : ι} {d : Shared ι υ} {name : Bytes}
  {c : ChannelRef} {w : World υ} {reply : Bytes}

section Rules

variable {e : Shared ι υ} {p q : Pc υ} {m : Mutex υ} {y : Shared ι υ × Pc υ}

theorem HandlerRuns.lock (h : handle accounts t (session t) d p = .lock m q)
    (hm : m ∉ held (session t) p) (hr : HandlerRuns accounts session t (d, q) y) :
    HandlerRuns accounts session t (d, p) y := by
  refine RunsAlone.lock (.delete []) ?_ hm hr
  cases p with
  | idle => cases h
  | _ => exact h

theorem HandlerRuns.unlock (h : handle accounts t (session t) d p = .unlock m e q)
    (hr : HandlerRuns accounts session t (e, q) y) :
    HandlerRuns accounts session t (d, p) y := by
  refine RunsAlone.unlock (m := m) (.delete []) ?_ hr
  cases p with
  | idle => cases h
  | _ => exact h

theorem HandlerRuns.act (h : handle accounts t (session t) d p = .act e q)
    (hr : HandlerRuns accounts session t (e, q) y) :
    HandlerRuns accounts session t (d, p) y := by
  refine RunsAlone.act (.delete []) ?_ hr
  cases p with
  | idle => cases h
  | _ => exact h

end Rules

section Scan

variable (scan : ℕ → Pc υ) (test : ℕ → ChannelRef → Pc υ)

/-- The loop over the channels of the user, under the lock of each of them. -/
theorem runs_scan
    (hlock : ∀ i c, (d.world.channels (session t))[i]? = some c →
      handle accounts t (session t) d (scan i) = .lock (.usersM c) (test i c))
    (hfree : ∀ i c, Mutex.usersM c ∉ held (session t) (scan i))
    (hmiss : ∀ i c, d.world.name c ≠ name →
      handle accounts t (session t) d (test i c) = .unlock (.usersM c) d (scan (i + 1))) :
    HandlerRuns accounts session t (d, scan 0)
      (d, scan ((d.world.channels (session t)).findIdx fun c => d.world.name c == name)) := by
  refine runsAlone_findIdx scan test (fun i c hc => ?_) (fun i c hc => ?_)
  · exact HandlerRuns.lock (hlock i c hc) (hfree i c) .refl
  · have hname : d.world.name c ≠ name := by simpa using hc
    exact HandlerRuns.unlock (hmiss i c hname) .refl

omit [DecidableEq υ] in
theorem getElem?_findIdx_name (w : World υ) (cs : List ChannelRef) (name : Bytes) :
    cs[cs.findIdx fun c => w.name c == name]? = w.find cs name :=
  List.find?_eq_getElem?_findIdx.symm

end Scan

section Delete

theorem runs_delete_scan :
    HandlerRuns accounts session t (d, .delete (.scan name 0))
      (d, .delete (.scan name
        ((d.world.channels (session t)).findIdx fun c => d.world.name c == name))) := by
  apply runs_scan (fun i => Pc.delete (.scan name i)) fun i c => Pc.delete (.test name i c)
  · intro i c hc
    simp [handle, Delete.next, hc, Act.map, place]
  · intro i c
    simp [held, Delete.held]
  · intro i c hname
    simp [handle, Delete.next, hname, Act.map, place]

theorem removeFromUser_users {n j : ℕ} {v : υ} {w' : World υ}
    (h : removeFromUser w c name v n j = .ok w') : w'.users = w.users := by
  induction n generalizing j with
  | zero => cases h; rfl
  | succ n ih =>
    rw [removeFromUser] at h
    split at h
    · cases h
    · split at h
      · cases h; rfl
      · exact ih h

theorem runs_delete_members {i : ℕ} {users : List υ} {w' : World υ}
    (husers : (d.world.users c).drop i = users)
    (h : removeFromUsers (session t) c name d.world users = .ok w') :
    HandlerRuns accounts session t (d, .delete (.members name c i))
      (d.setWorld w', .delete (.poolRemove name c)) := by
  induction users generalizing d i with
  | nil =>
    cases h
    refine HandlerRuns.lock (m := .mChannelsM) (q := .delete (.poolRemove name c)) ?_ ?_ .refl
    · have hi : (d.world.users c)[i]? = none := by simpa using husers
      simp [handle, Delete.next, hi, Act.map, place]
    · simp [held, Delete.held]
  | cons v users ih =>
    obtain ⟨hi, hrest⟩ := getElem?_of_drop_eq_cons husers
    rw [removeFromUsers] at h
    cases hw : removeFromUser d.world c name v (d.world.channels (session t)).length 0 with
    | error e => rw [hw] at h; cases h
    | ok w1 =>
      rw [hw, ok_bind] at h
      refine HandlerRuns.lock (m := .channelsM v) (q := .delete (.member name c i v)) ?_ ?_ ?_
      · simp [handle, Delete.next, hi, Act.map, place]
      · simp [held, Delete.held]
      · refine HandlerRuns.unlock (m := .channelsM v) (e := d.setWorld w1)
          (q := .delete (.members name c (i + 1))) ?_ (ih ?_ h)
        · simp [handle, Delete.next, hw, Act.map, place]
        · rw [Shared.setWorld_world, removeFromUser_users hw]
          exact hrest

theorem runs_delete {w' : World υ} (h : delete d.world (session t) name = .ok (w', reply)) :
    HandlerRuns accounts session t (d, .delete (.lockUser name))
      ((d.setWorld w').reply t reply, .idle) := by
  have hget := getElem?_findIdx_name d.world (d.world.channels (session t)) name
  refine HandlerRuns.lock (m := .channelsM (session t)) (q := .delete (.scan name 0)) rfl
    (by simp [held, Delete.held]) (runs_delete_scan.trans ?_)
  rw [delete] at h
  cases hf : d.world.find (d.world.channels (session t)) name with
  | none =>
    rw [hf] at h hget
    cases h
    refine HandlerRuns.unlock (m := .channelsM (session t)) (q := .idle) ?_ .refl
    simp [handle, Delete.next, hget, Act.map, place]
    rfl
  | some c =>
    have hname : d.world.name c = name := by simpa using List.find?_some hf
    rw [hf] at h hget
    cases hw : removeFromUsers (session t) c name d.world (d.world.users c) with
    | error e => simp only [hw] at h; cases h
    | ok w1 =>
      simp only [hw, ok_bind] at h
      cases h
      apply HandlerRuns.lock (m := .usersM c) (q := .delete (.test name _ c))
        (by simp [handle, Delete.next, hget, Act.map, place]; rfl)
        (by simp [held, Delete.held])
      apply HandlerRuns.unlock (m := .usersM c) (e := d) (q := .delete (.unlockUser name c))
        (by simp [handle, Delete.next, hname, Act.map, place])
      apply HandlerRuns.unlock (m := .channelsM (session t)) (q := .delete (.lockUsers name c))
        rfl
      refine HandlerRuns.lock (m := .usersM c) (q := .delete (.members name c 0)) rfl
        (by simp [held, Delete.held]) ((runs_delete_members rfl hw).trans ?_)
      apply HandlerRuns.unlock (m := .mChannelsM) (q := .delete (.unlockUsers c)) rfl
      exact HandlerRuns.unlock (m := .usersM c) (q := .idle) rfl .refl

end Delete

section Messages

def sendAll (d : Shared ι υ) (t : ι) (names : List Bytes) : Shared ι υ :=
  { d with visits := d.visits ++ names.map (t, ·) }

omit [DecidableEq υ] in
@[simp] theorem sendAll_nil : sendAll d t [] = d := by simp [sendAll]

omit [DecidableEq υ] in
@[simp] theorem sendAll_world (names : List Bytes) : (sendAll d t names).world = d.world := rfl

omit [DecidableEq υ] in
theorem sendAll_cons (n : Bytes) (names : List Bytes) :
    sendAll d t (n :: names) = sendAll (d.sendMsg t n) t names := by
  simp [sendAll, Shared.sendMsg]

omit [DecidableEq υ] in
theorem sendAll_append (xs ys : List Bytes) :
    sendAll d t (xs ++ ys) = sendAll (sendAll d t xs) t ys := by
  simp [sendAll]

def otherNamesOf (accounts : Accounts υ) (u : υ) (users : List υ) : List Bytes :=
  (users.map accounts.name).filter fun name => accounts.name u != name

omit [DecidableEq υ] in
theorem otherNamesOf_cons (u v : υ) (users : List υ) :
    otherNamesOf accounts u (v :: users) = if accounts.name u = accounts.name v then
      otherNamesOf accounts u users else accounts.name v :: otherNamesOf accounts u users := by
  by_cases h : accounts.name u = accounts.name v <;> simp [otherNamesOf, h]

theorem runs_groupLoop {i : ℕ} {users : List υ} (husers : (d.world.users c).drop i = users) :
    HandlerRuns accounts session t (d, .chat (.groupLoop c i))
      (sendAll d t (otherNamesOf accounts (session t) users), .idle) := by
  induction users generalizing d i with
  | nil =>
    have hi : (d.world.users c)[i]? = none := by simpa using husers
    refine HandlerRuns.unlock (m := .usersM c) (e := d) (q := .idle) ?_ ?_
    · simp [handle, Chat.next, hi, Act.map, place]
    · rw [otherNamesOf, List.map_nil, List.filter_nil, sendAll_nil]
  | cons v users ih =>
    obtain ⟨hi, hrest⟩ := getElem?_of_drop_eq_cons husers
    rw [otherNamesOf_cons]
    by_cases hname : accounts.name (session t) = accounts.name v
    · rw [if_pos hname]
      refine HandlerRuns.act (e := d) (q := .chat (.groupLoop c (i + 1))) ?_ (ih hrest)
      simp [handle, Chat.next, hi, hname, Act.map, place]
    · rw [if_neg hname, sendAll_cons]
      refine HandlerRuns.lock (m := .mConnsM) (q := .chat (.groupSend c i v)) ?_ ?_ ?_
      · simp [handle, Chat.next, hi, hname, Act.map, place]
      · simp [held, Chat.held]
      · exact HandlerRuns.unlock (m := .mConnsM)
          (q := .chat (.groupLoop c (i + 1))) rfl (ih hrest)

theorem runs_globalUsers {i j : ℕ} {users : List υ}
    (hc : (d.world.channels (session t))[i]? = some c) (husers : (d.world.users c).drop j = users) :
    HandlerRuns accounts session t (d, .chat (.globalLoop i j))
      (sendAll d t (otherNamesOf accounts (session t) users), .chat (.globalLoop (i + 1) 0)) := by
  induction users generalizing d j with
  | nil =>
    have hj : (d.world.users c)[j]? = none := by simpa using husers
    refine HandlerRuns.act (e := d) (q := .chat (.globalLoop (i + 1) 0)) ?_ ?_
    · simp [handle, Chat.next, hc, hj, Act.map, place]
    · rw [otherNamesOf, List.map_nil, List.filter_nil, sendAll_nil]
  | cons v users ih =>
    obtain ⟨hj, hrest⟩ := getElem?_of_drop_eq_cons husers
    rw [otherNamesOf_cons]
    by_cases hname : accounts.name (session t) = accounts.name v
    · rw [if_pos hname]
      refine HandlerRuns.act (e := d) (q := .chat (.globalLoop i (j + 1))) ?_ (ih hc hrest)
      simp [handle, Chat.next, hc, hj, hname, Act.map, place]
    · rw [if_neg hname, sendAll_cons]
      refine HandlerRuns.lock (m := .mConnsM) (q := .chat (.globalSend i j v)) ?_ ?_ ?_
      · simp [handle, Chat.next, hc, hj, hname, Act.map, place]
      · simp [held, Chat.held]
      · exact HandlerRuns.unlock (m := .mConnsM) (q := .chat (.globalLoop i (j + 1))) rfl
          (ih hc hrest)

theorem runs_globalLoop {i : ℕ} {cs : List ChannelRef}
    (hcs : (d.world.channels (session t)).drop i = cs) :
    HandlerRuns accounts session t (d, .chat (.globalLoop i 0))
      (sendAll d t (cs.flatMap (otherNames accounts d.world (session t))), .idle) := by
  induction cs generalizing d i with
  | nil =>
    have hi : (d.world.channels (session t))[i]? = none := by simpa using hcs
    refine HandlerRuns.unlock (m := .channelsM (session t)) (e := d) (q := .idle) ?_ ?_
    · simp [handle, Chat.next, hi, Act.map, place]
    · rw [List.flatMap_nil, sendAll_nil]
  | cons c cs ih =>
    obtain ⟨hi, hrest⟩ := getElem?_of_drop_eq_cons hcs
    rw [List.flatMap_cons, sendAll_append]
    exact (runs_globalUsers hi rfl).trans (ih hrest)

/-- A message handled alone calls `send_msg` and replies as `dispatch` says. -/
theorem runs_dispatch (msg : Message) :
    HandlerRuns accounts session t (d, enter (.message msg))
      (sendAll ((dispatch accounts d.world (session t) msg).2.elim d (d.reply t)) t
        (dispatch accounts d.world (session t) msg).1, .idle) := by
  cases msg with
  | direct to_ content =>
    apply HandlerRuns.lock (m := .mConnsM) (q := .chat (.send to_)) rfl
      (by simp [held, enter, Chat.held])
    exact HandlerRuns.unlock (m := .mConnsM) (q := .idle) rfl .refl
  | group to_ content =>
    apply HandlerRuns.lock (m := .mChannelsM) (q := .chat (.get to_)) rfl
      (by simp [held, enter, Chat.held])
    refine HandlerRuns.unlock (m := .mChannelsM) (e := d)
      (q := .chat (.found (ConnectionPool.get d.world.name d.world.pool to_))) rfl ?_
    rw [dispatch]
    cases ConnectionPool.get d.world.name d.world.pool to_ with
    | none =>
      apply HandlerRuns.act (e := d.reply t (ascii "ERR: Channel not found!\n")) (q := .idle) rfl
      rw [sendAll_nil, Option.elim_some]
    | some c =>
      apply HandlerRuns.lock (m := .usersM c) (q := .chat (.test c)) rfl
        (by simp [held, Chat.held])
      dsimp only
      by_cases hin : isInChannel accounts d.world (session t) c = true
      · rw [if_pos hin]
        refine HandlerRuns.act (e := d) (q := .chat (.groupLoop c 0)) ?_ (runs_groupLoop rfl)
        simp [handle, Chat.next, hin, Act.map, place]
      · rw [if_neg hin, sendAll_nil, Option.elim_some]
        refine HandlerRuns.unlock (m := .usersM c) (q := .idle) ?_ .refl
        simp [handle, Chat.next, hin, Act.map, place]
  | global content =>
    apply HandlerRuns.lock (m := .channelsM (session t)) (q := .chat .start) rfl
      (by simp [held, enter, Chat.held])
    rw [dispatch]
    dsimp only
    by_cases hcs : d.world.channels (session t) = []
    · rw [if_pos hcs, Option.elim_some]
      refine HandlerRuns.act (q := .chat (.globalLoop 0 0))
        (e := d.reply t (ascii "ERR: You are not subscribed to any channel!\n")) ?_
        (runs_globalLoop rfl)
      simp [handle, Chat.next, hcs, Act.map, place]
    · rw [if_neg hcs, Option.elim_none]
      refine HandlerRuns.act (e := d) (q := .chat (.globalLoop 0 0)) ?_ (runs_globalLoop rfl)
      simp [handle, Chat.next, hcs, Act.map, place]

end Messages

/-- What a handler does alone it does in the system while the other connections are idle. -/
theorem exists_run_of_handlerRuns [DecidableEq ι] {s : HandlerState ι υ} {y : Shared ι υ × Pc υ}
    (hs : Owned (fun t => held (session t)) s) (hidle : ∀ i, i ≠ t → s.pc i = .idle)
    (h : HandlerRuns accounts session t (s.data, s.pc t) y) :
    ∃ (ls : List Line) (s' : HandlerState ι υ),
      run (step (handlers accounts session)) s (ls.map (t, ·)) = some s' ∧
        s'.data = y.1 ∧ s'.pc t = y.2 ∧ ∀ i, i ≠ t → s'.pc i = .idle := by
  obtain ⟨ls, s', hrun, hdata, hpc, hother⟩ :=
    hs.exists_run (handlers_scoped session) (fun i hi => by rw [hidle i hi]; rfl) h
  exact ⟨ls, s', hrun, hdata, hpc, fun i hi => (hother i hi).trans (hidle i hi)⟩

end Chatd.Protocol
