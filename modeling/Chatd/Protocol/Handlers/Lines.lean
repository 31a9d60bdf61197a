import Chatd.Protocol.Execute
import Chatd.Protocol.Handlers.Sequential

/-! # Every handler computes its sequential meaning

The threads of `/subscribe`, `/unsubscribe` and `/list_users`, run alone, change the
lists and reply as the functions on the lists say; with `/delete` and the messages this
gives `execute` for every line.
-/
namespace Chatd.Protocol
open Library Net.Server

variable {ι υ : Type*} [DecidableEq υ] {accounts : Accounts υ} {session : ι → υ} {t : ι}
  {d : Shared ι υ} {name password : Bytes} {c : ChannelRef}

section Subscribe

theorem runs_subscribe_join :
    HandlerRuns accounts session t (d, .subscribe (.join c))
      (d.setWorld (join d.world (session t) c), .idle) := by
  apply HandlerRuns.act (q := .subscribe (.lockUsers c)) rfl
  apply HandlerRuns.lock (m := .usersM c) (q := .subscribe (.addUser c)) rfl
    (by simp [held, Subscribe.held])
  apply HandlerRuns.unlock (m := .usersM c) (q := .subscribe .unlockUser) rfl
  exact HandlerRuns.unlock (m := .channelsM (session t)) (q := .idle) rfl .refl

theorem runs_subscribe :
    HandlerRuns accounts session t (d, .subscribe (.lockUser name password))
      ((d.setWorld (subscribe d.world (session t) name password).1).reply t
        (subscribe d.world (session t) name password).2, .idle) := by
  apply HandlerRuns.lock (m := .channelsM (session t)) (q := .subscribe (.scan name password)) rfl
    (by simp [held, Subscribe.held])
  rw [subscribe]
  by_cases hfind : (d.world.find (d.world.channels (session t)) name).isSome = true
  · rw [if_pos hfind]
    apply HandlerRuns.act (q := .subscribe .unlockUser)
      (e := d.reply t (ascii "ERR: You are already in the channel!\n"))
      (by simp [handle, Subscribe.next, hfind, Act.map, place])
    exact HandlerRuns.unlock (m := .channelsM (session t)) (q := .idle) rfl .refl
  · rw [if_neg hfind]
    apply HandlerRuns.act (q := .subscribe (.lockGet name password)) (e := d)
      (by simp [handle, Subscribe.next, hfind, Act.map, place])
    apply HandlerRuns.lock (m := .mChannelsM) (q := .subscribe (.get name password)) rfl
      (by simp [held, Subscribe.held])
    apply HandlerRuns.unlock (m := .mChannelsM) (e := d) (q := .subscribe (.found name password
      (ConnectionPool.get d.world.name d.world.pool name))) rfl
    cases ConnectionPool.get d.world.name d.world.pool name with
    | some channel =>
      dsimp only
      by_cases hpassword : password = (d.world.channel channel).password
      · rw [if_pos hpassword]
        apply HandlerRuns.act (q := .subscribe (.join channel))
          (e := d.reply t (ascii "SRV: Joined to the channel.\n"))
          (by simp [handle, Subscribe.next, hpassword, Act.map, place])
        exact runs_subscribe_join
      · rw [if_neg hpassword]
        apply HandlerRuns.act (q := .subscribe .unlockUser)
          (e := d.reply t (ascii "ERR: Invalid password!\n"))
          (by simp [handle, Subscribe.next, hpassword, Act.map, place])
        exact HandlerRuns.unlock (m := .channelsM (session t)) (q := .idle) rfl .refl
    | none =>
      dsimp only
      apply HandlerRuns.act (q := .subscribe (.lockPush d.world.next)) rfl
      apply HandlerRuns.lock (m := .mChannelsM) (q := .subscribe (.push d.world.next)) rfl
        (by simp [held, Subscribe.held])
      apply HandlerRuns.unlock (m := .mChannelsM) (q := .subscribe (.pushed d.world.next _)) rfl
      simp only [Shared.setWorld_world]
      cases hok : (ConnectionPool.push (d.world.newChannel name password).name
          (d.world.newChannel name password).pool d.world.next).2 with
      | true =>
        rw [if_pos rfl]
        apply HandlerRuns.act (q := .subscribe (.join d.world.next)) rfl
        exact runs_subscribe_join
      | false =>
        rw [if_neg Bool.false_ne_true]
        apply HandlerRuns.act (q := .subscribe .unlockUser) rfl
        exact HandlerRuns.unlock (m := .channelsM (session t)) (q := .idle) rfl .refl

end Subscribe

section Unsubscribe

theorem runs_unsubscribe_scan :
    HandlerRuns accounts session t (d, .unsubscribe (.scan name 0))
      (d, .unsubscribe (.scan name
        ((d.world.channels (session t)).findIdx fun c => d.world.name c == name))) := by
  apply runs_scan (fun i => Pc.unsubscribe (.scan name i)) fun i c =>
    Pc.unsubscribe (.test name i c)
  · intro i c hc
    simp [handle, Unsubscribe.next, hc, Act.map, place]
  · intro i c
    simp [held, Unsubscribe.held]
  · intro i c hname
    simp [handle, Unsubscribe.next, hname, Act.map, place]

omit [DecidableEq υ] in
/-- Erasing at the index where the loop stops is removal by name. -/
theorem eraseIdx_findIdx_name {w : World υ} {cs : List ChannelRef}
    (h : w.find cs name = some c) :
    cs.eraseIdx (cs.findIdx fun c => w.name c == name) =
      (ConnectionPool.remove w.name cs name).1 := by
  have hlt : (cs.findIdx fun c => w.name c == name) < cs.length := by
    rw [List.findIdx_lt_length]
    exact ⟨c, mem_of_find h, by simp [name_of_find h]⟩
  rw [ConnectionPool.remove, List.eraseP_eq_eraseIdx,
    List.findIdx?_eq_some_of_exists (List.findIdx_lt_length.mp hlt)]

theorem runs_unsubscribe_empty :
    HandlerRuns accounts session t (d, .unsubscribe (.testEmpty c))
      ((d.setWorld (if d.world.users c = [] then
        { d.world with pool := (ConnectionPool.remove d.world.name d.world.pool
          (d.world.name c)).1 } else d.world)).reply t (ascii "SRV: Unsubscribed!\n"), .idle) := by
  by_cases hempty : d.world.users c = []
  · rw [if_pos hempty]
    apply HandlerRuns.lock (m := .mChannelsM) (q := .unsubscribe (.poolRemove c))
      (by simp [handle, Unsubscribe.next, hempty, Act.map, place])
      (by simp [held, Unsubscribe.held])
    apply HandlerRuns.unlock (m := .mChannelsM) (q := .unsubscribe (.unlockUsers c)) rfl
    apply HandlerRuns.unlock (m := .usersM c) (q := .unsubscribe .unlockUser) rfl
    exact HandlerRuns.unlock (m := .channelsM (session t)) (q := .idle) rfl .refl
  · rw [if_neg hempty]
    apply HandlerRuns.act (q := .unsubscribe (.unlockUsers c)) (e := d)
      (by simp [handle, Unsubscribe.next, hempty, Act.map, place])
    apply HandlerRuns.unlock (m := .usersM c) (q := .unsubscribe .unlockUser) rfl
    exact HandlerRuns.unlock (m := .channelsM (session t)) (q := .idle) rfl .refl

theorem runs_unsubscribe :
    HandlerRuns accounts session t (d, .unsubscribe (.lockUser name))
      ((d.setWorld (unsubscribe accounts.name d.world (session t) name).1).reply t
        (unsubscribe accounts.name d.world (session t) name).2, .idle) := by
  have hget := getElem?_findIdx_name d.world (d.world.channels (session t)) name
  apply HandlerRuns.lock (m := .channelsM (session t)) (q := .unsubscribe (.scan name 0)) rfl
    (by simp [held, Unsubscribe.held])
  refine runs_unsubscribe_scan.trans ?_
  rw [unsubscribe]
  cases hfind : d.world.find (d.world.channels (session t)) name with
  | none =>
    rw [hfind] at hget
    apply HandlerRuns.act (q := .unsubscribe .unlockUser)
      (e := d.reply t (ascii "ERR: You not in the channel!\n"))
      (by simp [handle, Unsubscribe.next, hget, Act.map, place])
    exact HandlerRuns.unlock (m := .channelsM (session t)) (q := .idle) rfl .refl
  | some c =>
    have hname : d.world.name c = name := name_of_find hfind
    rw [hfind] at hget
    apply HandlerRuns.lock (m := .usersM c) (q := .unsubscribe (.test name _ c))
      (by simp [handle, Unsubscribe.next, hget, Act.map, place]; rfl)
      (by simp [held, Unsubscribe.held])
    apply HandlerRuns.act (q := .unsubscribe (.eraseUser c))
      (e := d.setWorld (d.world.setChannels (session t)
        (ConnectionPool.remove d.world.name (d.world.channels (session t)) name).1))
      (by simp [handle, Unsubscribe.next, hname, eraseIdx_findIdx_name hfind, Act.map, place])
    apply HandlerRuns.act (q := .unsubscribe (.testEmpty c)) rfl
    exact runs_unsubscribe_empty

end Unsubscribe

section ListUsers

theorem runs_listUsers_scan :
    HandlerRuns accounts session t (d, .listUsers (.scan name 0))
      (d, .listUsers (.scan name
        ((d.world.channels (session t)).findIdx fun c => d.world.name c == name))) := by
  apply runs_scan (fun i => Pc.listUsers (.scan name i)) fun i c => Pc.listUsers (.test name i c)
  · intro i c hc
    simp [handle, ListUsers.next, hc, Act.map, place]
  · intro i c
    simp [held, ListUsers.held]
  · intro i c hname
    simp [handle, ListUsers.next, hname, Act.map, place]

theorem runs_listUsers :
    HandlerRuns accounts session t (d, .listUsers (.lockUser name))
      (d.reply t (listUsers accounts.name d.world (session t) name), .idle) := by
  have hget := getElem?_findIdx_name d.world (d.world.channels (session t)) name
  apply HandlerRuns.lock (m := .channelsM (session t)) (q := .listUsers (.scan name 0)) rfl
    (by simp [held, ListUsers.held])
  refine runs_listUsers_scan.trans ?_
  rw [listUsers]
  cases hfind : d.world.find (d.world.channels (session t)) name with
  | none =>
    rw [hfind] at hget
    apply HandlerRuns.act (q := .listUsers .unlockUser)
      (e := d.reply t (ascii "ERR: You not in the channel!\n"))
      (by simp [handle, ListUsers.next, hget, Act.map, place])
    exact HandlerRuns.unlock (m := .channelsM (session t)) (q := .idle) rfl .refl
  | some c =>
    have hname : d.world.name c = name := name_of_find hfind
    rw [hfind] at hget
    apply HandlerRuns.lock (m := .usersM c) (q := .listUsers (.test name _ c))
      (by simp [handle, ListUsers.next, hget, Act.map, place]; rfl)
      (by simp [held, ListUsers.held])
    apply HandlerRuns.unlock (m := .usersM c) (e := d) (q := .listUsers (.lockUsers c))
      (by simp [handle, ListUsers.next, hname, Act.map, place])
    apply HandlerRuns.lock (m := .usersM c) (q := .listUsers (.list c)) rfl
      (by simp [held, ListUsers.held])
    apply HandlerRuns.unlock (m := .usersM c) (q := .listUsers .unlockUser) rfl
    exact HandlerRuns.unlock (m := .channelsM (session t)) (q := .idle) rfl .refl

end ListUsers

section Messages

omit [DecidableEq υ] in
theorem sendsTo_names (w : World υ) (u : υ) (c : ChannelRef) :
    (sendsTo accounts.name w u c).map Prod.snd = otherNames accounts w u c := by
  rw [sendsTo, List.map_map]
  exact List.map_id _

omit [DecidableEq υ] in
theorem dispatch_eq (w : World υ) (u : υ) (msg : Message) :
    dispatch accounts w u msg =
      ((sends accounts.name w u msg).1.map Prod.snd, (sends accounts.name w u msg).2) := by
  cases msg with
  | direct to_ content => rfl
  | group to_ content =>
    rw [dispatch, sends]
    cases ConnectionPool.get w.name w.pool to_ with
    | none => rfl
    | some c =>
      dsimp only
      by_cases hin : isInChannel accounts w u c = true
      · rw [if_pos hin]
        rw [isInChannel] at hin
        rw [if_pos hin, sendsTo_names]
      · rw [if_neg hin]
        rw [isInChannel] at hin
        rw [if_neg hin, List.map_nil]
  | global content =>
    rw [dispatch, sends, List.map_flatMap]
    simp only [sendsTo_names]

end Messages

/-- A line handled alone does what `execute` says. -/
theorem runs_execute {line : Line} {e : Effect υ}
    (h : execute accounts.name d.world (session t) line = .ok e) :
    HandlerRuns accounts session t (d, enter line)
      (sendAll (e.reply.elim (d.setWorld e.world) ((d.setWorld e.world).reply t)) t
        (e.sends.map Prod.snd), .idle) := by
  cases line with
  | subscribe name password =>
    cases h
    exact (sendAll_nil (d := _)).symm ▸ runs_subscribe
  | unsubscribe name =>
    cases h
    exact (sendAll_nil (d := _)).symm ▸ runs_unsubscribe
  | delete name =>
    obtain ⟨⟨w', reply⟩, hdelete, hrest⟩ := bind_eq_ok h
    cases hrest
    exact (sendAll_nil (d := _)).symm ▸ runs_delete hdelete
  | listUsers name =>
    cases h
    exact (sendAll_nil (d := _)).symm ▸ runs_listUsers
  | message msg =>
    cases h
    have hrun : HandlerRuns accounts session t (d, enter (.message msg)) _ := runs_dispatch msg
    rw [dispatch_eq] at hrun
    exact hrun

end Chatd.Protocol
