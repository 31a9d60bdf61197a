import Chatd.Protocol.Handlers.Topics

/-! # Channels and the pool under subscriptions

`/subscribe` looks a channel up in one critical section and joins it in later ones,
and `/unsubscribe` takes an emptied channel out of the pool. As long as no channel is
taken out while somebody is about to join it, the pool holds every channel that a user
lists, and a removal by name hits the emptied channel itself.
-/
namespace Chatd.Protocol
open Library Net.Server

variable {ι υ : Type*}

def isTopicLine : Line → Bool
  | .subscribe _ _ | .unsubscribe _ => true
  | _ => false

/-- Once every command is over, the pool holds each listed channel under its name. -/
def NoOrphan (c : HandlerState ι υ) : Prop :=
  (∀ t, c.pc t = .idle) → ∀ u, ∀ channel ∈ c.data.world.channels u,
    ConnectionPool.get c.data.world.name c.data.world.pool (c.data.world.name channel) =
      some channel

/-- A command about to remove an emptied channel by its name will hit that channel. -/
def RemovesEmptied (c : HandlerState ι υ) : Prop :=
  ∀ t channel, c.pc t = .unsubscribe (.poolRemove channel) →
    ConnectionPool.get c.data.world.name c.data.world.pool (c.data.world.name channel) =
      some channel

/-- The connection is about to take a channel out of the pool that another is going to join. -/
def RemovesJoined (c : HandlerState ι υ) (t : ι) : Prop :=
  ∃ channel s, c.pc t = .unsubscribe (.poolRemove channel) ∧
    joining c.data.world channel (c.pc s)

/-- Only subscriptions are handled, and no channel is removed that somebody is going to join. -/
def TopicStep (c : HandlerState ι υ) (l : ι × Line) : Prop :=
  (c.pc l.1 = .idle → isTopicLine l.2 = true) ∧ ¬ RemovesJoined c l.1

section Runs

variable [DecidableEq υ] {accounts : Accounts υ} {session : ι → υ} {c c' : HandlerState ι υ}

structure TopicInvariant (session : ι → υ) (c : HandlerState ι υ) : Prop where
  sound : Sound c.data.world
  point : ∀ t, At c.data.world (session t) (c.pc t)
  listed : ∀ u, ∀ channel ∈ c.data.world.channels u, u ∈ c.data.world.users channel ∨
    ∃ s, session s = u ∧ listsFirst channel (c.pc s)

omit [DecidableEq υ] in
theorem topicInvariant_started : TopicInvariant session (started ι υ) where
  sound := by constructor <;> simp [started, World.empty]
  point t := trivial
  listed u channel h := by simp [started, World.empty] at h

omit [DecidableEq υ] in
theorem joining_of_listsFirst {w : World υ} {channel : ChannelRef} {p : Pc υ}
    (h : listsFirst channel p) : joining w channel p := by
  cases p with
  | subscribe p => cases p <;> first | exact h | exact h.elim
  | _ => exact h.elim

omit [DecidableEq υ] in
theorem TopicInvariant.not_listed (hI : TopicInvariant session c) {t : ι}
    (hok : ¬ RemovesJoined c t) {channel : ChannelRef}
    (hp : c.pc t = .unsubscribe (.poolRemove channel)) (v : υ) :
    channel ∉ c.data.world.channels v := by
  intro hmem
  have hat := hI.point t
  rw [hp] at hat
  rcases hI.listed v channel hmem with hv | ⟨s, -, hs⟩
  · rw [hat.2] at hv
    cases hv
  · exact hok ⟨channel, s, hp, joining_of_listsFirst hs⟩

theorem TopicInvariant.guarantee (hI : TopicInvariant session c) {t : ι} {line : Line}
    (hok : TopicStep c (t, line)) {d : Shared ι υ} {q : Pc υ}
    (h : (handlers accounts session t line c.data (c.pc t)).Moves c.data d q) :
    Guarantee (session t) (c.pc t) q c.data.world d.world := by
  obtain ⟨hline, hok⟩ := hok
  have hat := hI.point t
  have hgone (channel : ChannelRef) (hp : c.pc t = .unsubscribe (.poolRemove channel)) :=
    hI.not_listed hok hp
  rw [handlers] at h
  cases hp : c.pc t with
  | idle =>
    rw [hp] at h
    obtain ⟨rfl, rfl⟩ := h
    have hline := hline hp
    cases line <;> first | exact .refl hI.sound trivial fun _ h => h | cases hline
  | subscribe p =>
    rw [hp] at h hat
    obtain ⟨q, hq, rfl⟩ := Act.moves_map.mp h
    exact subscribe_guarantee hI.sound hat hq
  | unsubscribe p =>
    rw [hp] at h hat
    obtain ⟨q, hq, rfl⟩ := Act.moves_map.mp h
    exact unsubscribe_guarantee hI.sound hat (fun channel hch => hgone channel (by rw [hp, hch])) hq
  | _ => rw [hp] at hat; exact hat.elim

variable [DecidableEq ι]

theorem TopicInvariant.step (hI : TopicInvariant session c)
    (hown : Owned (fun t => held (session t)) c) {l : ι × Line}
    (hs : Library.step (handlers accounts session) c l = some c') (hok : TopicStep c l) :
    TopicInvariant session c' := by
  obtain ⟨t, line⟩ := l
  obtain ⟨hm, hother⟩ := step_moves hs
  have g := hI.guarantee hok hm
  refine ⟨g.sound, fun s => ?_, fun v channel hch => ?_⟩
  · by_cases hst : s = t
    · subst hst
      exact g.at_target
    · rw [hother s hst]
      apply g.stable hI.sound (hI.point s) (fun m hms hmt => hst (hown.unique hms hmt))
      exact fun ch hp hjoin => hok.2 ⟨ch, s, hp, hjoin⟩
  · rcases g.added v channel hch with hold | ⟨rfl, hnew⟩
    · rcases hI.listed v channel hold with hv | ⟨s, rfl, hlists⟩
      · exact .inl (g.kept v channel hch hv)
      · by_cases hst : s = t
        · subst hst
          exact (g.lists channel hlists).symm.imp_right fun h => ⟨s, rfl, h⟩
        · exact .inr ⟨s, rfl, by rwa [hother s hst]⟩
    · exact .inr ⟨t, rfl, hnew⟩

/-- No channel is orphaned, and no removal hits another channel, if no channel is
removed that somebody is going to join. -/
theorem noOrphan_of_reach
    (h : Reach (step (handlers accounts session)) (fun c l _ => TopicStep c l)
      (· = started ι υ) c) : NoOrphan c ∧ RemovesEmptied c := by
  have hI : TopicInvariant session c := by
    apply Reach.invariant_reached (I := TopicInvariant session) _ _ h
    · rintro _ rfl
      exact topicInvariant_started
    · intro c l c' hr hI hs hok
      exact hI.step (handlers_owned_of_reach hr) hs hok
  refine ⟨fun _ u channel hch => ?_, fun t channel hp => ?_⟩
  · exact ConnectionPool.get_nameOf _ hI.sound.names_nodup (hI.sound.mem_pool u channel hch)
  · have hat := hI.point t
    rw [hp] at hat
    exact ConnectionPool.get_nameOf _ hI.sound.names_nodup hat.1

end Runs

/-- The second user subscribes, and then the first one unsubscribes. -/
theorem noOrphan_unsubscribe :
    ∃ c : HandlerState Bool Bool, (c.pc true = .idle ∧ c.pc false = .idle ∧
      c.data.world.channels false = [0] ∧ c.data.world.users 0 = [false]) ∧
      NoOrphan c ∧ RemovesEmptied c := by
  have hok (c : HandlerState Bool Bool) (l : Bool × Line) (c' : HandlerState Bool Bool)
      (hc : (isTopicLine l.2 && (c.pc true == .idle || c.pc false == .idle)) = true)
      (_ : step (handlers pair id) c l = some c') : TopicStep c l := by
    simp only [Bool.and_eq_true, Bool.or_eq_true, beq_iff_eq] at hc
    refine ⟨fun _ => hc.1, ?_⟩
    rintro ⟨channel, s, hl, hs⟩
    obtain ⟨b, hb⟩ : ∃ b, c.pc b = .idle := hc.2.elim (fun h => ⟨true, h⟩) fun h => ⟨false, h⟩
    have hlb : l.1 ≠ b := fun h => by rw [← h, hl] at hb; cases hb
    have hsb : s ≠ b := fun h => by rw [h, hb] at hs; exact hs
    rw [(Bool.eq_not.mpr hsb).trans (Bool.eq_not.mpr hlb).symm, hl] at hs
    exact hs
  have hrun : ∃ c : HandlerState Bool Bool,
      Reach (step (handlers pair id)) (fun c l _ => TopicStep c l) (· = started Bool Bool) c ∧
        (c.pc true == .idle && c.pc false == .idle && c.data.world.channels false == [0] &&
          c.data.world.users 0 == [false]) = true :=
    exists_reach_of_checkedRun hok rfl
      (bothSubscribed ++ lineSteps true (.unsubscribe (ascii "room")) 7) (by decide)
  obtain ⟨c, hr, hc⟩ := hrun
  exact ⟨c, by simpa [and_assoc] using hc, noOrphan_of_reach hr⟩

/-- The last subscriber leaves between the lookup and the join of the next one. -/
theorem not_noOrphan_join_after_remove :
    ¬ ∀ c : HandlerState Bool Bool,
      Reach (step (handlers pair id)) (fun c l _ => c.pc l.1 = .idle → isTopicLine l.2 = true)
        (· = started Bool Bool) c → NoOrphan c ∧ RemovesEmptied c := by
  intro h
  have hrun : ∃ c : HandlerState Bool Bool,
      Reach (step (handlers pair id)) (fun c l _ => c.pc l.1 = .idle → isTopicLine l.2 = true)
        (· = started Bool Bool) c ∧
        (c.pc true == .idle && c.pc false == .idle && c.data.world.channels false == [0] &&
          c.data.world.pool == []) = true :=
    exists_reach_of_checkedRun (c := fun _ l => isTopicLine l.2) (fun _ _ _ h _ _ => h) rfl
      (lineSteps true (.subscribe (ascii "room") (ascii "pw")) 12 ++
        lineSteps false (.subscribe (ascii "room") (ascii "pw")) 4 ++
        lineSteps true (.unsubscribe (ascii "room")) 8 ++
        List.replicate 5 (false, .subscribe [] []))
      (by decide)
  obtain ⟨c, hr, hc⟩ := hrun
  simp only [Bool.and_eq_true, beq_iff_eq] at hc
  obtain ⟨⟨⟨htrue, hfalse⟩, hlisted⟩, hpool⟩ := hc
  have hget := (h c hr).1 (fun t => by cases t <;> assumption) false 0 (by simp [hlisted])
  rw [hpool] at hget
  cases hget

end Chatd.Protocol
