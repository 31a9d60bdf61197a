import Chatd.Net.Server.PoolSteps

/-! # Logging out

`cmd::Logout` signals the `tx_thread` to end the connection. Until that happens the
`rx_thread` reads on, still logged in, and handles the lines that follow.
-/
namespace Chatd.Protocol
open Library Net.Server

/-- The line is of a kind that changes the lists or sends messages. -/
def Line.acts : Line → Bool
  | .listUsers _ => false
  | _ => true

section ListUsers

variable {ι υ : Type*} [DecidableEq υ] {accounts : Accounts υ} {t : ι} {u : υ}
  {d d' : Shared ι υ}

theorem listUsers_of_moves {p : ListUsers.Pc} {q : Pc υ}
    (h : (handle accounts t u d (.listUsers p)).Moves d d' q) :
    d'.world = d.world ∧ d'.visits = d.visits ∧ (q = .idle ∨ ∃ p', q = .listUsers p') := by
  obtain ⟨q', hq', rfl⟩ := Act.moves_map.mp h
  have hplace : place Pc.listUsers q' = (.idle : Pc υ) ∨
      ∃ p', place Pc.listUsers q' = (.listUsers p' : Pc υ) := by
    cases q' with
    | none => exact .inl rfl
    | some p' => exact .inr ⟨p', rfl⟩
  have hshared : d'.world = d.world ∧ d'.visits = d.visits := by
    cases p <;> grind [ListUsers.next, Act.Moves, Shared.reply]
  exact ⟨hshared.1, hshared.2, hplace⟩

end ListUsers

end Chatd.Protocol

namespace Chatd.Net.Server
open Library Protocol

/-- The `rx_thread` is at no point of a handler that changes the lists or sends messages. -/
def RxPc.isPassive {υ : Type*} : RxPc υ → Bool
  | .loop | .read | .teardown | .exited | .handling .idle | .handling (.listUsers _) => true
  | _ => false

section Logout

variable {κ υ : Type*} [DecidableEq κ] [DecidableEq υ] (accounts : Accounts υ) (session : κ → υ)
  (k : κ) (c c' : PoolConfig κ υ)

/-- A logged-in connection takes `/logout`, the only line of it that ends in
`gracefully_terminate`. -/
structure LogsOut : Prop where
  read : c.pc (.rx k) = .rx .read
  authenticated : (c.data.flags k).authenticated = true
  step : step (poolProg accounts session) c (.rx k, .other true) = some c'

/-- The step begins to handle a line of the connection that changes the lists or sends
messages. -/
def takesActing (l : Thread κ × Input κ) : Bool :=
  match l.2 with
  | .line line => l.1 == .rx k && c.pc (.rx k) == .rx .read && line.acts
  | _ => false

structure Passive : Prop where
  authenticated : (c.data.flags k).authenticated = true
  pc : ∃ p, c.pc (.rx k) = .rx p ∧ p.isPassive = true

variable {accounts session k c c'} {a : Input κ} {t : Thread κ} {d d' : PoolState κ υ}

theorem passive_of_logsOut (h : LogsOut accounts session k c c') : Passive k c' := by
  obtain ⟨p, q, hp, hq, hm⟩ := rx_of_moves (step_moves h.step).1
  obtain rfl : p = .read := by simpa [h.read] using hp.symm
  obtain ⟨hd, rfl⟩ := hm
  refine ⟨?_, .loop, hq, rfl⟩
  rw [hd, PoolState.setFlags_self]
  exact h.authenticated

/-- A passive `rx_thread` leaves all but its replies and flags alone, and stays passive. -/
theorem passive_of_moves {p q : RxPc υ} (hp : p.isPassive = true)
    (hauth : (d.flags k).authenticated = true)
    (h : (rxNext accounts session a d k p).Moves d d' q) :
    (d'.shared.world = d.shared.world ∧ d'.shared.visits = d.shared.visits) ∧
      (d'.flags k).authenticated = true ∧
      ((p = .read → ∀ line, a = .line line → line.acts = false) → q.isPassive = true) := by
  cases p with
  | handling p =>
    rcases handling_of_moves h with ⟨-, hd, rfl⟩ | ⟨hne, hd, p', rfl, hm⟩
    · rw [hd]
      exact ⟨⟨rfl, rfl⟩, hauth, fun _ => rfl⟩
    · cases p with
      | listUsers p =>
        obtain ⟨hworld, hvisits, hq⟩ := listUsers_of_moves hm
        refine ⟨⟨hworld, hvisits⟩, ?_, fun _ => ?_⟩
        · rw [hd]
          exact hauth
        · rcases hq with rfl | ⟨p', rfl⟩ <;> rfl
      | idle => exact absurd rfl hne
      | _ => cases hp
  | read =>
    cases a with
    | line line =>
      obtain ⟨hd, rfl⟩ : d' = d ∧ q = .handling (enter line) := by
        rw [rxNext, if_pos hauth] at h
        exact h
      rw [hd]
      refine ⟨⟨rfl, rfl⟩, hauth, fun hline => ?_⟩
      cases line with
      | listUsers name => rfl
      | _ => cases hline rfl _ rfl
    | _ => grind [rxNext, Act.Moves, PoolState.setFlags_self, PoolState.setFlags_shared,
        ConnFlags.exit, RxPc.isPassive]
  | loop | teardown | exited => grind [rxNext, Act.Moves, PoolState.setFlags_self,
      PoolState.setFlags_shared, RxPc.isPassive]
  | _ => cases hp

/-- The step lemma, one case for each thread. -/
theorem Passive.step (hI : Passive k c)
    (hs : Library.step (poolProg accounts session) c (t, a) = some c')
    (hok : takesActing k c (t, a) = false) : Passive k c' := by
  have hother := (step_moves hs).2
  have hauth := hI.authenticated
  obtain ⟨r, hr, hpassive⟩ := hI.pc
  rcases pool_step_cases hs with ⟨p, q, rfl, hp, hq, hm⟩ | ⟨p, q, rfl, hp, hq, hm⟩ |
    ⟨j, p, q, rfl, hp, hq, hm⟩ | ⟨j, p, q, rfl, hp, hq, hm⟩
  · refine ⟨?_, r, (hother _ (by simp)).trans hr, hpassive⟩
    rw [(main_flags hm k).1]
    exact hauth
  · refine ⟨?_, r, (hother _ (by simp)).trans hr, hpassive⟩
    rw [gc_flags hm k]
    exact hauth
  · by_cases hj : k = j
    · subst hj
      obtain rfl : r = p := by simpa [hp] using hr.symm
      obtain ⟨-, hauth', hpassive'⟩ := passive_of_moves hpassive hauth hm
      refine ⟨hauth', q, hq, hpassive' ?_⟩
      rintro rfl line rfl
      simpa [takesActing, hp] using hok
    · exact ⟨by rwa [(rx_frame hm).2 k hj], r, (hother _ (by simpa using hj)).trans hr, hpassive⟩
  · exact ⟨by rwa [(tx_keeps hm k).2], r, (hother _ (by simp)).trans hr, hpassive⟩

/-- If the `rx_thread` takes no line behind `/logout` that changes the lists or sends
messages, logging out is final. -/
theorem logout_final {c₁ c₂ c₃ : PoolConfig κ υ} (hlogout : LogsOut accounts session k c c₁)
    (hrun : Reach (step (poolProg accounts session)) (fun c l _ => takesActing k c l = false)
      (· = c₁) c₂)
    (hs : step (poolProg accounts session) c₂ (.rx k, a) = some c₃) :
    c₃.data.shared.world = c₂.data.shared.world ∧
      c₃.data.shared.visits = c₂.data.shared.visits ∧ c₃.data.conns = c₂.data.conns := by
  have hI : Passive k c₂ :=
    hrun.invariant (fun _ h => h ▸ passive_of_logsOut hlogout) fun _ _ _ hI hs hok => hI.step hs hok
  obtain ⟨r, hr, hpassive⟩ := hI.pc
  obtain ⟨p, q, hp, -, hm⟩ := rx_of_moves (step_moves hs).1
  obtain rfl : r = p := by simpa [hp] using hr.symm
  obtain ⟨⟨hworld, hvisits⟩, -⟩ := passive_of_moves hpassive hI.authenticated hm
  exact ⟨hworld, hvisits, (rx_frame hm).1⟩

end Logout

section Schedules

/-- `/list_users` behind `/logout`. -/
theorem logout_final_listUsers :
    ∃ c₂ c₃ : PoolConfig Unit Bool,
      c₂.pc (.rx ()) = .rx (.handling (.listUsers (.lockUser (ascii "room")))) ∧
        step (poolProg pair fun _ => true) c₂ (.rx (), .wake) = some c₃ ∧
        c₃.data.shared.world = c₂.data.shared.world := by
  let prog := poolProg pair fun _ : Unit => true
  have hok (c : PoolConfig Unit Bool) (l : Thread Unit × Input Unit) (c' : PoolConfig Unit Bool)
      (hc : (!takesActing () c l) = true) (_ : step prog c l = some c') :
      takesActing () c l = false := by simpa using hc
  have hrun : ∃ c : PoolConfig Unit Bool, Reach (step prog) anyStep (· = opened Unit Bool) c ∧
      ((c.pc (.rx ()) == .rx .read && (c.data.flags ()).authenticated) &&
        (step prog c (.rx (), .other true)).any fun c₁ =>
          (checkedRun (step prog) (fun c l => !takesActing () c l) c₁
            [(.rx (), .wake), (.rx (), .line (.listUsers (ascii "room")))]).any fun c₂ =>
              c₂.pc (.rx ()) == .rx (.handling (.listUsers (.lockUser (ascii "room")))) &&
                (step prog c₂ (.rx (), .wake)).isSome) = true :=
    exists_reach_of_run rfl loggedIn (by decide)
  obtain ⟨c, -, hc⟩ := hrun
  simp only [Bool.and_eq_true, beq_iff_eq, Option.any_eq_true, Option.isSome_iff_exists] at hc
  obtain ⟨⟨hread, hauth⟩, c₁, hc₁, c₂, hc₂, hpc, c₃, hc₃⟩ := hc
  have hrest : Reach (step prog) (fun c l _ => takesActing () c l = false) (· = c₁) c₂ :=
    Reach.of_checkedRun hok (.start rfl) _ hc₂
  exact ⟨c₂, c₃, hpc, hc₃, (logout_final ⟨hread, hauth, hc₁⟩ hrest hc₃).1⟩

/-- `/subscribe` behind `/logout`, read before the `tx_thread` ends the connection. -/
theorem not_logout_final_subscribe :
    ¬ ∀ c c₁ c₂ c₃ : PoolConfig Unit Bool, ∀ a,
      Reach (step (poolProg pair fun _ => true)) anyStep (· = opened Unit Bool) c →
        LogsOut pair (fun _ => true) () c c₁ →
          Reach (step (poolProg pair fun _ => true)) anyStep (· = c₁) c₂ →
            step (poolProg pair fun _ => true) c₂ (.rx (), a) = some c₃ →
              c₃.data.shared.world = c₂.data.shared.world ∧
                c₃.data.shared.visits = c₂.data.shared.visits ∧
                c₃.data.conns = c₂.data.conns := by
  intro h
  let prog := poolProg pair fun _ : Unit => true
  have hrun : ∃ c : PoolConfig Unit Bool, Reach (step prog) anyStep (· = opened Unit Bool) c ∧
      ((c.pc (.rx ()) == .rx .read && (c.data.flags ()).authenticated) &&
        (step prog c (.rx (), .other true)).any fun c₁ =>
          (checkedRun (step prog) (fun _ _ => true) c₁
            ([(.rx (), .wake), (.rx (), .line (.subscribe (ascii "room") (ascii "pw")))] ++
              List.replicate 8 (.rx (), .wake))).any fun c₂ =>
              (step prog c₂ (.rx (), .wake)).any fun c₃ =>
                c₂.data.shared.world.channels true == [] &&
                  c₃.data.shared.world.channels true == [0]) = true :=
    exists_reach_of_run rfl loggedIn (by decide)
  obtain ⟨c, hc, hrest⟩ := hrun
  simp only [Bool.and_eq_true, beq_iff_eq, Option.any_eq_true] at hrest
  obtain ⟨⟨hread, hauth⟩, c₁, hc₁, c₂, hc₂, c₃, hc₃, hempty, hjoined⟩ := hrest
  have hreach : Reach (step prog) anyStep (· = c₁) c₂ :=
    Reach.of_checkedRun (fun _ _ _ _ _ => trivial) (.start rfl) _ hc₂
  have hworld := (h c c₁ c₂ c₃ _ hc ⟨hread, hauth, hc₁⟩ hreach hc₃).1
  rw [hworld, hempty] at hjoined
  cases hjoined

end Schedules

end Chatd.Net.Server
