import Mathlib.Algebra.Order.Group.Multiset
import Mathlib.Tactic.Abel
import Chatd.Net.Server.RxOwners

/-! # The ledger of the process

At any time what is in use belongs to the listener, to a connection or to who was given a
line, or it was lost by one of the steps that the record lists. No number is given back by who
does not own it.
-/
namespace Chatd.Net.Server
open Library Tcp

/-- Each connection with the blocks that it owns. -/
abbrev Holders := List (Client × List (ℕ × Library.Block UInt8))

/-- Every block in use belongs to a connection, is a line or was lost, and every open
descriptor belongs to the listener or to a connection, or was lost. -/
structure Accounted (p : Process) (held : Holders) (lines lost : List (ℕ × Library.Block UInt8))
    (files : List ℕ) : Prop where
  conns : held.map Prod.fst = p.conns
  owns : ∀ x ∈ held, x.1.Owns x.2
  given : lines.map Prod.fst = p.lines
  sys : p.sys.Owns (lines ++ (lost ++ held.flatMap Prod.snd))
    (p.listener.fds ++ (files ++ held.flatMap fun x => x.1.stream.fds))

/-- What is in use is accounted for, and what was lost is what the record says. -/
def Process.Ledger (p : Process) (log : List Leak) : Prop :=
  ∃ held lines lost files, Accounted p held lines lost files ∧
    lost.length = log.count .block ∧ files.length = log.count .file

section ProcessSteps

variable {numbering descriptors : Numbering} {p : Process} {held : Holders}
  {lines lost : List (ℕ × Library.Block UInt8)} {files : List ℕ} {log : List Leak}

theorem perm_of_multiset {α : Type*} {xs ys : List α} (h : (xs : Multiset α) = ys) :
    xs.Perm ys := Multiset.coe_eq_coe.mp h

theorem exists_split {α : Type*} {xs : List α} {k : ℕ} {x : α} (h : xs[k]? = some x) :
    ∃ before after, xs = before ++ x :: after ∧ before.length = k := by
  obtain ⟨hk, rfl⟩ := List.getElem?_eq_some_iff.mp h
  refine ⟨xs.take k, xs.drop (k + 1), ?_, List.length_take_of_le hk.le⟩
  rw [← List.drop_eq_getElem_cons hk, List.take_append_drop]

theorem Accounted.split (h : Accounted p held lines lost files) {k : ℕ} {conn : Client}
    (hk : p.conns[k]? = some conn) :
    ∃ before e after, held = before ++ (conn, e) :: after ∧ before.length = k ∧ conn.Owns e := by
  rw [← h.conns, List.getElem?_map, Option.map_eq_some_iff] at hk
  obtain ⟨⟨conn, e⟩, hx, rfl⟩ := hk
  obtain ⟨before, after, rfl, hlen⟩ := exists_split hx
  exact ⟨before, e, after, rfl, hlen, h.owns (conn, e) (by simp)⟩

theorem Process.Ledger.start : Process.start.Ledger [] :=
  ⟨[], [], [], [], ⟨rfl, fun _ hx => absurd hx List.not_mem_nil, rfl, Table.owns_empty,
    Table.owns_empty⟩, rfl, rfl⟩

theorem Process.Ledger.bind (h : p.Ledger log) (answers : InitAnswers) :
    (p.bind descriptors answers).Ledger
      (log ++ p.leaks numbering descriptors (.bind answers)) := by
  obtain ⟨held, lines, lost, files, hacc, hlost, hfiles⟩ := h
  obtain ⟨result, listener, sys, file, hinit, hsys, hfile⟩ :=
    tcpListenerInit_spec descriptors hacc.sys answers
  rw [Process.bind, Process.leaks, hinit]
  refine ⟨held, lines, lost, file ++ files, ⟨hacc.conns, hacc.owns, hacc.given, ?_⟩, ?_, ?_⟩
  · rwa [List.append_assoc]
  · rw [hlost, List.count_append]
    cases result <;> cases p.listener.sockfd.isSome <;> rfl
  · rw [List.length_append, hfile, hfiles, List.count_append, Nat.add_comm]
    cases result <;> cases p.listener.sockfd.isSome <;> rfl

theorem Process.Ledger.destroy (h : p.Ledger log) :
    ∃ p', p.destroy = .ok p' ∧ p'.Ledger log := by
  obtain ⟨held, lines, lost, files, hacc, hlost, hfiles⟩ := h
  obtain ⟨result, sys, hdestroy, hsys⟩ := tcpListenerDestroy_spec hacc.sys
  rw [Process.destroy, hdestroy]
  exact ⟨_, rfl, held, lines, lost, files, ⟨hacc.conns, hacc.owns, hacc.given, hsys⟩, hlost, hfiles⟩

theorem Process.Ledger.accept (h : p.Ledger log) (answer : Bool) (grants : List Bool)
    (reads : List Chunk) :
    ∃ p', p.accept numbering descriptors answer grants reads = .ok p' ∧
      p'.Ledger (log ++ p.leaks numbering descriptors (.accept answer grants reads)) := by
  obtain ⟨held, lines, lost, files, hacc, hlost, hfiles⟩ := h
  have hsys : (granting p.sys grants).Owns _ _ := ⟨hacc.sys.blocks, hacc.sys.files⟩
  obtain ⟨result, stream, sys, haccept, hends⟩ :=
    tcpListenerAccept_spec numbering descriptors p.accepting hsys answer reads
  rw [Process.accept, Process.leaks, haccept]
  rcases hends with ⟨rfl, -, hsys'⟩ | ⟨rfl, -, fd, hsys'⟩ | ⟨rfl, hnew⟩
  · refine ⟨_, rfl, held, lines, lost, files, ⟨hacc.conns, hacc.owns, hacc.given, hsys'⟩, ?_⟩
    rw [List.append_nil]
    exact ⟨hlost, hfiles⟩
  · refine ⟨_, rfl, held, lines, lost, fd :: files, ⟨hacc.conns, hacc.owns, hacc.given, ?_⟩, ?_, ?_⟩
    · exact hsys'.perm (.refl _) (perm_of_multiset (by
        simp only [List.cons_append, ← Multiset.coe_add, ← Multiset.cons_coe,
          ← Multiset.singleton_add]
        abel))
    · rw [hlost, List.count_append]
      rfl
    · rw [List.length_cons, hfiles, List.count_append]
      rfl
  · obtain ⟨e, hholding, hsys'⟩ := hnew.owns
    refine ⟨_, rfl, held ++ [(⟨stream, false, .test⟩, e)], lines, lost, files,
      ⟨?_, fun x hx => ?_, hacc.given, ?_⟩, ?_⟩
    · rw [List.map_append, hacc.conns]
      rfl
    · rcases List.mem_append.mp hx with hx | hx
      · exact hacc.owns x hx
      · rw [List.mem_singleton.mp hx]
        exact ⟨hnew.sockfd, [], hholding⟩
    · refine hsys'.perm (perm_of_multiset ?_) (perm_of_multiset ?_)
      · simp only [List.flatMap_append, List.flatMap_singleton, ← Multiset.coe_add]
        abel
      · simp only [List.flatMap_append, List.flatMap_singleton, ← Multiset.coe_add]
        abel
    · rw [List.append_nil]
      exact ⟨hlost, hfiles⟩

theorem Process.Ledger.freeLine (h : p.Ledger log) {i line : ℕ} (hi : p.lines[i]? = some line) :
    ∃ p', p.freeLine i line = .ok p' ∧ p'.Ledger log := by
  obtain ⟨held, lines, lost, files, hacc, hlost, hfiles⟩ := h
  rw [← hacc.given, List.getElem?_map, Option.map_eq_some_iff] at hi
  obtain ⟨⟨q, b⟩, hx, rfl⟩ := hi
  obtain ⟨before, after, rfl, rfl⟩ := exists_split hx
  have hown : p.sys.heap.blocks.Owns ((q, b) :: (before ++ (after ++
      (lost ++ held.flatMap Prod.snd)))) :=
    hacc.sys.blocks.perm (perm_of_multiset (by
      simp only [List.append_assoc, List.cons_append, ← Multiset.coe_add, ← Multiset.cons_coe,
        ← Multiset.singleton_add]
      abel))
  obtain ⟨heap, hfree, hl⟩ := (Heap.Later.refl hown).free
  rw [Process.freeLine, hfree]
  refine ⟨_, rfl, held, before ++ after, lost, files,
    ⟨hacc.conns, hacc.owns, ?_, ?_, hacc.sys.files⟩, hlost, hfiles⟩
  · dsimp only
    rw [← hacc.given]
    simp [List.eraseIdx_append_of_length_le]
  · rw [List.append_assoc]
    exact hl.owns

/-- What a connection owns that is killed: the block of its stream, which goes with it, and
the output of a call, which stays. -/
theorem Client.Owns.killed {conn : Client} {e : List (ℕ × Library.Block UInt8)}
    (ho : conn.Owns e) (hlive : conn.isKilled = false) :
    ∃ es eo, e = es ++ eo ∧ Backed conn.stream.buff es ∧
      ({ conn with
        stream := { conn.stream with sockfd := none, buff := none },
        isKilled := true } : Client).Owns eo := by
  obtain ⟨stream, isKilled, rx⟩ := conn
  obtain rfl : isKilled = false := hlive
  obtain ⟨hopen, hblock⟩ := ho
  cases rx with
  | test =>
    obtain ⟨bytes, hp⟩ := hblock
    exact ⟨e, [], (List.append_nil e).symm, hp.backed, rfl, .null⟩
  | call =>
    obtain ⟨bytes, hp⟩ := hblock
    exact ⟨e, [], (List.append_nil e).symm, hp.backed, rfl, rfl, rfl⟩
  | reading outbuff len =>
    obtain ⟨hbuff, hlen, hp, -⟩ := hblock
    refine ⟨[], e, rfl, ?_, rfl, rfl, hlen, hp, .inr rfl⟩
    rw [hbuff]
    exact .null
  | filled outbuff len chunk =>
    obtain ⟨hbuff, hlen, hp, hsome⟩ := hblock
    refine ⟨[], e, rfl, ?_, rfl, rfl, hlen, hp, hsome⟩
    rw [hbuff]
    exact .null
  | exited => exact ⟨e, [], (List.append_nil e).symm, hblock, rfl, .null⟩

theorem Accounted.replace {before after : Holders} {conn conn' : Client}
    {e e' lines' lost' : List (ℕ × Library.Block UInt8)} {files' : List ℕ} {sys : Resources}
    (h : Accounted p (before ++ (conn, e) :: after) lines lost files) (ho : conn'.Owns e')
    (hsys : sys.Owns (lines' ++ (lost' ++ (e' ++ (before ++ after).flatMap Prod.snd)))
      (p.listener.fds ++
        (files' ++ (conn'.stream.fds ++ (before ++ after).flatMap fun x => x.1.stream.fds)))) :
    Accounted { p with sys, conns := p.conns.set before.length conn', lines := lines'.map Prod.fst }
      (before ++ (conn', e') :: after) lines' lost' files' := by
  refine ⟨?_, fun x hx => ?_, rfl, hsys.perm (perm_of_multiset ?_) (perm_of_multiset ?_)⟩
  · dsimp only
    rw [← h.conns]
    simp
  · rcases List.mem_append.mp hx with hx | hx
    · exact h.owns x (List.mem_append_left _ hx)
    · rcases List.mem_cons.mp hx with rfl | hx
      · exact ho
      · exact h.owns x (List.mem_append_right _ (List.mem_cons_of_mem _ hx))
  · simp only [List.flatMap_append, List.flatMap_cons, ← Multiset.coe_add]
    abel
  · simp only [List.flatMap_append, List.flatMap_cons, ← Multiset.coe_add]
    abel

theorem Process.Ledger.terminate (h : p.Ledger log) {k : ℕ} {conn : Client}
    (hk : p.conns[k]? = some conn) : ∃ p', p.terminate k conn = .ok p' ∧ p'.Ledger log := by
  cases hkilled : conn.isKilled with
  | true => exact ⟨p, if_pos hkilled, h⟩
  | false =>
    obtain ⟨held, lines, lost, files, hacc, hlost, hfiles⟩ := h
    obtain ⟨before, e, after, rfl, rfl, ho⟩ := hacc.split hk
    obtain ⟨es, eo, rfl, hbacked, ho'⟩ := ho.killed hkilled
    have hown : p.sys.Owns
        (es ++ (lines ++ (lost ++ (eo ++ (before ++ after).flatMap Prod.snd))))
        (conn.stream.fds ++ (p.listener.fds ++
          (files ++ (before ++ after).flatMap fun x => x.1.stream.fds))) := by
      refine hacc.sys.perm (perm_of_multiset ?_) (perm_of_multiset ?_)
      · simp only [List.flatMap_append, List.flatMap_cons, ← Multiset.coe_add]
        abel
      · simp only [List.flatMap_append, List.flatMap_cons, ← Multiset.coe_add]
        abel
    obtain ⟨result, sys, hdestroy, hsys⟩ := tcpStreamDestroy_spec hbacked hown
    rw [Process.terminate, hkilled, if_neg Bool.false_ne_true, hdestroy]
    have hnext := hacc.replace ho' hsys
    rw [hacc.given] at hnext
    exact ⟨_, rfl, _, _, _, _, hnext, hlost, hfiles⟩

theorem Process.Ledger.rx (h : p.Ledger log) {k : ℕ} {conn : Client}
    (hk : p.conns[k]? = some conn) (grants : List Bool) :
    (∃ p', p.rx numbering k conn grants = .ok p' ∧
        p'.Ledger (log ++ p.leaks numbering descriptors (.rx k grants))) ∨
      conn.Dangling ∨ conn.Unterminated numbering (granting p.sys grants).heap := by
  obtain ⟨held, lines, lost, files, hacc, hlost, hfiles⟩ := h
  obtain ⟨before, e, after, rfl, rfl, ho⟩ := hacc.split hk
  have hown : (granting p.sys grants).heap.blocks.Owns (e ++ (lines ++ (lost ++
      (before ++ after).flatMap Prod.snd))) :=
    hacc.sys.blocks.perm (perm_of_multiset (by
      simp only [List.flatMap_append, List.flatMap_cons, ← Multiset.coe_add]
      abel))
  rw [Process.rx, Process.leaks, hk]
  rcases rxNext_cases ho hown numbering with ⟨⟨heap, conn', given⟩, hnext, hstep⟩ | hwhy
  · obtain ⟨e', lines', lost', ho', rfl, hcount, hl⟩ := hstep.blocks
    dsimp only at ho' hcount hl
    rw [hnext]
    have hsys : ({ p.sys with heap } : Resources).Owns
        ((lines ++ lines') ++ ((lost ++ lost') ++ (e' ++ (before ++ after).flatMap Prod.snd)))
        (p.listener.fds ++
          (files ++ (conn'.stream.fds ++ (before ++ after).flatMap fun x => x.1.stream.fds))) := by
      refine ⟨hl.owns.perm (perm_of_multiset ?_), hacc.sys.files.perm (perm_of_multiset ?_)⟩
      · simp only [List.flatMap_append, ← Multiset.coe_add]
        abel
      · rw [HeapStream.fds, hstep.sockfd]
        simp only [List.map_append, List.flatMap_append, List.flatMap_cons, ← Multiset.coe_add]
        abel
    have hnew := hacc.replace ho' hsys
    rw [List.map_append, hacc.given] at hnew
    refine .inl ⟨_, rfl, _, _, _, _, hnew, ?_, ?_⟩
    · rw [List.length_append, hlost, hcount, List.count_append]
      dsimp only
      split <;> rfl
    · rw [hfiles, List.count_append]
      dsimp only
      split <;> rfl
  · exact .inr hwhy

theorem Process.Ledger.rx_faults (h : p.Ledger log) {k : ℕ} {conn : Client}
    (hk : p.conns[k]? = some conn) {grants : List Bool}
    (hwhy : conn.Dangling ∨ conn.Unterminated numbering (granting p.sys grants).heap) :
    p.rx numbering k conn grants = .error (.access .nullDeref) := by
  obtain ⟨held, lines, lost, files, hacc, -, -⟩ := h
  obtain ⟨before, e, after, -, -, ho⟩ := hacc.split hk
  rw [Process.rx]
  rcases hwhy with hd | hlast
  · rw [rxNext_of_dangling ho hd]
    rfl
  · rw [rxNext_of_unterminated hlast]
    rfl

end ProcessSteps

section Runs

variable {numbering descriptors : Numbering} {p : Process}
  {r : Logged (Except ResourceFault Process) Leak}

/-- A step is accounted for, or it is one of the two that fault. -/
theorem Process.Ledger.step {log : List Leak} (h : p.Ledger log) {l : ServerEvent}
    {q : Except ResourceFault Process} (hs : p.next numbering descriptors l = some q) :
    (∃ p', q = .ok p' ∧ p'.Ledger (log ++ p.leaks numbering descriptors l)) ∨
      q = .error (.access .nullDeref) ∧ ∃ k grants conn, l = .rx k grants ∧
        p.conns[k]? = some conn ∧
        (conn.Dangling ∨ conn.Unterminated numbering (granting p.sys grants).heap) := by
  have hnone : ∀ {p' : Process}, p'.Ledger log → p'.Ledger (log ++ []) := by
    intro p' h'
    rwa [List.append_nil]
  cases l with
  | bind answers =>
    cases hs
    exact .inl ⟨_, rfl, h.bind answers⟩
  | accept answer grants reads =>
    cases hs
    exact .inl (h.accept answer grants reads)
  | destroy =>
    cases hs
    obtain ⟨p', hdestroy, h'⟩ := h.destroy
    exact .inl ⟨p', hdestroy, hnone h'⟩
  | rx k grants =>
    obtain ⟨conn, hk, rfl⟩ := Option.map_eq_some_iff.mp hs
    exact (h.rx hk grants).imp_right fun hwhy =>
      ⟨h.rx_faults hk hwhy, k, grants, conn, rfl, hk, hwhy⟩
  | terminate k =>
    obtain ⟨conn, hk, rfl⟩ := Option.map_eq_some_iff.mp hs
    obtain ⟨p', hterminate, h'⟩ := h.terminate hk
    exact .inl ⟨p', hterminate, hnone h'⟩
  | freeLine i =>
    obtain ⟨line, hi, rfl⟩ := Option.map_eq_some_iff.mp hs
    obtain ⟨p', hfree, h'⟩ := h.freeLine hi
    exact .inl ⟨p', hfree, hnone h'⟩

/-- The ledger of every run that has not ended with a fault. -/
theorem ledger_of_reach (h : Serving numbering descriptors r) :
    ∀ p, r.state = .ok p → p.Ledger r.log := by
  apply h.invariant (I := fun r => ∀ p, r.state = .ok p → p.Ledger r.log)
  · rintro r ⟨hstate, hlog⟩ p hp
    rw [hstate] at hp
    cases hp
    rw [hlog]
    exact .start
  · intro r l r' hI hs _ p' hp'
    obtain ⟨hstep, hlog⟩ := logged_cases hs
    cases hstate : r.state with
    | error fault =>
      rw [hstate] at hstep
      cases hstep
    | ok p =>
      rw [hstate] at hstep
      rcases (hI p hstate).step hstep with ⟨p₁, hp₁, hledger⟩ | ⟨hfault, -⟩
      · rw [hp'] at hp₁
        cases hp₁
        rw [hlog, hstate]
        exact hledger
      · rw [hp'] at hfault
        cases hfault

/-- The listener is closed, every connection was terminated and its `rx_thread` has gone, and
every line was freed. -/
structure Process.Ended (p : Process) : Prop where
  listener : p.listener.sockfd = none
  killed : ∀ conn ∈ p.conns, conn.isKilled = true
  exited : ∀ conn ∈ p.conns, conn.rx = .exited
  lines : p.lines = []

theorem flatMap_fds_eq_nil {held : Holders} (h : ∀ x ∈ held, x.1.stream.sockfd = none) :
    (held.flatMap fun x => x.1.stream.fds) = [] := by
  rw [List.flatMap_eq_nil_iff]
  intro x hx
  rw [HeapStream.fds, h x hx]
  rfl

/-- The blocks of connections that are gone are those of their streams. -/
theorem length_flatMap_blocks {held : Holders} (howns : ∀ x ∈ held, x.1.Owns x.2)
    (hexited : ∀ x ∈ held, x.1.rx = .exited) :
    (held.flatMap Prod.snd).length =
      (held.map Prod.fst).countP fun conn => conn.stream.buff.isSome := by
  induction held with
  | nil => rfl
  | cons x held ih =>
    have hx := (howns x List.mem_cons_self).2
    rw [hexited x List.mem_cons_self] at hx
    have hlen : x.2.length = if x.1.stream.buff.isSome then 1 else 0 := Backed.length_eq hx
    rw [List.flatMap_cons, List.length_append, List.map_cons, List.countP_cons, hlen,
      ih (fun y hy => howns y (List.mem_cons_of_mem _ hy))
        (fun y hy => hexited y (List.mem_cons_of_mem _ hy)), Nat.add_comm]

/-- Nothing is in use but what belongs to somebody and what the record says was lost; and when
everyone has ended, what is left are the losses, and the blocks of streams that were destroyed
between a `read` and what follows it. -/
theorem resources_accounted (h : Serving numbering descriptors r) (hp : r.state = .ok p) :
    p.Ledger r.log ∧ (p.Ended →
      p.sys.files.entries.length = r.log.count .file ∧
      p.sys.heap.blocks.entries.length =
        r.log.count .block + p.conns.countP fun conn => conn.stream.buff.isSome) := by
  have hledger := ledger_of_reach h p hp
  refine ⟨hledger, fun hended => ?_⟩
  obtain ⟨held, lines, lost, files, hacc, hlost, hfiles⟩ := hledger
  have hmem (x) (hx : x ∈ held) : x.1 ∈ p.conns := hacc.conns ▸ List.mem_map_of_mem hx
  have hfds : (held.flatMap fun x => x.1.stream.fds) = [] := by
    apply flatMap_fds_eq_nil
    intro x hx
    have hopen := (hacc.owns x hx).1
    rw [hended.killed x.1 (hmem x hx)] at hopen
    simpa using hopen
  have hlines : lines = [] := by
    have hgiven := hacc.given
    rwa [hended.lines, List.map_eq_nil_iff] at hgiven
  have hfileCount := hacc.sys.files.length_eq
  have hblockCount := hacc.sys.blocks.length_eq
  rw [hfds, TcpListener.fds, hended.listener] at hfileCount
  rw [hlines] at hblockCount
  constructor
  · rw [← hfileCount, ← hfiles]
    simp
  · rw [← hblockCount, List.nil_append, List.length_append, hlost, ← hacc.conns,
      length_flatMap_blocks hacc.owns fun x hx => hended.exited x.1 (hmem x hx)]

/-- A socket that cannot be bound, a connection that is accepted and sends nothing, and a line
that there is no memory for: one descriptor and one block are left. -/
theorem resources_accounted_without_memory : ∃ r p, r.state = .ok p ∧ p.Ended ∧
    p.sys.files.entries.length = 1 ∧ p.sys.heap.blocks.entries.length = 1 ∧
    Serving .lowest .lowest r := by
  have hrun : ∃ r, Serving .lowest .lowest r ∧ (r.state.toOption.any fun p =>
      decide (p.listener.sockfd = none) && p.conns.all (fun conn => conn.isKilled) &&
        p.conns.all (fun conn => decide (conn.rx = .exited)) && decide (p.lines = []) &&
        decide (r.log.count .file = 1) && decide (r.log.count .block = 1) &&
        decide ((p.conns.countP fun conn => conn.stream.buff.isSome) = 0)) = true :=
    exists_reach_of_run (s := ⟨.ok .start, []⟩) ⟨rfl, rfl⟩
      [.bind ⟨true, true, false, true⟩, .bind ⟨true, true, true, true⟩,
        .accept true [] [⟨ascii "hello\n", by decide⟩], .accept true [] [],
        .rx 0 [], .rx 0 [], .rx 0 [], .rx 0 [true, false], .rx 1 [], .rx 1 [], .rx 1 [],
        .terminate 0, .terminate 1, .destroy]
      (by decide +kernel)
  obtain ⟨r, hr, hP⟩ := hrun
  cases hp : r.state with
  | error fault => simp [hp, Except.toOption] at hP
  | ok p =>
    simp only [hp, Except.toOption, Option.any_some, Bool.and_eq_true, List.all_eq_true,
      decide_eq_true_eq] at hP
    obtain ⟨⟨⟨⟨⟨⟨hlistener, hkilled⟩, hexited⟩, hlines⟩, hfile⟩, hblock⟩, hbuff⟩ := hP
    have hended : p.Ended := ⟨hlistener, hkilled, hexited, hlines⟩
    obtain ⟨hfiles, hblocks⟩ := (resources_accounted hr hp).2 hended
    exact ⟨r, p, hp, hended, by rw [hfiles, hfile], by rw [hblocks, hblock, hbuff], hr⟩

/-- The process faults at two steps only, and always at these, both in `tcp_stream_readuntil`:
where it looks for a line in the held bytes of a stream that `terminate` has destroyed since the
test of `m_is_killed`, and where the request for room for the byte behind a line is refused. -/
theorem faults_only_dangling (h : Serving numbering descriptors r) (hp : r.state = .ok p) :
    (∀ l fault, p.next numbering descriptors l = some (.error fault) →
      fault = .access .nullDeref ∧ ∃ k grants conn, l = .rx k grants ∧
        p.conns[k]? = some conn ∧
        (conn.Dangling ∨ conn.Unterminated numbering (granting p.sys grants).heap)) ∧
    ∀ k grants conn, p.conns[k]? = some conn →
      conn.Dangling ∨ conn.Unterminated numbering (granting p.sys grants).heap →
      p.next numbering descriptors (.rx k grants) = some (.error (.access .nullDeref)) := by
  have hledger := ledger_of_reach h p hp
  constructor
  · intro l fault hs
    rcases hledger.step hs with ⟨p', hok, -⟩ | ⟨hfault, hwhy⟩
    · cases hok
    · cases hfault
      exact ⟨rfl, hwhy⟩
  · intro k grants conn hk hwhy
    rw [Process.next, hk, Option.map_some, hledger.rx_faults hk hwhy]

/-- Two lines in one chunk, and a connection that is terminated between them. -/
theorem faults_only_dangling_between_lines : ∃ r p k, Serving .lowest .lowest r ∧
    r.state = .ok p ∧
    p.next .lowest .lowest (.rx k []) = some (.error (.access .nullDeref)) := by
  have hrun : ∃ r, Serving .lowest .lowest r ∧ (r.state.toOption.any fun p =>
      p.conns[0]?.any fun conn => decide (conn.rx = .call) && conn.isKilled &&
        decide (conn.stream.buffLen ≠ 0)) = true :=
    exists_reach_of_run (s := ⟨.ok .start, []⟩) ⟨rfl, rfl⟩
      [.bind ⟨true, true, true, true⟩, .accept true [] [⟨ascii "/logout\nhi", by decide⟩],
        .rx 0 [], .rx 0 [], .rx 0 [], .rx 0 [], .rx 0 [], .terminate 0]
      (by decide +kernel)
  obtain ⟨r, hr, hP⟩ := hrun
  cases hp : r.state with
  | error fault => simp [hp, Except.toOption] at hP
  | ok p =>
    simp only [hp, Except.toOption, Option.any_some, Option.any_eq_true, Bool.and_eq_true,
      decide_eq_true_eq] at hP
    obtain ⟨conn, hconn, ⟨hrx, hkilled⟩, hlen⟩ := hP
    exact ⟨r, p, 0, hr, hp,
    (faults_only_dangling hr hp).2 0 [] conn hconn (.inl ⟨hrx, hkilled, hlen⟩)⟩

end Runs

end Chatd.Net.Server
