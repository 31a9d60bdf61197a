import Chatd.Library.Delimited
import Chatd.Protocol.Dispatch
import Chatd.Protocol.Payload

/-! # The message language

A line that does not start with a slash is a chat message. A direct or a group message
is a sigil, an addressee without spaces, one space and a content, none of them empty; any
other line is a global message as a whole. `Payload::parse` accepts exactly these lines
and cuts them into exactly these strings.
-/
namespace Chatd.Protocol
open Library

/-- The message a payload stands for, its strings read from the buffer. -/
def Payload.message : Payload → Option Message
  | .command _ => none
  | .directMessage to_ content buff _ => some (.direct (cstr buff to_) (cstr buff content))
  | .groupMessage to_ content buff _ => some (.group (cstr buff to_) (cstr buff content))
  | .globalMessage content buff _ => some (.global (cstr buff content))

/-- The result is a message object of the given kind and strings. -/
def Parsed.Yields : Parsed → Message → Prop
  | .null _, _ => False
  | .payload p, msg => p.message = some msg

/-- The line is the sigil, the addressee, a space and the content. -/
structure Addressed (sigil : UInt8) (line to_ content : Bytes) : Prop where
  line_eq : line = sigil :: to_ ++ space :: content
  to_ne_nil : to_ ≠ []
  to_free : space ∉ to_
  content_ne_nil : content ≠ []

/-- The message language, over lines without their final carriage return. -/
def DenotesMessage (line : Bytes) : Message → Prop
  | .direct to_ content => Addressed atSign line to_ content
  | .group to_ content => Addressed hash line to_ content
  | .global content => line = content ∧ line ≠ [] ∧ line.head? ≠ some atSign ∧
      line.head? ≠ some hash

section Scan

variable {p q w content z : Bytes}

/-- The scan stops at the first space, if something stands on both sides of it. -/
theorem scanAddressee_found (hp : p ≠ []) (hw : space ∉ w) (hc : content ≠ []) :
    scanAddressee (p ++ w ++ space :: content).length (w ++ space :: content).length p.length
        (p ++ w ++ space :: content ++ 0 :: z) =
      .ok (if w = [] ∧ p.length = 1 then none
        else some (p ++ w ++ 0 :: content ++ 0 :: z, p.length + w.length)) := by
  induction w generalizing p with
  | nil =>
    have hread : readAt (p ++ [] ++ space :: content ++ 0 :: z) p.length = .ok space := by
      rw [List.append_nil, List.append_assoc]
      exact readAt_append p space (content ++ 0 :: z)
    have hwrite : writeAt (p ++ [] ++ space :: content ++ 0 :: z) p.length 0 =
        .ok (p ++ [] ++ 0 :: content ++ 0 :: z) := by
      rw [List.append_nil, List.append_assoc, List.append_assoc]
      exact writeAt_append p space 0 (content ++ 0 :: z)
    rw [List.nil_append, List.length_cons, scanAddressee, hread, ok_bind, if_pos rfl]
    by_cases hone : p.length = 1
    · rw [if_pos hone, if_pos ⟨rfl, hone⟩]
      rfl
    · rw [if_neg hone, if_neg fun h => hone h.2, hwrite]
      rfl
  | cons c w ih =>
    rw [List.mem_cons, not_or] at hw
    have hread : readAt (p ++ c :: w ++ space :: content ++ 0 :: z) p.length = .ok c := by
      rw [List.append_assoc, List.append_assoc]
      exact readAt_append p c (w ++ (space :: content ++ 0 :: z))
    have hcl := List.length_pos_of_ne_nil hc
    have hpl := List.length_pos_of_ne_nil hp
    have hlen : ¬ p.length ≥ (p ++ c :: w ++ space :: content).length - 2 := by
      simp only [List.length_append, List.length_cons]
      omega
    have hnext : p ++ c :: w = p ++ [c] ++ w := by simp
    have hsucc : p.length + 1 = (p ++ [c]).length := by simp
    rw [List.cons_append, List.length_cons, scanAddressee, hread, ok_bind,
      if_neg (Ne.symm hw.1), if_neg hlen, hnext, hsucc, ih (by simp) hw.2]
    have hend : (p ++ [c]).length + w.length = p.length + (c :: w).length := by
      simp only [List.length_append, List.length_cons, List.length_nil]
      omega
    rw [if_neg (by simp only [List.length_append, List.length_singleton]; omega),
      if_neg (by simp), hend]

theorem scanAddressee_none (hq : 2 ≤ q.length)
    (h : ∀ w content, q = w ++ space :: content → space ∉ w → content = []) :
    scanAddressee (p ++ q).length q.length p.length (p ++ q ++ 0 :: z) = .ok none := by
  induction q generalizing p with
  | nil => simp at hq
  | cons c q ih =>
    have hq' : q ≠ [] := by
      rintro rfl
      simp at hq
    have hc : c ≠ space := by
      rintro rfl
      exact hq' (h [] q rfl (by simp))
    have hread : readAt (p ++ c :: q ++ 0 :: z) p.length = .ok c := by
      rw [List.append_assoc]
      exact readAt_append p c (q ++ 0 :: z)
    rw [List.length_cons, scanAddressee, hread, ok_bind, if_neg hc]
    by_cases hend : p.length ≥ (p ++ c :: q).length - 2
    · rw [if_pos hend]
      rfl
    · rw [if_neg hend]
      have hlen : 2 ≤ q.length := by
        simp only [List.length_append, List.length_cons] at hend
        omega
      have hnext : p ++ c :: q = p ++ [c] ++ q := by simp
      have hsucc : p.length + 1 = (p ++ [c]).length := by simp
      rw [hnext, hsucc]
      apply ih hlen
      intro w content hsplit hw
      refine h (c :: w) content (by rw [hsplit]; rfl) ?_
      rw [List.mem_cons, not_or]
      exact ⟨Ne.symm hc, hw⟩

end Scan

section Parse

variable {sigil : UInt8} {s t to_ content z : Bytes}

theorem Addressed.eq (h : Addressed sigil (sigil :: t) to_ content) {w v : Bytes}
    (ht : t = w ++ space :: v) (hw : space ∉ w) : to_ = w ∧ content = v := by
  have hline : to_ ++ space :: content = w ++ space :: v := by
    rw [← ht]
    exact (List.cons.inj h.line_eq).2.symm
  exact append_cons_inj_left h.to_free hw hline

theorem Addressed.exists_iff {w v : Bytes} (h : Addressed sigil (sigil :: t) w v)
    (mk : Bytes → Bytes → Message) (msg : Message) :
    (∃ to_ content, Addressed sigil (sigil :: t) to_ content ∧ msg = mk to_ content) ↔
      msg = mk w v := by
  constructor
  · rintro ⟨to_, content, h', rfl⟩
    obtain ⟨rfl, rfl⟩ := h'.eq (List.cons.inj h.line_eq).2 h.to_free
    rfl
  · rintro rfl
    exact ⟨w, v, h, rfl⟩

/-- The branch for the two sigils accepts the addressed lines. -/
theorem parseAddressed_eq (h0 : 0 ∉ sigil :: t) (z : Bytes) :
    ∃ r, parseAddressed sigil (sigil :: t ++ 0 :: z) (sigil :: t).length = .ok r ∧
      (∀ msg, r.Yields msg ↔ ∃ to_ content, Addressed sigil (sigil :: t) to_ content ∧
        msg = if sigil = atSign then .direct to_ content else .group to_ content) ∧
      ((∀ msg, ¬ r.Yields msg) → r = .null 1) := by
  have hnull (hnot : ∀ to_ content, ¬ Addressed sigil (sigil :: t) to_ content) (msg : Message) :
      (Parsed.null 1).Yields msg ↔ ∃ to_ content, Addressed sigil (sigil :: t) to_ content ∧
        msg = if sigil = atSign then .direct to_ content else .group to_ content :=
    ⟨False.elim, fun ⟨to_, content, h, _⟩ => hnot to_ content h⟩
  rw [parseAddressed]
  by_cases hshort : (sigil :: t).length < 3
  · rw [if_pos hshort]
    refine ⟨.null 1, rfl, hnull fun to_ content h => ?_, fun _ => rfl⟩
    have hto := List.length_pos_of_ne_nil h.to_ne_nil
    have hcontent := List.length_pos_of_ne_nil h.content_ne_nil
    have hlen := congrArg List.length h.line_eq
    simp only [List.cons_append, List.length_cons, List.length_append] at hlen hshort
    omega
  rw [if_neg hshort, show (sigil :: t).length - 1 = t.length from rfl]
  by_cases hex : ∃ w v, t = w ++ space :: v ∧ space ∉ w ∧ v ≠ []
  · obtain ⟨w, v, rfl, hw, hv⟩ := hex
    have hscan := scanAddressee_found (p := [sigil]) (z := z) (by simp) hw hv
    simp only [List.cons_append, List.nil_append, List.append_assoc, List.length_singleton,
      and_true] at hscan
    rw [List.cons_append, List.append_assoc, List.cons_append, hscan, ok_bind]
    by_cases hempty : w = []
    · rw [if_pos hempty]
      refine ⟨.null 1, rfl, hnull fun to_ content h => ?_, fun _ => rfl⟩
      exact h.to_ne_nil ((h.eq rfl hw).1.trans hempty)
    · rw [if_neg hempty]
      simp only [List.mem_cons, List.mem_append, not_or] at h0
      have hto : cstr (sigil :: (w ++ 0 :: (v ++ 0 :: z))) 1 = w :=
        cstr_append (s := [sigil]) h0.2.1 (v ++ 0 :: z)
      have hcontent : cstr (sigil :: (w ++ 0 :: (v ++ 0 :: z))) (1 + w.length + 1) = v := by
        have hc := cstr_append (s := sigil :: w ++ [0]) h0.2.2.2 z
        simpa [Nat.add_comm] using hc
      have haddressed : Addressed sigil (sigil :: (w ++ space :: v)) w v := ⟨rfl, hempty, hw, hv⟩
      have hyields (mk : Bytes → Bytes → Message) (msg : Message) :
          some (mk (cstr (sigil :: (w ++ 0 :: (v ++ 0 :: z))) 1)
              (cstr (sigil :: (w ++ 0 :: (v ++ 0 :: z))) (1 + w.length + 1))) = some msg ↔
            ∃ to_ content, Addressed sigil (sigil :: (w ++ space :: v)) to_ content ∧
              msg = mk to_ content := by
        rw [hto, hcontent, haddressed.exists_iff, Option.some.injEq, eq_comm]
      by_cases hat : sigil = atSign
      · simp only [if_pos hat]
        exact ⟨_, rfl, hyields .direct, fun h => absurd rfl (h _)⟩
      · simp only [if_neg hat]
        exact ⟨_, rfl, hyields .group, fun h => absurd rfl (h _)⟩
  · have hscan := scanAddressee_none (p := [sigil]) (q := t) (z := z)
      (by simp only [List.length_cons] at hshort; omega)
      fun w content ht hw => by_contra fun hc => hex ⟨w, content, ht, hw, hc⟩
    simp only [List.singleton_append, List.length_singleton] at hscan
    rw [hscan, ok_bind]
    refine ⟨.null 1, rfl, hnull fun to_ content h => ?_, fun _ => rfl⟩
    exact hex ⟨to_, content, (List.cons.inj h.line_eq).2, h.to_free, h.content_ne_nil⟩

theorem head?_of_head?_chomp {line : Bytes} {c : UInt8} (h : (chomp line).head? = some c) :
    line.head? = some c := by
  rw [chomp] at h
  split at h
  · rw [List.head?_dropLast] at h
    split at h
    · exact h
    · cases h
  · exact h

theorem denotesMessage_sigil_iff {c : UInt8} (hc : c = atSign ∨ c = hash) (msg : Message) :
    DenotesMessage (c :: t) msg ↔ ∃ to_ content, Addressed c (c :: t) to_ content ∧
      msg = if c = atSign then .direct to_ content else .group to_ content := by
  have hne : hash ≠ atSign := by decide
  cases msg with
  | direct to_ content =>
    constructor
    · intro h
      obtain rfl : c = atSign := (List.cons.inj h.line_eq).1
      exact ⟨to_, content, h, (if_pos rfl).symm⟩
    · rintro ⟨to', content', h, hmsg⟩
      rcases hc with rfl | rfl
      · rw [if_pos rfl] at hmsg
        cases hmsg
        exact h
      · rw [if_neg hne] at hmsg
        cases hmsg
  | group to_ content =>
    constructor
    · intro h
      obtain rfl : c = hash := (List.cons.inj h.line_eq).1
      exact ⟨to_, content, h, (if_neg hne).symm⟩
    · rintro ⟨to', content', h, hmsg⟩
      rcases hc with rfl | rfl
      · rw [if_pos rfl] at hmsg
        cases hmsg
      · rw [if_neg hne] at hmsg
        cases hmsg
        exact h
  | global content =>
    constructor
    · rintro ⟨-, -, hat, hhash⟩
      rcases hc with rfl | rfl
      · exact absurd rfl hat
      · exact absurd rfl hhash
    · rintro ⟨to', content', -, hmsg⟩
      split at hmsg <;> cases hmsg

theorem denotesMessage_plain_iff {c : UInt8} (hc : ¬ (c = atSign ∨ c = hash)) (msg : Message) :
    DenotesMessage (c :: t) msg ↔ msg = .global (c :: t) := by
  rw [not_or] at hc
  cases msg with
  | direct to_ content =>
    exact ⟨fun h => absurd (List.cons.inj h.line_eq).1 hc.1, fun h => by cases h⟩
  | group to_ content =>
    exact ⟨fun h => absurd (List.cons.inj h.line_eq).1 hc.2, fun h => by cases h⟩
  | global content =>
    constructor
    · rintro ⟨h, -⟩
      rw [h]
    · intro h
      cases h
      exact ⟨rfl, by simp, by simpa using hc.1, by simpa using hc.2⟩

theorem not_denotesMessage_nil (msg : Message) : ¬ DenotesMessage [] msg := by
  cases msg with
  | direct to_ content => exact fun h => by cases h.line_eq
  | group to_ content => exact fun h => by cases h.line_eq
  | global content => exact fun h => h.2.1 rfl

/-- A line of allowed bytes that is no command yields the message that it denotes. -/
theorem parse_valid_message (hvalid : s.all isValidChar = true) (hslash : s.head? ≠ some slash)
    (z : Bytes) :
    ∃ r, parse (s ++ 0 :: z) s.length = .ok r ∧
      (∀ msg, r.Yields msg ↔ DenotesMessage s msg) ∧
      ((∀ msg, ¬ r.Yields msg) → r = .null 1) := by
  have h0 : (0 : UInt8) ∉ s := fun h =>
    isValidChar_ne_zero (List.all_eq_true.mp hvalid 0 h) rfl
  rw [parse_of_valid hvalid]
  cases s with
  | nil =>
    refine ⟨.null 1, rfl, fun msg => ?_, fun _ => rfl⟩
    exact ⟨False.elim, not_denotesMessage_nil msg⟩
  | cons c t =>
    have hc : c ≠ slash := fun h => hslash (by rw [h]; rfl)
    have hread : readAt (c :: t ++ 0 :: z) 0 = .ok c := rfl
    rw [hread, ok_bind, if_neg hc]
    by_cases hsigil : c = atSign ∨ c = hash
    · rw [if_pos hsigil]
      simp only [denotesMessage_sigil_iff hsigil]
      exact parseAddressed_eq h0 z
    · rw [if_neg hsigil, if_neg (by simp)]
      refine ⟨_, rfl, fun msg => ?_, fun h => absurd rfl (h _)⟩
      have hcontent : cstr (c :: t ++ 0 :: z) 0 = c :: t := cstr_append (s := []) h0 z
      rw [denotesMessage_plain_iff hsigil, Parsed.Yields, Payload.message, hcontent,
        Option.some.injEq]
      exact eq_comm

/-- `Payload::parse` yields exactly the message a line denotes, if its bytes are allowed,
and NULL where it denotes none. -/
theorem parse_message_iff (line z : Bytes) (hslash : line.head? ≠ some slash) :
    ∃ r, parse (line ++ 0 :: z) line.length = .ok r ∧
      (∀ msg, r.Yields msg ↔
        (chomp line).all isValidChar = true ∧ DenotesMessage (chomp line) msg) ∧
      ((∀ msg, ¬ r.Yields msg) → r = .null 1) := by
  by_cases hvalid : (chomp line).all isValidChar = true
  · obtain ⟨z', hz'⟩ := parse_chomp hvalid z
    rw [hz']
    simp only [hvalid, true_and]
    exact parse_valid_message hvalid (fun h => hslash (head?_of_head?_chomp h)) z'
  · rw [parse_of_invalid hvalid]
    refine ⟨.null 1, rfl, fun msg => ?_, fun _ => rfl⟩
    exact ⟨False.elim, fun h => absurd h.1 hvalid⟩

/-- A direct message whose content is one space. -/
theorem parse_message_iff_spaces :
    ∃ r, parse (ascii "@a  \r" ++ [0]) (ascii "@a  \r").length = .ok r ∧
      r.Yields (.direct (ascii "a") (ascii " ")) := by
  obtain ⟨r, hr, hyields, -⟩ := parse_message_iff (ascii "@a  \r") [] (by decide)
  refine ⟨r, hr, (hyields _).mpr ⟨by decide, ?_⟩⟩
  exact ⟨by decide, by decide, by decide, by decide⟩

end Parse

end Chatd.Protocol
