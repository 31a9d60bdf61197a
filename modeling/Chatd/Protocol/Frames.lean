import Chatd.Net.Connection.Login.Sessions
import Chatd.Protocol.CommandGrammar
import Chatd.Protocol.MessageGrammar

/-! # Frames on the wire

A message is delivered as one line of text that puts its sender and its content between
fixed separators. The content is chosen by the sender and may look like any of them. The
frame is nevertheless read in one way, from the left: a channel name has no space, and a
user name has no colon.
-/
namespace Chatd.Protocol
open Library Net.Connection

abbrev colon : UInt8 := 58
abbrev newline : UInt8 := 10

/-- A connected socket: the bytes it has taken, and for each coming call of `send` how many
bytes it takes at most, or that it fails. -/
structure Outbound where
  sent : Bytes
  takes : List (Option ℕ)
  deriving DecidableEq, Repr

inductive WriteResult where
  | ok
  | writee
  deriving DecidableEq, Repr

/-- `tcp_stream_write` -/
def Outbound.write (s : Outbound) (buff : Bytes) : WriteResult × Outbound :=
  match s.takes with
  | [] => (.writee, s)
  | none :: takes => (.writee, { s with takes := takes })
  | some n :: takes =>
    (if (buff.take n).length = buff.length then .ok else .writee, ⟨s.sent ++ buff.take n, takes⟩)

/-- Consecutive calls of `tcp_stream_write`, up to the first that fails. -/
def writeAll : List Bytes → Outbound → Bool × Outbound
  | [], s => (true, s)
  | buff :: buffs, s =>
    match s.write buff with
    | (.ok, s) => writeAll buffs s
    | (.writee, s) => (false, s)

/-- The buffers that `DirectMessage::send` writes. -/
def sendDirect (name content : Bytes) : List Bytes :=
  [ascii "<DM> @", name, ascii ": ", content, ascii "\n"]

/-- The buffers that `GroupMessage::send` writes. -/
def sendGroup (name to_ content : Bytes) : List Bytes :=
  [ascii "#", to_, ascii " @", name, ascii ": ", content, ascii "\n"]

/-- The buffers that `GlobalMessage::send` writes. -/
def sendGlobal (name content : Bytes) : List Bytes :=
  [ascii "<Global> @", name, ascii ": ", content, ascii "\n"]

def Message.parts (name : Bytes) : Message → List Bytes
  | .direct _ content => sendDirect name content
  | .group to_ content => sendGroup name to_ content
  | .global content => sendGlobal name content

/-- `Message::send` for a sender with the given name. -/
def Message.send (name : Bytes) (msg : Message) : Outbound → Bool × Outbound :=
  writeAll (msg.parts name)

/-- The username step of the login dialogue stores a buffer with this name. -/
def Accepted (name : Bytes) : Prop :=
  ∃ (s : Session) (buff : Buffer) (len : ℕ), s.username = none ∧
    (s.enterUsername buff len).username = some buff ∧ buff.str = name

/-- `Payload::parse` makes this message of some line. -/
def Produced (msg : Message) : Prop :=
  ∃ (line z : Bytes) (r : Parsed), parse (line ++ 0 :: z) line.length = .ok r ∧ r.Yields msg

def OneLine (bytes : Bytes) : Prop := ∃ line, bytes = line ++ [newline] ∧ newline ∉ line

/-- What the recipient is to learn from a frame; a direct message does not show its
addressee. -/
def Message.SameShown : Message → Message → Prop
  | .direct _ content, .direct _ content' => content = content'
  | .group to_ content, .group to' content' => to_ = to' ∧ content = content'
  | .global content, .global content' => content = content'
  | _, _ => False

def Message.content : Message → Bytes
  | .direct _ content => content
  | .group _ content => content
  | .global content => content

def Message.channel : Message → Bytes
  | .group to_ _ => to_
  | _ => []

def signed (name content : Bytes) : Bytes := name ++ (ascii ": " ++ (content ++ ascii "\n"))

/-- The bytes of a message from a sender with the given name. -/
def Message.frame (name : Bytes) : Message → Bytes
  | .direct _ content => ascii "<DM> @" ++ signed name content
  | .group to_ content => ascii "#" ++ (to_ ++ (ascii " @" ++ signed name content))
  | .global content => ascii "<Global> @" ++ signed name content

/-- What the login dialogue and the parser keep out of the parts of a frame. -/
structure Clean (name : Bytes) (msg : Message) : Prop where
  name_colon : colon ∉ name
  name_newline : newline ∉ name
  content_newline : newline ∉ msg.content
  channel_space : space ∉ msg.channel
  channel_newline : newline ∉ msg.channel

section Writing

variable {s t : Outbound} {buff : Bytes} {buffs : List Bytes}

theorem sent_write (h : s.write buff = (.ok, t)) : t.sent = s.sent ++ buff := by
  rw [Outbound.write] at h
  split at h
  · cases h
  · cases h
  · obtain ⟨hlen, rfl⟩ := Prod.mk.inj h
    split at hlen
    · rename_i n takes htakes hall
      rw [List.length_take] at hall
      rw [List.take_of_length_le (by omega)]
    · cases hlen

theorem sent_writeAll (h : writeAll buffs s = (true, t)) : t.sent = s.sent ++ buffs.flatten := by
  induction buffs generalizing s with
  | nil =>
    cases h
    rw [List.flatten_nil, List.append_nil]
  | cons buff buffs ih =>
    rw [writeAll] at h
    split at h
    · rename_i s' hwrite
      rw [ih h, sent_write hwrite, List.flatten_cons, List.append_assoc]
    · cases h

theorem Message.flatten_parts {name : Bytes} {msg : Message} :
    (msg.parts name).flatten = msg.frame name := by
  cases msg <;>
    simp only [Message.parts, sendDirect, sendGroup, sendGlobal, List.flatten_cons,
      List.flatten_nil, List.append_nil, Message.frame, signed]

theorem sent_send {name : Bytes} {msg : Message} (h : msg.send name s = (true, t)) :
    t.sent = s.sent ++ msg.frame name := by
  rw [sent_writeAll h, Message.flatten_parts]

end Writing

section Strings

variable {name : Bytes} {msg : Message} {line z : Bytes} {r : Parsed} {c : UInt8}

theorem not_mem_of_check {check : UInt8 → Bool} (h : ∀ c ∈ line, check c = true)
    (hc : check c = false) : c ∉ line := by
  intro hmem
  rw [h c hmem] at hc
  cases hc

/-- The username step accepts exactly the valid names. -/
theorem accepted_iff : Accepted name ↔ ValidName name := by
  constructor
  · rintro ⟨s, buff, len, hnone, hsome, rfl⟩
    rw [Session.enterUsername] at hsome
    split at hsome
    · rw [Session.free, Session.reply, hnone] at hsome
      cases hsome
    · split at hsome
      · rw [Session.free, Session.reply, hnone] at hsome
        cases hsome
      · rename_i hchars hbounds
        have hall : buff.str.all isNameChar = true := by simpa using hchars
        exact ⟨by omega, by omega, List.all_eq_true.mp hall⟩
  · intro h
    have hstr : (⟨0, name ++ [0]⟩ : Buffer).str = name :=
      cstr_append (s := []) (not_mem_of_check h.chars (by decide)) []
    refine ⟨.fresh, ⟨0, name ++ [0]⟩, name.length, rfl, ?_, hstr⟩
    have htwo := h.two_le
    have htwenty := h.le_twenty
    rw [Session.enterUsername, hstr, List.all_eq_true.mpr h.chars, if_neg (by decide),
      if_neg (by omega)]

theorem parseCommand_not_yields {b : Bytes} {len : ℕ} (h : parseCommand b len = .ok r) :
    ¬ r.Yields msg := by
  obtain ⟨scanned, -, h⟩ := bind_eq_ok h
  rintro hyields
  cases scanned with
  | none =>
    cases h
    exact hyields
  | some scanned =>
    obtain ⟨b, cmd⟩ := scanned
    cases cmd with
    | none => cases h
    | some cmd =>
      dsimp only at h
      split at h
      · cases h
        cases hyields
      · cases h
        exact hyields

theorem Produced.denotes (h : Produced msg) :
    ∃ line, (∀ c ∈ line, isValidChar c = true) ∧ DenotesMessage line msg := by
  obtain ⟨line, z, r, hparse, hyields⟩ := h
  by_cases hvalid : (chomp line).all isValidChar = true
  · obtain ⟨z', hz'⟩ := parse_chomp hvalid z
    rw [hz'] at hparse
    have hslash : (chomp line).head? ≠ some slash := by
      intro hslash
      obtain ⟨rest, hrest⟩ := List.head?_eq_some_iff.mp hslash
      rw [parse_of_valid hvalid, hrest] at hparse
      exact parseCommand_not_yields hparse hyields
    obtain ⟨r', hparse', hiff, -⟩ := parse_valid_message hvalid hslash z'
    obtain rfl : r = r' := Except.ok.inj (hparse.symm.trans hparse')
    exact ⟨chomp line, List.all_eq_true.mp hvalid, (hiff msg).mp hyields⟩
  · rw [parse_of_invalid hvalid] at hparse
    cases hparse
    exact absurd hyields id

end Strings

section Decoding

variable {name name' content content' : Bytes} {msg msg' : Message}

theorem Addressed.subset {sigil : UInt8} {line to_ : Bytes}
    (h : Addressed sigil line to_ content) : to_ ⊆ line ∧ content ⊆ line := by
  constructor <;>
  · intro c hc
    rw [h.line_eq]
    simp [hc]

/-- Names that log in and messages that are parsed are clean. -/
theorem clean_of_accepted (hname : Accepted name) (hmsg : Produced msg) : Clean name msg := by
  obtain ⟨line, hchars, hdenotes⟩ := hmsg.denotes
  have hvalid := (accepted_iff.mp hname).chars
  have hnewline : newline ∉ line := not_mem_of_check hchars (by decide)
  have hcolon : colon ∉ name := not_mem_of_check hvalid (by decide)
  have hname_newline : newline ∉ name := not_mem_of_check hvalid (by decide)
  cases msg with
  | direct to_ content =>
    have hsub := hdenotes.subset
    exact ⟨hcolon, hname_newline, fun h => hnewline (hsub.2 h), List.not_mem_nil,
      List.not_mem_nil⟩
  | group to_ content =>
    have hsub := hdenotes.subset
    exact ⟨hcolon, hname_newline, fun h => hnewline (hsub.2 h), hdenotes.to_free,
      fun h => hnewline (hsub.1 h)⟩
  | global content =>
    have hcontent : newline ∉ content := hdenotes.1 ▸ hnewline
    exact ⟨hcolon, hname_newline, hcontent, List.not_mem_nil, List.not_mem_nil⟩

theorem OneLine.append {before bytes : Bytes} (h : OneLine bytes) (hb : newline ∉ before) :
    OneLine (before ++ bytes) := by
  obtain ⟨line, rfl, hline⟩ := h
  refine ⟨before ++ line, (List.append_assoc ..).symm, ?_⟩
  rw [List.mem_append, not_or]
  exact ⟨hb, hline⟩

theorem oneLine_signed (hn : newline ∉ name) (hc : newline ∉ content) :
    OneLine (signed name content) := by
  have hend : OneLine (ascii "\n") := ⟨[], rfl, List.not_mem_nil⟩
  exact ((hend.append hc).append (by decide)).append hn

theorem oneLine_frame (h : Clean name msg) : OneLine (msg.frame name) := by
  have hsigned := oneLine_signed h.name_newline h.content_newline
  cases msg with
  | direct to_ content => exact hsigned.append (by decide)
  | group to_ content =>
    exact ((hsigned.append (by decide)).append h.channel_newline).append (by decide)
  | global content => exact hsigned.append (by decide)

/-- The name ends at the first colon, and the content before the last byte. -/
theorem signed_inj (hn : colon ∉ name) (hn' : colon ∉ name')
    (h : signed name content = signed name' content') : name = name' ∧ content = content' := by
  have hsplit := append_cons_inj_left hn hn' h
  exact ⟨hsplit.1, List.append_cancel_right (List.cons.inj hsplit.2).2⟩

theorem frame_inj (hc : Clean name msg) (hc' : Clean name' msg')
    (h : msg.frame name = msg'.frame name') : name = name' ∧ msg.SameShown msg' := by
  have hdm : ascii "<DM> @" = [60, 68, 77, 62, 32, 64] := by decide
  have hhash : ascii "#" = [35] := by decide
  have hglobal : ascii "<Global> @" = [60, 71, 108, 111, 98, 97, 108, 62, 32, 64] := by decide
  have hsigned := @signed_inj name name' msg.content msg'.content hc.name_colon hc'.name_colon
  cases msg with
  | direct to_ content =>
    cases msg' with
    | direct to' content' => exact hsigned (List.append_cancel_left h)
    | group to' content' => simp [Message.frame, hdm, hhash] at h
    | global content' => simp [Message.frame, hdm, hglobal] at h
  | group to_ content =>
    cases msg' with
    | direct to' content' => simp [Message.frame, hdm, hhash] at h
    | group to' content' =>
      -- the channel ends at the first space
      have hsplit := append_cons_inj_left hc.channel_space hc'.channel_space
        (List.append_cancel_left h)
      have hsame := hsigned (List.cons.inj hsplit.2).2
      exact ⟨hsame.1, hsplit.1, hsame.2⟩
    | global content' => simp [Message.frame, hhash, hglobal] at h
  | global content =>
    cases msg' with
    | direct to' content' => simp [Message.frame, hdm, hglobal] at h
    | group to' content' => simp [Message.frame, hhash, hglobal] at h
    | global content' => exact hsigned (List.append_cancel_left h)

end Decoding

section Delivery

variable {name name' : Bytes} {msg msg' : Message} {s s' t t' : Outbound}

/-- What is written for a message is one line, and no other sender and message are written
as the same line. -/
theorem frames_cannot_be_forged (hname : Accepted name) (hname' : Accepted name')
    (hmsg : Produced msg) (hmsg' : Produced msg') (hsend : msg.send name s = (true, t))
    (hsend' : msg'.send name' s' = (true, t')) :
    ∃ bytes bytes', t.sent = s.sent ++ bytes ∧ t'.sent = s'.sent ++ bytes' ∧ OneLine bytes ∧
      (bytes = bytes' → name = name' ∧ msg.SameShown msg') := by
  have hclean := clean_of_accepted hname hmsg
  have hclean' := clean_of_accepted hname' hmsg'
  exact ⟨msg.frame name, msg'.frame name', sent_send hsend, sent_send hsend',
    oneLine_frame hclean, frame_inj hclean hclean'⟩

/-- A direct message whose content imitates the frame of a group message. -/
theorem frames_cannot_be_forged_imitation :
    ∃ bytes bytes', ascii "<DM> @bob: #c @al: x\n" = [] ++ bytes ∧
      ascii "#c @al: x\n" = [] ++ bytes' ∧ OneLine bytes ∧
      (bytes = bytes' → ascii "bob" = ascii "al" ∧
        (Message.direct (ascii "al") (ascii "#c @al: x")).SameShown
          (.group (ascii "c") (ascii "x"))) := by
  have hbob : Accepted (ascii "bob") :=
    accepted_iff.mpr ⟨by decide, by decide, List.all_eq_true.mp (by decide)⟩
  have hal : Accepted (ascii "al") :=
    accepted_iff.mpr ⟨by decide, by decide, List.all_eq_true.mp (by decide)⟩
  have hdirect : Produced (.direct (ascii "al") (ascii "#c @al: x")) := by
    refine ⟨ascii "@al #c @al: x", [], .payload (.directMessage 1 4
      (ascii "@al" ++ 0 :: ascii "#c @al: x" ++ [0]) 13), by decide, ?_⟩
    rw [Parsed.Yields]
    decide
  have hgroup : Produced (.group (ascii "c") (ascii "x")) := by
    refine ⟨ascii "#c x", [], .payload (.groupMessage 1 3
      (ascii "#c" ++ 0 :: ascii "x" ++ [0]) 4), by decide, ?_⟩
    rw [Parsed.Yields]
    decide
  have hsend : (Message.direct (ascii "al") (ascii "#c @al: x")).send (ascii "bob")
      ⟨[], List.replicate 5 (some 100)⟩ = (true, ⟨ascii "<DM> @bob: #c @al: x\n", []⟩) := by
    decide
  have hsend' : (Message.group (ascii "c") (ascii "x")).send (ascii "al")
      ⟨[], List.replicate 7 (some 100)⟩ = (true, ⟨ascii "#c @al: x\n", []⟩) := by
    decide
  exact frames_cannot_be_forged hbob hal hdirect hgroup hsend hsend'

end Delivery

end Chatd.Protocol
