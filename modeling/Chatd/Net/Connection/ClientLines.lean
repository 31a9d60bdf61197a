import Chatd.Net.Connection.RxThread
import Chatd.Protocol.CommandGrammar
import Chatd.Protocol.MessageGrammar

/-! # What a client writes is what the server reads

A client writes commands and messages as lines, ended by a newline or by a carriage
return and a newline. Through the chunks of the network, the delimiter search, the
validation and the in-place tokenizer the server reads exactly these commands and
messages, in their order.
-/
namespace Chatd.Protocol
open Library

inductive ClientLine where
  | command (kind : CommandKind) (args : List Bytes)
  | message (msg : Message)
  deriving DecidableEq, Repr

def CommandKind.name : CommandKind → Bytes
  | .subscribe => ascii "subscribe"
  | .unsubscribe => ascii "unsubscribe"
  | .listUsers => ascii "list_users"
  | .delete => ascii "delete"
  | .logout => ascii "logout"

def ClientLine.render : ClientLine → Bytes
  | .command kind args => slash :: (kind.name ++ (args.map (space :: ·)).flatten)
  | .message (.direct to_ content) => atSign :: to_ ++ space :: content
  | .message (.group to_ content) => hash :: to_ ++ space :: content
  | .message (.global content) => content

def Parsed.read : Parsed → Option ClientLine
  | .null _ => none
  | .payload (.command cmd) => some (.command cmd.kind cmd.argStrings)
  | .payload p => p.message.map .message

def Text (s : Bytes) : Prop := s ≠ [] ∧ s.all isValidChar = true

def Word (s : Bytes) : Prop := Text s ∧ space ∉ s

instance (s : Bytes) : Decidable (Text s) := inferInstanceAs (Decidable (_ ∧ _))
instance (s : Bytes) : Decidable (Word s) := inferInstanceAs (Decidable (_ ∧ _))

/-- The lines that are written without loss: a last argument has at least two characters,
and a message without addressee does not begin like another line. -/
def ClientLine.Writable : ClientLine → Prop
  | .command kind args =>
    args.length = kind.arity ∧ (∀ w ∈ args, Word w) ∧ ∀ w ∈ args.getLast?, 2 ≤ w.length
  | .message (.direct to_ content) => Word to_ ∧ Text content
  | .message (.group to_ content) => Word to_ ∧ Text content
  | .message (.global content) =>
    Text content ∧ content.head? ∉ [some slash, some atSign, some hash]

section Commands

variable {kind : CommandKind} {args : List Bytes}

theorem CommandKind.ofName_name (kind : CommandKind) :
    CommandKind.ofName kind.name = some kind := by
  cases kind <;> decide

theorem CommandKind.name_valid (kind : CommandKind) : Word kind.name := by
  cases kind <;> decide

theorem valid_args (h : ∀ w ∈ args, Word w) :
    (args.map (space :: ·)).flatten.all isValidChar = true := by
  rw [List.all_flatten, List.all_map, List.all_eq_true]
  intro w hw
  rw [Function.comp_apply, List.all_cons, (h w hw).1.2]
  rfl

theorem name_split (kind : CommandKind) (args : List Bytes) :
    (kind.name ++ (args.map (space :: ·)).flatten).takeWhile (· ≠ space) = kind.name ∧
      (kind.name ++ (args.map (space :: ·)).flatten).dropWhile (· ≠ space) =
        (args.map (space :: ·)).flatten := by
  have hall : ∀ c ∈ kind.name, decide (c ≠ space) = true := fun c hc => by
    rw [decide_eq_true_eq]
    rintro rfl
    exact (CommandKind.name_valid kind).2 hc
  rw [List.takeWhile_append_of_pos hall, List.dropWhile_append_of_pos hall]
  cases args with
  | nil => exact ⟨List.append_nil _, rfl⟩
  | cons w args => simp

/-- A last argument of two characters does not end the line in a lone character. -/
theorem not_endsInLoneChar (hwords : ∀ w ∈ args, Word w)
    (hlast : ∀ w ∈ args.getLast?, 2 ≤ w.length) :
    endsInLoneChar (slash :: (kind.name ++ (args.map (space :: ·)).flatten)) = false := by
  rcases List.eq_nil_or_concat args with rfl | ⟨init, w, rfl⟩
  · exact endsInLoneChar_of_not_mem (by cases kind <;> decide)
  · have hword : Word w := hwords w (by simp)
    have hlen : 2 ≤ w.length := hlast w (by simp)
    obtain ⟨v, c, rfl⟩ := (List.eq_nil_or_concat w).resolve_left hword.1.1
    have hspace := hword.2
    rw [List.concat_eq_append, List.mem_append, List.mem_singleton, not_or] at hspace
    have hsplit : slash :: (kind.name ++ ((init.concat (v.concat c)).map (space :: ·)).flatten) =
        slash :: (kind.name ++ (init.map (space :: ·)).flatten) ++ space :: (v ++ [c]) := by simp
    rw [hsplit, endsInLoneChar_append, endsInLoneChar_concat v
      (Ne.symm hspace.2) hspace.1]
    rw [decide_eq_false_iff_not]
    rintro rfl
    simp at hlen

theorem parse_command (hl : (ClientLine.command kind args).Writable) (z : Bytes) :
    ∃ r, parse ((ClientLine.command kind args).render ++ 0 :: z)
        (ClientLine.command kind args).render.length = .ok r ∧
      r.read = some (.command kind args) := by
  obtain ⟨harity, hwords, hlast⟩ := hl
  obtain ⟨htake, hdrop⟩ := name_split kind args
  have hvalid : (ClientLine.command kind args).render.all isValidChar = true := by
    rw [ClientLine.render, List.all_cons, List.all_append, kind.name_valid.1.2, valid_args hwords]
    rfl
  rw [parse_of_valid hvalid, ClientLine.render]
  set s := kind.name ++ (args.map (space :: ·)).flatten with hs
  have hne : s ≠ [] := by
    rw [hs]
    exact List.append_ne_nil_of_left_ne_nil kind.name_valid.1.1 _
  have hzero : (0 : UInt8) ∉ s := fun h =>
    isValidChar_ne_zero (List.all_eq_true.mp hvalid 0 (List.mem_cons_of_mem _ h)) rfl
  have hcommand := parseCommand_eq hne hzero z
  rw [htake, kind.ofName_name] at hcommand
  obtain ⟨b, offs, hargs, hparse⟩ := hcommand
  obtain ⟨rest, hrest, hlen⟩ := commandToks_eq s
  rw [not_endsInLoneChar hwords hlast] at hlen
  have htoks : commandToks (slash :: s) = args := by
    rw [commandToks, List.drop_one, List.tail_cons, hdrop]
    exact words_flatten fun w hw => ⟨(hwords w hw).1.1, (hwords w hw).2⟩
  rw [List.eq_nil_of_length_eq_zero hlen, List.append_nil, htoks, ← hargs] at hrest
  have hcount : offs.length = kind.arity := by
    rw [← harity, hrest, List.length_map]
  rw [if_pos hcount] at hparse
  exact ⟨_, hparse, by rw [Parsed.read, Command.argStrings, ← hrest]⟩

end Commands

section Messages

variable {msg : Message}

theorem denotesMessage_render (hl : (ClientLine.message msg).Writable) :
    DenotesMessage (ClientLine.message msg).render msg := by
  cases msg with
  | direct to_ content => exact ⟨rfl, hl.1.1.1, hl.1.2, hl.2.1⟩
  | group to_ content => exact ⟨rfl, hl.1.1.1, hl.1.2, hl.2.1⟩
  | global content =>
    obtain ⟨hcontent, hhead⟩ := hl
    simp only [List.mem_cons, not_or] at hhead
    exact ⟨rfl, hcontent.1, hhead.2.1, hhead.2.2.1⟩

theorem render_message_valid (hl : (ClientLine.message msg).Writable) :
    (ClientLine.message msg).render.all isValidChar = true ∧
      (ClientLine.message msg).render.head? ≠ some slash := by
  cases msg with
  | direct to_ content =>
    rw [ClientLine.render, List.cons_append, List.all_cons, List.all_append, List.all_cons,
      hl.1.1.2, hl.2.2]
    exact ⟨rfl, (by decide : some atSign ≠ some slash)⟩
  | group to_ content =>
    rw [ClientLine.render, List.cons_append, List.all_cons, List.all_append, List.all_cons,
      hl.1.1.2, hl.2.2]
    exact ⟨rfl, (by decide : some hash ≠ some slash)⟩
  | global content =>
    obtain ⟨hcontent, hhead⟩ := hl
    simp only [List.mem_cons, not_or] at hhead
    exact ⟨hcontent.2, hhead.1⟩

theorem Parsed.read_of_yields {r : Parsed} (h : r.Yields msg) : r.read = some (.message msg) := by
  cases r with
  | null freed => exact h.elim
  | payload p =>
    cases p with
    | command cmd => cases h
    | _ =>
      rw [Parsed.read, h]
      · rfl
      · exact nofun

theorem parse_message (hl : (ClientLine.message msg).Writable) (z : Bytes) :
    ∃ r, parse ((ClientLine.message msg).render ++ 0 :: z)
        (ClientLine.message msg).render.length = .ok r ∧ r.read = some (.message msg) := by
  obtain ⟨hvalid, hslash⟩ := render_message_valid hl
  obtain ⟨r, hr, hyields, -⟩ := parse_valid_message hvalid hslash z
  exact ⟨r, hr, Parsed.read_of_yields ((hyields msg).mpr (denotesMessage_render hl))⟩

end Messages

section Lines

variable {l : ClientLine}

theorem text_render (hl : l.Writable) : Text l.render := by
  cases l with
  | command kind args =>
    refine ⟨nofun, ?_⟩
    rw [ClientLine.render, List.all_cons, List.all_append, kind.name_valid.1.2, valid_args hl.2.1]
    rfl
  | message msg =>
    refine ⟨?_, (render_message_valid hl).1⟩
    cases msg with
    | direct to_ content => nofun
    | group to_ content => nofun
    | global content => exact hl.1.1

def ClientLine.typed (l : ClientLine) (crlf : Bool) : Bytes :=
  l.render ++ if crlf then [cr] else []

theorem chomp_typed (hl : l.Writable) (crlf : Bool) : chomp (l.typed crlf) = l.render := by
  cases crlf with
  | false =>
    rw [ClientLine.typed, if_neg Bool.false_ne_true, List.append_nil]
    exact chomp_of_valid (text_render hl).2
  | true =>
    rw [ClientLine.typed, if_pos rfl, chomp, if_pos List.getLast?_concat, List.dropLast_concat]

theorem newline_not_mem_typed (hl : l.Writable) (crlf : Bool) :
    Net.Connection.newline ∉ l.typed crlf := by
  have hvalid : Net.Connection.newline ∉ l.render := fun h =>
    absurd (List.all_eq_true.mp (text_render hl).2 _ h) (by decide)
  rw [ClientLine.typed, List.mem_append, not_or]
  exact ⟨hvalid, by cases crlf <;> decide⟩

/-- A line is read as it was written, with either line end. -/
theorem parse_typed (hl : l.Writable) (crlf : Bool) :
    (parse (l.typed crlf ++ [0]) (l.typed crlf).length).map Parsed.read = .ok (some l) := by
  have hchomp := chomp_typed hl crlf
  obtain ⟨z, hz⟩ := parse_chomp (hchomp ▸ (text_render hl).2) []
  rw [hz, hchomp]
  obtain ⟨r, hr, hread⟩ : ∃ r, parse (l.render ++ 0 :: z) l.render.length = .ok r ∧
      r.read = some l := by
    cases l with
    | command kind args => exact parse_command hl z
    | message msg => exact parse_message hl z
  rw [hr]
  exact congrArg Except.ok hread

end Lines

end Chatd.Protocol

namespace Chatd.Net.Connection
open Library Tcp Protocol

def PayloadCall.read (call : PayloadCall) : Except Fault (Option ClientLine) :=
  match call.buff with
  | none => .ok none
  | some buff => (parse buff call.len).map Parsed.read

def written (sent : List (ClientLine × Bool)) : Bytes :=
  (sent.map fun l => l.1.typed l.2 ++ [newline]).flatten

/-- Without empty lines every line is delivered, whatever the chunks. -/
theorem rxThread_of_nonempty {stream : TcpStream} (hs : stream.Held) {fuel : ℕ}
    (hf : stream.rest.length < fuel) (hne : [] ∉ lines newline stream.rest) :
    rxThread fuel stream = .ok (some (deliveredCalls stream.rest)) := by
  induction fuel generalizing stream with
  | zero => omega
  | succ fuel ih =>
    by_cases hc : newline ∈ stream.rest
    · obtain ⟨line, out, after, hread, hline⟩ := readuntil_ok hs hc
      have hrest : stream.rest.length = line.length + (after.rest.length + 1) := by
        rw [hline.rest, List.length_append, List.length_cons]
      rw [hline.rest, lines_append_cons hline.not_mem, List.mem_cons, not_or] at hne
      obtain rfl := hline.buffer.resolve_right fun h => hne.1 h.1.symm
      rw [rxThread_succ hread (ih hline.held (by omega) hne.2), hline.rest, deliveredCalls,
        deliveredCalls, lines_append_cons hline.not_mem]
      rfl
    · obtain ⟨len, hread⟩ := readuntil_reade hc
      rw [rxThread, hread, ok_bind, deliveredCalls, lines_of_not_mem hc]
      rfl

/-- The commands and messages that a client writes, and no others, are read in their order,
however the network cuts the bytes; an unfinished line behind them is not read. -/
theorem lines_read_as_written {sent : List (ClientLine × Bool)}
    (hsent : ∀ l ∈ sent, l.1.Writable) {tail : Bytes} (htail : newline ∉ tail)
    {reads : List Chunk} (hreads : unread reads = written sent ++ tail) {fuel : ℕ}
    (hf : (unread reads).length < fuel) :
    ∃ calls, rxThread fuel (accepted reads) = .ok (some (calls ++ [teardown])) ∧
      calls.map PayloadCall.read = sent.map fun l => .ok (some l.1) := by
  have hlines : lines newline (unread reads) = sent.map fun l => l.1.typed l.2 := by
    have hflat : written sent =
        ((sent.map fun l => l.1.typed l.2).map (· ++ [newline])).flatten := by
      rw [written, List.map_map]
      rfl
    rw [hreads, hflat, lines_flatten _ htail]
    intro line hline
    obtain ⟨l, hl, rfl⟩ := List.mem_map.mp hline
    exact newline_not_mem_typed (hsent l hl) l.2
  have hne : [] ∉ lines newline (accepted reads).rest := by
    rw [show (accepted reads).rest = unread reads from rfl, hlines]
    intro hmem
    obtain ⟨l, hl, hempty⟩ := List.mem_map.mp hmem
    exact (text_render (hsent l hl)).1 (List.append_eq_nil_iff.mp hempty).1
  have hheld : (accepted reads).Held := ⟨rfl, Nat.zero_lt_succ _⟩
  refine ⟨(lines newline (unread reads)).map lineCall, rxThread_of_nonempty hheld hf hne, ?_⟩
  rw [hlines, List.map_map, List.map_map]
  exact List.map_congr_left fun l hl => parse_typed (hsent l hl) l.2

/-- A message and a command in three chunks, the first with a carriage return, and the
beginning of a third line. -/
theorem lines_read_as_written_in_pieces : ∃ calls,
    rxThread 100 (accepted [⟨ascii "@bob h", by decide⟩,
      ⟨ascii "i\r\n/subscribe room ", by decide⟩, ⟨ascii "pw\nrest", by decide⟩]) =
        .ok (some (calls ++ [teardown])) ∧
    calls.map PayloadCall.read =
      [.ok (some (.message (.direct (ascii "bob") (ascii "hi")))),
        .ok (some (.command .subscribe [ascii "room", ascii "pw"]))] := by
  let sent : List (ClientLine × Bool) :=
    [(.message (.direct (ascii "bob") (ascii "hi")), true),
      (.command .subscribe [ascii "room", ascii "pw"], false)]
  have hsent : ∀ l ∈ sent, l.1.Writable := by
    rintro l hl
    simp only [sent, List.mem_cons, List.not_mem_nil, or_false] at hl
    rcases hl with rfl | rfl
    · exact ⟨by decide, by decide⟩
    · exact ⟨by decide, by decide, by decide⟩
  have htail : newline ∉ ascii "rest" := by decide
  exact lines_read_as_written hsent htail (by decide) (by decide)

end Chatd.Net.Connection
