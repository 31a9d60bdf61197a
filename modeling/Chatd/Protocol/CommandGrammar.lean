import Chatd.Library.Delimited
import Chatd.Protocol.Payload

/-! # The command language and the in-place tokenizer

The tokenizer of `Payload::parse` overwrites separators while it scans and skips
empty tokens by comparing indices. It yields the words of the line except that a
last word of one character is taken for an empty one, and it has no command to
fill in when the line is the bare slash. Everywhere else it agrees with the
command language.
-/
namespace Chatd.Protocol
open Library

def CommandKind.ofName (name : Bytes) : Option CommandKind :=
  if name == ascii "subscribe" then some .subscribe
  else if name == ascii "unsubscribe" then some .unsubscribe
  else if name == ascii "delete" then some .delete
  else if name == ascii "listusers" then some .listUsers
  else if name == ascii "list_users" then some .listUsers
  else if name == ascii "logout" then some .logout
  else none

def commandName (body : Bytes) : Bytes := (body.drop 1).takeWhile (· ≠ space)

def commandToks (body : Bytes) : List Bytes :=
  words space ((body.drop 1).dropWhile (· ≠ space))

/-- The command language: the command a line denotes, or none for a line outside it. -/
def grammar (line : Bytes) : Option (CommandKind × List Bytes) :=
  let body := chomp line
  if body.all isValidChar then
    match CommandKind.ofName (commandName body) with
    | some kind =>
      if (commandToks body).length = kind.arity then some (kind, commandToks body) else none
    | none => none
  else none

/-- A command of the given kind and argument strings, or NULL. -/
def Denotes : Except Fault Parsed → Option (CommandKind × List Bytes) → Prop
  | .ok (.payload (.command cmd)), some (kind, toks) => cmd.kind = kind ∧ cmd.argStrings = toks
  | .ok (.null _), none => True
  | _, _ => False

/-- Parsing the line as delivered, NUL-terminated, has the given meaning. -/
def ParsesAs (line : Bytes) (meaning : Option (CommandKind × List Bytes)) : Prop :=
  Denotes (parse (line ++ [0]) line.length) meaning

theorem denotes_iff (cmd : Command) (kind : CommandKind) (toks : List Bytes) (m n k : ℕ) :
    Denotes (.ok (if n = k then .payload (.command cmd) else .null 1))
        (if m = k then some (kind, toks) else none) ↔
      (n = k ↔ m = k) ∧ (n = k → cmd.kind = kind ∧ cmd.argStrings = toks) := by
  by_cases hn : n = k <;> by_cases hm : m = k <;> simp [Denotes, hn, hm]

def endsInLoneChar (s : Bytes) : Bool :=
  match s.reverse with
  | x :: y :: _ => x ≠ space && y = space
  | _ => false

/-- The bare slash, or a known command whose last word is a single character and
whose word count is the arity or one above it. -/
def misread (line : Bytes) : Bool :=
  let body := chomp line
  body.all isValidChar && (body = [slash] ||
    match CommandKind.ofName (commandName body) with
    | some kind => endsInLoneChar body &&
        ((commandToks body).length = kind.arity || (commandToks body).length = kind.arity + 1)
    | none => false)

/-- What the loop leaves in the buffer for a byte it has passed. -/
def blank (c : UInt8) : UInt8 := if c = space then 0 else c

/-- The arguments the loop collects from the rest of the line, after the part of
the current token already passed. -/
def collected : Bytes → Bytes → List Bytes
  | _, [] => []
  | t, c :: q =>
    if c = space then (if t = [] then [] else [t]) ++ collected [] q
    else if q = [] then (if t = [] then [] else [t ++ [c]])
    else collected (t ++ [c]) q

section Words

theorem endsInLoneChar_append (w q : Bytes) :
    endsInLoneChar (w ++ space :: q) = endsInLoneChar (space :: q) := by
  unfold endsInLoneChar
  rw [List.reverse_append, List.reverse_cons, List.append_assoc]
  match q.reverse with
  | [] => cases w.reverse <;> simp
  | [_] => simp
  | _ :: _ :: _ => simp

theorem endsInLoneChar_concat (w : Bytes) {c : UInt8} (hc : c ≠ space) (hw : space ∉ w) :
    endsInLoneChar (space :: (w ++ [c])) = decide (w = []) := by
  unfold endsInLoneChar
  rcases List.eq_nil_or_concat w with rfl | ⟨v, d, rfl⟩
  · simp [hc]
  · have hd : d ≠ space := by
      rintro rfl
      exact hw (by simp)
    simp [hd]

theorem endsInLoneChar_of_not_mem {w : Bytes} (h : space ∉ w) : endsInLoneChar w = false := by
  unfold endsInLoneChar
  rw [← List.mem_reverse] at h
  match hw : w.reverse with
  | [] => rfl
  | [_] => rfl
  | x :: y :: v =>
    rw [hw] at h
    have hy : y ≠ space := by
      rintro rfl
      exact h (by simp)
    simp [hy]

/-- The loop collects the words of the line but drops a last lone character. -/
theorem words_eq_collected (t q : Bytes) (ht : space ∉ t) (hq : q = [] → t = []) :
    ∃ rest, words space (t ++ q) = collected t q ++ rest ∧
      rest.length = if endsInLoneChar (space :: (t ++ q)) then 1 else 0 := by
  induction q generalizing t with
  | nil =>
    rw [hq rfl]
    exact ⟨[], rfl, rfl⟩
  | cons c q ih =>
    by_cases hc : c = space
    · subst hc
      obtain ⟨rest, hrest, hlen⟩ := ih [] (by simp) (fun _ => rfl)
      refine ⟨rest, ?_, ?_⟩
      · rw [words_append_cons, words_of_not_mem ht, collected, if_pos rfl, List.append_assoc,
          ← hrest, List.nil_append]
      · rw [hlen, List.nil_append, ← endsInLoneChar_append (space :: t) q]
        rfl
    · have htc : space ∉ t ++ [c] := by simp [ht, Ne.symm hc]
      by_cases hn : q = []
      · subst hn
        rw [collected, if_neg hc, if_pos rfl, words_of_not_mem htc,
          endsInLoneChar_concat t hc ht]
        by_cases h0 : t = []
        · exact ⟨[[c]], by simp [h0]⟩
        · exact ⟨[], by simp [h0]⟩
      · obtain ⟨rest, hrest, hlen⟩ := ih (t ++ [c]) htc (fun h => absurd h hn)
        refine ⟨rest, ?_, ?_⟩
        · rw [collected, if_neg hc, if_neg hn, ← hrest, List.append_assoc, List.singleton_append]
        · simpa using hlen

end Words

section Scan

variable {len : ℕ}

theorem commandNamed_eq {w : Bytes} (h : 0 ∉ w) (z : Bytes) :
    commandNamed (slash :: w ++ 0 :: z) = .ok (CommandKind.ofName w) := by
  have hs (u : Bytes) : strEq (slash :: w ++ 0 :: z) 1 u = .ok (w == u) :=
    strEq_append (s := [slash]) h z u
  simp only [commandNamed, hs, ok_bind, pure_eq_ok, CommandKind.ofName]
  split_ifs <;> rfl

theorem scanCommand_tokenEnd {kind : CommandKind} {b b' : Bytes} {c : UInt8} {n i last : ℕ}
    {args : List ℕ}
    (hread : readAt b i = .ok c) (hend : c = space ∨ i = len - 1)
    (hb : cutAt b i c = .ok b') :
    scanCommand len (n + 1) i last b (some (kind, args)) =
      scanCommand len n (i + 1) i b'
        (some (kind, if last + 1 ≠ i then args ++ [last + 1] else args)) := by
  rw [scanCommand, hread, ok_bind, if_pos hend, hb, ok_bind]

theorem scanCommand_inToken {cmd : Option (CommandKind × List ℕ)} {b : Bytes} {c : UInt8}
    {n i last : ℕ} (hread : readAt b i = .ok c) (hmid : ¬ (c = space ∨ i = len - 1)) :
    scanCommand len (n + 1) i last b cmd = scanCommand len n (i + 1) last b cmd := by
  rw [scanCommand, hread, ok_bind, if_neg hmid]

theorem scanCommand_nameEnd {name : Option CommandKind} {b b' : Bytes} {c : UInt8} {n i : ℕ}
    (hread : readAt b i = .ok c) (hend : c = space ∨ i = len - 1) (hb : cutAt b i c = .ok b') :
    commandNamed b' = .ok name → scanCommand len (n + 1) i 0 b none =
      match name with
      | none => .ok none
      | some kind => scanCommand len n (i + 1) i b' (some (kind, [])) := by
  intro hname
  rw [scanCommand, hread, ok_bind, if_pos hend, hb, ok_bind]
  dsimp only
  rw [hname, ok_bind]
  cases name <;> rfl

theorem not_tokenEnd {c : UInt8} {u q : Bytes} {i : ℕ} (hc : c ≠ space) (hq : q ≠ [])
    (hi : i = u.length) (hlen : len = (u ++ c :: q).length) : ¬ (c = space ∨ i = len - 1) := by
  rintro (h | h)
  · exact hc h
  · have := List.length_pos_of_ne_nil hq
    simp only [hi, hlen, List.length_append, List.length_cons] at h
    omega

/-- Once the command is set, the loop pushes the offsets of the collected arguments. -/
theorem scanCommand_args (kind : CommandKind) (q u t z : Bytes) (i last : ℕ) (args : List ℕ)
    (hu : u.length = last + 1) (hi : i = (u ++ t).length) (ht : 0 ∉ t) (hq0 : 0 ∉ q)
    (hq : q = [] → t = []) (hlen : len = (u ++ t ++ q).length) :
    ∃ offs, scanCommand len q.length i last (u ++ t ++ q ++ 0 :: z) (some (kind, args)) =
        .ok (some (u ++ t ++ q.map blank ++ 0 :: z, some (kind, args ++ offs))) ∧
      offs.map (cstr (u ++ t ++ q.map blank ++ 0 :: z)) = collected t q := by
  induction q generalizing u t i last args with
  | nil => exact ⟨[], by simp [scanCommand], rfl⟩
  | cons c q ih =>
    rw [List.mem_cons, not_or] at hq0
    have hread : readAt (u ++ t ++ c :: q ++ 0 :: z) i = .ok c := by
      rw [hi, List.append_assoc]
      exact readAt_append (u ++ t) c (q ++ 0 :: z)
    have hskip : last + 1 ≠ i ↔ t ≠ [] := by
      rw [hi, List.length_append, ← hu, ← List.length_pos_iff]
      omega
    by_cases hc : c = space
    · subst hc
      have hwrite : cutAt (u ++ t ++ space :: q ++ 0 :: z) i space =
          .ok (u ++ t ++ [0] ++ [] ++ q ++ 0 :: z) := by
        rw [hi, List.append_assoc, cutAt, if_pos rfl]
        simpa using writeAt_append (u ++ t) space 0 (q ++ 0 :: z)
      obtain ⟨offs, hscan, hargs⟩ := ih (u ++ t ++ [0]) [] (i + 1) i
        (if last + 1 ≠ i then args ++ [last + 1] else args)
        (by simp [hi]; omega) (by simp [hi]; omega) (by simp) hq0.2 (fun _ => rfl)
        (by simp [hlen])
      have hb : u ++ t ++ [0] ++ [] ++ q.map blank ++ 0 :: z =
          u ++ t ++ (space :: q).map blank ++ 0 :: z := by simp [blank]
      rw [List.length_cons, scanCommand_tokenEnd hread (.inl rfl) hwrite,
        hscan, hb]
      rw [hb] at hargs
      by_cases h0 : t = []
      · refine ⟨offs, by simp [hskip, h0], ?_⟩
        rw [hargs, collected, if_pos rfl, if_pos h0, List.nil_append]
      · have hcstr : cstr (u ++ t ++ (space :: q).map blank ++ 0 :: z) (last + 1) = t := by
          rw [← hb, ← hu]
          simpa using cstr_append (s := u) ht (q.map blank ++ 0 :: z)
        refine ⟨(last + 1) :: offs, by simp [hskip, h0], ?_⟩
        rw [List.map_cons, hargs, hcstr, collected, if_pos rfl, if_neg h0, List.singleton_append]
    · by_cases hn : q = []
      · subst hn
        have hend : i = len - 1 := by simp [hi, hlen]
        have hb : u ++ t ++ [c] ++ 0 :: z = u ++ t ++ [c].map blank ++ 0 :: z := by
          simp [blank, hc]
        rw [List.length_singleton, scanCommand_tokenEnd hread (.inr hend) (if_neg hc),
          scanCommand, ← hb, collected, if_neg hc, if_pos rfl]
        by_cases h0 : t = []
        · exact ⟨[], by simp [hskip, h0]⟩
        · have hcstr : cstr (u ++ t ++ [c] ++ 0 :: z) (last + 1) = t ++ [c] := by
            rw [← hu, List.append_assoc u]
            exact cstr_append (by simp [ht, hq0.1]) z
          refine ⟨[last + 1], by simp [hskip, h0], ?_⟩
          rw [List.map_singleton, hcstr, if_neg h0]
      · have hmid : ¬ (c = space ∨ i = len - 1) := not_tokenEnd hc hn hi hlen
        have hb (w : Bytes) : u ++ t ++ c :: w ++ 0 :: z = u ++ (t ++ [c]) ++ w ++ 0 :: z := by simp
        obtain ⟨offs, hscan, hargs⟩ := ih u (t ++ [c]) (i + 1) last args hu
          (by simp [hi]; omega) (by simp [ht, hq0.1]) hq0.2 (fun h => absurd h hn) (by simp [hlen])
        refine ⟨offs, ?_, ?_⟩
        · rw [List.length_cons, scanCommand_inToken hread hmid, hb, hscan, List.map_cons, blank,
            if_neg hc, hb]
        · rw [List.map_cons, blank, if_neg hc, hb, hargs, collected, if_neg hc, if_neg hn]

theorem scanCommand_name (q t z : Bytes) (i : ℕ) (hi : i = (slash :: t).length) (ht : 0 ∉ t)
    (hq0 : 0 ∉ q) (hq : q ≠ []) (hlen : len = (slash :: t ++ q).length) :
    match CommandKind.ofName (t ++ q.takeWhile (· ≠ space)) with
    | none => scanCommand len q.length i 0 (slash :: t ++ q ++ 0 :: z) none = .ok none
    | some kind => ∃ b offs,
        scanCommand len q.length i 0 (slash :: t ++ q ++ 0 :: z) none =
          .ok (some (b, some (kind, offs))) ∧
        offs.map (cstr b) = collected [] ((q.dropWhile (· ≠ space)).drop 1) := by
  induction q generalizing t i with
  | nil => exact absurd rfl hq
  | cons c q ih =>
    rw [List.mem_cons, not_or] at hq0
    have hread : readAt (slash :: t ++ c :: q ++ 0 :: z) i = .ok c := by
      rw [hi, List.append_assoc]
      exact readAt_append (slash :: t) c (q ++ 0 :: z)
    by_cases hc : c = space
    · subst hc
      have hcut : cutAt (slash :: t ++ space :: q ++ 0 :: z) i space =
          .ok (slash :: t ++ 0 :: (q ++ 0 :: z)) := by
        rw [hi, List.append_assoc, cutAt, if_pos rfl]
        exact writeAt_append (slash :: t) space 0 (q ++ 0 :: z)
      have hstep : scanCommand len (q.length + 1) i 0 (slash :: t ++ space :: q ++ 0 :: z) none =
          match CommandKind.ofName t with
          | none => .ok none
          | some kind => scanCommand len q.length (i + 1) i (slash :: t ++ 0 :: (q ++ 0 :: z))
              (some (kind, [])) :=
        scanCommand_nameEnd hread (.inl rfl) hcut (commandNamed_eq ht _)
      have hname : t ++ (space :: q).takeWhile (· ≠ space) = t := by simp
      rw [hname, List.length_cons, hstep]
      cases CommandKind.ofName t with
      | none => rfl
      | some kind =>
        obtain ⟨offs, hscan, hargs⟩ := scanCommand_args kind q (slash :: t ++ [0]) [] z
          (i + 1) i [] (by simp [hi]) (by simp [hi]) (by simp) hq0.2 (fun _ => rfl)
          (by simpa using hlen)
        have hb : slash :: t ++ [0] ++ [] ++ q ++ 0 :: z = slash :: t ++ 0 :: (q ++ 0 :: z) := by
          simp
        rw [hb] at hscan
        exact ⟨_, offs, by simpa using hscan, by simpa using hargs⟩
    · have hsplit : t ++ (c :: q).takeWhile (· ≠ space) = t ++ [c] ++ q.takeWhile (· ≠ space) := by
        simp [hc]
      have hb : slash :: t ++ c :: q ++ 0 :: z = slash :: (t ++ [c]) ++ q ++ 0 :: z := by simp
      by_cases hn : q = []
      · subst hn
        have hstep : scanCommand len 1 i 0 (slash :: t ++ [c] ++ 0 :: z) none =
            match CommandKind.ofName (t ++ [c]) with
            | none => .ok none
            | some kind => .ok (some (slash :: t ++ [c] ++ 0 :: z, some (kind, []))) := by
          have hnamed : commandNamed (slash :: t ++ [c] ++ 0 :: z) =
              .ok (CommandKind.ofName (t ++ [c])) := by
            have := commandNamed_eq (w := t ++ [c]) (by simp [ht, hq0.1]) z
            simpa using this
          exact scanCommand_nameEnd hread (.inr (by simp [hi, hlen])) (if_neg hc) hnamed
        rw [hsplit, List.takeWhile_nil, List.append_nil, List.length_singleton, hstep]
        cases CommandKind.ofName (t ++ [c]) with
        | none => rfl
        | some kind => exact ⟨_, [], rfl, by simp [hc, collected]⟩
      · have hmid : ¬ (c = space ∨ i = len - 1) := not_tokenEnd hc hn hi hlen
        have hstep : scanCommand len (q.length + 1) i 0 (slash :: t ++ c :: q ++ 0 :: z) none =
            scanCommand len q.length (i + 1) 0 (slash :: (t ++ [c]) ++ q ++ 0 :: z) none := by
          rw [scanCommand_inToken hread hmid, hb]
        have hdrop : (c :: q).dropWhile (· ≠ space) = q.dropWhile (· ≠ space) := by simp [hc]
        rw [hsplit, List.length_cons, hstep, hdrop]
        exact ih (t ++ [c]) (i + 1) (by simp [hi]) (by simp [ht, hq0.1]) hq0.2 hn
          (by simp [hlen])

end Scan

section Parse

theorem chomp_slash (r : Bytes) : ∃ s, chomp (slash :: r) = slash :: s := by
  by_cases h : r = []
  · exact ⟨[], by rw [h, chomp_singleton, if_neg (by decide)]⟩
  · exact ⟨chomp r, chomp_cons slash h⟩

theorem parse_slash {line s : Bytes} (hs : chomp line = slash :: s)
    (h : (slash :: s).all isValidChar = true) :
    ∃ z, parse (line ++ [0]) line.length =
      parseCommand (slash :: s ++ 0 :: z) (slash :: s).length := by
  obtain ⟨z, hz⟩ := parse_chomp (hs ▸ h) []
  rw [hs, parse_of_valid h] at hz
  exact ⟨z, hz⟩

theorem parseCommand_bare (z : Bytes) :
    parseCommand (slash :: 0 :: z) 1 = .error .nullDeref := rfl

/-- The command branch on a valid line other than the bare slash. -/
theorem parseCommand_eq {s : Bytes} (hs : s ≠ []) (h0 : 0 ∉ s) (z : Bytes) :
    match CommandKind.ofName (s.takeWhile (· ≠ space)) with
    | none => parseCommand (slash :: s ++ 0 :: z) (slash :: s).length = .ok (.null 1)
    | some kind => ∃ b offs,
        offs.map (cstr b) = collected [] ((s.dropWhile (· ≠ space)).drop 1) ∧
        parseCommand (slash :: s ++ 0 :: z) (slash :: s).length =
          .ok (if offs.length = kind.arity then
            .payload (.command ⟨kind, offs, b, (slash :: s).length⟩) else .null 1) := by
  have h := scanCommand_name s [] z 1 rfl (by simp) h0 hs (Eq.refl (slash :: s).length)
  rw [List.nil_append] at h
  unfold parseCommand
  cases hk : CommandKind.ofName (s.takeWhile (· ≠ space)) with
  | none =>
    rw [hk] at h
    have hscan : scanCommand (slash :: s).length ((slash :: s).length - 1) 1 0
        (slash :: s ++ 0 :: z) none = .ok none := h
    rw [hscan]
    rfl
  | some kind =>
    rw [hk] at h
    obtain ⟨b, offs, hscan, hargs⟩ := h
    refine ⟨b, offs, hargs, ?_⟩
    have hscan' : scanCommand (slash :: s).length ((slash :: s).length - 1) 1 0
        (slash :: s ++ 0 :: z) none = .ok (some (b, some (kind, offs))) := hscan
    rw [hscan', ok_bind]
    dsimp only
    split_ifs <;> rfl

theorem commandToks_eq (s : Bytes) :
    ∃ rest, commandToks (slash :: s) = collected [] ((s.dropWhile (· ≠ space)).drop 1) ++ rest ∧
      rest.length = if endsInLoneChar (slash :: s) then 1 else 0 := by
  have hsplit : s.takeWhile (· ≠ space) ++ s.dropWhile (· ≠ space) = s :=
    List.takeWhile_append_dropWhile
  have hname : space ∉ s.takeWhile (· ≠ space) := fun h => by
    have := List.all_takeWhile (p := (· ≠ space)) (l := s)
    simpa using List.all_eq_true.mp this space h
  rw [commandToks, List.drop_one, List.tail_cons]
  cases hd : s.dropWhile (· ≠ space) with
  | nil =>
    rw [hd, List.append_nil] at hsplit
    have hs : space ∉ slash :: s := by
      rw [hsplit] at hname
      exact List.not_mem_cons_of_ne_of_not_mem (by decide) hname
    exact ⟨[], rfl, by rw [endsInLoneChar_of_not_mem hs]; rfl⟩
  | cons c q =>
    have hc : c = space := by
      have hhead := List.head?_dropWhile_not (· ≠ space) s
      rw [hd] at hhead
      simpa using hhead
    subst hc
    obtain ⟨rest, hrest, hlen⟩ := words_eq_collected [] q (by simp) (fun _ => rfl)
    refine ⟨rest, by simpa using hrest, ?_⟩
    rw [hlen, List.nil_append, ← endsInLoneChar_append (slash :: s.takeWhile (· ≠ space)) q,
      List.cons_append, ← hd, hsplit]

/-- A line that starts with a slash is parsed as the command language says exactly
when it is not one of the misread lines. -/
theorem parse_meets_grammar_iff (r : Bytes) :
    ParsesAs (slash :: r) (grammar (slash :: r)) ↔ misread (slash :: r) = false := by
  obtain ⟨s, hs⟩ := chomp_slash r
  unfold ParsesAs grammar misread
  simp only [hs]
  by_cases hv : (slash :: s).all isValidChar = true
  · obtain ⟨z, hz⟩ := parse_slash hs hv
    rw [hz, hv, if_pos rfl, Bool.true_and]
    by_cases h0 : s = []
    · subst h0
      rw [List.cons_append, List.nil_append, List.length_singleton, parseCommand_bare]
      exact ⟨False.elim, fun h => absurd h (by decide)⟩
    · have hzero : (0 : UInt8) ∉ s := fun h =>
        isValidChar_ne_zero (List.all_eq_true.mp hv 0 (List.mem_cons_of_mem _ h)) rfl
      have hp := parseCommand_eq h0 hzero z
      have hname : commandName (slash :: s) = s.takeWhile (· ≠ space) := rfl
      have hbare : decide (slash :: s = [slash]) = false := by simp [h0]
      obtain ⟨rest, hrest, hlen⟩ := commandToks_eq s
      rw [hname, hbare, Bool.false_or]
      cases hk : CommandKind.ofName (s.takeWhile (· ≠ space)) with
      | none =>
        rw [hk] at hp
        rw [hp]
        exact ⟨fun _ => rfl, fun _ => trivial⟩
      | some kind =>
        rw [hk] at hp
        obtain ⟨b, offs, hargs, hpc⟩ := hp
        rw [hpc]
        rw [← hargs] at hrest
        have hcount : (commandToks (slash :: s)).length = offs.length + rest.length := by
          rw [hrest, List.length_append, List.length_map]
        cases hlone : endsInLoneChar (slash :: s) with
        | false =>
          rw [hlone] at hlen
          have hnil : rest = [] := List.eq_nil_of_length_eq_zero hlen
          rw [hnil, List.append_nil] at hrest
          rw [denotes_iff, hrest, List.length_map]
          simp [Command.argStrings]
        | true =>
          rw [hlone, if_pos rfl] at hlen
          rw [hlen] at hcount
          have hkind (h : offs.length = kind.arity) : ¬ offs.length + 1 = kind.arity := by omega
          rw [denotes_iff, hcount]
          constructor
          · rintro ⟨hiff, -⟩
            have hn : offs.length ≠ kind.arity := fun h => hkind h (hiff.mp h)
            have hm : offs.length + 1 ≠ kind.arity := fun h => hn (hiff.mpr h)
            simp [hn, hm]
          · intro h
            have hnm : offs.length + 1 ≠ kind.arity ∧ offs.length ≠ kind.arity := by
              simpa using h
            exact ⟨iff_of_false hnm.2 hnm.1, fun h => absurd h hnm.2⟩
  · rw [parse_of_invalid (by rwa [hs]), Bool.eq_false_iff.mpr hv]
    exact ⟨fun _ => rfl, fun _ => trivial⟩

/-- The one-letter argument of `/delete a` is dropped and the line refused. -/
theorem parse_ne_grammar_delete_a :
    ¬ ∀ r : Bytes, ParsesAs (slash :: r) (grammar (slash :: r)) := by
  intro h
  have hparse : parse (slash :: ascii "delete a" ++ [0]) (slash :: ascii "delete a").length =
      .ok (.null 1) := by decide
  have hgrammar : grammar (slash :: ascii "delete a") = some (.delete, [ascii "a"]) := by decide
  have hd := h (ascii "delete a")
  rw [ParsesAs, hparse, hgrammar] at hd
  exact hd

end Parse

end Chatd.Protocol
