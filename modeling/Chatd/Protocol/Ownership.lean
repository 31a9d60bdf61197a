import Chatd.Protocol.CommandGrammar

/-! # Who owns the line buffer

`Payload::parse` takes over the buffer of a line: it frees the buffer itself, lets the
destructor of the payload free it, or returns a payload whose `buff` field it is. Here
freeing and deleting are steps on the block, and `parse` is what they leave.
-/
namespace Chatd.Protocol
open Library

/-- The heap block of a line: its bytes, none once it is freed, and how often it has been
freed. -/
structure LineBlock where
  bytes : Bytes
  frees : ℕ
  deriving DecidableEq, Repr

def LineBlock.free (m : LineBlock) : LineBlock := ⟨[], m.frees + 1⟩

/-- A payload on the heap; `ownsBuff` says whether its `buff` field is the line's block
rather than NULL. -/
structure PayloadObject where
  payload : Payload
  ownsBuff : Bool
  deriving DecidableEq, Repr

/-- `delete`, which runs `Payload::~Payload`. -/
def PayloadObject.delete (p : PayloadObject) (m : LineBlock) : LineBlock :=
  if p.ownsBuff then m.free else m

/-- The command branch of `Payload::parse`, with the block as it is left. -/
def parseCommandOwned (m : LineBlock) (len : ℕ) :
    Except Fault (LineBlock × Option PayloadObject) := do
  match ← scanCommand len (len - 1) 1 0 m.bytes none with
  | none => return (m.free, none)
  -- `cmd->buff = buff` through the null command pointer
  | some (_, none) => .error .nullDeref
  | some (b, some (kind, args)) =>
    let m := { m with bytes := b }
    let cmd : PayloadObject := ⟨.command ⟨kind, args, b, len⟩, true⟩
    if args.length = kind.arity then return (m, some cmd) else return (cmd.delete m, none)

def parseAddressedOwned (sigil : UInt8) (m : LineBlock) (len : ℕ) :
    Except Fault (LineBlock × Option PayloadObject) := do
  if len < 3 then return (m.free, none)
  match ← scanAddressee len (len - 1) 1 m.bytes with
  | none => return (m.free, none)
  | some (b, i) =>
    let m := { m with bytes := b }
    if sigil = atSign then return (m, some ⟨.directMessage 1 (i + 1) b len, true⟩)
    else return (m, some ⟨.groupMessage 1 (i + 1) b len, true⟩)

/-- The whole of `Payload::parse`, with the block as it is left. -/
def parseOwned (m : LineBlock) (len : ℕ) : Except Fault (LineBlock × Option PayloadObject) := do
  match ← validate len 0 m.bytes len with
  | none => return (m.free, none)
  | some (b, len) =>
    let m := { m with bytes := b }
    let c ← readAt b 0
    if c = slash then parseCommandOwned m len
    else if c = atSign ∨ c = hash then parseAddressedOwned c m len
    else
      let msg : PayloadObject := ⟨.globalMessage 0 b len, true⟩
      if len = 0 then return (msg.delete m, none) else return (m, some msg)

def parsedOf : LineBlock × Option PayloadObject → Parsed
  | (m, none) => .null m.frees
  | (_, some p) => .payload p.payload

def Payload.pointers : Payload → List ℕ
  | .command cmd => cmd.args
  | .directMessage to_ content _ _ => [to_, content]
  | .groupMessage to_ content _ _ => [to_, content]
  | .globalMessage content _ _ => [content]

def Payload.buff : Payload → Bytes
  | .command cmd => cmd.buff
  | .directMessage _ _ buff _ => buff
  | .groupMessage _ _ buff _ => buff
  | .globalMessage _ buff _ => buff

/-- NULL with the block freed once, or a payload that owns the live block and points to
strings that end in it. -/
def OwnedOnce (len : ℕ) : LineBlock × Option PayloadObject → Prop
  | (m, none) => m.frees = 1
  | (m, some p) => m.frees = 0 ∧ p.ownsBuff = true ∧ p.payload.buff = m.bytes ∧
      ∀ off ∈ p.payload.pointers, off ≤ len ∧ 0 ∈ (m.bytes.take (len + 1)).drop off

/-- Parsing faults nowhere in the part of the buffer up to the index `len`, and leaves one
owner. -/
def ParsesSafely (buff : Bytes) (len : ℕ) : Prop :=
  ∃ r, parseOwned ⟨buff.take (len + 1), 0⟩ len = .ok r ∧ OwnedOnce len r

section Erasure

theorem parsedOf_parseCommandOwned (b : Bytes) (len : ℕ) :
    (parseCommandOwned ⟨b, 0⟩ len).map parsedOf = parseCommand b len := by
  rw [parseCommandOwned, parseCommand]
  cases scanCommand len (len - 1) 1 0 b none with
  | error fault => rfl
  | ok r =>
    cases r with
    | none => rfl
    | some scanned =>
      obtain ⟨b, cmd⟩ := scanned
      cases cmd with
      | none => rfl
      | some cmd =>
        obtain ⟨kind, args⟩ := cmd
        simp only [ok_bind]
        split_ifs <;> rfl

theorem parsedOf_parseAddressedOwned (sigil : UInt8) (b : Bytes) (len : ℕ) :
    (parseAddressedOwned sigil ⟨b, 0⟩ len).map parsedOf = parseAddressed sigil b len := by
  rw [parseAddressedOwned, parseAddressed]
  by_cases hshort : len < 3
  · rw [if_pos hshort, if_pos hshort]
    rfl
  · rw [if_neg hshort, if_neg hshort]
    cases scanAddressee len (len - 1) 1 b with
    | error fault => rfl
    | ok r =>
      cases r with
      | none => rfl
      | some found =>
        obtain ⟨b, i⟩ := found
        simp only [ok_bind]
        split_ifs <;> rfl

theorem parsedOf_parseOwned (b : Bytes) (len : ℕ) :
    (parseOwned ⟨b, 0⟩ len).map parsedOf = parse b len := by
  rw [parseOwned, parse]
  cases validate len 0 b len with
  | error fault => rfl
  | ok r =>
    cases r with
    | none => rfl
    | some validated =>
      obtain ⟨b, len⟩ := validated
      simp only [ok_bind]
      cases readAt b 0 with
      | error fault => rfl
      | ok c =>
        simp only [ok_bind]
        split_ifs
        · exact parsedOf_parseCommandOwned b len
        · exact parsedOf_parseAddressedOwned c b len
        · rfl
        · rfl

end Erasure

section Safety

variable {b : Bytes} {len n i last : ℕ}

theorem readAt_lt (hb : b[len]? = some 0) (hi : i ≤ len) : ∃ c, readAt b i = .ok c := by
  have hlen : len < b.length := (List.getElem?_eq_some_iff.mp hb).1
  refine ⟨b[i], ?_⟩
  rw [readAt, List.getElem?_eq_getElem (by omega)]

theorem writeAt_lt (hb : b[len]? = some 0) (hi : i < len) (c : UInt8) :
    writeAt b i c = .ok (b.set i c) ∧ (b.set i c).length = b.length ∧
      (b.set i c)[len]? = some 0 := by
  have hlen : len < b.length := (List.getElem?_eq_some_iff.mp hb).1
  refine ⟨if_pos (by omega), List.length_set, ?_⟩
  rw [List.getElem?_set_ne (by omega), hb]

theorem cutAt_lt (hb : b[len]? = some 0) (hi : i < len) (c : UInt8) :
    ∃ b', cutAt b i c = .ok b' ∧ b'.length = b.length ∧ b'[len]? = some 0 := by
  rw [cutAt]
  by_cases hc : c = space
  · rw [if_pos hc]
    exact ⟨_, writeAt_lt hb hi 0⟩
  · rw [if_neg hc]
    exact ⟨b, rfl, rfl, hb⟩

theorem mem_drop_of_terminated (hb : b[len]? = some 0) (hi : i ≤ len) : 0 ∈ b.drop i := by
  rw [List.mem_iff_getElem?]
  exact ⟨len - i, by rw [List.getElem?_drop, Nat.add_sub_cancel' hi, hb]⟩

theorem commandNamed_ok (hb : b[len]? = some 0) (hlen : 1 ≤ len) :
    ∃ r, commandNamed b = .ok r := by
  have hs (u : Bytes) : strEq b 1 u = .ok (cstr b 1 == u) := if_pos (mem_drop_of_terminated hb hlen)
  simp only [commandNamed, hs, ok_bind]
  split_ifs <;> exact ⟨_, rfl⟩

/-- What `n` iterations of the command loop make of a buffer that is terminated at `len`: the
command is unset only if there was none, and its arguments point into the buffer. -/
structure ScanSafe (b : Bytes) (len n : ℕ) (b' : Bytes) (cmd : Option (CommandKind × List ℕ)) :
    Prop where
  length_eq : b'.length = b.length
  terminated : b'[len]? = some 0
  unset : cmd = none → n = 0
  pointers : ∀ kind args, cmd = some (kind, args) → ∀ off ∈ args, off ≤ len

theorem scanCommand_safe (n i last : ℕ) (cmd : Option (CommandKind × List ℕ))
    (hb : b[len]? = some 0) (hi : 1 ≤ i) (hn : i + n = len) (hlast : last < i)
    (hcmd : ∀ kind args, cmd = some (kind, args) → ∀ off ∈ args, off ≤ len) :
    ∃ r, scanCommand len n i last b cmd = .ok r ∧
      ∀ b' cmd', r = some (b', cmd') → ScanSafe b len n b' cmd' := by
  induction n generalizing i last b cmd with
  | zero =>
    refine ⟨_, rfl, fun b' cmd' hr => ?_⟩
    cases hr
    exact ⟨rfl, hb, fun _ => rfl, hcmd⟩
  | succ n ih =>
    obtain ⟨c, hread⟩ := readAt_lt hb (show i ≤ len by omega)
    by_cases hend : c = space ∨ i = len - 1
    · obtain ⟨b₁, hcut, hlen₁, hb₁⟩ := cutAt_lt hb (show i < len by omega) c
      -- behind a token end the command is set
      have hset (kind : CommandKind) (args : List ℕ) (hargs : ∀ off ∈ args, off ≤ len) :
          ∃ r, scanCommand len n (i + 1) i b₁ (some (kind, args)) = .ok r ∧
            ∀ b' cmd', r = some (b', cmd') → ScanSafe b len (n + 1) b' cmd' := by
        have hcmd₁ : ∀ kind' args', some (kind, args) = some (kind', args') →
            ∀ off ∈ args', off ≤ len := by
          intro kind' args' heq
          cases heq
          exact hargs
        obtain ⟨r, hscan, hr⟩ := ih (i + 1) i _ hb₁ (by omega) (by omega)
          (Nat.lt_succ_self i) hcmd₁
        refine ⟨r, hscan, fun b' cmd' hsome => ?_⟩
        have hsafe := hr b' cmd' hsome
        refine ⟨hsafe.length_eq.trans hlen₁, hsafe.terminated, fun hcmd' => ?_, hsafe.pointers⟩
        obtain rfl := hsafe.unset hcmd'
        subst hcmd'
        rw [scanCommand] at hscan
        cases hscan
        cases hsome
      cases cmd with
      | none =>
        obtain ⟨name, hname⟩ := commandNamed_ok hb₁ (by omega)
        rw [scanCommand, hread, ok_bind, if_pos hend, hcut, ok_bind]
        dsimp only
        rw [hname, ok_bind]
        cases name with
        | none =>
          refine ⟨none, rfl, fun b' cmd' hr => ?_⟩
          cases hr
        | some kind => exact hset kind [] fun off hoff => absurd hoff List.not_mem_nil
      | some cmd =>
        obtain ⟨kind, args⟩ := cmd
        rw [scanCommand_tokenEnd hread hend hcut]
        refine hset kind _ fun off hoff => ?_
        split_ifs at hoff with hskip
        · rcases List.mem_append.mp hoff with hoff | hoff
          · exact hcmd kind args rfl off hoff
          · rw [List.mem_singleton] at hoff
            omega
        · exact hcmd kind args rfl off hoff
    · rw [scanCommand_inToken hread hend]
      obtain ⟨r, hscan, hr⟩ := ih (i + 1) last cmd hb (by omega) (by omega) (by omega) hcmd
      refine ⟨r, hscan, fun b' cmd' hsome => ?_⟩
      have hsafe := hr b' cmd' hsome
      refine ⟨hsafe.length_eq, hsafe.terminated, fun hcmd' => ?_, hsafe.pointers⟩
      have hzero := hsafe.unset hcmd'
      exact absurd (.inr (by omega)) hend

theorem scanAddressee_safe (hb : b[len]? = some 0) (hpos : 0 < n) (hn : i + n = len) :
    ∃ r, scanAddressee len n i b = .ok r ∧ ∀ b' j, r = some (b', j) →
      b'.length = b.length ∧ b'[len]? = some 0 ∧ j < len := by
  induction n generalizing i with
  | zero => exact absurd hpos (Nat.lt_irrefl 0)
  | succ n ih =>
    obtain ⟨c, hread⟩ := readAt_lt hb (show i ≤ len by omega)
    rw [scanAddressee, hread, ok_bind]
    by_cases hc : c = space
    · rw [if_pos hc]
      by_cases hone : i = 1
      · rw [if_pos hone]
        exact ⟨none, rfl, nofun⟩
      · obtain ⟨hwrite, hlen', hb'⟩ := writeAt_lt hb (show i < len by omega) 0
        rw [if_neg hone, hwrite, ok_bind]
        refine ⟨_, rfl, fun b' j hr => ?_⟩
        cases hr
        exact ⟨hlen', hb', by omega⟩
    · rw [if_neg hc]
      by_cases hend : i ≥ len - 2
      · rw [if_pos hend]
        exact ⟨none, rfl, nofun⟩
      · rw [if_neg hend]
        exact ih (by omega) (by omega)

/-- A payload whose pointers lie in front of a NUL at the index `len'` or at it. -/
theorem ownedOnce_payload {b : Bytes} {len len' : ℕ} {p : Payload} (hb : b[len']? = some 0)
    (hle : len' ≤ len) (hbuff : p.buff = b) (hptr : ∀ off ∈ p.pointers, off ≤ len') :
    OwnedOnce len (⟨b, 0⟩, some ⟨p, true⟩) := by
  refine ⟨rfl, rfl, hbuff, fun off hoff => ⟨Nat.le_trans (hptr off hoff) hle, ?_⟩⟩
  apply mem_drop_of_terminated _ (hptr off hoff)
  rw [List.getElem?_take_of_lt (by omega), hb]

theorem parseCommandOwned_safe {len' : ℕ} (hb : b[len]? = some 0) (hlen : 2 ≤ len)
    (hle : len ≤ len') :
    ∃ r, parseCommandOwned ⟨b, 0⟩ len = .ok r ∧ OwnedOnce len' r := by
  obtain ⟨r, hscan, hr⟩ := scanCommand_safe (len - 1) 1 0 none hb (Nat.le_refl 1)
    (by omega) Nat.zero_lt_one (fun kind args hcmd => by cases hcmd)
  rw [parseCommandOwned, hscan, ok_bind]
  cases r with
  | none => exact ⟨_, rfl, rfl⟩
  | some scanned =>
    obtain ⟨b', cmd⟩ := scanned
    have hsafe := hr b' cmd rfl
    cases cmd with
    | none =>
      have hzero := hsafe.unset rfl
      omega
    | some cmd =>
      obtain ⟨kind, args⟩ := cmd
      dsimp only
      by_cases harity : args.length = kind.arity
      · rw [if_pos harity]
        exact ⟨_, rfl, ownedOnce_payload hsafe.terminated hle rfl (hsafe.pointers kind args rfl)⟩
      · rw [if_neg harity]
        exact ⟨_, rfl, rfl⟩

theorem parseAddressedOwned_safe {len' : ℕ} (sigil : UInt8) (hb : b[len]? = some 0)
    (hle : len ≤ len') :
    ∃ r, parseAddressedOwned sigil ⟨b, 0⟩ len = .ok r ∧ OwnedOnce len' r := by
  rw [parseAddressedOwned]
  by_cases hshort : len < 3
  · rw [if_pos hshort]
    exact ⟨_, rfl, rfl⟩
  · obtain ⟨r, hscan, hr⟩ := scanAddressee_safe (n := len - 1) (i := 1) hb (by omega) (by omega)
    rw [if_neg hshort, hscan, ok_bind]
    cases r with
    | none => exact ⟨_, rfl, rfl⟩
    | some found =>
      obtain ⟨b', j⟩ := found
      obtain ⟨-, hb', hj⟩ := hr b' j rfl
      have hptr : ∀ off ∈ [1, j + 1], off ≤ len := by
        intro off hoff
        simp only [List.mem_cons, List.not_mem_nil, or_false] at hoff
        omega
      dsimp only
      by_cases hat : sigil = atSign
      · rw [if_pos hat]
        exact ⟨_, rfl, ownedOnce_payload hb' hle rfl hptr⟩
      · rw [if_neg hat]
        exact ⟨_, rfl, ownedOnce_payload hb' hle rfl hptr⟩

end Safety

section Parse

/-- The command branch is safe on every line but the bare slash. -/
theorem parseCommandOwned_safe_iff {s z : Bytes} {len' : ℕ} (hle : (slash :: s).length ≤ len') :
    (∃ r, parseCommandOwned ⟨slash :: s ++ 0 :: z, 0⟩ (slash :: s).length = .ok r ∧
      OwnedOnce len' r) ↔ slash :: s ≠ [slash] := by
  cases s with
  | nil =>
    refine iff_of_false ?_ fun hbare => hbare rfl
    rintro ⟨r, hcall, -⟩
    cases hcall
  | cons c s =>
    have hb : (slash :: c :: s ++ 0 :: z)[(slash :: c :: s).length]? = some 0 := by simp
    refine iff_of_true (parseCommandOwned_safe hb (by simp) hle) fun hbare => ?_
    cases (List.cons.inj hbare).2

theorem take_eq_line {buff : Bytes} {len : ℕ} (h : buff[len]? = some 0) :
    buff.take (len + 1) = buff.take len ++ [0] := by
  rw [List.take_add_one, h]
  rfl

/-- Parsing is safe and leaves one owner of the buffer exactly when the line is not the bare
slash, for which no command object is made. -/
theorem parse_safely_iff {buff : Bytes} {len : ℕ} (h : buff[len]? = some 0) :
    ParsesSafely buff len ↔ chomp (buff.take len) ≠ [slash] := by
  have hlen : (buff.take len).length = len := by
    have hlt := (List.getElem?_eq_some_iff.mp h).1
    rw [List.length_take]
    omega
  have hv := validate_eq [] (buff.take len) []
  simp only [List.nil_append, List.length_nil, Nat.zero_add, hlen] at hv
  have hle : (chomp (buff.take len)).length ≤ len := by
    rw [chomp]
    split <;> simp [hlen]
  rw [ParsesSafely, take_eq_line h, parseOwned, hv, ok_bind]
  generalize chomp (buff.take len) = line at hle
  by_cases hvalid : line.all isValidChar = true
  · rw [if_pos hvalid]
    dsimp only
    generalize (if (buff.take len).getLast? = some cr then [0] else [] : Bytes) = z
    have hb : (line ++ 0 :: z)[line.length]? = some 0 := by simp
    cases line with
    | nil => exact iff_of_true ⟨_, rfl, rfl⟩ (List.cons_ne_nil slash []).symm
    | cons c s =>
      have hread : readAt (c :: s ++ 0 :: z) 0 = .ok c := rfl
      rw [hread, ok_bind]
      by_cases hc : c = slash
      · subst hc
        rw [if_pos rfl]
        exact parseCommandOwned_safe_iff hle
      · have hne : c :: s ≠ [slash] := fun hbare => hc (List.cons.inj hbare).1
        rw [if_neg hc]
        by_cases hsigil : c = atSign ∨ c = hash
        · rw [if_pos hsigil]
          exact iff_of_true (parseAddressedOwned_safe c hb hle) hne
        · rw [if_neg hsigil, if_neg (by simp)]
          refine iff_of_true ⟨_, rfl, ownedOnce_payload hb hle rfl fun off hoff => ?_⟩ hne
          rw [Payload.pointers, List.mem_singleton] at hoff
          omega
  · rw [if_neg hvalid]
    refine iff_of_true ⟨_, rfl, rfl⟩ fun hbare => hvalid ?_
    rw [hbare]
    rfl

/-- A private message, with a final carriage return. -/
theorem parse_safely_message : ParsesSafely (ascii "@bob hi\r" ++ [0]) 8 :=
  (parse_safely_iff (by decide)).mpr (by decide)

/-- The line `/` is written to through a null command pointer. -/
theorem not_parse_safely_slash :
    ¬ ∀ (buff : Bytes) (len : ℕ), buff[len]? = some 0 → ParsesSafely buff len := by
  intro hall
  obtain ⟨r, hcall, -⟩ := hall [slash, 0] 1 rfl
  cases hcall

end Parse

end Chatd.Protocol
