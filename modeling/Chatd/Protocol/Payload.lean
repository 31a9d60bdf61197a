import Chatd.Library.CString

/-! # Parsing one client line

`Payload::parse` receives a heap buffer and the length of the line in it, with a
NUL at index `len`. It validates the bytes, cuts the buffer into NUL-terminated
strings in place, and returns either a payload that owns the buffer or NULL
after freeing it. Every loop takes the number of iterations it has left.
-/
namespace Chatd.Protocol
open Library

abbrev space : UInt8 := 32
abbrev slash : UInt8 := 47
abbrev atSign : UInt8 := 64
abbrev hash : UInt8 := 35
abbrev cr : UInt8 := 13

/-- Only the characters between SPACE and `~` are allowed in a line. -/
def isValidChar (c : UInt8) : Bool := space ≤ c && c ≤ 126

inductive CommandKind where
  | subscribe
  | unsubscribe
  | listUsers
  | delete
  | logout
  deriving DecidableEq, Repr

/-- A parsed command. The arguments are offsets into the buffer it owns. -/
structure Command where
  kind : CommandKind
  args : List ℕ
  buff : Bytes
  len : ℕ
  deriving DecidableEq, Repr

def Command.argStrings (cmd : Command) : List Bytes := cmd.args.map (cstr cmd.buff)

/-- A parsed payload; `to_` and `content` are offsets into the buffer it owns. -/
inductive Payload where
  | command (cmd : Command)
  | directMessage (to_ content : ℕ) (buff : Bytes) (len : ℕ)
  | groupMessage (to_ content : ℕ) (buff : Bytes) (len : ℕ)
  | globalMessage (content : ℕ) (buff : Bytes) (len : ℕ)
  deriving DecidableEq, Repr

/-- NULL with the number of times the buffer was freed, or the payload. -/
inductive Parsed where
  | null (freed : ℕ)
  | payload (p : Payload)
  deriving DecidableEq, Repr

/-- The validation loop from index `i`; `none` is the exit on an invalid byte. -/
def validate : (n i : ℕ) → Bytes → (len : ℕ) → Except Fault (Option (Bytes × ℕ))
  | 0, _, b, len => .ok (some (b, len))
  | n + 1, i, b, len => do
    let c ← readAt b i
    if c = cr ∧ i = len - 1 then
      let b ← writeAt b i 0
      validate n (i + 1) b (len - 1)
    else if isValidChar c then validate n (i + 1) b len
    else return none

/-- The chain of `strcmp` calls on the string after the slash. -/
def commandNamed (b : Bytes) : Except Fault (Option CommandKind) := do
  if ← strEq b 1 (ascii "subscribe") then return some .subscribe
  if ← strEq b 1 (ascii "unsubscribe") then return some .unsubscribe
  if ← strEq b 1 (ascii "delete") then return some .delete
  if ← strEq b 1 (ascii "listusers") then return some .listUsers
  if ← strEq b 1 (ascii "list_users") then return some .listUsers
  if ← strEq b 1 (ascii "logout") then return some .logout
  return none

/-- A space is overwritten by the NUL that ends the token before it. -/
def cutAt (b : Bytes) (i : ℕ) (c : UInt8) : Except Fault Bytes :=
  if c = space then writeAt b i 0 else .ok b

/-- The command loop from index `i`. The command stays unset up to the first
token end, `lastTokenEnd` is the index of the latest one, and `none` is the exit
on an unknown name. -/
def scanCommand (len : ℕ) : (n i lastTokenEnd : ℕ) → Bytes → Option (CommandKind × List ℕ) →
    Except Fault (Option (Bytes × Option (CommandKind × List ℕ)))
  | 0, _, _, b, cmd => .ok (some (b, cmd))
  | n + 1, i, lastTokenEnd, b, cmd => do
    let c ← readAt b i
    if c = space ∨ i = len - 1 then
      let b ← cutAt b i c
      match cmd with
      | none =>
        match ← commandNamed b with
        | none => return none
        | some kind => scanCommand len n (i + 1) i b (some (kind, []))
      | some (kind, args) =>
        let args := if lastTokenEnd + 1 ≠ i then args ++ [lastTokenEnd + 1] else args
        scanCommand len n (i + 1) i b (some (kind, args))
    else scanCommand len n (i + 1) lastTokenEnd b cmd

def CommandKind.arity : CommandKind → ℕ
  | .subscribe => 2
  | .unsubscribe => 1
  | .listUsers => 1
  | .delete => 1
  | .logout => 0

def parseCommand (b : Bytes) (len : ℕ) : Except Fault Parsed := do
  match ← scanCommand len (len - 1) 1 0 b none with
  | none => return .null 1
  -- `cmd->buff = buff` through the null command pointer
  | some (_, none) => .error .nullDeref
  | some (b, some (kind, args)) =>
    -- `delete cmd` frees the buffer in the destructor of the payload
    if args.length = kind.arity then return .payload (.command ⟨kind, args, b, len⟩)
    else return .null 1

/-- The addressee loop from index `i`; `none` stands for its two NULL exits. -/
def scanAddressee (len : ℕ) : (n i : ℕ) → Bytes → Except Fault (Option (Bytes × ℕ))
  | 0, i, b => .ok (some (b, i))
  | n + 1, i, b => do
    let c ← readAt b i
    if c = space then
      if i = 1 then return none
      let b ← writeAt b i 0
      return some (b, i)
    else if i ≥ len - 2 then return none
    else scanAddressee len n (i + 1) b

def parseAddressed (sigil : UInt8) (b : Bytes) (len : ℕ) : Except Fault Parsed := do
  if len < 3 then return .null 1
  match ← scanAddressee len (len - 1) 1 b with
  | none => return .null 1
  | some (b, i) =>
    if sigil = atSign then return .payload (.directMessage 1 (i + 1) b len)
    else return .payload (.groupMessage 1 (i + 1) b len)

/-- The whole of `Payload::parse`. -/
def parse (buff : Bytes) (len : ℕ) : Except Fault Parsed := do
  match ← validate len 0 buff len with
  | none => return .null 1
  | some (b, len) =>
    let c ← readAt b 0
    if c = slash then parseCommand b len
    else if c = atSign ∨ c = hash then parseAddressed c b len
    else if len = 0 then return .null 1
    else return .payload (.globalMessage 0 b len)

/-- The line without one final carriage return. -/
def chomp (s : Bytes) : Bytes := if s.getLast? = some cr then s.dropLast else s

theorem chomp_singleton (c : UInt8) : chomp [c] = if c = cr then [] else [c] := by
  by_cases h : c = cr <;> simp [chomp, h]

theorem chomp_cons (c : UInt8) {s : Bytes} (h : s ≠ []) : chomp (c :: s) = c :: chomp s := by
  rw [chomp, chomp, List.getLast?_cons, List.getLast?_eq_some_getLast h, Option.getD_some,
    List.dropLast_cons_of_ne_nil h]
  split <;> rfl

theorem isValidChar_ne_zero {c : UInt8} (h : isValidChar c = true) : c ≠ 0 := by
  rintro rfl
  cases h

/-- Validation accepts a line exactly when its bytes are allowed once the final
carriage return is gone, and leaves the buffer NUL-terminated at the new length. -/
theorem validate_eq (p q z : Bytes) :
    validate q.length p.length (p ++ q ++ 0 :: z) (p.length + q.length) =
      .ok (if (chomp q).all isValidChar then
        some (p ++ chomp q ++ 0 :: (if q.getLast? = some cr then 0 :: z else z),
          p.length + (chomp q).length)
      else none) := by
  induction q generalizing p with
  | nil => simp [validate, chomp]
  | cons c q ih =>
    have hr : readAt (p ++ c :: q ++ 0 :: z) p.length = .ok c := by
      rw [List.append_assoc]
      exact readAt_append p c (q ++ 0 :: z)
    have hlen : p.length + (q.length + 1) = (p ++ [c]).length + q.length := by
      simp
      omega
    have hnext : p ++ c :: q ++ 0 :: z = p ++ [c] ++ q ++ 0 :: z := by simp
    by_cases hq : q = []
    · subst hq
      by_cases hc : c = cr
      · subst hc
        simp [validate, readAt, writeAt, chomp]
      · by_cases hv : isValidChar c <;> simp [validate, readAt, chomp, hc, hv]
    · have hi : ¬ (c = cr ∧ p.length = p.length + (q.length + 1) - 1) := by
        rintro ⟨-, h⟩
        have := List.length_pos_of_ne_nil hq
        omega
      rw [List.length_cons, validate, hr, ok_bind, if_neg hi]
      by_cases hv : isValidChar c
      · rw [if_pos hv, hlen, hnext, show p.length + 1 = (p ++ [c]).length by simp, ih (p ++ [c]),
          chomp_cons c hq, List.all_cons, hv, Bool.true_and]
        simp [List.getLast?_cons, List.getLast?_eq_some_getLast hq, Nat.add_assoc, Nat.add_comm 1]
      · rw [if_neg hv, chomp_cons c hq, List.all_cons, Bool.eq_false_iff.mpr hv]
        rfl

theorem chomp_of_valid {s : Bytes} (h : s.all isValidChar = true) : chomp s = s := by
  rw [chomp, if_neg]
  intro hlast
  exact absurd (List.all_eq_true.mp h cr (List.mem_of_getLast? hlast)) (by decide)

theorem parse_of_valid {s : Bytes} (h : s.all isValidChar = true) (z : Bytes) :
    parse (s ++ 0 :: z) s.length = (do
      let c ← readAt (s ++ 0 :: z) 0
      if c = slash then parseCommand (s ++ 0 :: z) s.length
      else if c = atSign ∨ c = hash then parseAddressed c (s ++ 0 :: z) s.length
      else if s.length = 0 then return .null 1
      else return .payload (.globalMessage 0 (s ++ 0 :: z) s.length)) := by
  have hlast : s.getLast? ≠ some cr := fun hlast =>
    absurd (List.all_eq_true.mp h cr (List.mem_of_getLast? hlast)) (by decide)
  have hv := validate_eq [] s z
  rw [chomp_of_valid h, if_neg hlast, if_pos h] at hv
  simp only [List.nil_append, List.length_nil, Nat.zero_add] at hv
  rw [parse, hv, ok_bind]

/-- A line is parsed like the line without its final carriage return. -/
theorem parse_chomp {line : Bytes} (h : (chomp line).all isValidChar = true) (z : Bytes) :
    ∃ z', parse (line ++ 0 :: z) line.length =
      parse (chomp line ++ 0 :: z') (chomp line).length := by
  have hv := validate_eq [] line z
  rw [if_pos h] at hv
  simp only [List.nil_append, List.length_nil, Nat.zero_add] at hv
  refine ⟨if line.getLast? = some cr then 0 :: z else z, ?_⟩
  rw [parse_of_valid h, parse, hv, ok_bind]

theorem parse_of_invalid {line : Bytes} (h : ¬ (chomp line).all isValidChar = true) (z : Bytes) :
    parse (line ++ 0 :: z) line.length = .ok (.null 1) := by
  have hv := validate_eq [] line z
  simp only [List.nil_append, List.length_nil, Nat.zero_add] at hv
  rw [parse, hv, ok_bind, if_neg h]
  rfl

end Chatd.Protocol
