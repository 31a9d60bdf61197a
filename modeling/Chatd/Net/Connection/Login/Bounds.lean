import Chatd.Net.Connection.Login.Sessions
import Chatd.Net.Tcp.Stream

/-! # Accesses to a line of the dialogue

The dialogue again, with each read and write of the received buffer inside or outside of
its block. Where no access leaves the block it is the dialogue on strings.
-/
namespace Chatd.Net.Connection
open Library Server Protocol

section Accesses

variable (bytes : Bytes)

/-- `if (buff[len - 1] == '\r') { buff[len - 1] = '\0'; len--; }` -/
def dropReturnAt (len : ℕ) : Except Fault (Bytes × ℕ) := do
  let c ← readAt bytes (lastIndex len)
  if c = cr then
    let bytes ← writeAt bytes (lastIndex len) 0
    return (bytes, lastIndex len)
  else return (bytes, len)

/-- The loop over a username from index `i` on; `none` where it meets an illegal character. -/
def scanName : (fuel i : ℕ) → Except Fault (Option ℕ)
  | 0, _ => .error .outOfBounds
  | fuel + 1, i => do
    let c ← readAt bytes i
    if c = 0 then return some i
    else if isNameChar c then scanName fuel (i + 1)
    else return none

/-- The bytes that `strlen` and `strcpy` read from index `i` on, without the NUL. -/
def readStr : (fuel i : ℕ) → Except Fault Bytes
  | 0, _ => .error .outOfBounds
  | fuel + 1, i => do
    let c ← readAt bytes i
    if c = 0 then return []
    else
      let rest ← readStr fuel (i + 1)
      return c :: rest

end Accesses

namespace Session

variable (s : Session)

/-- `Session.enterUsername` -/
def enterUsernameAt (buff : Buffer) (len : ℕ) : Except Fault Session := do
  match ← scanName buff.bytes (buff.bytes.length + 1) 0 with
  | none =>
    return (s.reply (ascii
      "ERR: Username contains illegal character(s).\nERR: Try again: ")).free buff
  | some i =>
    if i < 2 ∨ 20 < i then
      return (s.reply (ascii
        "ERR: Username should between 2 and 20 characters length.\nERR: Try again: ")).free buff
    else
      let name ← readStr buff.bytes (buff.bytes.length + 1) 0
      return { ((s.reply (ascii "SRV: Hello @")).send (greeting name len)).reply
        (ascii "\nSRV: Please enter your password: ") with
        username := some buff }

/-- `Session.enterPassword` -/
def enterPasswordAt (buff : Buffer) (len : ℕ) : Except Fault Session := do
  let str ← readStr buff.bytes (buff.bytes.length + 1) 0
  if str.length ≠ len then return (s.reply (ascii "ERR: Password contains null-byte.")).free buff
  else if len < 8 ∨ 64 < len then
    return (s.reply (ascii
      "ERR: Password should between 8 and 64 characters length.\nERR: Try again: ")).free buff
  else return { s with password := some buff }

/-- `Session.enter` -/
def enterAt (buff : Buffer) (len : ℕ) : Except Fault Session :=
  match s.username, s.password with
  | none, _ => s.enterUsernameAt buff len
  | some _, none => s.enterPasswordAt buff len
  | some _, some _ => .ok s

/-- `Session.decide`, which reads the line when a confirmation is pending. -/
def decideAt (buff : Buffer) : Except Fault (Session × LoginPc) :=
  match s.username, s.password with
  | some name, some password =>
    if s.newAccount then do
      let c ← readAt buff.bytes 0
      if c = 121 then return (s, .register name password)
      else if c = 110 then
        return ((s.reply (ascii "EXIT: Bye!\n")).gracefullyTerminate, .idle)
      else return (s, .lookup name password)
    else .ok (s, .lookup name password)
  | _, _ => .ok (s, .idle)

/-- `Session.dialogue`, with the buffer and the length that it goes on with. -/
def dialogueAt (buff : Buffer) (len : ℕ) :
    Except Fault ((Bytes × ℕ) × Session × LoginPc) := do
  let line ← dropReturnAt buff.bytes len
  let buff := { buff with bytes := line.1 }
  let s ← s.enterAt buff line.2
  let r ← s.decideAt buff
  return (line, r)

end Session

section Strings

variable {pre rest bytes line : Bytes} {fuel : ℕ}

/-- Reading a string ends at the NUL that stands in the block. -/
theorem readStr_from (h : 0 ∈ rest) (hfuel : rest.length ≤ fuel) :
    readStr (pre ++ rest) fuel pre.length = .ok (cstr rest 0) := by
  induction rest generalizing pre fuel with
  | nil => cases h
  | cons c rest ih =>
    obtain ⟨fuel, rfl⟩ := Nat.exists_eq_add_one.mpr (Nat.zero_lt_of_lt hfuel)
    rw [readStr, readAt_append, ok_bind]
    by_cases hc : c = 0
    · rw [if_pos hc, hc]
      rfl
    · have hmem : 0 ∈ rest := (List.mem_cons.mp h).resolve_left (Ne.symm hc)
      have hnext : readStr ((pre ++ [c]) ++ rest) fuel (pre ++ [c]).length = .ok (cstr rest 0) :=
        ih hmem (Nat.le_of_succ_le_succ hfuel)
      rw [List.append_assoc, List.singleton_append, List.length_append, List.length_singleton]
        at hnext
      rw [if_neg hc, hnext, ok_bind]
      simp [cstr, hc]

theorem scanName_from (h : 0 ∈ rest) (hfuel : rest.length ≤ fuel) :
    scanName (pre ++ rest) fuel pre.length =
      .ok (if (cstr rest 0).all isNameChar then some (pre.length + (cstr rest 0).length)
        else none) := by
  induction rest generalizing pre fuel with
  | nil => cases h
  | cons c rest ih =>
    obtain ⟨fuel, rfl⟩ := Nat.exists_eq_add_one.mpr (Nat.zero_lt_of_lt hfuel)
    rw [scanName, readAt_append, ok_bind]
    by_cases hc : c = 0
    · rw [if_pos hc, hc]
      rfl
    · have hmem : 0 ∈ rest := (List.mem_cons.mp h).resolve_left (Ne.symm hc)
      have hstr : cstr (c :: rest) 0 = c :: cstr rest 0 := by simp [cstr, hc]
      rw [if_neg hc, hstr, List.all_cons]
      cases hchar : isNameChar c with
      | false => rfl
      | true =>
        have hnext : scanName ((pre ++ [c]) ++ rest) fuel (pre ++ [c]).length =
            .ok (if (cstr rest 0).all isNameChar then
              some ((pre ++ [c]).length + (cstr rest 0).length) else none) :=
          ih hmem (Nat.le_of_succ_le_succ hfuel)
        rw [List.append_assoc, List.singleton_append, List.length_append, List.length_singleton]
          at hnext
        rw [if_pos rfl, hnext, Bool.true_and, List.length_cons]
        split
        · rw [Nat.add_assoc, Nat.add_comm 1]
        · rfl

theorem readStr_eq (h : 0 ∈ bytes) : readStr bytes (bytes.length + 1) 0 = .ok (cstr bytes 0) :=
  @readStr_from [] bytes _ h (Nat.le_succ _)

theorem scanName_eq (h : 0 ∈ bytes) :
    scanName bytes (bytes.length + 1) 0 =
      .ok (if (cstr bytes 0).all isNameChar then some (cstr bytes 0).length else none) := by
  have hscan := @scanName_from [] bytes _ h (Nat.le_succ bytes.length)
  rw [List.length_nil, Nat.zero_add] at hscan
  exact hscan

theorem dropReturnAt_nil : dropReturnAt [0] 0 = .error .outOfBounds := by
  simp [dropReturnAt, readAt, lastIndex]

theorem dropReturnAt_eq (before : UInt8) (h : line ≠ []) :
    dropReturnAt (line ++ [0]) line.length =
      .ok (dropReturn before (line ++ [0]) line.length) := by
  rcases List.eq_nil_or_concat line with rfl | ⟨init, c, rfl⟩
  · exact absurd rfl h
  · have hindex : lastIndex (init ++ [c]).length = init.length := by simp [lastIndex]
    rw [List.concat_eq_append, dropReturn_concat, dropReturnAt, hindex, List.append_assoc,
      List.singleton_append, readAt_append, ok_bind]
    by_cases hc : c = cr
    · rw [if_pos hc, if_pos hc, writeAt_append]
      rfl
    · rw [if_neg hc, if_neg hc]
      rfl

theorem dropReturn_bounds (before : UInt8) (h : line ≠ []) :
    (dropReturn before (line ++ [0]) line.length).1.length = line.length + 1 ∧
      0 ∈ (dropReturn before (line ++ [0]) line.length).1 ∧
      (dropReturn before (line ++ [0]) line.length).2 ≤ line.length := by
  rcases List.eq_nil_or_concat line with rfl | ⟨init, c, rfl⟩
  · exact absurd rfl h
  · rw [List.concat_eq_append, dropReturn_concat]
    by_cases hc : c = cr
    · rw [if_pos hc]
      simp
    · rw [if_neg hc]
      simp

end Strings

namespace Session

variable {s : Session} {buff : Buffer} {len : ℕ}

theorem enterUsernameAt_eq (h : 0 ∈ buff.bytes) :
    s.enterUsernameAt buff len = .ok (s.enterUsername buff len) := by
  rw [enterUsernameAt, scanName_eq h, ok_bind, enterUsername, Buffer.str]
  cases hall : (cstr buff.bytes 0).all isNameChar with
  | false => rfl
  | true =>
    rw [if_pos rfl, if_neg (by decide)]
    dsimp only
    by_cases hbounds : (cstr buff.bytes 0).length < 2 ∨ 20 < (cstr buff.bytes 0).length
    · rw [if_pos hbounds, if_pos hbounds]
      rfl
    · rw [if_neg hbounds, if_neg hbounds, readStr_eq h]
      rfl

theorem enterPasswordAt_eq (h : 0 ∈ buff.bytes) :
    s.enterPasswordAt buff len = .ok (s.enterPassword buff len) := by
  rw [enterPasswordAt, readStr_eq h, ok_bind, enterPassword, Buffer.str]
  by_cases hwhole : (cstr buff.bytes 0).length ≠ len
  · rw [if_pos hwhole, if_pos hwhole]
    rfl
  · rw [if_neg hwhole, if_neg hwhole]
    by_cases hbounds : len < 8 ∨ 64 < len
    · rw [if_pos hbounds, if_pos hbounds]
      rfl
    · rw [if_neg hbounds, if_neg hbounds]
      rfl

theorem enterAt_eq (h : 0 ∈ buff.bytes) : s.enterAt buff len = .ok (s.enter buff len) := by
  rw [enterAt, enter]
  cases s.username with
  | none => exact enterUsernameAt_eq h
  | some name =>
    cases s.password with
    | none => exact enterPasswordAt_eq h
    | some password => rfl

theorem decideAt_eq (h : 0 ∈ buff.bytes) : s.decideAt buff = .ok (s.decide buff) := by
  rw [decideAt, Session.decide]
  cases hbytes : buff.bytes with
  | nil =>
    rw [hbytes] at h
    cases h
  | cons c bytes =>
    have hread : readAt (c :: bytes) 0 = .ok c := rfl
    rw [hread, List.head?_cons]
    cases s.username with
    | none => rfl
    | some name =>
      cases s.password with
      | none => rfl
      | some password =>
        cases s.newAccount with
        | false => simp
        | true =>
          by_cases hyes : c = 121
          · simp [hyes]
          · by_cases hno : c = 110 <;> simp [hyes, hno]

/-- A line that is not empty is taken without a fault, whatever stands in front of its block. -/
theorem dialogueAt_eq {addr : ℕ} {line : Bytes} (before : UInt8) (h : line ≠ []) :
    s.dialogueAt ⟨addr, line ++ [0]⟩ line.length =
      .ok (dropReturn before (line ++ [0]) line.length,
        s.dialogue before ⟨addr, line ++ [0]⟩ line.length) := by
  obtain ⟨-, hzero, -⟩ := dropReturn_bounds before h
  rw [dialogueAt, dropReturnAt_eq before h, ok_bind]
  dsimp only
  rw [enterAt_eq hzero, ok_bind, decideAt_eq hzero, ok_bind]
  rfl

/-- The call reads and writes the line within its block of `len + 1` bytes, which keeps a NUL
for the strings that are read from it later, goes on with a length that is not greater, and
does what the dialogue does. -/
def TakesInBounds (s : Session) (addr : ℕ) (line : Bytes) : Prop :=
  ∃ bytes len r, s.dialogueAt ⟨addr, line ++ [0]⟩ line.length = .ok ((bytes, len), r) ∧
    bytes.length = line.length + 1 ∧ 0 ∈ bytes ∧ len ≤ line.length ∧
    ∀ before, s.dialogue before ⟨addr, line ++ [0]⟩ line.length = r

/-- A line is accessed within bounds exactly if it is not empty, in whichever state. -/
theorem takesInBounds_iff (s : Session) (addr : ℕ) (line : Bytes) :
    s.TakesInBounds addr line ↔ line.length ≠ 0 := by
  rw [ne_eq, List.length_eq_zero_iff]
  constructor
  · rintro ⟨bytes, len, r, hrun, -⟩ rfl
    rw [dialogueAt, List.nil_append, List.length_nil, dropReturnAt_nil] at hrun
    cases hrun
  · intro h
    have hrun (before : UInt8) : s.dialogueAt ⟨addr, line ++ [0]⟩ line.length =
        .ok (dropReturn before (line ++ [0]) line.length,
          s.dialogue before ⟨addr, line ++ [0]⟩ line.length) := dialogueAt_eq before h
    obtain ⟨hlength, hzero, hlen⟩ := dropReturn_bounds 0 h
    refine ⟨_, _, _, hrun 0, hlength, hzero, hlen, fun before => ?_⟩
    exact (Prod.mk.inj (Except.ok.inj ((hrun before).symm.trans (hrun 0)))).2

/-- The buffered path hands over an empty line, which the dialogue tests in front of its block. -/
theorem not_takesInBounds_nil :
    (∃ stream, Tcp.readuntil ⟨⟨Tcp.buffCap, [10]⟩, []⟩ 10 = .ok ⟨.ok, some [0], 0, stream⟩) ∧
      fresh.dialogueAt ⟨0, [0]⟩ 0 = .error .outOfBounds ∧ ¬ fresh.TakesInBounds 0 [] := by
  have hfault : fresh.dialogueAt ⟨0, [0]⟩ 0 = .error .outOfBounds := by decide
  refine ⟨⟨_, rfl⟩, hfault, ?_⟩
  rintro ⟨bytes, len, r, hrun, -⟩
  cases hfault.symm.trans hrun

end Session

end Chatd.Net.Connection
