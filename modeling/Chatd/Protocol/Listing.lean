import Chatd.Library.Block
import Chatd.Protocol.Execute

/-! # The list of users

`cmd::ListUsers` copies each name to a block of its own and hands it to the queue. The
block has room for the characters of the name, and `strcpy` writes one byte more.
-/
namespace Chatd.Protocol
open Library Net.Server

/-- The payloads enqueued so far, and the writes outside of a block: the size of the block and
the index. -/
structure Listing where
  payloads : List (Block UInt8)
  strayWrites : List (ℕ × ℕ)
  deriving DecidableEq, Repr

namespace Listing

variable (l : Listing) (terminated : Bool)

def empty : Listing := ⟨[], []⟩

/-- `send_strliteral` -/
def sendStrliteral (text : Bytes) : Listing := { l with payloads := l.payloads ++ [text.map some] }

/-- `send`, which drops its buffer once the connection is gracefully terminated. -/
def send (cells : Block UInt8) : Listing :=
  if terminated then l else { l with payloads := l.payloads ++ [cells] }

/-- `strcpy` to a block from index `i` on, with the bytes that are left, the terminator
included, and the writes that miss the block. -/
def strcpy : (bytes : Bytes) → (i : ℕ) → Block UInt8 → Block UInt8 × List (ℕ × ℕ)
  | [], _, b => (b, [])
  | c :: bytes, i, b =>
    if i < b.length then strcpy bytes (i + 1) (b.set i (some c))
    else
      let (copy, stray) := strcpy bytes (i + 1) b
      (copy, (b.length, i) :: stray)

/-- The copy of a name, of which the queue gets as many bytes as `strlen` counts. -/
def sendName (name : Bytes) : Listing :=
  let (copy, stray) := strcpy (name ++ [0]) 0 (Block.alloc name.length)
  { l with strayWrites := l.strayWrites ++ stray }.send terminated (copy.take name.length)

/-- The loop over the subscribers from index `i` on, of `size` ones. -/
def sendNames (size : ℕ) : (i : ℕ) → List Bytes → Listing → Listing
  | _, [], l => l
  | i, name :: names, l =>
    let l := l.sendName terminated name
    let l := if i ≠ size - 1 then l.sendStrliteral (ascii ", ") else l
    sendNames size (i + 1) names l

end Listing

section Handler

variable {υ : Type*} [DecidableEq υ] (userName : υ → Bytes) (terminated : Bool) (w : World υ)
  (u : υ) (name : Bytes)

omit [DecidableEq υ] in
/-- `cmd::ListUsers` on a connection of `u`, gracefully terminated or not. -/
def listUsersInto : Listing :=
  match w.find (w.channels u) name with
  | some channel =>
    let names := (w.users channel).map userName
    let l := Listing.empty.sendStrliteral (ascii "SRV: Users subscribed to the channel: ")
    (l.sendNames terminated names.length 0 names).sendStrliteral (ascii "\n")
  | none => Listing.empty.sendStrliteral (ascii "ERR: You not in the channel!\n")

end Handler

namespace Listing

variable {l : Listing} {terminated : Bool} {name : Bytes} {names : List Bytes}

/-- Copying a string to a block of its length fills the block, and the terminator misses it. -/
theorem strcpy_from (written name : Bytes) :
    strcpy (name ++ [0]) written.length (written.map some ++ Block.alloc name.length) =
      ((written ++ name).map some, [((written ++ name).length, (written ++ name).length)]) := by
  induction name generalizing written with
  | nil => simp [strcpy, Block.alloc]
  | cons c name ih =>
    have hset : (written.map some ++ Block.alloc (name.length + 1)).set written.length (some c) =
        (written ++ [c]).map some ++ Block.alloc name.length := by
      rw [Block.alloc, List.replicate_succ, List.set_append_right _ _ (by simp)]
      simp [Block.alloc]
    have hnext := ih (written ++ [c])
    rw [List.append_assoc, List.singleton_append, List.length_append, List.length_singleton]
      at hnext
    rw [List.cons_append, strcpy, List.length_cons, if_pos (by simp [Block.alloc]), hset, hnext]

theorem strcpy_spec (name : Bytes) :
    strcpy (name ++ [0]) 0 (Block.alloc name.length) =
      (name.map some, [(name.length, name.length)]) :=
  strcpy_from [] name

theorem sendName_eq : l.sendName terminated name =
    { l with strayWrites := l.strayWrites ++ [(name.length, name.length)] }.send terminated
      (name.map some) := by
  rw [sendName, strcpy_spec]
  dsimp only
  rw [List.take_of_length_le (by simp)]

theorem sendNames_strayWrites (size i : ℕ) :
    (l.sendNames terminated size i names).strayWrites =
      l.strayWrites ++ names.map fun name => (name.length, name.length) := by
  induction names generalizing i l with
  | nil => simp [sendNames]
  | cons name names ih =>
    rw [sendNames, sendName_eq, ih]
    cases terminated <;> split <;> simp [send, sendStrliteral]

def text (l : Listing) : Block UInt8 := l.payloads.flatten

@[simp] theorem text_sendStrliteral (text : Bytes) :
    (l.sendStrliteral text).text = l.text ++ text.map some := by
  simp [Listing.text, sendStrliteral]

theorem text_sendName : (l.sendName false name).text = l.text ++ name.map some := by
  rw [sendName_eq]
  simp [Listing.text, send]

/-- The names are enqueued in their order, with a separator before each but the first. -/
theorem text_sendNames (i : ℕ) :
    (l.sendNames false (i + names.length) i names).text =
      l.text ++ ((ascii ", ").intercalate names).map some := by
  induction names generalizing i l with
  | nil => simp [sendNames]
  | cons name names ih =>
    have hnext (l : Listing) := ih (l := l) (i + 1)
    rw [Nat.add_assoc, Nat.add_comm 1] at hnext
    rw [sendNames, List.length_cons, hnext]
    cases names with
    | nil =>
      rw [if_neg (by simp), text_sendName]
      simp
    | cons next names =>
      rw [if_pos (by simp), text_sendStrliteral, text_sendName]
      simp

end Listing

section Listed

variable {υ : Type*} {userName : υ → Bytes} {terminated : Bool} {w : World υ} {u : υ}
  {name : Bytes} {c : ChannelRef}

/-- The payloads read as one text are the reply of the handler. -/
theorem text_listUsersInto [DecidableEq υ] :
    (listUsersInto userName false w u name).text = (listUsers userName w u name).map some := by
  rw [listUsersInto, listUsers]
  cases hfind : w.find (w.channels u) name with
  | none => simp [Listing.text, Listing.empty, Listing.sendStrliteral]
  | some channel =>
    have hnames := @Listing.text_sendNames (Listing.empty.sendStrliteral
      (ascii "SRV: Users subscribed to the channel: ")) ((w.users channel).map userName) 0
    rw [Nat.zero_add] at hnames
    dsimp only
    rw [Listing.text_sendStrliteral, hnames]
    simp [Listing.text, Listing.empty, Listing.sendStrliteral]

/-- The whole list is enqueued, and no copy of a name is left by a write. -/
def ListsInBlocks (userName : υ → Bytes) (terminated : Bool) (w : World υ) (u : υ)
    (name : Bytes) (c : ChannelRef) : Prop :=
  (listUsersInto userName terminated w u name).text =
      (ascii "SRV: Users subscribed to the channel: " ++
        (ascii ", ").intercalate ((w.users c).map userName) ++ ascii "\n").map some ∧
    (listUsersInto userName terminated w u name).strayWrites = []

theorem listUsersInto_strayWrites (hfind : w.find (w.channels u) name = some c) :
    (listUsersInto userName terminated w u name).strayWrites =
      (w.users c).map fun v => ((userName v).length, (userName v).length) := by
  rw [listUsersInto, hfind]
  dsimp only
  rw [Listing.sendStrliteral, Listing.sendNames_strayWrites]
  simp [Listing.empty, Listing.sendStrliteral]

/-- Each name of a list is written beyond its block. -/
theorem listsInBlocks_iff (hfind : w.find (w.channels u) name = some c) :
    ListsInBlocks userName terminated w u name c ↔ w.users c = [] := by
  rw [ListsInBlocks, listUsersInto_strayWrites hfind, List.map_eq_nil_iff]
  constructor
  · exact And.right
  · intro hnil
    refine ⟨?_, hnil⟩
    rw [listUsersInto, hfind]
    dsimp only
    rw [hnil]
    simp [Listing.text, Listing.empty, Listing.sendStrliteral, Listing.sendNames]

def oneSubscriber : World ℕ := (subscribe World.empty 0 (ascii "room") (ascii "pw")).1

theorem listsInBlocks_iff_oneSubscriber :
    ListsInBlocks (fun _ => ascii "alice") false oneSubscriber 0 (ascii "room") 0 ↔
      oneSubscriber.users 0 = [] :=
  listsInBlocks_iff (by decide)

/-- The name of the only subscriber is copied to five bytes, and a sixth one is written. -/
theorem not_listsInBlocks_oneSubscriber :
    oneSubscriber.find (oneSubscriber.channels 0) (ascii "room") = some 0 ∧
      (listUsersInto (fun _ => ascii "alice") false oneSubscriber 0 (ascii "room")).strayWrites =
        [(5, 5)] ∧
      ¬ ListsInBlocks (fun _ => ascii "alice") false oneSubscriber 0 (ascii "room") 0 := by
  have hstray : (listUsersInto (fun _ => ascii "alice") false oneSubscriber 0
      (ascii "room")).strayWrites = [(5, 5)] := by decide
  refine ⟨by decide, hstray, fun h => ?_⟩
  have hnil := h.2
  rw [hstray] at hnil
  cases hnil

end Listed

end Chatd.Protocol
