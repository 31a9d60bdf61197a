import Chatd.Net.Server.World

/-! # Dispatching a chat message

`handle_payload` calls `send_msg` with the addressed name of a direct message, with
the name of each other subscriber of the channel of a group message, and with the
name of each other subscriber of each channel of the sender for a global message.
-/
namespace Chatd.Protocol
open Library Net.Server

inductive Message where
  | direct (to_ content : Bytes)
  | group (to_ content : Bytes)
  | global (content : Bytes)
  deriving DecidableEq, Repr

/-- The name passed to `send_msg` is the `to` of the message itself. -/
def Message.isDirect : Message → Bool
  | .direct _ _ => true
  | _ => false

variable {υ : Type*} (accounts : Accounts υ) (w : World υ) (u : υ)

/-- The names of the subscribers of a channel other than the sender. -/
def otherNames (c : ChannelRef) : List Bytes :=
  ((w.users c).map accounts.name).filter fun name => accounts.name u != name

def isInChannel (c : ChannelRef) : Bool :=
  (w.users c).any fun chUser => accounts.name u == accounts.name chUser

/-- The names that `send_msg` is called with, in order, and the reply to the sender. -/
def dispatch : Message → List Bytes × Option Bytes
  | .direct to_ _ => ([to_], none)
  | .group to_ _ =>
    match ConnectionPool.get w.name w.pool to_ with
    | none => ([], some (ascii "ERR: Channel not found!\n"))
    | some c =>
      if isInChannel accounts w u c then (otherNames accounts w u c, none)
      else ([], some (ascii "ERR: Channel not found!\n"))
  | .global _ =>
    ((w.channels u).flatMap (otherNames accounts w u),
      if w.channels u = [] then
        some (ascii "ERR: You are not subscribed to any channel!\n")
      else none)

end Chatd.Protocol
