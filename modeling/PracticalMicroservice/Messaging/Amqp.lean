import Mathlib.Logic.Basic

/-!
# What a broker client sees of amqplib

A connection is up until somebody closes it, and gone once its `close` event has been delivered. Its
channel closes with it, or before it. A promise of the library settles in one step and is gone on
from in a later one; events may be delivered in between.
-/

namespace PracticalMicroservice.Messaging

inductive ConnectionPhase
  | up
  /-- `close()` was called; the `close` event is still to be delivered. -/
  | closing
  | closed
  deriving DecidableEq, Repr

inductive ChannelPhase
  | absent
  | opened
  | closed
  deriving DecidableEq, Repr

/-- A connection and the one channel that is created on it. -/
structure Link where
  connection : ConnectionPhase
  channel : ChannelPhase
  /-- Whether the `close` event of the channel has a listener. -/
  listening : Bool
  deriving DecidableEq, Repr

/-- All connections that were ever made, numbered in their order. -/
structure Broker where
  links : Nat → Link
  connections : Nat

namespace Broker

def empty : Broker where
  links := fun _ => ⟨.closed, .absent, false⟩
  connections := 0

def modify (b : Broker) (c : Nat) (f : Link → Link) : Broker :=
  { b with links := fun d => if d = c then f (b.links d) else b.links d }

/-- A connection is made; its number is that of the connections before it. -/
def connect (b : Broker) : Broker where
  links := fun d => if d = b.connections then ⟨.up, .absent, false⟩ else b.links d
  connections := b.connections + 1

/-- `connection.close()`: the close event follows, unless it is on its way or has been delivered. -/
def close (b : Broker) (c : Nat) : Broker :=
  b.modify c fun link => if link.connection = .up then { link with connection := .closing } else link

/-- `channel.on('close', …)`. -/
def listen (b : Broker) (c : Nat) : Broker := b.modify c fun link => { link with listening := true }

/-- The channel of a connection is open. -/
def Usable (b : Broker) (c : Nat) : Prop :=
  c < b.connections ∧ (b.links c).connection ≠ .closed ∧ (b.links c).channel = .opened

instance (b : Broker) : DecidablePred b.Usable := fun _ => inferInstanceAs (Decidable (_ ∧ _))

/-- The close event of a connection is still to be delivered. -/
def Closing (b : Broker) (c : Nat) : Prop :=
  c < b.connections ∧ (b.links c).connection = .closing

/-- The close event of a connection is delivered; the channel is gone with it. -/
def connectionCloses (b : Broker) (c : Nat) : Option Broker :=
  if c < b.connections ∧ (b.links c).connection ≠ .closed then
    some (b.modify c fun link => { link with connection := .closed, channel := .closed })
  else none

/-- The close event of a channel is delivered. -/
def channelCloses (b : Broker) (c : Nat) : Option Broker :=
  if c < b.connections ∧ (b.links c).channel = .opened then
    some (b.modify c fun link => { link with channel := .closed })
  else none

end Broker

/-! ## Calls of `open()` -/

/-- Where an `open()` waits. -/
inductive Await
  | connect
  /-- The connection has been made. -/
  | connected (c : Nat)
  | createChannel (c : Nat)
  /-- The replies to what is declared on the channel; `done` of them have been gone on from. -/
  | declare (c done : Nat)
  | consume (c : Nat)
  | closeQuietly (c : Nat) (rethrow : Bool)
  deriving DecidableEq, Repr

/-- An `open()` in progress. -/
structure Opening where
  /-- Whether `reconnect()` called it. -/
  reconnecting : Bool
  await : Await
  /-- Whether the promise it waits for has settled, and if it has, whether it was fulfilled. -/
  settled : Option Bool
  deriving DecidableEq, Repr

/-- A promise settles. The broker may refuse anything, and fulfils only what the connection and the
channel are still there for. -/
def Broker.settle (b : Broker) : Await → Bool → Option (Broker × Await)
  | .connect, true => some (b.connect, .connected b.connections)
  | .connected _, _ => none
  | .createChannel c, true =>
    if c < b.connections ∧ (b.links c).connection ≠ .closed then
      some (b.modify c fun link => { link with channel := .opened }, .createChannel c)
    else none
  | .declare c done, true => if b.Usable c then some (b, .declare c done) else none
  | .consume c, true => if b.Usable c then some (b, .consume c) else none
  | await, _ => some (b, await)

/-- The calls of `open()`, once the promise of one of them has settled. -/
def settleAt (b : Broker) (opens : List Opening) (i : Nat) (fulfilled : Bool) :
    Option (Broker × List Opening) :=
  match opens[i]? with
  | some ⟨reconnecting, await, none⟩ =>
    (b.settle await fulfilled).map fun (b', await') =>
      (b', opens.set i ⟨reconnecting, await', some fulfilled⟩)
  | _ => none

end PracticalMicroservice.Messaging
