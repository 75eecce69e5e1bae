import PracticalMicroservice.Foundations.Runs
import PracticalMicroservice.Messaging.Amqp

/-!
# The cart's publisher (`rabbitmq.client.ts`)

The object, the calls of its `open()` in progress, and the broker. A label is what happens next.
-/

namespace PracticalMicroservice.Messaging

namespace RabbitMqClient

inductive State
  | disabled
  | disconnected
  | connected
  | closed
  deriving DecidableEq, Repr

end RabbitMqClient

/-- The fields of the object. The channel goes by the number of its connection. -/
structure RabbitMqClient where
  state : RabbitMqClient.State
  connection : Option Nat
  channel : Option Nat
  attempts : Nat
  reconnectTimer : Bool
  /-- How many replies the registered topologies take to declare. -/
  topologies : Nat
  deriving DecidableEq, Repr

/-- `connected`. -/
def RabbitMqClient.isConnected (client : RabbitMqClient) : Bool :=
  client.state == .connected && client.channel.isSome

structure ClientSystem where
  client : RabbitMqClient
  opens : List Opening
  broker : Broker
  /-- Whether a connection was ever adopted. -/
  succeeded : Bool
  /-- Whether `onApplicationShutdown` has run. -/
  shutDown : Bool

namespace ClientSystem

/-- A client as it is constructed, with `RABBITMQ_URL` set or not. -/
def initial (url : Bool) : ClientSystem where
  client :=
    { state := if url then .disconnected else .disabled, connection := none, channel := none
      attempts := 0, reconnectTimer := false, topologies := 0 }
  opens := []
  broker := .empty
  succeeded := false
  shutDown := false

def scheduleReconnect (s : ClientSystem) : ClientSystem :=
  if s.client.reconnectTimer ∨ s.client.state ≠ .disconnected then s
  else
    { s with client :=
        { s.client with attempts := s.client.attempts + 1, reconnectTimer := true } }

def onChannelClosed (s : ClientSystem) (c : Nat) : ClientSystem :=
  if s.client.channel ≠ some c then s
  else
    { s with
      client :=
        { s.client with
          channel := none
          state := if s.client.state = .connected then .disconnected else s.client.state }
      broker := s.broker.close c }

def onConnectionClosed (s : ClientSystem) (c : Nat) : ClientSystem :=
  if s.client.connection ≠ some c then s
  else if s.client.state = .closed then
    { s with client := { s.client with connection := none, channel := none } }
  else
    { s with client :=
        { s.client with connection := none, channel := none, state := .disconnected } }
      |>.scheduleReconnect

/-- `connect()` and `reconnect()` call `open()`. -/
def begin_ (s : ClientSystem) (reconnecting : Bool) : ClientSystem :=
  { s with opens := s.opens ++ [⟨reconnecting, .connect, none⟩] }

def connect (s : ClientSystem) : ClientSystem :=
  if s.client.state = .disabled ∨ s.client.state = .closed then s else s.begin_ false

/-- The timer fires, and `reconnect()` runs. -/
def reconnect (s : ClientSystem) : ClientSystem :=
  let s := { s with client := { s.client with reconnectTimer := false } }
  if s.client.state ≠ .disconnected then s else s.begin_ true

def onApplicationShutdown (s : ClientSystem) : ClientSystem :=
  if s.client.state = .disabled then s
  else
    { s with
      client :=
        { s.client with
          state := .closed, connection := none, channel := none, reconnectTimer := false }
      broker := s.client.connection.elim s.broker s.broker.close
      shutDown := true }

/-! ## `open()` -/

/-- It waits for the next promise. -/
def waits (s : ClientSystem) (i : Nat) (reconnecting : Bool) (await : Await) : ClientSystem :=
  { s with opens := s.opens.set i ⟨reconnecting, await, none⟩ }

/-- It returns. -/
def returns (s : ClientSystem) (i : Nat) : ClientSystem := { s with opens := s.opens.eraseIdx i }

/-- It throws: to the caller of `connect()`, or in `reconnect()`, which catches. -/
def throws (s : ClientSystem) (i : Nat) (reconnecting : Bool) : ClientSystem :=
  if reconnecting then (s.returns i).scheduleReconnect else s.returns i

/-- `await closeQuietly(connection)`. -/
def drops (s : ClientSystem) (i : Nat) (reconnecting : Bool) (c : Nat) (rethrow : Bool) :
    ClientSystem :=
  { s with broker := s.broker.close c }.waits i reconnecting (.closeQuietly c rethrow)

/-- All topologies are declared: the connection is adopted, unless shutdown raced it. -/
def adopts (s : ClientSystem) (i : Nat) (reconnecting : Bool) (c : Nat) : ClientSystem :=
  if s.client.state = .closed then s.drops i reconnecting c false
  else
    { s with
      client :=
        { s.client with
          connection := some c, channel := some c, state := .connected, attempts := 0 }
      broker := s.broker.listen c
      succeeded := true }.returns i

/-- The loop over the topologies, `done` replies in. -/
def declares (s : ClientSystem) (i : Nat) (reconnecting : Bool) (c done : Nat) : ClientSystem :=
  if done < s.client.topologies then s.waits i reconnecting (.declare c done)
  else s.adopts i reconnecting c

/-- An `open()` goes on from a promise that has settled. -/
def goesOn (s : ClientSystem) (i : Nat) : Option ClientSystem :=
  match s.opens[i]? with
  | some ⟨reconnecting, .connect, some _⟩ => some (s.throws i reconnecting)
  | some ⟨reconnecting, .connected c, some _⟩ => some (s.waits i reconnecting (.createChannel c))
  | some ⟨reconnecting, .createChannel c, some true⟩ => some (s.declares i reconnecting c 0)
  | some ⟨reconnecting, .declare c done, some true⟩ =>
    some (s.declares i reconnecting c (done + 1))
  | some ⟨reconnecting, .createChannel c, some false⟩
  | some ⟨reconnecting, .declare c _, some false⟩ => some (s.drops i reconnecting c true)
  | some ⟨reconnecting, .closeQuietly _ rethrow, some _⟩ =>
    some (if rethrow then s.throws i reconnecting else s.returns i)
  | _ => none

/-! ## Runs -/

inductive Label
  | connect
  | timer
  | shutdown
  | registerTopology (replies : Nat)
  | settle (i : Nat) (fulfilled : Bool)
  | goOn (i : Nat)
  | channelCloses (c : Nat)
  | connectionCloses (c : Nat)
  deriving DecidableEq, Repr

def step (s : ClientSystem) : Label → Option ClientSystem
  | .connect => some s.connect
  | .timer => if s.client.reconnectTimer then some s.reconnect else none
  | .shutdown => some s.onApplicationShutdown
  | .registerTopology replies =>
    some { s with client := { s.client with topologies := s.client.topologies + replies } }
  | .settle i fulfilled =>
    (settleAt s.broker s.opens i fulfilled).map fun (broker, opens) => { s with broker, opens }
  | .goOn i => s.goesOn i
  | .channelCloses c =>
    (s.broker.channelCloses c).map fun broker =>
      if (s.broker.links c).listening then { s with broker }.onChannelClosed c else { s with broker }
  | .connectionCloses c =>
    (s.broker.connectionCloses c).map fun broker => { s with broker }.onConnectionClosed c

/-- Once shut down the client is never connected again; before that, once it has been connected, it
is connected or on its way to be. -/
structure Recoverable (s : ClientSystem) : Prop where
  closed : s.shutDown = true → s.client.connection = none ∧ s.client.isConnected = false
  recovers : s.succeeded = true → s.shutDown = false →
    (∃ c, s.client.channel = some c ∧ s.broker.Usable c) ∨ s.opens ≠ [] ∨
      s.client.reconnectTimer = true ∨ ∃ c, s.client.connection = some c ∧ s.broker.Closing c

/-- The connection an `open()` is about to adopt. -/
def adopting (s : ClientSystem) (i : Nat) : Option Nat :=
  match s.opens[i]? with
  | some ⟨_, .createChannel c, some true⟩ => if 0 < s.client.topologies then none else some c
  | some ⟨_, .declare c done, some true⟩ =>
    if done + 1 < s.client.topologies then none else some c
  | _ => none

/-- A connection is adopted only while its channel is open. -/
def AdoptsOpen (s : ClientSystem) : Label → Prop
  | .goOn i => s.client.state ≠ .closed → ∀ c ∈ s.adopting i, s.broker.Usable c
  | _ => True

instance (s : ClientSystem) : DecidablePred s.AdoptsOpen
  | .goOn i =>
    inferInstanceAs (Decidable (s.client.state ≠ .closed → ∀ c ∈ s.adopting i, s.broker.Usable c))
  | .connect | .timer | .shutdown | .registerTopology _ | .settle _ _ | .channelCloses _
  | .connectionCloses _ => .isTrue trivial

end ClientSystem

end PracticalMicroservice.Messaging
