import PracticalMicroservice.Foundations.Runs
import PracticalMicroservice.Messaging.Amqp

/-!
# Inventory's consumer (`rabbitmq.consumer.ts`)

The object, the calls of its `open()` and of its `stop()` in progress, and the broker. How long
`stop()` waits for the handlers that are running is left to the labels.
-/

namespace PracticalMicroservice.Messaging

namespace RabbitMqConsumer

inductive State
  | idle
  | connected
  | disconnected
  | stopped
  deriving DecidableEq, Repr

end RabbitMqConsumer

/-- The fields of the object. A channel and a consumer go by the number of their connection. -/
structure RabbitMqConsumer where
  state : RabbitMqConsumer.State
  connection : Option Nat
  channel : Option Nat
  consumerTag : Option Nat
  attempts : Nat
  reconnectTimer : Bool
  deriving DecidableEq, Repr

/-- `connected`. -/
def RabbitMqConsumer.isConnected (consumer : RabbitMqConsumer) : Bool :=
  consumer.state == .connected && consumer.channel.isSome

/-- Where a `stop()` waits, with the connection it found. -/
inductive Stopping
  | cancelling (connection : Option Nat)
  | draining (connection : Option Nat)
  deriving DecidableEq, Repr

structure ConsumerSystem where
  consumer : RabbitMqConsumer
  opens : List Opening
  stops : List Stopping
  broker : Broker
  /-- Whether it ever consumed. -/
  succeeded : Bool
  /-- Whether `stop()` was called. -/
  stopCalled : Bool

/-- The broker has answered a `consume`. -/
def Opening.consumed : Opening → Bool
  | ⟨_, .consume _, some true⟩ => true
  | _ => false

/-- Something has failed on the connection. -/
def Opening.failed : Opening → Bool
  | ⟨_, .createChannel _, some false⟩ => true
  | ⟨_, .declare _ _, some false⟩ => true
  | ⟨_, .consume _, some false⟩ => true
  | _ => false

namespace ConsumerSystem

def initial : ConsumerSystem where
  consumer :=
    { state := .idle, connection := none, channel := none, consumerTag := none, attempts := 0
      reconnectTimer := false }
  opens := []
  stops := []
  broker := .empty
  succeeded := false
  stopCalled := false

def scheduleReconnect (s : ConsumerSystem) : ConsumerSystem :=
  if s.consumer.reconnectTimer ∨ s.consumer.state ≠ .disconnected then s
  else
    { s with consumer :=
        { s.consumer with attempts := s.consumer.attempts + 1, reconnectTimer := true } }

def onChannelClosed (s : ConsumerSystem) (c : Nat) : ConsumerSystem :=
  if s.consumer.channel ≠ some c then s
  else
    { s with
      consumer :=
        { s.consumer with
          channel := none
          consumerTag := none
          state := if s.consumer.state = .connected then .disconnected else s.consumer.state }
      broker := s.broker.close c }

def onConnectionClosed (s : ConsumerSystem) (c : Nat) : ConsumerSystem :=
  if s.consumer.connection ≠ some c then s
  else if s.consumer.state = .stopped then
    { s with consumer :=
        { s.consumer with connection := none, channel := none, consumerTag := none } }
  else
    { s with consumer :=
        { s.consumer with
          connection := none, channel := none, consumerTag := none, state := .disconnected } }
      |>.scheduleReconnect

/-- `onDelivery(…, null)`: the broker cancelled the consumer. -/
def onCancelled (s : ConsumerSystem) (c : Nat) : ConsumerSystem :=
  if s.consumer.channel = some c then { s with broker := s.broker.close c } else s

/-- `start()` and `reconnect()` call `open()`. -/
def begin_ (s : ConsumerSystem) (reconnecting : Bool) : ConsumerSystem :=
  { s with opens := s.opens ++ [⟨reconnecting, .connect, none⟩] }

def start (s : ConsumerSystem) : ConsumerSystem :=
  if s.consumer.state ≠ .idle then s else s.begin_ false

/-- The timer fires, and `reconnect()` runs. -/
def reconnect (s : ConsumerSystem) : ConsumerSystem :=
  let s := { s with consumer := { s.consumer with reconnectTimer := false } }
  if s.consumer.state ≠ .disconnected then s else s.begin_ true

/-! ## `stop()` -/

def stop (s : ConsumerSystem) : ConsumerSystem :=
  if s.consumer.state = .stopped then s
  else
    { s with
      consumer := { s.consumer with state := .stopped, reconnectTimer := false }
      stops := s.stops ++
        [if s.consumer.channel.isSome && s.consumer.consumerTag.isSome then
          .cancelling s.consumer.connection else .draining s.consumer.connection]
      stopCalled := true }

/-- The consumer has been cancelled, or the handlers have settled or taken too long. -/
def stopGoesOn (s : ConsumerSystem) (j : Nat) : Option ConsumerSystem :=
  match s.stops[j]? with
  | some (.cancelling connection) => some { s with stops := s.stops.set j (.draining connection) }
  | some (.draining connection) =>
    some { s with
      consumer := { s.consumer with connection := none, channel := none, consumerTag := none }
      stops := s.stops.eraseIdx j
      broker := connection.elim s.broker s.broker.close }
  | none => none

/-! ## `open()` -/

/-- It waits for the next promise. -/
def waits (s : ConsumerSystem) (i : Nat) (reconnecting : Bool) (await : Await) : ConsumerSystem :=
  { s with opens := s.opens.set i ⟨reconnecting, await, none⟩ }

/-- It returns. -/
def returns (s : ConsumerSystem) (i : Nat) : ConsumerSystem :=
  { s with opens := s.opens.eraseIdx i }

/-- It throws: to the caller of `start()`, or in `reconnect()`, which catches. -/
def throws (s : ConsumerSystem) (i : Nat) (reconnecting : Bool) : ConsumerSystem :=
  if reconnecting then (s.returns i).scheduleReconnect else s.returns i

/-- `await closeQuietly(connection)`. -/
def drops (s : ConsumerSystem) (i : Nat) (reconnecting : Bool) (c : Nat) (rethrow : Bool) :
    ConsumerSystem :=
  { s with broker := s.broker.close c }.waits i reconnecting (.closeQuietly c rethrow)

/-- The `catch` of `open()`. -/
def catches (s : ConsumerSystem) (i : Nat) (reconnecting : Bool) (c : Nat) : ConsumerSystem :=
  { s with consumer := { s.consumer with connection := none, channel := none } }.drops i
    reconnecting c true

/-- All is declared: the connection is adopted, unless `stop()` raced it, and `consume` is sent. -/
def adopts (s : ConsumerSystem) (i : Nat) (reconnecting : Bool) (c : Nat) : ConsumerSystem :=
  if s.consumer.state = .stopped then s.drops i reconnecting c false
  else
    { s with consumer := { s.consumer with connection := some c, channel := some c } }.waits i
      reconnecting (.consume c)

/-- `prefetch` and the declarations of the topology, `done` replies in. -/
def declares (declarations : Nat) (s : ConsumerSystem) (i : Nat) (reconnecting : Bool)
    (c done : Nat) : ConsumerSystem :=
  if done < declarations + 1 then s.waits i reconnecting (.declare c done)
  else s.adopts i reconnecting c

/-- The consumer is there. -/
def consumes (s : ConsumerSystem) (i c : Nat) : ConsumerSystem :=
  { s with
    consumer := { s.consumer with consumerTag := some c, state := .connected, attempts := 0 }
    broker := s.broker.listen c
    succeeded := true }.returns i

/-- An `open()` goes on from a promise that has settled. -/
def goesOn (declarations : Nat) (s : ConsumerSystem) (i : Nat) : Option ConsumerSystem :=
  match s.opens[i]? with
  | some ⟨reconnecting, .connect, some _⟩ => some (s.throws i reconnecting)
  | some ⟨reconnecting, .connected c, some _⟩ => some (s.waits i reconnecting (.createChannel c))
  | some ⟨reconnecting, .createChannel c, some true⟩ =>
    some (s.declares declarations i reconnecting c 0)
  | some ⟨reconnecting, .declare c done, some true⟩ =>
    some (s.declares declarations i reconnecting c (done + 1))
  | some ⟨_, .consume c, some true⟩ => some (s.consumes i c)
  | some ⟨reconnecting, .createChannel c, some false⟩
  | some ⟨reconnecting, .declare c _, some false⟩
  | some ⟨reconnecting, .consume c, some false⟩ => some (s.catches i reconnecting c)
  | some ⟨reconnecting, .closeQuietly _ rethrow, some _⟩ =>
    some (if rethrow then s.throws i reconnecting else s.returns i)
  | _ => none

/-! ## Runs -/

inductive Label
  | start
  | timer
  | stop
  | stopGoesOn (j : Nat)
  | settle (i : Nat) (fulfilled : Bool)
  | goOn (i : Nat)
  | channelCloses (c : Nat)
  | connectionCloses (c : Nat)
  | consumerCancelled (c : Nat)
  deriving DecidableEq, Repr

def step (declarations : Nat) (s : ConsumerSystem) : Label → Option ConsumerSystem
  | .start => some s.start
  | .timer => if s.consumer.reconnectTimer then some s.reconnect else none
  | .stop => some s.stop
  | .stopGoesOn j => s.stopGoesOn j
  | .settle i fulfilled =>
    (settleAt s.broker s.opens i fulfilled).map fun (broker, opens) => { s with broker, opens }
  | .goOn i => s.goesOn declarations i
  | .channelCloses c =>
    (s.broker.channelCloses c).map fun broker =>
      if (s.broker.links c).listening then { s with broker }.onChannelClosed c else { s with broker }
  | .connectionCloses c =>
    (s.broker.connectionCloses c).map fun broker => { s with broker }.onConnectionClosed c
  | .consumerCancelled c => some (s.onCancelled c)

/-- Once stopped the consumer is never connected again, and once `stop()` is through it holds no
connection; before that, once it has consumed, it consumes or is on its way to. -/
structure Recoverable (s : ConsumerSystem) : Prop where
  stopped : s.stopCalled = true →
    s.consumer.isConnected = false ∧ (s.stops = [] → s.consumer.connection = none)
  recovers : s.succeeded = true → s.stopCalled = false →
    (∃ c, s.consumer.channel = some c ∧ s.broker.Usable c) ∨ s.opens ≠ [] ∨
      s.consumer.reconnectTimer = true ∨ ∃ c, s.consumer.connection = some c ∧ s.broker.Closing c

/-- The adopted channel is open. -/
def Attached (s : ConsumerSystem) : Prop := ∃ c ∈ s.consumer.channel, s.broker.Usable c

instance (s : ConsumerSystem) : Decidable s.Attached :=
  inferInstanceAs (Decidable (∃ c ∈ s.consumer.channel, s.broker.Usable c))

/-- What an `open()` finds when it goes on: after a `consume`, a consumer that has not been stopped
and whose adopted channel is open; after a failure, one that is not connected and, if it was, has a
reconnect scheduled or under way. -/
def FindsSound (s : ConsumerSystem) (o : Opening) : Prop :=
  (o.consumed = true → s.consumer.state ≠ .stopped ∧ s.Attached) ∧
    (o.failed = true → s.consumer.state ≠ .connected ∧
      (s.consumer.state = .disconnected → s.succeeded = true →
        s.consumer.reconnectTimer = true ∨ ∃ o ∈ s.opens, o.reconnecting = true))

instance (s : ConsumerSystem) : DecidablePred s.FindsSound := fun _ =>
  inferInstanceAs (Decidable ((_ → _ ∧ _) ∧ (_ → _ ∧ (_ → _ → _ ∨ _))))

def GoesOnSound (s : ConsumerSystem) : Label → Prop
  | .goOn i => ∀ o ∈ s.opens[i]?, s.FindsSound o
  | _ => True

instance (s : ConsumerSystem) : DecidablePred s.GoesOnSound
  | .goOn i => inferInstanceAs (Decidable (∀ o ∈ s.opens[i]?, s.FindsSound o))
  | .start | .timer | .stop | .stopGoesOn _ | .settle _ _ | .channelCloses _ | .connectionCloses _
  | .consumerCancelled _ => .isTrue trivial

end ConsumerSystem

end PracticalMicroservice.Messaging
