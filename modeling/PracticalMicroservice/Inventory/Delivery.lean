import PracticalMicroservice.Foundations.Runs
import PracticalMicroservice.Inventory.Consumer
import PracticalMicroservice.Inventory.Requests
import Mathlib.Data.List.Count

/-!
# Consuming stock events (`rabbitmq.consumer.ts`)

The broker's queues, any number of consumer processes with the handlers they have running, and the
database, as one labelled transition system. A label is one thing that can happen next: a delivery,
a handler's transaction, a settle sent or read, a lost channel, a crash, a message shovelled back,
an HTTP request from elsewhere.
-/

namespace PracticalMicroservice.Inventory

/-- A frame that settles a delivery: `channel.ack(message)` or
`channel.nack(message, false, requeue)`. -/
inductive Settle
  | ack
  | nack (requeue : Bool)
  deriving DecidableEq, Repr

/-- How far `process` has come with one delivery. -/
inductive Progress
  | handling
  | settling (outcome : ConsumeOutcome)
  | pausing
  | done
  deriving DecidableEq, Repr

/-- Where the broker has a delivery. -/
inductive Custody
  | unacked
  | acked
  | deadLettered
  | requeued
  deriving DecidableEq, Repr

/-- One delivery. `frame` is the settle sent for it and not read by the broker yet. -/
structure Delivery where
  consumer : Nat
  channel : Nat
  message : MessageContent
  progress : Progress
  frame : Option Settle
  custody : Custody
  deriving DecidableEq

/-- The broker, the consumers and the database. A delivery's tag is its index in `deliveries`;
`applied` logs the tag and the event of each transaction that committed. -/
structure DeliveryState where
  ready : List MessageContent
  dead : List MessageContent
  deliveries : List Delivery
  /-- `this.channel` of each consumer process. -/
  channelOf : Nat → Option Nat
  nextChannel : Nat
  /-- The channels the broker has closed. -/
  closed : List Nat
  database : Database
  applied : List (Nat × StockEvent)

/-- What can happen next. -/
inductive DeliveryLabel
  /-- `open`: a consumer adopts a new channel. -/
  | connect (consumer : Nat)
  /-- The broker hands a ready message to a consumer. -/
  | deliver (consumer index : Nat)
  /-- The handler of a delivery runs its transaction and returns. -/
  | handle (tag : Nat) (fate : StockEventConsumer.TransactionFate)
  /-- `process` goes on with the outcome. -/
  | settle (tag : Nat)
  /-- `process` goes on after the pause before a requeue. -/
  | wake (tag : Nat)
  /-- The broker reads a settle. -/
  | frame (tag : Nat)
  /-- The broker loses a channel, and requeues what was unacked on it. -/
  | loseChannel (channel : Nat)
  /-- `onChannelClosed`, `onConnectionClosed` or `stop` drops the consumer's channel. -/
  | noticeClosed (consumer : Nat)
  /-- A consumer process dies with its handlers. -/
  | crash (consumer : Nat)
  /-- A dead-lettered message is moved back to the queue. -/
  | shovel (index : Nat)
  /-- An HTTP request of some other client. -/
  | request (request : Request)

namespace DeliveryState

def initial (messages : List MessageContent) (database : Database) : DeliveryState where
  ready := messages
  dead := []
  deliveries := []
  channelOf := fun _ => none
  nextChannel := 0
  closed := []
  database := database
  applied := []

def setChannel (s : DeliveryState) (consumer : Nat) (channel : Option Nat) : DeliveryState :=
  { s with channelOf := fun c => if c = consumer then channel else s.channelOf c }

/-- Changes one delivery. -/
def update (s : DeliveryState) (tag : Nat) (f : Delivery → Delivery) : DeliveryState :=
  { s with deliveries := s.deliveries.modify tag f }

/-- The transaction committed and recorded the message: a row of it is there that was not. -/
def recorded (db db' : Database) : Bool :=
  db.processedMessages.length < db'.processedMessages.length

/-- What a handler's transaction adds to the log. -/
def logEntry (tag : Nat) (message : MessageContent) (db db' : Database) :
    List (Nat × StockEvent) :=
  match StockEventConsumer.parse message with
  | some event => if recorded db db' then [(tag, event)] else []
  | none => []

/-- Runs the handler of a delivery. -/
def handle (s : DeliveryState) (tag : Nat) (fate : StockEventConsumer.TransactionFate)
    (d : Delivery) : DeliveryState :=
  let handled := StockEventConsumer.handle fate d.message s.database
  { s.update tag fun d => { d with progress := .settling handled.1 } with
    database := handled.2
    applied := s.applied ++ logEntry tag d.message s.database handled.2 }

/-- `process` after the handler: nothing is settled on a channel other than the delivery's own. -/
def settle (s : DeliveryState) (tag : Nat) (d : Delivery) (outcome : ConsumeOutcome) :
    DeliveryState :=
  if s.channelOf d.consumer ≠ some d.channel then
    s.update tag fun d => { d with progress := .done }
  else match outcome with
    | .ack => s.update tag fun d => { d with progress := .done, frame := some .ack }
    | .reject => s.update tag fun d => { d with progress := .done, frame := some (.nack false) }
    | .requeue => s.update tag fun d => { d with progress := .pausing }

/-- `process` after the pause, with the same check again. -/
def wake (s : DeliveryState) (tag : Nat) (d : Delivery) : DeliveryState :=
  if s.channelOf d.consumer ≠ some d.channel then
    s.update tag fun d => { d with progress := .done }
  else s.update tag fun d => { d with progress := .done, frame := some (.nack true) }

/-- The broker reads a settle; one for a delivery it no longer holds is dropped. -/
def readFrame (s : DeliveryState) (tag : Nat) (d : Delivery) (frame : Settle) : DeliveryState :=
  if d.custody ≠ .unacked then s.update tag fun d => { d with frame := none }
  else match frame with
    | .ack => s.update tag fun d => { d with frame := none, custody := .acked }
    | .nack false =>
      { s.update tag fun d => { d with frame := none, custody := .deadLettered } with
        dead := s.dead ++ [d.message] }
    | .nack true =>
      { s.update tag fun d => { d with frame := none, custody := .requeued } with
        ready := s.ready ++ [d.message] }

/-- The deliveries a lost channel leaves unacked. -/
def unackedOn (s : DeliveryState) (channel : Nat) : List Delivery :=
  s.deliveries.filter fun d => d.channel = channel ∧ d.custody = .unacked

def loseChannel (s : DeliveryState) (channel : Nat) : DeliveryState :=
  { s with
    closed := channel :: s.closed
    ready := s.ready ++ (s.unackedOn channel).map (·.message)
    deliveries := s.deliveries.map fun d =>
      if d.channel = channel ∧ d.custody = .unacked then
        { d with custody := .requeued, frame := none }
      else d }

def crash (s : DeliveryState) (consumer : Nat) : DeliveryState :=
  { s.setChannel consumer none with
    deliveries := s.deliveries.map fun d =>
      if d.consumer = consumer then { d with progress := .done } else d }

/-- One step; a label that cannot happen in the state has none. -/
def step (s : DeliveryState) : DeliveryLabel → Option DeliveryState
  | .connect consumer =>
    match s.channelOf consumer with
    | none => some
        { s.setChannel consumer (some s.nextChannel) with nextChannel := s.nextChannel + 1 }
    | some _ => none
  | .deliver consumer index =>
    match s.channelOf consumer, s.ready[index]? with
    | some channel, some message =>
      if channel ∈ s.closed then none
      else some
        { s with
          ready := s.ready.eraseIdx index
          deliveries := s.deliveries ++
            [{ consumer, channel, message, progress := .handling, frame := none,
               custody := .unacked }] }
    | _, _ => none
  | .handle tag fate =>
    match s.deliveries[tag]? with
    | some d => if d.progress = .handling then some (s.handle tag fate d) else none
    | none => none
  | .settle tag =>
    match s.deliveries[tag]? with
    | some d =>
      match d.progress with
      | .settling outcome => some (s.settle tag d outcome)
      | _ => none
    | none => none
  | .wake tag =>
    match s.deliveries[tag]? with
    | some d => if d.progress = .pausing then some (s.wake tag d) else none
    | none => none
  | .frame tag =>
    match s.deliveries[tag]? with
    | some d =>
      match d.frame with
      | some frame => some (s.readFrame tag d frame)
      | none => none
    | none => none
  | .loseChannel channel => some (s.loseChannel channel)
  | .noticeClosed consumer => some (s.setChannel consumer none)
  | .crash consumer => some (s.crash consumer)
  | .shovel index =>
    match s.dead[index]? with
    | some message => some
        { s with dead := s.dead.eraseIdx index, ready := s.ready ++ [message] }
    | none => none
  | .request request => some { s with database := (request.run s.database).2 }

/-- The state a sequence of steps leads to. -/
abbrev run : DeliveryState → List DeliveryLabel → Option DeliveryState := Foundations.runs step

end DeliveryState

end PracticalMicroservice.Inventory
