import PracticalMicroservice.Inventory.Service

/-!
# The stock-event handler (`inventory.consumer.ts`)

A delivery's body is what `JSON.parse` makes of it: nothing, or an envelope whose payload is checked
with the schema of the HTTP bulk endpoints.
-/

namespace PracticalMicroservice.Inventory

/-- `InventoryRoutingKey`. -/
inductive InventoryRoutingKey
  | release
  | fulfil
  | «return»
  deriving DecidableEq, Repr

namespace InventoryRoutingKey

def text : InventoryRoutingKey → String
  | release => "inventory.stock.release"
  | fulfil => "inventory.stock.fulfil"
  | «return» => "inventory.stock.return"

def ofText? (s : String) : Option InventoryRoutingKey :=
  [release, fulfil, «return»].find? (·.text == s)

end InventoryRoutingKey

/-- An envelope before the schema. `occurredAt` is the instant its text denotes, absent when the
text is no ISO date-time. -/
structure RawStockEvent where
  messageId : String
  type : String
  occurredAt : Option Nat
  correlationId : Option String := none
  actor : Option String := none
  payload : BulkBody
  deriving DecidableEq, Repr

/-- The `content` of a message. -/
inductive MessageContent
  | malformed
  | json (raw : RawStockEvent)
  deriving DecidableEq, Repr

/-- `StockEvent`, what `stockEventSchema` infers. -/
structure StockEvent where
  messageId : String
  type : InventoryRoutingKey
  occurredAt : Nat
  correlationId : Option String
  actor : Option String
  payload : BulkStockInput
  deriving DecidableEq

/-- `stockEventSchema.safeParse`. -/
def parseStockEvent (raw : RawStockEvent) : Option StockEvent := do
  let messageId ← boundedText 120 raw.messageId
  let type ← InventoryRoutingKey.ofText? raw.type
  let occurredAt ← raw.occurredAt
  let correlationId ← optionalText 200 raw.correlationId
  let actor ← optionalText 120 raw.actor
  let payload ← parseBulk raw.payload
  return { messageId, type, occurredAt, correlationId, actor, payload }

/-- What a handler tells the consumer to do with a delivery. -/
inductive ConsumeOutcome
  | ack
  | reject
  | requeue
  deriving DecidableEq, Repr

namespace StockEventConsumer

def parse : MessageContent → Option StockEvent
  | .malformed => none
  | .json raw => parseStockEvent raw

def idempotencyKey (event : StockEvent) : IdempotencyKey where
  messageId := event.messageId
  type := event.type.text
  reference := some event.payload.reference

/-- How the outcome of the service call is read. -/
def outcome {α : Type} : Except Thrown α → ConsumeOutcome
  | .ok _ => .ack
  | .error (.app (.DuplicateOperationError _)) => .ack
  | .error (.app _) => .reject
  | .error (.database _) => .requeue

/-- What becomes of the service's transaction, besides what its callback decides: the commit goes
through but its reply is lost, or the database gives out and rolls back. -/
inductive TransactionFate
  | replied
  | replyLost
  | unavailable
  deriving DecidableEq, Repr

def release (fate : TransactionFate) (event : StockEvent) : StateM Database ConsumeOutcome :=
  fun db =>
    let (result, db') := Service.releaseMany event.payload (some (idempotencyKey event)) db
    let lost : Except Thrown Unit := .error (.database .unavailable)
    match fate with
    | .replied => (outcome result, db')
    | .replyLost => (outcome lost, db')
    | .unavailable => (outcome lost, db)

/-- `handle`: fulfilments and returns are named in the contract and not supported yet. -/
def handle (fate : TransactionFate) (content : MessageContent) :
    StateM Database ConsumeOutcome := fun db =>
  match parse content with
  | none => (.reject, db)
  | some event =>
    match event.type with
    | .release => release fate event db
    | .fulfil => (.reject, db)
    | .return => (.reject, db)

end StockEventConsumer

end PracticalMicroservice.Inventory
