import PracticalMicroservice.Cart.System

/-!
# What a release says (`inventory.messages.ts`, `inventory-events.ts`, `request-context.ts`)

A release leaves the cart as the headers and the body of a request, or as a message. Inventory reads
either with bounds of its own.
-/

namespace PracticalMicroservice

/-! ## How inventory reads a request's headers -/

namespace Inventory

/-- `inventory_audit_logs.actor`; longer values are truncated. -/
def ACTOR_MAX_LENGTH : Nat := 120

/-- The UTF-16 code units of a character. -/
def codeUnits (c : Char) : Nat := if 0xFFFF < c.val then 2 else 1

/-- `value.slice(0, max)`, on the code units that are left. Half of a surrogate pair is dropped. -/
def sliceUnits : Nat → List Char → List Char
  | _, [] => []
  | max, c :: rest =>
    if codeUnits c ≤ max then c :: sliceUnits (max - codeUnits c) rest else []

/-- The correlation id and the actor that `requestContext` gives a request. -/
def requestContext (requestId actor : Option String) (generated : String) :
    String × Option String :=
  ((requestId.filter fun inbound => inbound ≠ "" ∧ jsLength inbound ≤ 200).getD generated,
    ((actor.map trim).filter (· ≠ "")).map fun actor =>
      String.ofList (sliceUnits ACTOR_MAX_LENGTH actor.toList))

/-- What inventory understands of a release. -/
structure Understood where
  items : List StockLine
  reference : String
  reason : Option String
  correlationId : Option String
  actor : Option String
  deriving DecidableEq, Repr

end Inventory

namespace Cart

open Foundations (Contract)
open Inventory (BulkBody RawStockEvent Understood boundedText jsLength trim isUuid)

/-! ## What the cart sends -/

/-- `header`: the first value of a header, trimmed, if that leaves anything. -/
def header (raw : Option String) : Option String := (raw.map trim).filter (· ≠ "")

/-- A release as a transport is handed it. -/
structure Release where
  items : List StockLine
  reference : SessionId
  options : StockChangeOptions

/-- What travels: a request with its headers, or a message. -/
inductive Parcel
  | request (requestId actor : Option String) (body : BulkBody)
  | message (content : RawStockEvent)

namespace Release

variable (release : Release)

/-- The body of `bulk`. -/
def body : BulkBody where
  items := toBody release.items
  reference := release.reference.text
  reason := reasonField release.options.reason

/-- The request that `bulk` makes: a header for what the context has. -/
def request : Parcel :=
  .request (release.options.context.requestId.filter (· ≠ ""))
    (release.options.context.actor.filter (· ≠ "")) release.body

/-- `buildStockChangeMessage`. -/
def message (messageId : String) (occurredAt : Nat) : RawStockEvent where
  messageId
  type := Inventory.InventoryRoutingKey.release.text
  occurredAt := some occurredAt
  correlationId := release.options.context.requestId
  actor := release.options.context.actor
  payload :=
    { items := toBody release.items, reference := release.reference.text,
      reason := release.options.reason }

/-- The release goes out as the parcel. -/
inductive TravelsAs : Parcel → Prop
  | request : TravelsAs release.request
  | message (messageId : String) (occurredAt : Nat) (huuid : isUuid messageId) :
    TravelsAs (.message (release.message messageId occurredAt))

/-- The command hands the release over. -/
inductive SentBy : Command → Prop
  | post : SentBy (.post .release release.body)
  | publish (messageId : String) (occurredAt : Nat) (huuid : isUuid messageId) :
    SentBy (.publish (release.message messageId occurredAt))

/-- The lines are named products, each once, of units there are, for a cart the service has minted
the id of. -/
structure Sendable : Prop where
  nonempty : release.items ≠ []
  distinct : (release.items.map (·.productId)).Nodup
  lines : ∀ line ∈ release.items, isUuid line.productId ∧ 0 < line.quantity
  reference : isUuid release.reference.text
  reason : ∃ reason, release.options.reason = some reason ∧ boundedText 500 reason = some reason
  correlated : header release.options.context.requestId = release.options.context.requestId

/-- What is sent is within what inventory takes. -/
structure Bounded : Prop where
  lines : release.items.length ≤ Inventory.MAX_BULK_LINES
  quantities : ∀ line ∈ release.items, line.quantity ≤ 1000000000
  actor : ∀ actor ∈ release.options.context.actor, boundedText 120 actor = some actor
  correlated : ∀ requestId ∈ release.options.context.requestId, jsLength requestId ≤ 200

/-- What inventory understands is what the cart means. -/
structure Meant (u : Understood) : Prop where
  items : u.items = toBody release.items
  reference : u.reference = release.reference.text
  reason : u.reason = release.options.reason
  actor : u.actor = release.options.context.actor
  correlated : ∀ requestId ∈ release.options.context.requestId, u.correlationId = some requestId

end Release

/-! ## What inventory makes of it -/

/-- What inventory understands of a parcel, where `generated` is the id it would mint itself. -/
def Parcel.understood (generated : String) : Parcel → Option Understood
  | .request requestId actor body =>
    let (correlationId, actor) := Inventory.requestContext requestId actor generated
    (Inventory.parseBulk body).map fun input =>
      { items := input.items.map fun line =>
          { productId := line.productId, quantity := line.quantity.value }
        reference := input.reference
        reason := input.reason
        correlationId := some correlationId
        actor }
  | .message content => do
    let event ← Inventory.parseStockEvent content
    if event.type = .release then
      some
        { items := event.payload.items.map fun line =>
            { productId := line.productId, quantity := line.quantity.value }
          reference := event.payload.reference
          reason := event.payload.reason
          correlationId := event.correlationId
          actor := event.actor }
    else none

/-- Inventory takes the parcel for the release it is. -/
def Parcel.Conveys (parcel : Parcel) (release : Release) : Prop :=
  ∀ generated, ∃ u ∈ parcel.understood generated, release.Meant u

/-! ## What the cart may do -/

/-- The fields of a cart's record: named products and units there are, for a cart the service has
minted the id of. -/
structure Recordable (cart : SessionId) (fields : List (String × Int)) : Prop where
  distinct : Entries.Distinct fields
  lines : ∀ field ∈ fields, isUuid field.1 ∧ 0 < field.2
  minted : fields ≠ [] → isUuid cart.text

/-- Only minted carts have a session or a record, and only named products are recorded. -/
structure Redis.Tidy (r : Redis) : Prop where
  sessions : ∀ cart expiresAt, r.session cart = some expiresAt → isUuid cart.text
  records : ∀ cart hash, r.items cart = some hash → Recordable cart hash.fields

/-- What the service does: it starts minted carts, writes named products, and makes such releases as
it is to make. Its replies are those of a tidy store, of `randomUUID` and of inventory's schema. -/
def sending (P : Release → Prop) : Contract Command Command.Reply Unit where
  allows
    | .startSession cart _, _ => isUuid cart.text
    | .cartCommit cart writes _ _ _ _, _ =>
      isUuid cart.text ∧ ∀ line ∈ writes, isUuid line.productId ∧ 0 < line.quantity
    | .post t body, _ =>
      t = .release → ∃ release : Release, P release ∧ release.SentBy (.post t body)
    | .publish message, _ =>
      ∃ release : Release, P release ∧ release.SentBy (.publish message)
    | _, _ => True
  replies
    | .randomUUID, _, uuid, _ => isUuid uuid
    | .hgetall cart, _, reply, _ => ∀ fields ∈ reply, Recordable cart fields
    | .cartTake cart _, _, reply, _ => ∀ fields ∈ reply, Recordable cart fields
    | .cartTouch cart _ _ _, _, reply, _ => reply = some true → isUuid cart.text
    | .post _ body, _, reply, _ =>
      ∀ response ∈ reply, response.isOk → ∃ input, Inventory.parseBulk body = some input
    | _, _, _, _ => True

/-! ## The releases of a run -/

/-- The command is to give units back. -/
def Command.givesBack : Command → Bool
  | .post t _ => t == .release
  | .publish _ => true
  | _ => false

/-- Inventory takes what the command sends it. -/
def Command.understandable : Command → Bool
  | .post _ body => (Inventory.parseBulk body).isSome
  | .publish message => (Inventory.parseStockEvent message).isSome
  | _ => true

/-- A release was handed over that inventory does not take. -/
def Event.refused : Event → Bool
  | .performed _ command _ => command.givesBack && !command.understandable
  | .consumed _ _ => false

/-- The release of a cart that is given up or has expired. -/
def Release.ofHold (env : Env) (cart : SessionId) (record : List (String × Int))
    (cause : ReleaseCause) (requestId : String) : Release where
  items := toCartLines env.collates (heldQuantities record)
  reference := cart
  options :=
    { reason := some s!"Cart {cause.text}"
      context := { requestId := some requestId, actor := some env.SERVICE_NAME } }

/-- The commands of a program that has the world to itself. -/
def commandsOf {α : Type} (deal : Command → Fate) :
    Foundations.Program Command Command.Reply α → World → List Command
  | .done _, _ => []
  | .perform command next, w =>
    command :: commandsOf deal (next (w.perform (deal command) command).1)
      (w.perform (deal command) command).2

/-- A request in the context its headers give, or a run of the watcher. -/
def Task.requested : Task → Prop
  | .setItems _ _ context | .checkoutCart _ _ context =>
    header context.requestId = context.requestId
  | .setLines _ cart context | .checkout cart _ context =>
    isUuid cart.text ∧ header context.requestId = context.requestId
  | .getCart _ | .abandon _ | .sweep | .releaseSession _ _ => True
  | .repository _ _ => False

instance : DecidablePred Task.requested
  | .setItems _ _ context | .checkoutCart _ _ context =>
    inferInstanceAs (Decidable (header context.requestId = context.requestId))
  | .setLines _ cart context | .checkout cart _ context =>
    inferInstanceAs (Decidable (isUuid cart.text ∧ header context.requestId = context.requestId))
  | .getCart _ | .abandon _ | .sweep | .releaseSession _ _ => .isTrue trivial
  | .repository _ _ => .isFalse id

/-- Only requests and the watcher start threads. -/
def requested (_ : System) : Label → Prop
  | .spawn task => task.requested
  | _ => True

instance (s : System) : DecidablePred (requested s)
  | .spawn task => inferInstanceAs (Decidable task.requested)
  | .notify _ | .call _ _ | .crash _ | .lapse _ | .tick _ | .expire _ | .other _ _ | .consume _ _ =>
    .isTrue trivial

end Cart

end PracticalMicroservice
