import PracticalMicroservice.Cart.World

/-!
# Inventory's two adapters (`inventory.http.adapter.ts`, `inventory.amqp.adapter.ts`)

The request/response port is always HTTP; the fire-and-forget half travels over HTTP or the broker,
as the configuration says.
-/

namespace PracticalMicroservice.Cart

open Inventory (Transition BulkBody Response ErrorDetail)

abbrev StockLine := CartLine

/-- `CallContext`: the headers of a request, and the envelope of a message. -/
structure CallContext where
  requestId : Option String := none
  actor : Option String := none
  deriving DecidableEq, Repr

/-- `StockChangeOptions`. -/
structure StockChangeOptions where
  reason : Option String := none
  context : CallContext := {}
  deriving DecidableEq, Repr

/-- The lines as JSON carries them. -/
def toBody (items : List StockLine) : List Inventory.StockLine :=
  items.map fun line => { productId := line.productId, quantity := line.quantity }

/-- `...(options.reason ? { reason: options.reason } : {})`. -/
def reasonField (reason : Option String) : Option String := reason.filter (· ≠ "")

namespace HttpInventoryAdapter

/-- `toStockFailures`, on details inventory shaped. -/
def toStockFailures (details : List ErrorDetail) : List StockFailure :=
  details.map fun detail =>
    { productId := detail.productId, code := detail.code, message := detail.message,
      requested := detail.requested, available := detail.available, reserved := detail.reserved }

/-- Translates an inventory failure into this service's vocabulary. -/
def toException (response : Response) : Exception :=
  if response.status ≥ 500 then
    .ServiceUnavailableException s!"Inventory service failed: {response.message}"
  else if response.status = 409 then
    .InsufficientStockException response.message (toStockFailures response.details)
  else .BadRequestException s!"Inventory rejected the request: {response.message}"

/-- `request`, for the two routes the cart posts to. -/
def request (transition : Transition) (body : BulkBody) : Promise Unit := do
  match ← Promise.call (.post transition body) with
  | none => throw (.ServiceUnavailableException "Inventory service is unreachable")
  | some response =>
    if response.isOk then return () else throw (toException response)

/-- Shared body of the two bulk transitions. -/
def bulk (transition : Transition) (items : List StockLine) (reference : SessionId)
    (options : StockChangeOptions) : Promise Unit := do
  if items.length = 0 then return ()
  if ¬ (items.map (·.productId)).Nodup then
    throw (.BadRequestException
      "Each productId may appear only once; combine duplicates into a single line")
  if items.length > MAX_BULK_LINES then
    throw (.BadRequestException
      s!"A cart may hold at most {MAX_BULK_LINES} distinct products")
  request transition
    { items := toBody items, reference := reference.text, reason := reasonField options.reason }

def reserveMany (items : List StockLine) (reference : SessionId) (options : StockChangeOptions) :
    Promise Unit := bulk .reserve items reference options

def releaseMany (items : List StockLine) (reference : SessionId) (options : StockChangeOptions) :
    Promise Unit := bulk .release items reference options

/-- The reason of the call that puts a hold back after a failed transfer. -/
def TRANSFER_ROLLBACK_REASON : String := "Rolling back a failed hold transfer"

/-- Moves a hold from one reference to another: out, then in, and back when that fails. -/
def transferHold (items : List StockLine) (source target : SessionId)
    (options : StockChangeOptions) : Promise Unit := do
  if items.length = 0 then return ()
  bulk .release items source
    { options with reason := options.reason.orElse fun _ => some "Hold transferred out" }
  tryCatch
    (bulk .reserve items target
      { options with reason := options.reason.orElse fun _ => some "Hold transferred in" })
    fun error => do
      -- a put-back that fails too is logged, and the first error thrown
      tryCatch (bulk .reserve items source { options with reason := some TRANSFER_ROLLBACK_REASON })
        fun _ => return ()
      throw error

end HttpInventoryAdapter

namespace AmqpInventoryDispatch

/-- Hands the message to the broker, and resolves once it has confirmed it. -/
def publish (message : Inventory.RawStockEvent) : Promise Unit := do
  let confirmed : Bool ← Promise.call (.publish message)
  if confirmed then return ()
  else throw (.ServiceUnavailableException "Message broker is unreachable")

/-- `releaseMany`: one message, under an id of its own for each attempt. -/
def releaseMany (items : List StockLine) (reference : SessionId) (options : StockChangeOptions) :
    Promise Unit := do
  if items.length = 0 then return ()
  let messageId ← Promise.randomUUID
  let occurredAt ← Promise.dateNow
  publish
    { messageId, type := Inventory.InventoryRoutingKey.release.text, occurredAt := some occurredAt,
      correlationId := options.context.requestId, actor := options.context.actor,
      payload := { items := toBody items, reference := reference.text, reason := options.reason } }

end AmqpInventoryDispatch

/-- `INVENTORY_DISPATCH`, by the configured transport. -/
def dispatchReleaseMany (env : Env) (items : List StockLine) (reference : SessionId)
    (options : StockChangeOptions) : Promise Unit :=
  match env.INVENTORY_DISPATCH_TRANSPORT with
  | .http => HttpInventoryAdapter.releaseMany items reference options
  | .amqp => AmqpInventoryDispatch.releaseMany items reference options

end PracticalMicroservice.Cart
