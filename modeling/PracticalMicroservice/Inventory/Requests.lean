import PracticalMicroservice.Inventory.Service

/-!
# The operations a client can ask of inventory (`inventory.routes.ts`, `inventory.controller.ts`)

One constructor for each mutating route, with what the router hands the controller, and one for the
release a stock event carries. A run applies them in order, whether they are accepted or not. Some
of them move stock, and some of those add units to an item. The bulk routes are here too as the cart
meets them: a body in, a status and an error out.
-/

namespace PracticalMicroservice.Inventory

/-- A mutating HTTP request. `create` also fixes the id and the timestamp the database picks. -/
inductive Request
  | create (id : String) (createdAt : Nat) (body : CreateInventoryItemInput)
  | receive (id : String) (body : ReserveStockInput)
  | acceptReturn (id : String) (body : SellStockInput)
  | sell (id : String) (body : SellStockInput)
  | adjust (id : String) (body : AdjustStockInput)
  | reserve (id : String) (body : ReserveStockInput)
  | release (id : String) (body : ReserveStockInput)
  | fulfil (id : String) (body : ReserveStockInput)
  | update (id : String) (body : UpdateInventoryItemInput) (actor : Option String)
  | remove (id : String)
  | reserveMany (body : BulkStockInput)
  | releaseMany (body : BulkStockInput)

namespace Request

/-- The controller method behind the route; the response body is dropped. -/
def run : Request → Action Unit
  | create id createdAt body => do let _ ← Service.create id createdAt body
  | receive id body => do let _ ← Service.receive id body
  | acceptReturn id body => do let _ ← Service.acceptReturn id body
  | sell id body => do let _ ← Service.sell id body
  | adjust id body => do let _ ← Service.adjust id body
  | reserve id body => do let _ ← Service.reserve id body
  | release id body => do let _ ← Service.release id body
  | fulfil id body => do let _ ← Service.fulfil id body
  | update id body actor => do let _ ← Service.update id body actor
  | remove id => Service.remove id
  | reserveMany body => do let _ ← Service.reserveMany body
  | releaseMany body => do let _ ← Service.releaseMany body

end Request

/-- A request, or the release of a stock event under its idempotency key. -/
inductive Operation
  | request (request : Request)
  | message (payload : BulkStockInput) (idempotencyKey : IdempotencyKey)

namespace Operation

def run : Operation → Action Unit
  | request r => r.run
  | message payload key => do let _ ← Service.releaseMany payload (some key)

end Operation

/-- The database after a sequence of operations, each of which may have been rejected. -/
def runAll (db : Database) (operations : List Operation) : Database :=
  operations.foldl (fun db operation => (operation.run db).2) db

/-! ## What brings stock in -/

/-- Neither on-hand nor reserved units. -/
def StockLevels.Empty (levels : StockLevels) : Prop := levels.quantity ≤ 0 ∧ levels.reserved ≤ 0

instance (levels : StockLevels) : Decidable levels.Empty :=
  inferInstanceAs (Decidable (_ ∧ _))

namespace Operation

/-- The operation moves stock: it neither creates, patches nor deletes a record. -/
def movesStock : Operation → Bool
  | request (.create _ _ _) | request (.update _ _ _) | request (.remove _) => false
  | _ => true

/-- The operation adds units to an item that is there: a delivery, a return, or a correction
upwards. -/
def Delivers (db : Database) (id : String) : Operation → Prop
  | request (.receive id' _) | request (.acceptReturn id' _) =>
    id' = id ∧ (db.findById id).isSome
  | request (.adjust id' body) => id' = id ∧ (db.findById id).isSome ∧ 0 < body.delta.value
  | _ => False

instance (db : Database) (id : String) : DecidablePred (Delivers db id)
  | request (.receive id' _) | request (.acceptReturn id' _) =>
    inferInstanceAs (Decidable (id' = id ∧ (db.findById id).isSome))
  | request (.adjust id' body) =>
    inferInstanceAs (Decidable (id' = id ∧ (db.findById id).isSome ∧ 0 < body.delta.value))
  | request (.create _ _ _) | request (.sell _ _) | request (.reserve _ _)
  | request (.release _ _) | request (.fulfil _ _) | request (.update _ _ _)
  | request (.remove _) | request (.reserveMany _) | request (.releaseMany _) | message _ _ =>
    .isFalse fun h => h

end Operation

/-! ## The bulk routes -/

/-- What the cart reads of an answer. -/
structure Response where
  status : Nat
  message : String := ""
  details : List ErrorDetail := []
  deriving DecidableEq, Repr

namespace Response

/-- The statuses the cart takes for a success. -/
def isOk (response : Response) : Bool := 200 ≤ response.status && response.status < 300

end Response

/-- The message of the envelope, after `toAppError` and `fromPrismaError`. -/
def Thrown.message : Thrown → String
  | app error => error.message
  | database .uniqueViolation => "Unique constraint violation"
  | database .recordNotFound => "Requested record does not exist"
  | database .valueOutOfRange => "Unexpected database error"
  | database .unavailable => "Database is unavailable"

def Thrown.details : Thrown → List ErrorDetail
  | app error => error.details
  | database _ => []

/-- The answer to a bulk request: the schema first, then the transition. -/
def bulkRoute (t : Transition) (body : BulkBody) : StateM Database Response := fun db =>
  match parseBulk body with
  | none => ({ status := 422, message := "Request validation failed" }, db)
  | some input =>
    match t.bulk input none db with
    | (.ok _, db') => ({ status := 200 }, db')
    | (.error thrown, db') =>
      ({ status := thrown.statusCode, message := thrown.message, details := thrown.details }, db')

end PracticalMicroservice.Inventory
