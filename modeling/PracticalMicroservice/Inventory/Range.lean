import PracticalMicroservice.Inventory.Trail
import PracticalMicroservice.Inventory.Proofs.TransactionProofs

/-!
# The range of the stock columns

The schemas bound what one request may add; the columns hold the sum of them all. No planner looks
at the range, so it is the database that refuses what goes beyond it.
-/

namespace PracticalMicroservice.Inventory

/-- What the planner of a batch returns for writing. -/
def bulkPlans (t : Transition) (input : BulkStockInput) (db : Database) : List StockLevels :=
  let productIds := input.items.map (·.productId)
  let current := db.inventoryItems.filter fun row =>
    (productIds.map uuidText).contains (uuidText row.productId)
  let plans := Service.planBatch t.type t.action t.plan input
    fun productId => current.find? (·.productId = productId)
  (plans.toOption.getD []).map (·.levels)

/-- What the planner of a single-item operation returns for writing. -/
def StockChange.plans (c : StockChange) (db : Database) : List StockLevels :=
  ((db.findById c.id).bind fun item => (c.planned item).toOption).toList.map (·.levels)

/-- What a patch that its check lets through writes. -/
def patchPlans (id : String) (body : UpdateInventoryItemInput) (db : Database) :
    List StockLevels :=
  ((db.findById id).filter fun item => (Service.validatePatch body item).isOk).toList.map
    fun item => (item.applyPatch body).levels

/-- The levels an operation wants written. -/
def Operation.plans (db : Database) : Operation → List StockLevels
  | request (.create _ _ body) => [{ quantity := body.quantity.value, reserved := 0 }]
  | request (.update id body _) => patchPlans id body db
  | request (.remove _) => []
  | request (.reserveMany body) => bulkPlans .reserve body db
  | request (.releaseMany body) => bulkPlans .release body db
  | request r =>
    match r.change? with
    | some c => c.plans db
    | none => []
  | message payload _ => bulkPlans .release payload db

/-- What is planned fits the columns, and it is not the database that refuses it. -/
structure RangeKept (db : Database) (op : Operation) : Prop where
  plans : ∀ levels ∈ op.plans db, levels.Fits
  refusal : (op.run db).1 ≠ .error (.database .valueOutOfRange)

/-- The amount takes an item over the range of its column. -/
def Database.Exceeds (db : Database) (id : String) (amount : Int) : Prop :=
  ∃ item ∈ db.findById id, 2147483647 < item.quantity + amount

/-- A receipt or a correction that takes an item over the range of its column. -/
def Operation.Overflows (db : Database) : Operation → Prop
  | request (.receive id body) => db.Exceeds id body.quantity.value
  | request (.acceptReturn id body) => db.Exceeds id body.quantity.value
  | request (.adjust id body) => db.Exceeds id body.delta.value
  | _ => False

end PracticalMicroservice.Inventory
