import PracticalMicroservice.Inventory.Repository

/-!
# The inventory service (`inventory.service.ts`)

Each method as the source composes it from the repository and the planners. The single-item
operations are one definition, `applyChange`, at their own movement type, quantity and planner; the
two bulk operations are `applyBulkChange` at theirs.
-/

namespace PracticalMicroservice.Inventory

/-- `InventoryItemView`: the row plus the derived fields the API exposes. -/
structure InventoryItemView extends InventoryItem where
  available : Int
  lowStock : Bool
  deriving DecidableEq, Repr

def toInventoryItemView (item : InventoryItem) : InventoryItemView :=
  { item with
    available := availableStock item.levels
    lowStock := isLowStock item.levels item.reorderLevel }

namespace Service

def getById (id : String) : Action InventoryItemView := do
  match (← get).findById id with
  | none => throw (.app (.NotFoundError s!"Inventory item '{id}' was not found"))
  | some item => return toInventoryItemView item

/-- Stock for a product, or nothing when it has not been provisioned yet. -/
def getByProductId (productId : String) : Action (Option InventoryItemView) := do
  return ((← get).findByProductId (uuidText productId)).map toInventoryItemView

/-- One stock record per product; both keys are checked before inserting. -/
def create (id : String) (createdAt : Nat) (input : CreateInventoryItemInput) :
    Action InventoryItemView := do
  match (← get).findBySku input.sku with
  | some _ =>
    throw (.app (.ConflictError s!"Inventory for SKU '{input.sku}' already exists" []))
  | none =>
    match (← get).findByProductId (uuidText input.productId) with
    | some forProduct => throw (.app (.ConflictError
        s!"Inventory for product '{input.productId}' already exists as SKU '{forProduct.sku}'" []))
    | none => return toInventoryItemView (← Repository.create id createdAt input)

/-- A hand-edited quantity must still cover what is already promised. -/
def validatePatch (input : UpdateInventoryItemInput) (current : InventoryItem) :
    Except AppError Unit :=
  match input.quantity with
  | some quantity => assertInvariants { quantity := quantity.value, reserved := current.reserved }
  | none => .ok ()

def update (id : String) (input : UpdateInventoryItemInput) (actor : Option String) :
    Action InventoryItemView := do
  let updated ← Repository.update id input { actor, validate := validatePatch input }
  return toInventoryItemView updated

def remove (id : String) : Action Unit := do
  let item ← getById id
  if item.reserved > 0 then
    throw (.app (.ConflictError
      s!"Cannot delete inventory with {item.reserved} reserved units outstanding" []))
  Repository.delete id

/-! ## Single-item operations -/

/-- The planner of `applyChange`: the levels, re-checked, and the movement that records them. -/
def planChange (type : StockMovementType) (movementQuantity : Int)
    (reason reference : Option String) (plan : StockLevels → Except AppError StockLevels)
    (item : InventoryItem) : Except AppError StockChangePlan := do
  let next ← plan item.levels
  assertInvariants next
  return { levels := next, movement := { type, quantity := movementQuantity, reason, reference } }

def applyChange (id : String) (type : StockMovementType) (movementQuantity : Int)
    (reason reference : Option String) (plan : StockLevels → Except AppError StockLevels) :
    Action InventoryItemView := do
  let updated ← Repository.applyStockChange id
    (planChange type movementQuantity reason reference plan)
  return toInventoryItemView updated

/-- Promise stock to an order without shipping it yet. -/
def reserve (id : String) (input : ReserveStockInput) : Action InventoryItemView :=
  applyChange id .RESERVATION input.quantity.value input.reason input.reference
    (planReservation · input.quantity.value)

/-- Return previously reserved stock to the available pool. -/
def release (id : String) (input : ReserveStockInput) : Action InventoryItemView :=
  applyChange id .RELEASE input.quantity.value input.reason input.reference
    (planRelease · input.quantity.value)

/-- Ship reserved stock: drops both on-hand and reserved. -/
def fulfil (id : String) (input : ReserveStockInput) : Action InventoryItemView :=
  applyChange id .OUTBOUND input.quantity.value input.reason input.reference
    (planFulfilment · input.quantity.value)

/-- Sell stock that was never reserved. -/
def sell (id : String) (input : SellStockInput) : Action InventoryItemView :=
  applyChange id .OUTBOUND input.quantity.value input.reason (some input.reference)
    (planSale · input.quantity.value)

/-- Book in a delivery. -/
def receive (id : String) (input : ReserveStockInput) : Action InventoryItemView :=
  applyChange id .INBOUND input.quantity.value input.reason input.reference
    (planReceipt · input.quantity.value)

/-- Take back sold units. -/
def acceptReturn (id : String) (input : SellStockInput) : Action InventoryItemView :=
  applyChange id .RETURN input.quantity.value input.reason (some input.reference)
    (planReceipt · input.quantity.value)

/-- Signed correction, e.g. after a stock count. -/
def adjust (id : String) (input : AdjustStockInput) : Action InventoryItemView :=
  applyChange id .ADJUSTMENT input.delta.value.natAbs (some input.reason) input.reference
    (planAdjustment · input.delta.value)

/-! ## Bulk operations -/

/-- A planner over levels and a quantity, as the bulk operations take it. -/
abbrev LinePlanner := StockLevels → Int → Except AppError StockLevels

/-- Plans one line and re-checks the invariants on what it would leave. -/
def planLevels (plan : LinePlanner) (item : InventoryItem) (quantity : Int) :
    Except AppError StockLevels := do
  let next ← plan item.levels quantity
  assertInvariants next
  return next

/-- One turn of the loop over the lines: what the line wants, or why it is rejected. -/
def planLine (type : StockMovementType) (plan : LinePlanner) (reason : Option String)
    (reference : String) (byProductId : String → Option InventoryItem) (line : BulkStockLine) :
    Except ErrorDetail BulkStockChangePlan :=
  match byProductId line.productId with
  | none => .error
      { field := line.productId, productId := line.productId, code := .NOT_FOUND,
        message := s!"No inventory item exists for product '{line.productId}'",
        requested := line.quantity.value }
  | some item =>
    match planLevels plan item line.quantity.value with
    | .ok next => .ok
        { productId := line.productId, levels := next,
          movement := { type, quantity := line.quantity.value, reason,
                        reference := some reference } }
    | .error error => .error
        { field := line.productId, productId := line.productId, code := error.code,
          message := error.message, requested := line.quantity.value,
          available := some (availableStock item.levels), reserved := some item.reserved }

def planned? : Except ErrorDetail BulkStockChangePlan → Option BulkStockChangePlan
  | .ok plan => some plan
  | .error _ => none

def failed? : Except ErrorDetail BulkStockChangePlan → Option ErrorDetail
  | .ok _ => none
  | .error failure => some failure

/-- The planner of a batch: every rejected line is reported, and one is enough to refuse it all. -/
def planBatch (type : StockMovementType) (action : String) (plan : LinePlanner)
    (input : BulkStockInput) (byProductId : String → Option InventoryItem) :
    Except AppError (List BulkStockChangePlan) :=
  let outcomes := input.items.map (planLine type plan input.reason input.reference byProductId)
  let failures := outcomes.filterMap failed?
  if failures.length > 0 then
    .error (.ConflictError
      s!"{failures.length} of {input.items.length} lines could not be {action}; nothing was changed"
      failures)
  else .ok (outcomes.filterMap planned?)

def applyBulkChange (type : StockMovementType) (action : String) (input : BulkStockInput)
    (plan : LinePlanner) (idempotencyKey : Option IdempotencyKey) :
    Action (List InventoryItemView) := do
  let updated ← Repository.applyBulkStockChange (input.items.map (·.productId))
    (planBatch type action plan input) idempotencyKey
  return updated.map toInventoryItemView

/-- Reserves stock for a whole cart in one all-or-nothing step. -/
def reserveMany (input : BulkStockInput) : Action (List InventoryItemView) :=
  applyBulkChange .RESERVATION "reserved" input planReservation none

/-- Hands a whole cart's reservations back. -/
def releaseMany (input : BulkStockInput) (idempotencyKey : Option IdempotencyKey := none) :
    Action (List InventoryItemView) :=
  applyBulkChange .RELEASE "released" input planRelease idempotencyKey

end Service

/-! ## The two bulk transitions as one family -/

/-- The transition a bulk route names: `/bulk/reserve` or `/bulk/release`. -/
inductive Transition
  | reserve
  | release
  deriving DecidableEq, Repr

namespace Transition

def type : Transition → StockMovementType
  | reserve => .RESERVATION
  | release => .RELEASE

def action : Transition → String
  | reserve => "reserved"
  | release => "released"

def plan : Transition → Service.LinePlanner
  | reserve => planReservation
  | release => planRelease

/-- `reserveMany` or `releaseMany`. -/
def bulk (t : Transition) (input : BulkStockInput) (idempotencyKey : Option IdempotencyKey) :
    Action (List InventoryItemView) :=
  Service.applyBulkChange t.type t.action input t.plan idempotencyKey

/-- `reserve` or `release` of one item. -/
def single (t : Transition) (id : String) (input : ReserveStockInput) : Action InventoryItemView :=
  match t with
  | reserve => Service.reserve id input
  | release => Service.release id input

end Transition

theorem reserveMany_eq_bulk (input : BulkStockInput) :
    Service.reserveMany input = Transition.reserve.bulk input none := rfl

theorem releaseMany_eq_bulk (input : BulkStockInput) (key : Option IdempotencyKey) :
    Service.releaseMany input key = Transition.release.bulk input key := rfl

end PracticalMicroservice.Inventory
