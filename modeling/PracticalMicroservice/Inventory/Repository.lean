import PracticalMicroservice.Inventory.Rules
import PracticalMicroservice.Inventory.Schema
import Mathlib.Data.List.Sort
import Mathlib.Data.String.Basic

/-!
# The inventory database and its repository (`inventory.repository.ts`)

`Database` carries the constraints of `schema.prisma` as fields, so a state that breaks a unique
index or a column's range cannot be built; a statement that would break one raises. A transaction
runs on a state of its own: `commit` keeps that state when the callback returns and drops it when
the callback throws.
-/

namespace PracticalMicroservice.Inventory

/-! ## Rows -/

/-- `InventoryItem`. -/
structure InventoryItem where
  id : String
  sku : String
  productId : String
  warehouse : String
  quantity : Int
  reserved : Int
  reorderLevel : Int
  createdAt : Nat
  deriving DecidableEq, Repr

namespace InventoryItem

def levels (item : InventoryItem) : StockLevels :=
  { quantity := item.quantity, reserved := item.reserved }

/-- Writes the two columns a stock change touches. -/
def setLevels (item : InventoryItem) (next : StockLevels) : InventoryItem :=
  { item with quantity := next.quantity, reserved := next.reserved }

@[simp] theorem setLevels_id (item : InventoryItem) (next : StockLevels) :
    (item.setLevels next).id = item.id := rfl
@[simp] theorem setLevels_sku (item : InventoryItem) (next : StockLevels) :
    (item.setLevels next).sku = item.sku := rfl
@[simp] theorem setLevels_productId (item : InventoryItem) (next : StockLevels) :
    (item.setLevels next).productId = item.productId := rfl
@[simp] theorem setLevels_levels (item : InventoryItem) (next : StockLevels) :
    (item.setLevels next).levels = next := rfl

end InventoryItem

/-- `StockMovementHistory`. -/
structure StockMovementHistory where
  itemId : String
  type : StockMovementType
  quantityChanged : Int
  lastQuantity : Int
  reason : Option String
  reference : Option String
  deriving DecidableEq, Repr

/-- `InventoryAuditLog`. -/
structure InventoryAuditLog where
  itemId : String
  field : String
  oldValue : String
  newValue : String
  actor : Option String
  deriving DecidableEq, Repr

/-- `ProcessedMessage`. -/
structure ProcessedMessage where
  messageId : String
  type : String
  reference : Option String
  deriving DecidableEq, Repr

/-- The range of an `Int` column. -/
def fitsInt4 (n : Int) : Prop := -2147483648 ≤ n ∧ n ≤ 2147483647

instance (n : Int) : Decidable (fitsInt4 n) := inferInstanceAs (Decidable (_ ∧ _))

def InventoryItem.Fits (item : InventoryItem) : Prop :=
  fitsInt4 item.quantity ∧ fitsInt4 item.reserved ∧ fitsInt4 item.reorderLevel

instance (item : InventoryItem) : Decidable item.Fits := inferInstanceAs (Decidable (_ ∧ _ ∧ _))

/-- The primary key and the two unique indexes of `inventory_items`. -/
def UniqueKeys (rows : List InventoryItem) : Prop :=
  (rows.map (·.id)).Nodup ∧ (rows.map (·.sku)).Nodup ∧ (rows.map (·.productId)).Nodup

instance (rows : List InventoryItem) : Decidable (UniqueKeys rows) :=
  inferInstanceAs (Decidable (_ ∧ _ ∧ _))

/-- The tables of the service, with the constraints the database enforces on them. -/
@[ext] structure Database where
  inventoryItems : List InventoryItem
  stockMovements : List StockMovementHistory
  auditLogs : List InventoryAuditLog
  processedMessages : List ProcessedMessage
  uniqueKeys : UniqueKeys inventoryItems
  columnsFit : ∀ item ∈ inventoryItems, item.Fits
  uniqueMessages : (processedMessages.map (·.messageId)).Nodup

namespace Database

def empty : Database where
  inventoryItems := []
  stockMovements := []
  auditLogs := []
  processedMessages := []
  uniqueKeys := by simp [UniqueKeys]
  columnsFit := by simp
  uniqueMessages := by simp

def findById (db : Database) (id : String) : Option InventoryItem :=
  db.inventoryItems.find? (·.id = id)

def findBySku (db : Database) (sku : String) : Option InventoryItem :=
  db.inventoryItems.find? (·.sku = sku)

def findByProductId (db : Database) (productId : String) : Option InventoryItem :=
  db.inventoryItems.find? (·.productId = productId)

/-- Replaces the rows of `inventory_items`, if every constraint still holds. -/
def writeItems (db : Database) (rows : List InventoryItem) : Except DatabaseError Database :=
  if hu : UniqueKeys rows then
    if hf : ∀ item ∈ rows, item.Fits then
      .ok { db with inventoryItems := rows, uniqueKeys := hu, columnsFit := hf }
    else .error .valueOutOfRange
  else .error .uniqueViolation

end Database

/-! ## Transactions -/

/-- The body of an interactive transaction. -/
abbrev Transaction := StateT Database (Except Thrown)

/-- A service call: its effects stay when it throws, except those a transaction took back. -/
abbrev Action := ExceptT Thrown (StateM Database)

/-- `$transaction`: all of the callback's writes, or none of them. -/
def commit {α : Type} (tx : Transaction α) : Action α := fun db =>
  match tx.run db with
  | .ok (result, db') => (.ok result, db')
  | .error error => (.error error, db)

/-- Lifts a planner, whose refusal is an `AppError`. -/
def liftPlan {α : Type} : Except AppError α → Transaction α
  | .ok a => pure a
  | .error error => throw (.app error)

namespace Tx

def findUnique (id : String) : Transaction (Option InventoryItem) := do
  return (← get).findById id

/-- `findMany({ where: { productId: { in: productIds } } })`. The column compares uuids, so the case
of a letter does not matter. -/
def findMany (productIds : List String) : Transaction (List InventoryItem) := do
  return (← get).inventoryItems.filter fun row =>
    (productIds.map uuidText).contains (uuidText row.productId)

def writeItems (rows : List InventoryItem) : Transaction Unit := do
  match (← get).writeItems rows with
  | .ok db => set db
  | .error error => throw (.database error)

/-- `inventoryItem.update({ where: { id }, data })`. -/
def updateItem (id : String) (data : InventoryItem → InventoryItem) :
    Transaction InventoryItem := do
  match (← get).findById id with
  | none => throw (.database .recordNotFound)
  | some item =>
    writeItems ((← get).inventoryItems.map fun row => if row.id = id then data row else row)
    return data item

def createMovements (rows : List StockMovementHistory) : Transaction Unit :=
  modify fun db => { db with stockMovements := db.stockMovements ++ rows }

def createAuditLogs (rows : List InventoryAuditLog) : Transaction Unit :=
  modify fun db => { db with auditLogs := db.auditLogs ++ rows }

/-- `processedMessage.create`, refused by the primary key when the message id is taken. -/
def createProcessedMessage (row : ProcessedMessage) : Transaction Unit := do
  let db ← get
  if h : ((db.processedMessages ++ [row]).map (·.messageId)).Nodup then
    set { db with processedMessages := db.processedMessages ++ [row], uniqueMessages := h }
  else throw (.database .uniqueViolation)

end Tx

/-! ## The repository -/

/-- One movement, as a planner describes it. -/
structure MovementPlan where
  type : StockMovementType
  quantity : Int
  reason : Option String
  reference : Option String
  deriving DecidableEq, Repr

/-- `StockChangePlan`. -/
structure StockChangePlan where
  levels : StockLevels
  movement : MovementPlan
  deriving DecidableEq, Repr

/-- `BulkStockChangePlan`. -/
structure BulkStockChangePlan where
  productId : String
  levels : StockLevels
  movement : MovementPlan
  deriving DecidableEq, Repr

/-- `IdempotencyKey`. -/
structure IdempotencyKey where
  messageId : String
  type : String
  reference : Option String := none
  deriving DecidableEq, Repr

/-- `UpdateContext`: the actor, and the check run against the freshly read row. -/
structure UpdateContext where
  actor : Option String
  validate : InventoryItem → Except AppError Unit

/-- The ledger row of a movement against an item. -/
def MovementPlan.row (movement : MovementPlan) (item : InventoryItem) : StockMovementHistory where
  itemId := item.id
  type := movement.type
  quantityChanged := movement.quantity
  lastQuantity := item.quantity
  reason := movement.reason
  reference := movement.reference

/-- One column's before and after. -/
structure FieldChange where
  field : String
  oldValue : String
  newValue : String
  deriving DecidableEq, Repr

/-- The change of one audited field, absent when the patch leaves it out or repeats its value. -/
def fieldChange {α : Type} [DecidableEq α] (field : String) (text : α → String) (current : α)
    (next : Option α) : List FieldChange :=
  match next with
  | none => []
  | some value =>
    if value = current then []
    else [{ field := field, oldValue := text current, newValue := text value }]

/-- `diffInventoryItem`, over `AUDITED_FIELDS` in the order of `inventoryFieldsSchema`. -/
def diffInventoryItem (current : InventoryItem) (patch : UpdateInventoryItemInput) :
    List FieldChange :=
  fieldChange "sku" id current.sku patch.sku ++
  fieldChange "productId" id current.productId patch.productId ++
  fieldChange "warehouse" id current.warehouse patch.warehouse ++
  fieldChange "quantity" toString current.quantity (patch.quantity.map (·.value)) ++
  fieldChange "reorderLevel" toString current.reorderLevel (patch.reorderLevel.map (·.value))

/-- Writes every column the patch names, as the column keeps it. -/
def InventoryItem.applyPatch (item : InventoryItem) (patch : UpdateInventoryItemInput) :
    InventoryItem :=
  { item with
    sku := patch.sku.getD item.sku
    productId := (patch.productId.map uuidText).getD item.productId
    warehouse := patch.warehouse.getD item.warehouse
    quantity := (patch.quantity.map (·.value)).getD item.quantity
    reorderLevel := (patch.reorderLevel.map (·.value)).getD item.reorderLevel }

namespace Repository

/-- `create`: the row, and an opening `INBOUND` movement when it starts with stock. The id and the
timestamp are the database's defaults. -/
def create (id : String) (createdAt : Nat) (input : CreateInventoryItemInput) :
    Action InventoryItem := commit do
  let item : InventoryItem :=
    { id, sku := input.sku, productId := uuidText input.productId, warehouse := input.warehouse,
      quantity := input.quantity.value, reserved := 0,
      reorderLevel := input.reorderLevel.value, createdAt }
  Tx.writeItems ((← get).inventoryItems ++ [item])
  if item.quantity > 0 then
    Tx.createMovements
      [{ itemId := item.id, type := .INBOUND, quantityChanged := item.quantity, lastQuantity := 0,
         reason := some "Initial stock", reference := none }]
  return item

/-- `update`: validates, diffs, writes, and records the field changes. -/
def update (id : String) (input : UpdateInventoryItemInput) (context : UpdateContext) :
    Action InventoryItem := commit do
  match ← Tx.findUnique id with
  | none => throw (.app (.NotFoundError s!"Inventory item '{id}' was not found"))
  | some current =>
    liftPlan (context.validate current)
    let changes := diffInventoryItem current input
    if changes.isEmpty then return current
    let updated ← Tx.updateItem id (·.applyPatch input)
    Tx.createAuditLogs (changes.map fun change =>
      { itemId := id, field := change.field, oldValue := change.oldValue,
        newValue := change.newValue, actor := context.actor })
    let actor := context.actor.getD "unknown"
    if updated.quantity ≠ current.quantity then
      Tx.createMovements
        [{ itemId := id, type := .ADJUSTMENT,
           quantityChanged := (updated.quantity - current.quantity).natAbs,
           lastQuantity := current.quantity,
           reason := some s!"Patched by {actor}", reference := none }]
    return updated

/-- `delete`: the row goes, and its history with it (`onDelete: Cascade`). -/
def delete (id : String) : Action Unit := commit do
  match ← Tx.findUnique id with
  | none => throw (.database .recordNotFound)
  | some _ =>
    Tx.writeItems ((← get).inventoryItems.filter (·.id ≠ id))
    modify fun db =>
      { db with
        stockMovements := db.stockMovements.filter (·.itemId ≠ id)
        auditLogs := db.auditLogs.filter (·.itemId ≠ id) }

/-- `applyStockChange`: re-reads, plans, writes, and records the movement. -/
def applyStockChange (id : String) (plan : InventoryItem → Except AppError StockChangePlan) :
    Action InventoryItem := commit do
  match ← Tx.findUnique id with
  | none => throw (.app (.NotFoundError s!"Inventory item '{id}' was not found"))
  | some current =>
    let next ← liftPlan (plan current)
    let updated ← Tx.updateItem id (·.setLevels next.levels)
    Tx.createMovements [next.movement.row current]
    return updated

/-- The idempotency claim: a repeat fails on the primary key before a row is read. -/
def claimMessage (key : IdempotencyKey) : Transaction Unit :=
  tryCatch
    (Tx.createProcessedMessage
      { messageId := key.messageId, type := key.type, reference := key.reference })
    fun error =>
      if error.isUniqueViolation then throw (.app (.DuplicateOperationError key.messageId))
      else throw error

/-- The claim of a change that came as a message; any other change claims nothing. -/
def claim : Option IdempotencyKey → Transaction Unit
  | some key => claimMessage key
  | none => pure ()

/-- Pairs each plan with the row it is for. -/
def resolveTargets (byProductId : String → Option InventoryItem) :
    List BulkStockChangePlan → Transaction (List (BulkStockChangePlan × InventoryItem))
  | [] => return []
  | next :: rest => do
    match byProductId next.productId with
    | none => throw (.app (.InternalServerError
        s!"Bulk plan referenced product '{next.productId}', which was not read"))
    | some item => return (next, item) :: (← resolveTargets byProductId rest)

/-- The update loop over the sorted targets. -/
def updateTargets :
    List (BulkStockChangePlan × InventoryItem) → Transaction (List InventoryItem)
  | [] => return []
  | (next, item) :: rest => do
    let updated ← Tx.updateItem item.id (·.setLevels next.levels)
    return updated :: (← updateTargets rest)

/-- Primary-key order, in which the row locks are taken. -/
def byItemId (a b : BulkStockChangePlan × InventoryItem) : Prop := a.2.id ≤ b.2.id

instance : DecidableRel byItemId := fun a b => inferInstanceAs (Decidable (a.2.id ≤ b.2.id))

/-- `applyBulkStockChange`: claims the message, reads every addressed row, plans the whole batch,
then writes it in primary-key order with one ledger insert. -/
def applyBulkStockChange (productIds : List String)
    (plan : (String → Option InventoryItem) → Except AppError (List BulkStockChangePlan))
    (idempotencyKey : Option IdempotencyKey) : Action (List InventoryItem) := commit do
  claim idempotencyKey
  let current ← Tx.findMany productIds
  -- a `Map` keyed by the text the column keeps, which a line has to repeat letter for letter
  let byProductId : String → Option InventoryItem :=
    fun productId => current.find? (·.productId = productId)
  let plans ← liftPlan (plan byProductId)
  let targets ← resolveTargets byProductId plans
  let sorted := targets.insertionSort byItemId
  let updated ← updateTargets sorted
  Tx.createMovements (sorted.map fun (next, item) => next.movement.row item)
  return updated

end Repository

end PracticalMicroservice.Inventory
