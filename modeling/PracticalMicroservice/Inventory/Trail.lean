import PracticalMicroservice.Inventory.Requests

/-!
# What is on record of an item

Every write path leaves rows behind: the stock operations and the edits of a quantity in the ledger,
the edits of a field in the audit trail. Both tables are read here in the order in which their rows
were written, item by item.
-/

namespace PracticalMicroservice.Inventory

/-! ## The single-item operations as one family -/

/-- What a single-item operation hands to `applyChange`. -/
structure StockChange where
  id : String
  type : StockMovementType
  quantity : Int
  reason : Option String
  reference : Option String
  plan : StockLevels → Except AppError StockLevels

namespace StockChange

def run (c : StockChange) : Action InventoryItemView :=
  Service.applyChange c.id c.type c.quantity c.reason c.reference c.plan

/-- What the planner returns for writing. -/
def planned (c : StockChange) (item : InventoryItem) : Except AppError StockChangePlan :=
  Service.planChange c.type c.quantity c.reason c.reference c.plan item

end StockChange

/-- The single-item operation a request is, if it is one. -/
def Request.change? : Request → Option StockChange
  | receive id body => some ⟨id, .INBOUND, body.quantity.value, body.reason, body.reference,
      (planReceipt · body.quantity.value)⟩
  | acceptReturn id body => some ⟨id, .RETURN, body.quantity.value, body.reason,
      some body.reference, (planReceipt · body.quantity.value)⟩
  | sell id body => some ⟨id, .OUTBOUND, body.quantity.value, body.reason, some body.reference,
      (planSale · body.quantity.value)⟩
  | adjust id body => some ⟨id, .ADJUSTMENT, body.delta.value.natAbs, some body.reason,
      body.reference, (planAdjustment · body.delta.value)⟩
  | reserve id body => some ⟨id, .RESERVATION, body.quantity.value, body.reason, body.reference,
      (planReservation · body.quantity.value)⟩
  | release id body => some ⟨id, .RELEASE, body.quantity.value, body.reason, body.reference,
      (planRelease · body.quantity.value)⟩
  | fulfil id body => some ⟨id, .OUTBOUND, body.quantity.value, body.reason, body.reference,
      (planFulfilment · body.quantity.value)⟩
  | _ => none

theorem Request.run_of_change? {r : Request} {c : StockChange} (h : r.change? = some c) :
    r.run = (do let _ ← c.run : Action Unit) := by
  cases r <;> cases h <;> rfl

/-! ## The ledger -/

/-- `quantityChanged` is always positive and `type` carries the direction: what a row says became of
the units on hand. -/
def StockMovementType.effect (type : StockMovementType) (amount onHand : Int) : Int :=
  match type with
  | INBOUND | RETURN | ADJUSTMENT => onHand + amount
  | OUTBOUND => onHand - amount
  | RESERVATION | RELEASE => onHand

/-- The rows of an item folded into the units on hand, given what each row does to them. -/
def replay (effect : StockMovementType → Int → Int → Int) (rows : List StockMovementHistory) :
    Int :=
  rows.foldl (fun onHand row => effect row.type row.quantityChanged onHand) 0

namespace Database

def movementsOf (db : Database) (itemId : String) : List StockMovementHistory :=
  db.stockMovements.filter (·.itemId = itemId)

/-- A change of an item's levels leaves one row, with the units on hand just before it. -/
structure MovementRecorded (db db' : Database) (id : String) : Prop where
  opened : db.findById id = none → ∀ item ∈ db'.findById id, item.quantity ≠ 0 →
    ∃ row, db'.movementsOf id = [row] ∧ row.lastQuantity = 0
  empty : db.findById id = none → ∀ item ∈ db'.findById id, item.quantity = 0 →
    db'.movementsOf id = []
  changed : ∀ item ∈ db.findById id, ∀ item' ∈ db'.findById id, item'.levels ≠ item.levels →
    ∃ row, db'.movementsOf id = db.movementsOf id ++ [row] ∧ row.lastQuantity = item.quantity
  same : ∀ item ∈ db.findById id, ∀ item' ∈ db'.findById id, item'.levels = item.levels →
    db'.movementsOf id = db.movementsOf id

/-- What an operation has to leave of the ledger. -/
structure LedgerKept (effect : StockMovementType → Int → Int → Int) (db db' : Database) : Prop where
  recorded : ∀ id, MovementRecorded db db' id
  replays : ∀ item ∈ db'.inventoryItems, replay effect (db'.movementsOf item.id) = item.quantity

/-- The rows of the table after a patch. -/
def patched (db : Database) (id : String) (input : UpdateInventoryItemInput) :
    List InventoryItem :=
  db.inventoryItems.map fun row => if row.id = id then row.applyPatch input else row

/-- A patch that is let through: what it leaves on hand covers what is reserved, and it repeats no
key of another item. -/
def AdmitsPatch (db : Database) (id : String) (input : UpdateInventoryItemInput) : Prop :=
  (∃ item ∈ db.findById id, Service.validatePatch input item = .ok ()) ∧
    UniqueKeys (db.patched id input)

instance (db : Database) (id : String) (input : UpdateInventoryItemInput) :
    Decidable (db.AdmitsPatch id input) := inferInstanceAs (Decidable (_ ∧ _))

end Database

/-- The operation is let through, and takes units off an item's count by a correction. -/
def Operation.Lowers (db : Database) : Operation → Prop
  | request (.adjust id body) => body.delta.value < 0 ∧
      ∃ item ∈ db.findById id, item.reserved ≤ item.quantity + body.delta.value
  | request (.update id body _) => (∃ item ∈ db.findById id, ∃ quantity ∈ body.quantity,
      quantity.value < item.quantity) ∧ db.AdmitsPatch id body
  | _ => False

/-! ## The audit trail -/

/-- A column of `AUDITED_FIELDS`. -/
inductive AuditedField
  | sku
  | productId
  | warehouse
  | quantity
  | reorderLevel
  deriving DecidableEq

namespace AuditedField

def name : AuditedField → String
  | sku => "sku"
  | productId => "productId"
  | warehouse => "warehouse"
  | quantity => "quantity"
  | reorderLevel => "reorderLevel"

/-- The value of the column, as text. -/
def text (item : InventoryItem) : AuditedField → String
  | sku => item.sku
  | productId => item.productId
  | warehouse => item.warehouse
  | quantity => toString item.quantity
  | reorderLevel => toString item.reorderLevel

/-- The columns hold different values. -/
def Differs (before after : InventoryItem) : AuditedField → Prop
  | sku => before.sku ≠ after.sku
  | productId => before.productId ≠ after.productId
  | warehouse => before.warehouse ≠ after.warehouse
  | quantity => before.quantity ≠ after.quantity
  | reorderLevel => before.reorderLevel ≠ after.reorderLevel

instance (before after : InventoryItem) : DecidablePred (Differs before after)
  | sku => inferInstanceAs (Decidable (before.sku ≠ after.sku))
  | productId => inferInstanceAs (Decidable (before.productId ≠ after.productId))
  | warehouse => inferInstanceAs (Decidable (before.warehouse ≠ after.warehouse))
  | quantity => inferInstanceAs (Decidable (before.quantity ≠ after.quantity))
  | reorderLevel => inferInstanceAs (Decidable (before.reorderLevel ≠ after.reorderLevel))

end AuditedField

def AUDITED_FIELDS : List AuditedField := [.sku, .productId, .warehouse, .quantity, .reorderLevel]

/-- One row for exactly the columns that differ. -/
def auditRows (actor : Option String) (before after : InventoryItem) : List InventoryAuditLog :=
  (AUDITED_FIELDS.filter (AuditedField.Differs before after)).map fun field =>
    { itemId := before.id, field := field.name, oldValue := field.text before,
      newValue := field.text after, actor }

/-- The values a field went through: each row takes up where the one before left off. -/
def Linked : String → List InventoryAuditLog → String → Prop
  | value, [], current => value = current
  | value, row :: rows, current => row.oldValue = value ∧ Linked row.newValue rows current

namespace Database

def auditsOf (db : Database) (itemId : String) (field : AuditedField) : List InventoryAuditLog :=
  db.auditLogs.filter fun row => row.itemId = itemId ∧ row.field = field.name

/-- A patch is on record: its audit rows, and a movement of the units it put on or took off hand. -/
structure PatchRecorded (db db' : Database) (id : String) (actor : Option String)
    (before after : InventoryItem) : Prop where
  found : db.findById id = some before
  left : db'.findById id = some after
  audits : db'.auditLogs = db.auditLogs ++ auditRows actor before after
  still : before.quantity = after.quantity → db'.stockMovements = db.stockMovements
  moved : before.quantity ≠ after.quantity → ∃ row,
    db'.stockMovements = db.stockMovements ++ [row] ∧ row.itemId = id ∧
      row.lastQuantity = before.quantity ∧
        row.quantityChanged = ((after.quantity - before.quantity).natAbs : Int)

end Database

/-- The row an item was created with: an item that was there keeps it. -/
def openedAs (first before after : Option InventoryItem) : Option InventoryItem :=
  match before with
  | some _ => first
  | none => after

/-- The database, and the row the item in it was created with. -/
def createdStep (id : String) (s : Database × Option InventoryItem) (op : Operation) :
    Database × Option InventoryItem :=
  let db' := (op.run s.1).2
  (db', openedAs s.2 (s.1.findById id) (db'.findById id))

/-- The row an item was created with, the last time it was. -/
def createdAs (id : String) (operations : List Operation) : Option InventoryItem :=
  (operations.foldl (createdStep id) (Database.empty, none)).2

/-- What an operation has to leave of the audit trail, after the operations before it. -/
structure TrailKept (past : List Operation) (op : Operation) (db db' : Database) : Prop where
  patched : ∀ id body actor, op = .request (.update id body actor) → (op.run db).1 = .ok () →
    ∃ before after, db.PatchRecorded db' id actor before after
  /-- No other operation writes a row, and those of an item go with it only. -/
  untouched : (∀ id body actor, op ≠ .request (.update id body actor)) ∨ (op.run db).1 ≠ .ok () →
    ∀ item ∈ db'.inventoryItems, ∀ field, db'.auditsOf item.id field = db.auditsOf item.id field
  chained : ∀ item ∈ db'.inventoryItems, ∀ field ≠ .quantity,
    ∃ first ∈ createdAs item.id (past ++ [op]),
      Linked (field.text first) (db'.auditsOf item.id field) (field.text item)
  covered : ∀ id, ∀ item ∈ db.findById id, ∀ item' ∈ db'.findById id,
    item'.quantity ≠ item.quantity → ∃ row, db'.movementsOf id = db.movementsOf id ++ [row] ∧
      row.lastQuantity = item.quantity

/-- The operation is a patch that is let through, with a product id in other letters than a column
keeps. -/
def Operation.Respells (db : Database) : Operation → Prop
  | request (.update id body _) =>
    (∃ productId ∈ body.productId, uuidText productId ≠ productId) ∧ db.AdmitsPatch id body
  | _ => False

end PracticalMicroservice.Inventory
