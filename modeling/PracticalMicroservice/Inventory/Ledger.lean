import PracticalMicroservice.Inventory.Requests

/-!
# What the ledger tells of a reference

Every movement of stock leaves a row that names the reference it was made for. The counter of an
item is anonymous; the ledger is where units can be told apart by owner.
-/

namespace PracticalMicroservice.Inventory

/-- The units a list of lines names of a product. -/
def units (lines : List StockLine) (productId : String) : Int :=
  ((lines.filter (·.productId = productId)).map (·.quantity)).sum

/-- The units of a product inventory counts as reserved, zero when it has no item. -/
def reservedOf (db : Database) (productId : String) : Int :=
  match db.findByProductId productId with
  | some item => item.reserved
  | none => 0

/-- The part of a ledger row every row of one batch shares. -/
structure MovementKind where
  type : StockMovementType
  reason : Option String
  reference : Option String
  deriving DecidableEq, Repr

def StockMovementHistory.kind (row : StockMovementHistory) : MovementKind where
  type := row.type
  reason := row.reason
  reference := row.reference

/-- The kind of the rows an accepted body leaves. -/
def BulkBody.kind (body : BulkBody) (t : Transition) : MovementKind where
  type := t.type
  reason := body.reason.map trim
  reference := some (trim body.reference)

/-- The units of one item in the rows of some kinds. -/
def rowUnits (keep : MovementKind → Bool) (rows : List StockMovementHistory) (itemId : String) :
    Int :=
  ((rows.filter fun row => row.itemId = itemId && keep row.kind).map (·.quantityChanged)).sum

/-- The units of a product in the ledger's rows of some kinds. -/
def ledgerUnits (db : Database) (keep : MovementKind → Bool) (productId : String) : Int :=
  match db.findByProductId productId with
  | some item => rowUnits keep db.stockMovements item.id
  | none => 0

/-- The rows of one type under one reference. -/
def under (type : StockMovementType) (reference : String) (kind : MovementKind) : Bool :=
  kind.type = type && kind.reference = some reference

/-- The units ever reserved under a reference. -/
def reservedFor (db : Database) (reference : String) (productId : String) : Int :=
  ledgerUnits db (under .RESERVATION reference) productId

/-- The units ever given back under a reference. -/
def releasedFor (db : Database) (reference : String) (productId : String) : Int :=
  ledgerUnits db (under .RELEASE reference) productId

/-- The units held on behalf of a reference. -/
def heldFor (db : Database) (reference : String) (productId : String) : Int :=
  reservedFor db reference productId - releasedFor db reference productId

end PracticalMicroservice.Inventory
