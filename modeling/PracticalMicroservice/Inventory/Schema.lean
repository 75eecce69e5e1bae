import Mathlib.Algebra.Order.Ring.Int
import Mathlib.Data.List.Nodup

/-!
# The request schemas (`inventory.schema.ts`)

What a handler receives after `validate`: one structure for each schema, carrying as fields the
bounds the schema enforces, so that an operation never meets a quantity or a line list the
schema refuses. `bulkReserveStockSchema` is also given as the parser of an untyped body, because
the cart's calls reach inventory through it.
-/

namespace PracticalMicroservice.Inventory

/-- `StockMovementType`. -/
inductive StockMovementType
  | INBOUND
  | OUTBOUND
  | RESERVATION
  | RELEASE
  | RETURN
  | ADJUSTMENT
  deriving DecidableEq, Repr

/-- `positiveQuantity`. -/
structure PositiveQuantity where
  value : Int
  positive : 0 < value
  bounded : value ≤ 1000000000
  deriving DecidableEq, Repr

/-- The `quantity` and `reorderLevel` columns as `inventoryFieldsSchema` accepts them. -/
structure FieldQuantity where
  value : Int
  nonnegative : 0 ≤ value
  bounded : value ≤ 1000000000
  deriving DecidableEq, Repr

/-- The signed `delta` of `adjustStockSchema`. -/
structure SignedDelta where
  value : Int
  nonzero : value ≠ 0
  lower : -1000000000 ≤ value
  upper : value ≤ 1000000000
  deriving DecidableEq, Repr

/-- What a `uuid` column keeps of a text that `z.uuid` lets through: the digits in lower case. -/
def uuidText (s : String) : String := String.ofList (s.toList.map Char.toLower)

/-- `createInventoryItemSchema`, after its defaults. -/
structure CreateInventoryItemInput where
  sku : String
  productId : String
  warehouse : String
  quantity : FieldQuantity
  reorderLevel : FieldQuantity
  deriving DecidableEq, Repr

/-- `updateInventoryItemSchema`: any column but `reserved`, and at least one of them. -/
structure UpdateInventoryItemInput where
  sku : Option String := none
  productId : Option String := none
  warehouse : Option String := none
  quantity : Option FieldQuantity := none
  reorderLevel : Option FieldQuantity := none
  named : (sku.isSome || productId.isSome || warehouse.isSome || quantity.isSome ||
    reorderLevel.isSome) = true
  deriving DecidableEq, Repr

/-- `reserveStockSchema`, shared by release, fulfil and receive. -/
structure ReserveStockInput where
  quantity : PositiveQuantity
  reason : Option String := none
  reference : Option String := none
  deriving DecidableEq, Repr

/-- `sellStockSchema`, shared by return: the order reference is mandatory. -/
structure SellStockInput where
  quantity : PositiveQuantity
  reason : Option String := none
  reference : String
  deriving DecidableEq, Repr

/-- `adjustStockSchema`. -/
structure AdjustStockInput where
  delta : SignedDelta
  reason : String
  reference : Option String := none
  deriving DecidableEq, Repr

/-- Cap on the lines one bulk transition may carry. -/
def MAX_BULK_LINES : Nat := 50

/-- `bulkStockLineSchema`. -/
structure BulkStockLine where
  productId : String
  quantity : PositiveQuantity
  deriving DecidableEq, Repr

/-- `bulkReserveStockSchema`, which `bulkReleaseStockSchema` is an alias of. -/
structure BulkStockInput where
  items : List BulkStockLine
  reason : Option String := none
  reference : String
  nonempty : items ≠ []
  bounded : items.length ≤ MAX_BULK_LINES
  distinct : (items.map BulkStockLine.productId).Nodup
  deriving DecidableEq

/-! ## Parsing an untyped bulk body -/

/-- One line of a body as it arrives, before any check. -/
structure StockLine where
  productId : String
  quantity : Int
  deriving DecidableEq, Repr

/-- A bulk body as it arrives. -/
structure BulkBody where
  items : List StockLine
  reference : String
  reason : Option String := none
  deriving DecidableEq, Repr

/-- The white space and line terminators `String.prototype.trim` strips. -/
def isWhiteSpace (c : Char) : Bool :=
  c.val ∈ [0x09, 0x0A, 0x0B, 0x0C, 0x0D, 0x20, 0xA0, 0x1680, 0x2028, 0x2029, 0x202F, 0x205F,
    0x3000, 0xFEFF] || (0x2000 ≤ c.val && c.val ≤ 0x200A)

/-- `String.prototype.trim`. -/
def trim (s : String) : String :=
  String.ofList (((s.toList.dropWhile isWhiteSpace).reverse.dropWhile isWhiteSpace).reverse)

/-- `String.prototype.length`, which counts UTF-16 code units. -/
def jsLength (s : String) : Nat :=
  (s.toList.map fun c => if 0xFFFF < c.val then 2 else 1).sum

def isHexDigit (c : Char) : Bool :=
  ('0' ≤ c && c ≤ '9') || ('a' ≤ c && c ≤ 'f') || ('A' ≤ c && c ≤ 'F')

/-- The shape `z.uuid` accepts: the nil and the max id, or a version from 1 to 8 with the RFC
variant. -/
def isUuid (s : String) : Bool :=
  s == "00000000-0000-0000-0000-000000000000" || s == "ffffffff-ffff-ffff-ffff-ffffffffffff" ||
  (s.toList.length == 36 && s.toList.zipIdx.all fun (c, i) =>
    if i == 8 || i == 13 || i == 18 || i == 23 then c == '-'
    else if i == 14 then '1' ≤ c && c ≤ '8'
    else if i == 19 then ['8', '9', 'a', 'b', 'A', 'B'].contains c
    else isHexDigit c)

/-- `z.string().trim().min(1).max(max)`. -/
def boundedText (max : Nat) (s : String) : Option String :=
  let trimmed := trim s
  if 1 ≤ jsLength trimmed ∧ jsLength trimmed ≤ max then some trimmed else none

/-- The same for an optional field, where an absent value is fine. -/
def optionalText (max : Nat) : Option String → Option (Option String)
  | none => some none
  | some s => (boundedText max s).map some

def parsePositiveQuantity (n : Int) : Option PositiveQuantity :=
  if h : 0 < n ∧ n ≤ 1000000000 then some ⟨n, h.1, h.2⟩ else none

def parseBulkLine (line : StockLine) : Option BulkStockLine :=
  if isUuid line.productId then
    (parsePositiveQuantity line.quantity).map fun quantity => ⟨line.productId, quantity⟩
  else none

/-- `bulkStockLines` and the two text fields of `bulkReserveStockSchema`. -/
def parseBulk (body : BulkBody) : Option BulkStockInput :=
  match body.items.mapM parseBulkLine, boundedText 120 body.reference,
      optionalText 500 body.reason with
  | some items, some reference, some reason =>
    if h : items ≠ [] ∧ items.length ≤ MAX_BULK_LINES ∧
        (items.map BulkStockLine.productId).Nodup then
      some { items, reason, reference, nonempty := h.1, bounded := h.2.1, distinct := h.2.2 }
    else none
  | _, _, _ => none

end PracticalMicroservice.Inventory
