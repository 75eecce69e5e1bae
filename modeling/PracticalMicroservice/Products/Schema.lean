import PracticalMicroservice.Inventory.Schema

/-!
# The request schemas (`product.schema.ts`)

What a handler receives after `validate`. The rules for a SKU and for an opening stock are inventory's
own, so what is accepted here is accepted there as it stands.
-/

namespace PracticalMicroservice.Products

open Inventory (FieldQuantity)

/-- `PRODUCT_STATUSES`. -/
inductive ProductStatus
  | DRAFT
  | ACTIVE
  | ARCHIVED
  deriving DecidableEq, Repr

/-- What a SKU may contain, after `toUpperCase`. -/
def isSkuChar (c : Char) : Bool :=
  ('A' ≤ c && c ≤ 'Z') || ('0' ≤ c && c ≤ '9') || c == '.' || c == '_' || c == '-'

/-- The `sku` of `productFieldsSchema`. -/
structure Sku where
  text : String
  long : 3 ≤ text.toList.length
  bounded : text.toList.length ≤ 64
  spelled : text.toList.all isSkuChar = true
  deriving DecidableEq, Repr

/-- The `priceCents` of `productFieldsSchema`. -/
@[ext]
structure Price where
  cents : Int
  nonnegative : 0 ≤ cents
  bounded : cents ≤ 100000000
  deriving Repr

instance : DecidableEq Price :=
  fun p q => decidable_of_iff (p.cents = q.cents) Price.ext_iff.symm

/-- `initialStockSchema`. -/
structure InitialStock where
  warehouse : Option String := none
  quantity : Option FieldQuantity := none
  reorderLevel : Option FieldQuantity := none
  deriving DecidableEq, Repr

/-- `NewProductRecord`: the input without its opening stock. -/
structure NewProductRecord where
  sku : Sku
  name : String
  description : Option String := none
  priceCents : Price
  currency : String
  status : ProductStatus
  deriving DecidableEq, Repr

/-- `createProductSchema`, after its defaults. -/
structure CreateProductInput extends NewProductRecord where
  stock : Option InitialStock := none
  deriving DecidableEq, Repr

/-- `updateProductSchema`: at least one field is given. -/
structure UpdateProductInput where
  sku : Option Sku := none
  name : Option String := none
  description : Option String := none
  priceCents : Option Price := none
  currency : Option String := none
  status : Option ProductStatus := none
  named : (sku.isSome || name.isSome || description.isSome || priceCents.isSome ||
    currency.isSome || status.isSome) = true
  deriving DecidableEq, Repr

end PracticalMicroservice.Products
