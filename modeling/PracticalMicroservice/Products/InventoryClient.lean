import PracticalMicroservice.Inventory.Removals
import PracticalMicroservice.Inventory.Requests
import PracticalMicroservice.Products.Repository

/-!
# The client of inventory (`inventory.client.ts`)

A call reaches inventory as one step and may lose its reply. What inventory answers is translated
into the errors of this service.
-/

namespace PracticalMicroservice.Products

open Inventory (CreateInventoryItemInput DatabaseError Fate FieldQuantity InventoryItemView
  UpdateInventoryItemInput)

/-- The `AppError` subclasses this service raises. -/
inductive AppError
  | BadRequestError (message : String)
  | NotFoundError (message : String)
  | ConflictError (message : String)
  | ServiceUnavailableError (message : String)
  deriving DecidableEq, Repr

/-- Anything a `catch` can meet. -/
inductive Thrown
  | app (error : AppError)
  | database (error : DatabaseError)
  deriving DecidableEq, Repr

/-- `CreateInventoryInput`. -/
structure CreateInventoryInput where
  sku : String
  productId : String
  warehouse : Option String
  quantity : Option FieldQuantity
  reorderLevel : Option FieldQuantity
  deriving DecidableEq, Repr

theorem noUnits_bounded : (0 : Int) ≤ 1000000000 := by omega

/-- The default of `quantity` and of `reorderLevel`. -/
def noUnits : FieldQuantity := ⟨0, Int.le_refl 0, noUnits_bounded⟩

/-- What inventory's `createInventoryItemSchema` makes of the body. -/
def CreateInventoryInput.body (input : CreateInventoryInput) : CreateInventoryItemInput where
  sku := input.sku
  productId := input.productId
  warehouse := input.warehouse.getD "default"
  quantity := input.quantity.getD noUnits
  reorderLevel := input.reorderLevel.getD noUnits

/-- The patch of a SKU alone. -/
def skuPatch (sku : String) : UpdateInventoryItemInput where
  sku := some sku
  named := rfl

namespace HttpInventoryClient

/-- A 5xx is a 503 here, and a 4xx means that inventory rejected what it was sent. -/
def toError (status : Nat) (message : String) : AppError :=
  if status ≥ 500 then .ServiceUnavailableError s!"Inventory service failed: {message}"
  else if status = 404 then .ServiceUnavailableError s!"Inventory record is missing: {message}"
  else if status = 409 then .ConflictError message
  else .BadRequestError s!"Inventory rejected the request: {message}"

/-- The request never completed. -/
def unreachable : Thrown := .app (.ServiceUnavailableError "Inventory service is unreachable")

/-- `request`. A call resolves with `onMissing`, if there is such a value, when inventory answers
with a 404. -/
def request {α : Type} (fate : Fate) (onMissing : Option α) (action : Inventory.Action α)
    (db : Inventory.Database) : Except Thrown α × Inventory.Database :=
  match fate with
  | .failed => (.error unreachable, db)
  | .lost => (.error unreachable, (action db).2)
  | .answered =>
    match action db with
    | (.ok a, db') => (.ok a, db')
    | (.error thrown, db') =>
      let rejected := Thrown.app (toError thrown.statusCode thrown.message)
      match onMissing with
      | some a => (if thrown.statusCode = 404 then .ok a else .error rejected, db')
      | none => (.error rejected, db')

variable (fate : Fate)

def create (id : String) (createdAt : Nat) (input : CreateInventoryInput) :
    Inventory.Database → Except Thrown InventoryItemView × Inventory.Database :=
  request fate none (Inventory.Service.create id createdAt input.body)

/-- The first item of the list that inventory keeps under the product id, which is the only one. -/
def findByProductId (productId : String) :
    Inventory.Database → Except Thrown (Option InventoryItemView) × Inventory.Database :=
  request fate none (Inventory.Service.getByProductId productId)

def update (id : String) (input : UpdateInventoryItemInput) :
    Inventory.Database → Except Thrown InventoryItemView × Inventory.Database :=
  request fate none (Inventory.Service.update id input none)

def delete (id : String) : Inventory.Database → Except Thrown Unit × Inventory.Database :=
  request fate (some ()) (Inventory.Service.remove id)

end HttpInventoryClient

end PracticalMicroservice.Products
