import PracticalMicroservice.Foundations.Program
import PracticalMicroservice.Products.InventoryClient

/-!
# The product service (`product.service.ts`)

Each method as a program of calls, to the table of the products and to inventory. What becomes of a
call (answered, its reply lost, or not made at all) is up to the world it runs in.
-/

namespace PracticalMicroservice.Products

open Foundations (Fallible Program)
open Inventory (Fate InventoryItemView UpdateInventoryItemInput uuidText)

/-! ## The view -/

/-- `STOCK_STATUSES`. -/
inductive StockStatus
  | IN_STOCK
  | LOW_STOCK
  | OUT_OF_STOCK
  | UNPROVISIONED
  | UNKNOWN
  deriving DecidableEq, Repr

/-- The slice of the inventory record this service republishes. -/
structure ProductStock where
  inventoryId : String
  sku : String
  warehouse : String
  quantity : Int
  reserved : Int
  available : Int
  reorderLevel : Int
  deriving DecidableEq, Repr

/-- A product plus the stock figures owned by the inventory service. -/
structure ProductView extends Product where
  stock : Option ProductStock
  stockStatus : StockStatus
  deriving DecidableEq, Repr

def toStockStatus (item : Option InventoryItemView) (reachable : Bool) : StockStatus :=
  match item with
  | none => if reachable then .UNPROVISIONED else .UNKNOWN
  | some item =>
    if item.available ≤ 0 then .OUT_OF_STOCK else if item.lowStock then .LOW_STOCK else .IN_STOCK

def toProductStock (item : InventoryItemView) : ProductStock where
  inventoryId := item.id
  sku := item.sku
  warehouse := item.warehouse
  quantity := item.quantity
  reserved := item.reserved
  available := item.available
  reorderLevel := item.reorderLevel

def toProductView (product : Product) (item : Option InventoryItemView) (reachable : Bool := true) :
    ProductView :=
  { product with stock := item.map toProductStock, stockStatus := toStockStatus item reachable }

/-! ## The calls -/

/-- A statement on the table of the products. -/
inductive RepositoryCall
  | findById (id : String)
  | findBySku (sku : String)
  | create (input : NewProductRecord)
  | update (id : String) (input : UpdateProductInput)
  | delete (id : String)
  deriving DecidableEq

/-- A request to inventory. -/
inductive InventoryCall
  | create (input : CreateInventoryInput)
  | findByProductId (productId : String)
  | update (id : String) (input : UpdateInventoryItemInput)
  | delete (id : String)
  deriving DecidableEq

inductive Call
  | repository (call : RepositoryCall)
  | inventory (call : InventoryCall)
  deriving DecidableEq

abbrev Call.Result : Call → Type
  | .repository (.findById _) | .repository (.findBySku _) => Option Product
  | .repository (.create _) | .repository (.update _ _) => Product
  | .repository (.delete _) => Unit
  | .inventory (.create _) | .inventory (.update _ _) => InventoryItemView
  | .inventory (.findByProductId _) => Option InventoryItemView
  | .inventory (.delete _) => Unit

abbrev Call.Reply (call : Call) : Type := Except Thrown call.Result

/-! ## The service -/

/-- A method of the service as a program of calls. -/
abbrev Method := Fallible Thrown Call Call.Reply

namespace Method

def call (c : Call) : Method c.Result := do
  let reply : c.Reply ← ExceptT.lift (Program.request c)
  ExceptT.mk (pure reply)

/-- A best-effort undo: a failure here is not the caller's. -/
def compensate (action : Method Unit) : Method Unit := tryCatch action fun _ => return ()

def getProduct (id : String) : Method Product := do
  match ← call (.repository (.findById id)) with
  | none => throw (.app (.NotFoundError s!"Product '{id}' was not found"))
  | some product => return product

/-- The record of a product, and whether inventory answered. -/
def lookUpStock (product : Product) : Method (Option InventoryItemView × Bool) :=
  tryCatch (do return (← call (.inventory (.findByProductId product.id)), true))
    fun _ => return (none, false)

def readStock (product : Product) : Method (Option InventoryItemView) := do
  return (← lookUpStock product).1

def getById (id : String) : Method ProductView := do
  let product ← getProduct id
  let (item, reachable) ← lookUpStock product
  return toProductView product item reachable

/-- Undoes a provisioning call whose outcome is unknown. -/
def discardStock (productId : String) : Method Unit := do
  match ← call (.inventory (.findByProductId productId)) with
  | none => return ()
  | some item => call (.inventory (.delete item.id))

/-- The request that provisions the record of a new product. -/
def provisioning (input : CreateProductInput) (product : Product) : CreateInventoryInput where
  sku := product.sku
  productId := product.id
  warehouse := input.stock.bind (·.warehouse)
  quantity := input.stock.bind (·.quantity)
  reorderLevel := input.stock.bind (·.reorderLevel)

/-- Creates the product, then provisions its inventory record. -/
def create (input : CreateProductInput) : Method ProductView := do
  match ← call (.repository (.findBySku input.sku.text)) with
  | some _ =>
    throw (.app (.ConflictError s!"A product with SKU '{input.sku.text}' already exists"))
  | none =>
    let product ← call (.repository (.create input.toNewProductRecord))
    tryCatch
      (do
        let item ← call (.inventory (.create (provisioning input product)))
        return toProductView product (some item))
      fun error => do
        compensate (discardStock product.id)
        compensate (call (.repository (.delete product.id)))
        throw error

/-- The SKU an update changes a product to, if it changes it. -/
def newSku (input : UpdateProductInput) (current : Product) : Option String :=
  (input.sku.map (·.text)).filter fun sku => sku ≠ "" && sku ≠ current.sku

/-- No other product has the SKU. -/
def checkSku (id sku : String) : Method Unit := do
  match ← call (.repository (.findBySku sku)) with
  | some conflicting =>
    if conflicting.id ≠ id then
      throw (.app (.ConflictError s!"A product with SKU '{sku}' already exists"))
  | none => pure ()

/-- Gives an item, if there is one, a SKU. -/
def renameItem (item : Option InventoryItemView) (sku : String) : Method Unit := do
  match item with
  | some item => let _ ← call (.inventory (.update item.id (skuPatch sku)))
  | none => pure ()

/-- The part of an update before the product is written: the item, once it has the new SKU. -/
def mirrorSku (id : String) (input : UpdateProductInput) (current : Product) :
    Method (Option InventoryItemView) := do
  match newSku input current with
  | some sku =>
    let item ← readStock current
    checkSku id sku
    renameItem item sku
    return item
  | none => return none

/-- The part of an update in which the product is written, and the item gets its SKU back if that
fails. -/
def writeProduct (id : String) (input : UpdateProductInput) (current : Product)
    (item : Option InventoryItemView) : Method ProductView :=
  tryCatch
    (do
      let product ← call (.repository (.update id input))
      match item with
      | some item => return toProductView product (some item)
      | none => return toProductView product (← readStock product))
    fun error => do
      if item.isSome then compensate (renameItem item current.sku)
      throw error

/-- A SKU change reaches inventory first, then the product. -/
def update (id : String) (input : UpdateProductInput) : Method ProductView := do
  let current ← getProduct id
  let item ← mirrorSku id input current
  writeProduct id input current item

/-- Deletes the product and its inventory record, unless there is stock left. -/
def remove (id : String) : Method Unit := do
  let product ← getProduct id
  let item ← call (.inventory (.findByProductId product.id))
  match item with
  | some item =>
    if item.quantity > 0 ∨ item.reserved > 0 then
      throw (.app (.ConflictError (s!"Product '{id}' still holds stock ({item.quantity} on hand, " ++
        s!"{item.reserved} reserved). Clear the stock or archive the product instead.")))
    call (.repository (.delete id))
    compensate (call (.inventory (.delete item.id)))
  | none => call (.repository (.delete id))

end Method

end PracticalMicroservice.Products
