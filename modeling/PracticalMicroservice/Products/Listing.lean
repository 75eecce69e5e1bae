import PracticalMicroservice.Foundations.Courses
import PracticalMicroservice.Inventory.Listing
import PracticalMicroservice.Products.World

/-!
# Listing the products, and what a status says (`product.service.ts`, `inventory.client.ts`)

`list` with its bulk lookup, as a program of its own requests; and what the statuses of all views are to
say of what inventory answered.
-/

namespace PracticalMicroservice.Products

open Foundations (Fallible History Program page)
open Inventory (InventoryItemView ListInventoryQuery PostgresText SortOrder toInventoryItemView)

/-- `PRODUCT_SORT_FIELDS`. -/
inductive ProductSortField
  | createdAt
  | name
  | priceCents
  deriving DecidableEq, Repr

/-- `listProductsQuerySchema`, after its defaults. -/
@[ext] structure ListProductsQuery where
  page : Nat
  limit : Nat
  status : Option ProductStatus := none
  search : Option String := none
  sortBy : ProductSortField := .createdAt
  order : SortOrder := .desc
  paged : 1 ≤ page
  limited : 1 ≤ limit
  capped : limit ≤ 100
  deriving Repr

instance : DecidableEq ListProductsQuery := fun a b =>
  decidable_of_iff (a.page = b.page ∧ a.limit = b.limit ∧ a.status = b.status ∧
    a.search = b.search ∧ a.sortBy = b.sortBy ∧ a.order = b.order) ListProductsQuery.ext_iff.symm

/-- `ListProductsResult`. -/
structure ListProductsResult where
  items : List Product
  total : Nat

/-- `ListProductsView`. -/
structure ListProductsView where
  items : List ProductView
  total : Nat

/-- A request of a listing: a page of the table, or a listing of inventory. -/
inductive ListCall
  | products (query : ListProductsQuery)
  | inventory (query : ListInventoryQuery)
  deriving DecidableEq

abbrev ListCall.Result : ListCall → Type
  | .products _ => ListProductsResult
  | .inventory _ => List InventoryItemView

abbrev ListCall.Reply (c : ListCall) : Type := Except Thrown c.Result

abbrev Lister := Fallible Thrown ListCall ListCall.Reply

namespace Lister

def call (c : ListCall) : Lister c.Result := do
  let reply : c.Reply ← ExceptT.lift (Program.request c)
  ExceptT.mk (pure reply)

/-! ## The bulk lookup -/

/-- Inventory's list cap. -/
def MAX_BULK_IDS : Nat := 100

theorem bulk_paged : 1 ≤ 1 := Nat.le_refl 1

theorem bulk_limited : 1 ≤ MAX_BULK_IDS := by decide

/-- The query of a chunk. -/
def bulkQuery (chunk : List String) : ListInventoryQuery where
  page := 1
  limit := MAX_BULK_IDS
  productIds := some chunk
  paged := bulk_paged
  limited := bulk_limited

/-- The slices of the loop. -/
def chunks (productIds : List String) : List (List String) :=
  (List.range ((productIds.length + (MAX_BULK_IDS - 1)) / MAX_BULK_IDS)).map
    (page MAX_BULK_IDS productIds)

/-- `Map<string, InventoryItem>` -/
abbrev Found := String → Option InventoryItemView

def Found.empty : Found := fun _ => none

/-- `found.set(item.productId, item)` -/
def Found.set (found : Found) (item : InventoryItemView) : Found :=
  fun productId => if productId = item.productId then some item else found productId

/-- The loop over the chunks. -/
def readChunks : List (List String) → Found → Lister Found
  | [], found => return found
  | chunk :: rest, found => do
    let items ← call (.inventory (bulkQuery chunk))
    readChunks rest (items.foldl Found.set found)

def findByProductIds (productIds : List String) : Lister Found :=
  readChunks (chunks productIds) Found.empty

def readStockForPage (productIds : List String) : Lister (Found × Bool) :=
  tryCatch (do return (← findByProductIds productIds, true)) fun _ => return (Found.empty, false)

def list (query : ListProductsQuery) : Lister ListProductsView := do
  let result ← call (.products query)
  if result.items = [] then return { items := [], total := result.total }
  else
    let (found, reachable) ← readStockForPage (result.items.map (·.id))
    return {
      items := result.items.map fun product => toProductView product (found product.id) reachable
      total := result.total }

end Lister

/-! ## What a status is to say -/

/-- What inventory lets a caller know of the record of a product. -/
inductive Answer
  | unanswered
  | answered (record : Option InventoryItemView)
  deriving DecidableEq

/-- The status of a record. -/
def statusOf (record : InventoryItemView) : StockStatus :=
  if record.available ≤ 0 then .OUT_OF_STOCK
  else if record.lowStock then .LOW_STOCK else .IN_STOCK

/-- The status says whether inventory answered, and what. -/
structure Truthful (answer : Answer) (view : ProductView) : Prop where
  unknown : view.stockStatus = .UNKNOWN ↔ answer = .unanswered
  unprovisioned : view.stockStatus = .UNPROVISIONED ↔ answer = .answered none
  status : ∀ record, answer = .answered (some record) → view.stockStatus = statusOf record

/-- The record, if there is one. -/
def Answer.item : Answer → Option InventoryItemView
  | unanswered => none
  | answered record => record

def Answer.reachable : Answer → Bool
  | unanswered => false
  | answered _ => true

/-- A reply, or a failure in its place. -/
def Answer.of (reply : Except Thrown (Option InventoryItemView)) : Answer :=
  match reply with
  | .ok record => .answered record
  | .error _ => .unanswered

/-- What the reply to a request for the record of a product says of it. -/
def Call.answer (productId : String) : (c : Call) → c.Reply → Option Answer
  | .inventory (.findByProductId id), reply => if id = productId then some (.of reply) else none
  | .inventory (.create input), reply =>
    if input.productId = productId then some (.of (reply.map some)) else none
  | .repository _, _ | .inventory (.update _ _), _ | .inventory (.delete _), _ => none

/-- All that a call of a method was told of the record of a product, oldest first. -/
def answers (productId : String) (told : History Call Call.Reply) : List Answer :=
  told.filterMap fun x => x.1.answer productId x.2

def lastAnswer (productId : String) (told : History Call Call.Reply) : Answer :=
  (answers productId told).getLast?.getD .unanswered

/-- What the reply to a bulk lookup says of one of its products. -/
def ListCall.answer (productId : String) : (c : ListCall) → c.Reply → Option Answer
  | .inventory query, reply =>
    if query.productIds.any (·.contains productId) then
      some (.of (reply.map fun items => items.find? (·.productId = productId)))
    else none
  | .products _, _ => none

def bulkAnswer (productId : String) (told : History ListCall ListCall.Reply) : Answer :=
  ((told.filterMap fun x => x.1.answer productId x.2).getLast?).getD .unanswered

/-- A request that is answered with the view of one product. -/
inductive Viewing
  | getById (id : String)
  | create (input : CreateProductInput)
  | update (id : String) (input : UpdateProductInput)

def Viewing.method : Viewing → Method ProductView
  | getById id => Method.getById id
  | create input => Method.create input
  | update id input => Method.update id input

/-- Whether inventory answered, where it is not asked whether it did. -/
def Viewing.Heard : Viewing → Answer → Prop
  | getById _, _ | create _, _ => True
  | update _ _, answer => answer ≠ .unanswered

/-- The replies are what the stores, however they stood, gave at the time. -/
def Credible (told : History Call Call.Reply) : Prop :=
  ∀ x ∈ told, ∃ fate w, (x.1.perform fate w).1 = x.2

/-- What inventory lists. -/
def listed (text : PostgresText) (db : Inventory.Database) (query : ListInventoryQuery) :
    List InventoryItemView :=
  (Inventory.PrismaInventoryRepository.list text db.inventoryItems query).items.map
    toInventoryItemView

/-- A page of the table is made of its rows; a listing is what inventory has. -/
def ListCall.Credible (text : PostgresText) : (c : ListCall) → c.Reply → Prop
  | .products query, .ok result =>
    ∃ db : Database, (∀ product ∈ result.items, product ∈ db.rows) ∧
      result.items.length ≤ query.limit
  | .inventory query, .ok items => ∃ db, items = listed text db query
  | .products _, .error _ | .inventory _, .error _ => True

def CredibleList (text : PostgresText) (told : History ListCall ListCall.Reply) : Prop :=
  ∀ x ∈ told, x.1.Credible text x.2

end PracticalMicroservice.Products
