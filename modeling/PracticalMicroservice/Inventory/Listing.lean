import PracticalMicroservice.Foundations.Json
import PracticalMicroservice.Foundations.Pages
import PracticalMicroservice.Inventory.Repository
import Mathlib.Data.List.Infix

/-!
# Listing the items (`inventory.repository.ts`, `in-memory-inventory-repository.ts`)

The same query against the database and against the repository the tests use. What PostgreSQL makes
of texts, how it searches and orders them, is a parameter.
-/

namespace PracticalMicroservice.Inventory

open Foundations (pageCount)
open Foundations.Json (utf16)

/-- `INVENTORY_SORT_FIELDS`. -/
inductive SortField
  | createdAt
  | sku
  | quantity
  deriving DecidableEq, Repr

inductive SortOrder
  | asc
  | desc
  deriving DecidableEq, Repr

/-- `listInventoryQuerySchema`, after its defaults. -/
structure ListInventoryQuery where
  page : Nat
  limit : Nat
  sku : Option String := none
  productId : Option String := none
  productIds : Option (List String) := none
  warehouse : Option String := none
  lowStock : Option Bool := none
  sortBy : SortField := .createdAt
  order : SortOrder := .desc
  paged : 1 ≤ page
  limited : 1 ≤ limit
  deriving DecidableEq, Repr

/-- `Paginated`. -/
structure Paginated where
  items : List InventoryItem
  total : Nat
  deriving DecidableEq, Repr

/-- How PostgreSQL searches and orders texts. -/
structure PostgresText where
  /-- `contains`, insensitive to case. -/
  contains : String → String → Bool
  /-- The order of the collation. -/
  le : String → String → Prop
  decidable : DecidableRel le
  total : ∀ a b, le a b ∨ le b a
  trans : ∀ a b c, le a b → le b c → le a c
  antisymm : ∀ a b, le a b → le b a → a = b

instance (text : PostgresText) : DecidableRel text.le := text.decidable

/-! ## The database -/

namespace PrismaInventoryRepository

/-- The `where` of the query. A `uuid` column is compared with an id whatever its letters' case. -/
def selects (text : PostgresText) (query : ListInventoryQuery) (item : InventoryItem) : Bool :=
  (query.sku.all fun needle => text.contains item.sku needle) &&
  -- both ids are one key of the object, which the later spread overwrites
  (match query.productIds with
    | some ids => (ids.map uuidText).contains item.productId
    | none => query.productId.all fun id => item.productId == uuidText id) &&
  query.warehouse.all (item.warehouse == ·)

/-- The order of a column. -/
def keyLE (le : String → String → Prop) : SortField → InventoryItem → InventoryItem → Prop
  | .createdAt, a, b => a.createdAt ≤ b.createdAt
  | .sku, a, b => le a.sku b.sku
  | .quantity, a, b => a.quantity ≤ b.quantity

/-- `ORDER BY`. -/
def orderBy (le : String → String → Prop) (sortBy : SortField) :
    SortOrder → InventoryItem → InventoryItem → Prop
  | .asc, a, b => keyLE le sortBy a b
  | .desc, a, b => keyLE le sortBy b a

instance (le : String → String → Prop) [DecidableRel le] :
    (sortBy : SortField) → DecidableRel (keyLE le sortBy)
  | .createdAt => fun a b => inferInstanceAs (Decidable (a.createdAt ≤ b.createdAt))
  | .sku => fun a b => inferInstanceAs (Decidable (le a.sku b.sku))
  | .quantity => fun a b => inferInstanceAs (Decidable (a.quantity ≤ b.quantity))

instance (le : String → String → Prop) [DecidableRel le] (sortBy : SortField) :
    (order : SortOrder) → DecidableRel (orderBy le sortBy order)
  | .asc => fun a b => inferInstanceAs (Decidable (keyLE le sortBy a b))
  | .desc => fun a b => inferInstanceAs (Decidable (keyLE le sortBy b a))

/-- The rows the `where` selects, in the order of the query. -/
def selected (text : PostgresText) (query : ListInventoryQuery) (rows : List InventoryItem) :
    List InventoryItem :=
  (rows.filter (selects text query)).insertionSort (orderBy text.le query.sortBy query.order)

/-- `list`: `lowStock` is applied to the page that was read. -/
def list (text : PostgresText) (rows : List InventoryItem) (query : ListInventoryQuery) :
    Paginated :=
  let items := ((selected text query rows).drop ((query.page - 1) * query.limit)).take query.limit
  let total := (selected text query rows).length
  if query.lowStock = some true then
    let lowStock := items.filter fun item => item.quantity - item.reserved ≤ item.reorderLevel
    { items := lowStock, total := lowStock.length }
  else { items, total }

end PrismaInventoryRepository

/-! ## The repository of the tests -/

namespace InMemoryInventoryRepository

/-- `haystack.toLowerCase().includes(needle.toLowerCase())`. -/
def containsInsensitive (toLowerCase : String → String) (haystack needle : String) : Bool :=
  decide ((toLowerCase needle).toList <:+: (toLowerCase haystack).toList)

def selects (toLowerCase : String → String) (query : ListInventoryQuery) (item : InventoryItem) :
    Bool :=
  (query.sku.all fun needle => containsInsensitive toLowerCase item.sku needle) &&
  query.productId.all (item.productId == ·) &&
  (query.productIds.all fun ids => ids.contains item.productId) &&
  query.warehouse.all (item.warehouse == ·)

def keyLT : SortField → InventoryItem → InventoryItem → Prop
  | .createdAt, a, b => a.createdAt < b.createdAt
  | .sku, a, b => utf16 a.sku < utf16 b.sku
  | .quantity, a, b => a.quantity < b.quantity

instance : (sortBy : SortField) → DecidableRel (keyLT sortBy)
  | .createdAt => fun a b => inferInstanceAs (Decidable (a.createdAt < b.createdAt))
  | .sku => fun a b => inferInstanceAs (Decidable (utf16 a.sku < utf16 b.sku))
  | .quantity => fun a b => inferInstanceAs (Decidable (a.quantity < b.quantity))

/-- The comparison function of the sort. -/
def comparison (sortBy : SortField) (order : SortOrder) (a b : InventoryItem) : Int :=
  let comparison := if keyLT sortBy a b then -1 else if keyLT sortBy b a then 1 else 0
  if order = .asc then comparison else -comparison

/-- `list`: `lowStock` is one filter among the others. -/
def list (toLowerCase : String → String) (items : List InventoryItem)
    (query : ListInventoryQuery) : Paginated :=
  let items := items.filter (selects toLowerCase query)
  let items :=
    if query.lowStock = some true then
      items.filter fun item => item.quantity - item.reserved ≤ item.reorderLevel
    else items
  let items := items.insertionSort fun a b => comparison query.sortBy query.order a b ≤ 0
  let start := (query.page - 1) * query.limit
  { items := (items.drop start).take query.limit, total := items.length }

end InMemoryInventoryRepository

/-! ## What a listing is to be -/

/-- The same query for another page, counted from zero. -/
def ListInventoryQuery.onPage (query : ListInventoryQuery) (k : Nat) : ListInventoryQuery :=
  { query with page := k + 1, paged := Nat.succ_pos k }

/-- The item matches the query: every filter the query names, each for itself. -/
def ListInventoryQuery.wants (text : PostgresText) (query : ListInventoryQuery)
    (item : InventoryItem) : Bool :=
  (query.sku.all fun needle => text.contains item.sku needle) &&
  (query.productId.all fun id => item.productId == uuidText id) &&
  (query.productIds.all fun ids => (ids.map uuidText).contains item.productId) &&
  query.warehouse.all (item.warehouse == ·)

/-- An item at or below its reorder level. -/
def InventoryItem.low (item : InventoryItem) : Bool := isLowStock item.levels item.reorderLevel

/-- The pages of a listing have every wanted item once and nothing else, all but the last are full,
and each says how many there are. -/
structure Lists (list : ListInventoryQuery → Paginated) (query : ListInventoryQuery)
    (wanted : List InventoryItem) : Prop where
  complete : ((List.range (pageCount query.limit wanted.length)).flatMap fun k =>
    (list (query.onPage k)).items).Perm wanted
  full : ∀ k, k + 1 < pageCount query.limit wanted.length →
    (list (query.onPage k)).items.length = query.limit
  total : ∀ k < pageCount query.limit wanted.length,
    (list (query.onPage k)).total = wanted.length

/-- No two items have the same sort key. -/
def SameKey : SortField → InventoryItem → InventoryItem → Prop
  | .createdAt, a, b => a.createdAt = b.createdAt
  | .sku, a, b => a.sku = b.sku
  | .quantity, a, b => a.quantity = b.quantity

def KeysDistinct (sortBy : SortField) (items : List InventoryItem) : Prop :=
  items.Pairwise fun a b => ¬ SameKey sortBy a b

end PracticalMicroservice.Inventory
