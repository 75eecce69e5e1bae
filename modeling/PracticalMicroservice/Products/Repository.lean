import PracticalMicroservice.Inventory.Proofs.PatchProofs
import PracticalMicroservice.Products.Schema

/-!
# The products and their repository (`product.repository.ts`)

`Database` carries the constraints of the table as fields; a statement that would break one raises.
-/

namespace PracticalMicroservice.Products

open Inventory (DatabaseError uuidText)

/-- `Product`. -/
structure Product where
  id : String
  sku : String
  name : String
  description : Option String
  priceCents : Int
  currency : String
  status : ProductStatus
  deriving DecidableEq, Repr

/-- The table, with its primary key, its unique index, and ids as a `uuid` column keeps them. -/
structure Database where
  rows : List Product
  uniqueIds : (rows.map (·.id)).Nodup
  uniqueSkus : (rows.map (·.sku)).Nodup
  uuids : ∀ row ∈ rows, uuidText row.id = row.id

/-- The row of a new product. The id is the database's default. -/
def NewProductRecord.row (fields : NewProductRecord) (uuid : String) : Product where
  id := uuidText uuid
  sku := fields.sku.text
  name := fields.name
  description := fields.description
  priceCents := fields.priceCents.cents
  currency := fields.currency
  status := fields.status

/-- Writes every column the input names. -/
def Product.applyUpdate (product : Product) (input : UpdateProductInput) : Product :=
  { product with
    sku := (input.sku.map (·.text)).getD product.sku
    name := input.name.getD product.name
    description := input.description.or product.description
    priceCents := (input.priceCents.map (·.cents)).getD product.priceCents
    currency := input.currency.getD product.currency
    status := input.status.getD product.status }

namespace Database

def empty : Database where
  rows := []
  uniqueIds := List.nodup_nil
  uniqueSkus := List.nodup_nil
  uuids _ h := nomatch h

/-- A write: the table with other rows and the reply, if the unique keys still hold. -/
def write {α : Type} (db : Database) (rows : List Product)
    (uuids : ∀ row ∈ rows, uuidText row.id = row.id) (reply : α) :
    Except DatabaseError α × Database :=
  if h : (rows.map (·.id)).Nodup ∧ (rows.map (·.sku)).Nodup then
    (.ok reply, { rows, uniqueIds := h.1, uniqueSkus := h.2, uuids })
  else (.error .uniqueViolation, db)

def findById (db : Database) (id : String) : Option Product :=
  db.rows.find? (·.id = uuidText id)

def findBySku (db : Database) (sku : String) : Option Product :=
  db.rows.find? (·.sku = sku)

/-- The rows after the update of one. -/
def updated (db : Database) (id : String) (input : UpdateProductInput) : List Product :=
  db.rows.map fun row => if row.id = uuidText id then row.applyUpdate input else row

/-- The rows after the deletion of one. -/
def without (db : Database) (id : String) : List Product :=
  db.rows.filter (·.id ≠ uuidText id)

theorem inserted_uuids (db : Database) (input : NewProductRecord) (uuid : String) :
    ∀ row ∈ db.rows ++ [input.row uuid], uuidText row.id = row.id := by
  intro row hrow
  rcases List.mem_append.mp hrow with hrow | hrow
  · exact db.uuids row hrow
  · rw [List.mem_singleton.mp hrow]
    exact Inventory.uuidText_uuidText uuid

theorem updated_uuids (db : Database) (id : String) (input : UpdateProductInput) :
    ∀ row ∈ db.updated id input, uuidText row.id = row.id := by
  intro row hrow
  obtain ⟨old, hold, rfl⟩ := List.mem_map.mp hrow
  by_cases hid : old.id = uuidText id
  · rw [if_pos hid]
    exact db.uuids old hold
  · rw [if_neg hid]
    exact db.uuids old hold

theorem without_uuids (db : Database) (id : String) :
    ∀ row ∈ db.without id, uuidText row.id = row.id :=
  fun row hrow => db.uuids row (List.mem_filter.mp hrow).1

end Database

/-! ## The repository -/

namespace Repository

def create (uuid : String) (input : NewProductRecord) (db : Database) :
    Except DatabaseError Product × Database :=
  db.write (db.rows ++ [input.row uuid]) (db.inserted_uuids input uuid) (input.row uuid)

def update (id : String) (input : UpdateProductInput) (db : Database) :
    Except DatabaseError Product × Database :=
  match db.findById id with
  | none => (.error .recordNotFound, db)
  | some product =>
    db.write (db.updated id input) (db.updated_uuids id input) (product.applyUpdate input)

def delete (id : String) (db : Database) : Except DatabaseError Unit × Database :=
  match db.findById id with
  | none => (.error .recordNotFound, db)
  | some _ => db.write (db.without id) (db.without_uuids id) ()

end Repository

end PracticalMicroservice.Products
