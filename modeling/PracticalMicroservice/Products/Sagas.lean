import PracticalMicroservice.Products.World

/-!
# What spans the two stores: updates and creates

An update is looked at with nothing beside it, creates beside one another.
-/

namespace PracticalMicroservice.Products

open Foundations (Machine Pool Program)
open Inventory (Fate InventoryItem uuidText)

/-! ## An update

The calls of a method in turn, each with a fate of its own.
-/

/-- A call, the next of those that have fates, and what is left of both. -/
def deal (fates : Nat → Fate) (call : Call) (s : Nat × World) : call.Reply × (Nat × World) :=
  ((call.perform (fates s.1) s.2).1, (s.1 + 1, (call.perform (fates s.1) s.2).2))

/-- The method, from the `n`-th call on. -/
def Method.exec {α : Type} (fates : Nat → Fate) (p : Method α) (s : Nat × World) :
    Except Thrown α × (Nat × World) := p.run.exec (deal fates) s

/-- A product, and its record in inventory under the same SKU. -/
structure Paired (w : World) (id : String) (product : Product) (item : InventoryItem) : Prop where
  found : w.products.findById id = some product
  stocked : w.inventory.findByProductId product.id = some item
  sameSku : item.sku = product.sku

/-- Both stores carry the SKU. -/
structure Carry (w : World) (product : Product) (item : InventoryItem) (sku : String) : Prop where
  product : ∃ row ∈ w.products.rows, row.id = product.id ∧ row.sku = sku
  item : ∃ row ∈ w.inventory.inventoryItems, row.id = item.id ∧ row.sku = sku

/-- A view shows the SKU, of the product and of its stock. -/
def ProductView.Shows (view : ProductView) (sku : String) : Prop :=
  view.sku = sku ∧ ∀ stock ∈ view.stock, stock.sku = sku

/-- What is to hold of the two stores after an update: they carry the SKU asked for and it is shown,
or, when the update throws, they carry the old one. -/
def Agreed (shows : ProductView → String → Prop) (product : Product) (item : InventoryItem)
    (sku : String) : Except Thrown ProductView × (Nat × World) → Prop
  | (.ok view, (_, w)) => Carry w product item sku ∧ shows view sku
  | (.error _, (_, w)) => Carry w product item product.sku

/-- The SKU asked for: a new one, or the one there is. -/
def askedSku (input : UpdateProductInput) (product : Product) : String :=
  (Method.newSku input product).getD product.sku

/-- A change of the SKU comes to nothing before it is made, or is taken back. In the order of the
calls: the product is read, its stock is looked up, the SKU is looked up among the products, the item
is renamed if it was found, and the product is written. -/
def CalledOff (fates : Nat → Fate) (w : World) (sku : String) : Prop :=
  fates 0 ≠ .answered ∨ fates 2 ≠ .answered ∨ (∃ other ∈ w.products.rows, other.sku = sku) ∨
    (fates 1 ≠ .answered ∧ fates 3 = .failed) ∨
    (fates 1 = .answered ∧ (fates 3 = .failed ∨
      (∃ other ∈ w.inventory.inventoryItems, other.sku = sku) ∨
      (fates 3 = .answered ∧ fates 4 = .failed)))

instance (fates : Nat → Fate) (w : World) (sku : String) : Decidable (CalledOff fates w sku) :=
  inferInstanceAs (Decidable (_ ∨ _ ∨ _ ∨ (_ ∧ _) ∨ (_ ∧ (_ ∨ _ ∨ (_ ∧ _)))))

/-- A change of the SKU is made in both stores: all of its calls are answered. -/
def WentThrough (fates : Nat → Fate) : Prop :=
  fates 1 = .answered ∧ fates 3 = .answered ∧ fates 4 = .answered

/-! ## Any number of creates

Each create is a thread of its own, and its calls come in any order between those of the others.
-/

/-- The creates under way, on the two stores. -/
abbrev Creations := Pool CreateProductInput Call Call.Reply (Except Thrown ProductView) World

def creating : Machine Call Call.Reply World Fate Empty where
  perform _ fate call w := some (call.perform fate w)
  move m _ := nomatch m

/-- The code of a create, as a program that returns or throws. -/
def createProgram (input : CreateProductInput) :
    Foundations.Program Call Call.Reply (Except Thrown ProductView) := (Method.create input).run

namespace Creations

def step (s : Creations) (l : Pool.Label CreateProductInput Fate Empty) : Option Creations :=
  Pool.step creating createProgram s l

/-- A create has put a product into the table under the id. -/
def Inserted (s : Creations) (i : Nat) (id : String) : Prop :=
  ∃ e ∈ s.trace, e.thread = i ∧ id ∈ e.after.products.rows.map (·.id) ∧
    id ∉ e.before.products.rows.map (·.id)

end Creations

/-- The ids still to be given to new rows are new, and no two are one. -/
structure World.Fresh (w : World) : Prop where
  distinct : ∀ n m, uuidText (w.uuids n) = uuidText (w.uuids m) → n = m
  products : ∀ n ≥ w.minted, ∀ row ∈ w.products.rows, row.id ≠ uuidText (w.uuids n)
  items : ∀ n ≥ w.minted, ∀ item ∈ w.inventory.inventoryItems,
    item.productId ≠ uuidText (w.uuids n)

/-- The call leaves nothing in doubt: an insert of a product had no effect if it was not answered,
and a compensating call succeeded. -/
def Settled (e : StoreEvent) : Prop :=
  match e.told with
  | ⟨.repository (.create _), .error _⟩ => e.after.products.rows = e.before.products.rows
  | ⟨.repository (.delete _), .error _⟩ => False
  | ⟨.inventory (.findByProductId _), .error _⟩ => False
  | ⟨.inventory (.delete _), .error _⟩ => False
  | _ => True

/-- The view is of a product that is there, and it has one record, of the same SKU. -/
structure Stocked (w : World) (view : ProductView) (sku : String) : Prop where
  named : view.sku = sku
  product : view.toProduct ∈ w.products.rows
  item : ∃ item ∈ w.inventory.inventoryItems, item.productId = view.id ∧ item.sku = sku ∧
    ∀ other ∈ w.inventory.inventoryItems, other.productId = view.id → other = item

/-- Nothing is left of a create, and the SKU is free again: who has it had it before, or got it from
another create. -/
structure Undone (start : World) (s : Creations) (i : Nat) (sku : String) : Prop where
  product : ∀ id, s.Inserted i id → ∀ row ∈ s.world.products.rows, row.id ≠ id
  item : ∀ id, s.Inserted i id → ∀ item ∈ s.world.inventory.inventoryItems, item.productId ≠ id
  freeProduct : ∀ row ∈ s.world.products.rows, row.sku = sku →
    row ∈ start.products.rows ∨ ∃ j ≠ i, s.Inserted j row.id
  freeItem : ∀ item ∈ s.world.inventory.inventoryItems, item.sku = sku →
    item ∈ start.inventory.inventoryItems ∨ ∃ j ≠ i, s.Inserted j item.productId

/-- What a call changes or deletes belongs to the product of its own create. -/
structure SparesOthers (s : Creations) (e : StoreEvent) : Prop where
  products : ∀ row ∈ e.before.products.rows,
    row ∈ e.after.products.rows ∨ s.Inserted e.thread row.id
  items : ∀ item ∈ e.before.inventory.inventoryItems,
    item ∈ e.after.inventory.inventoryItems ∨ s.Inserted e.thread item.productId

/-- What the creates promise of a state. -/
structure Saga (start : World) (s : Creations) : Prop where
  returned : ∀ i input view, s.task i = some input → s.result i = some (.ok view) →
    Stocked s.world view input.sku.text
  thrown : ∀ i input error, s.task i = some input → s.result i = some (.error error) →
    (∀ e ∈ s.trace, e.thread = i → Settled e) → Undone start s i input.sku.text
  others : ∀ e ∈ s.trace, SparesOthers s e

end PracticalMicroservice.Products
