import PracticalMicroservice.Inventory.Requests
import PracticalMicroservice.Products.World

/-!
# Any number of removals

Each removal is a thread of its own. Between its calls come those of the others, and whatever moves
stock in inventory, one operation at a time.
-/

namespace PracticalMicroservice.Products

open Foundations (History Machine Pool Program pastOf)
open Inventory (Fate InventoryItemView Operation)

/-- The removals under way, on the two stores. -/
abbrev Removals := Pool String Call Call.Reply (Except Thrown Unit) World

def removing : Machine Call Call.Reply World Fate Operation where
  perform _ fate call w := some (call.perform fate w)
  move op w := if op.movesStock then some { w with inventory := (op.run w.inventory).2 } else none

/-- The code of a removal, as a program that returns or throws. -/
def removeProgram (id : String) : Program Call Call.Reply (Except Thrown Unit) :=
  (Method.remove id).run

/-! ## How far a removal is -/

/-- What a removal goes by: what it has been told of its product and of the record. -/
inductive Removal
  | started
  | found (product : Product)
  /-- No units of the product were found, in its record or for want of one. -/
  | cleared (product : Product) (item : Option InventoryItemView)
  | deleted (item : InventoryItemView)
  | ended

namespace Removal

/-- How far it is after a reply. -/
def next : Removal → (command : Call) × command.Reply → Removal
  | started, ⟨.repository (.findById _), .ok (some product)⟩ => found product
  | found product, ⟨.inventory (.findByProductId _), .ok none⟩ => cleared product none
  | found product, ⟨.inventory (.findByProductId _), .ok (some item)⟩ =>
    if item.quantity > 0 ∨ item.reserved > 0 then ended else cleared product (some item)
  | cleared _ (some item), ⟨.repository (.delete _), .ok _⟩ => deleted item
  | _, _ => ended

/-- The record a removal has found empty, and takes to be so until it ends. -/
def record? : Removal → Option String
  | cleared _ (some item) | deleted item => some item.id
  | _ => none

end Removal

/-- How far a removal is that has been told so much. -/
def removalOf : History Call Call.Reply → Removal
  | [] => .started
  | told :: past => (removalOf past).next told

namespace Removals

def step (s : Removals) (l : Pool.Label String Fate Operation) : Option Removals :=
  Pool.step removing removeProgram s l

/-- How far a thread is. -/
def removalAt (s : Removals) (i : Nat) : Removal := removalOf (pastOf i s.trace)

/-- No units are delivered to a record that a removal has found empty, until that removal ends. -/
def Undelivered (s : Removals) : Pool.Label String Fate Operation → Prop
  | .move op => ∀ i < s.threads.length, ∀ id ∈ (s.removalAt i).record?,
      ¬ op.Delivers s.world.inventory id
  | _ => True

instance (s : Removals) : DecidablePred s.Undelivered
  | .move op => inferInstanceAs (Decidable (∀ i < s.threads.length,
      ∀ id ∈ (s.removalAt i).record?, ¬ op.Delivers s.world.inventory id))
  | .spawn _ => .isTrue trivial
  | .call _ _ => .isTrue trivial

end Removals

/-- Where the record of a product has units, both stay. -/
def KeepsStock (e : StoreEvent) : Prop :=
  ∀ item ∈ e.before.inventory.inventoryItems, ¬ item.levels.Empty →
    item.id ∈ e.after.inventory.inventoryItems.map (·.id) ∧
      ∀ product ∈ e.before.products.rows, product.id = item.productId →
        product.id ∈ e.after.products.rows.map (·.id)

instance (e : StoreEvent) : Decidable (KeepsStock e) :=
  inferInstanceAs (Decidable (∀ item ∈ e.before.inventory.inventoryItems, ¬ item.levels.Empty →
    item.id ∈ e.after.inventory.inventoryItems.map (·.id) ∧
      ∀ product ∈ e.before.products.rows, product.id = item.productId →
        product.id ∈ e.after.products.rows.map (·.id)))

end PracticalMicroservice.Products
