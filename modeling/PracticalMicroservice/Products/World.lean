import PracticalMicroservice.Foundations.Histories
import PracticalMicroservice.Foundations.Statements
import PracticalMicroservice.Products.Service

/-!
# The two stores

Each call of the service is one step on the table of the products or on the database of inventory. It
may not be made at all, or take effect and lose its reply.
-/

namespace PracticalMicroservice.Products

open Foundations (Program)
open Inventory (Fate)

structure World where
  products : Database
  inventory : Inventory.Database
  /-- The ids the databases give new rows, in turn. -/
  uuids : Nat → String
  minted : Nat

namespace World

/-- The reply to a statement, and the table it leaves. -/
def statement {α : Type} (w : World) (result : Except Inventory.DatabaseError α × Database) :
    Except Thrown α × World :=
  (result.1.mapError .database, { w with products := result.2 })

/-- The reply to a request, and the database it leaves. -/
def respond {α : Type} (w : World) (result : Except Thrown α × Inventory.Database) :
    Except Thrown α × World :=
  (result.1, { w with inventory := result.2 })

end World

namespace RepositoryCall

def run : (call : RepositoryCall) → World → (Call.repository call).Reply × World
  | findById id, w => (.ok (w.products.findById id), w)
  | findBySku sku, w => (.ok (w.products.findBySku sku), w)
  | create input, w =>
    { w with minted := w.minted + 1 }.statement
      (Repository.create (w.uuids w.minted) input w.products)
  | update id input, w => w.statement (Repository.update id input w.products)
  | delete id, w => w.statement (Repository.delete id w.products)

def perform (fate : Fate) (call : RepositoryCall) (w : World) :
    (Call.repository call).Reply × World :=
  match fate with
  | .answered => call.run w
  | .lost => (.error (.database .unavailable), (call.run w).2)
  | .failed => (.error (.database .unavailable), w)

end RepositoryCall

namespace InventoryCall

def perform (fate : Fate) : (call : InventoryCall) → World → (Call.inventory call).Reply × World
  | create input, w =>
    { w with minted := w.minted + 1 }.respond
      (HttpInventoryClient.create fate (w.uuids w.minted) w.minted input w.inventory)
  | findByProductId productId, w =>
    w.respond (HttpInventoryClient.findByProductId fate productId w.inventory)
  | update id input, w => w.respond (HttpInventoryClient.update fate id input w.inventory)
  | delete id, w => w.respond (HttpInventoryClient.delete fate id w.inventory)

end InventoryCall

def Call.perform (fate : Fate) : (call : Call) → World → call.Reply × World
  | .repository call => call.perform fate
  | .inventory call => call.perform fate

/-- A call made of the two stores by one of several threads. -/
abbrev StoreEvent := Foundations.Event Call Call.Reply World

end PracticalMicroservice.Products
