import PracticalMicroservice.Foundations.Histories
import PracticalMicroservice.Inventory.Requests
import PracticalMicroservice.Inventory.Proofs.BulkProofs

/-!
# Operations beside one another

Between two calls of the repository that one operation makes, any other operation may take effect.
Each call is one step on the database, and may fail before it or lose its reply after it. `create`
and `remove` read before they write; every other operation is a single call.
-/

namespace PracticalMicroservice.Inventory

open Foundations (Fallible History Machine Pool Program)

/-! ## The calls of the repository -/

inductive Call
  | findById (id : String)
  | findBySku (sku : String)
  | findByProductId (productId : String)
  | create (id : String) (createdAt : Nat) (input : CreateInventoryItemInput)
  | delete (id : String)
  /-- The one call of any other operation. -/
  | transact (op : Operation)

namespace Call

abbrev Result : Call → Type
  | findById _ | findBySku _ | findByProductId _ => Option InventoryItem
  | create _ _ _ => InventoryItem
  | delete _ | transact _ => Unit

abbrev Reply (call : Call) : Type := Except Thrown call.Result

def run : (call : Call) → Database → call.Reply × Database
  | findById id, db => (.ok (db.findById id), db)
  | findBySku sku, db => (.ok (db.findBySku sku), db)
  | findByProductId productId, db => (.ok (db.findByProductId productId), db)
  | create id createdAt input, db => Repository.create id createdAt input db
  | delete id, db => Repository.delete id db
  | transact op, db => op.run db

end Call

/-- What becomes of a call: it is answered, its reply is lost, or it does not reach the database. -/
inductive Fate
  | answered
  | lost
  | failed
  deriving DecidableEq

def Fate.takesEffect : Fate → Bool
  | answered | lost => true
  | failed => false

def Call.perform (fate : Fate) (call : Call) (db : Database) : call.Reply × Database :=
  match fate with
  | .answered => call.run db
  | .lost => (.error (.database .unavailable), (call.run db).2)
  | .failed => (.error (.database .unavailable), db)

/-! ## The service, call by call -/

/-- A method of the service as a program of calls. -/
abbrev Method := Fallible Thrown Call Call.Reply

namespace Method

def call (c : Call) : Method c.Result := do
  let reply : c.Reply ← ExceptT.lift (Program.request c)
  ExceptT.mk (pure reply)

def getById (id : String) : Method InventoryItemView := do
  match ← call (.findById id) with
  | none => throw (.app (.NotFoundError s!"Inventory item '{id}' was not found"))
  | some item => return toInventoryItemView item

def create (id : String) (createdAt : Nat) (input : CreateInventoryItemInput) :
    Method InventoryItemView := do
  match ← call (.findBySku input.sku) with
  | some _ =>
    throw (.app (.ConflictError s!"Inventory for SKU '{input.sku}' already exists" []))
  | none =>
    match ← call (.findByProductId (uuidText input.productId)) with
    | some forProduct => throw (.app (.ConflictError
        s!"Inventory for product '{input.productId}' already exists as SKU '{forProduct.sku}'" []))
    | none => return toInventoryItemView (← call (.create id createdAt input))

def remove (id : String) : Method Unit := do
  let item ← getById id
  if item.reserved > 0 then
    throw (.app (.ConflictError
      s!"Cannot delete inventory with {item.reserved} reserved units outstanding" []))
  call (.delete id)

end Method

namespace Operation

def method : Operation → Method Unit
  | request (.create id createdAt body) => do let _ ← Method.create id createdAt body
  | request (.remove id) => Method.remove id
  | op => Method.call (.transact op)

/-- Whether an operation is a single call. -/
def single : Operation → Bool
  | request (.create _ _ _) | request (.remove _) => false
  | _ => true

/-- The operation, taking effect on a database, reserves units of an item. -/
def Reserves (db : Database) (id : String) : Operation → Prop
  | request (.reserve id' body) =>
    id' = id ∧ ∃ item ∈ db.findById id, Transition.reserve.Admits item.levels body.quantity.value
  | request (.reserveMany body) =>
    (∀ line ∈ body.items, Accepts .reserve db line) ∧
      ∃ item ∈ db.findById id, item.productId ∈ body.items.map (·.productId)
  | _ => False

instance (db : Database) (id : String) : DecidablePred (Reserves db id)
  | request (.reserve id' body) =>
    inferInstanceAs (Decidable (id' = id ∧ ∃ item ∈ db.findById id,
      Transition.reserve.Admits item.levels body.quantity.value))
  | request (.reserveMany body) =>
    inferInstanceAs (Decidable ((∀ line ∈ body.items, Accepts .reserve db line) ∧
      ∃ item ∈ db.findById id, item.productId ∈ body.items.map (·.productId)))
  | request (.create _ _ _) | request (.receive _ _) | request (.acceptReturn _ _)
  | request (.sell _ _) | request (.adjust _ _) | request (.release _ _) | request (.fulfil _ _)
  | request (.update _ _ _) | request (.remove _) | request (.releaseMany _) | message _ _ =>
    .isFalse fun h => h

end Operation

/-! ## Many operations at once -/

/-- The operations under way, on one database. -/
abbrev System := Pool Operation Call Call.Reply (Except Thrown Unit) Database

abbrev Event := Foundations.Event Call Call.Reply Database
abbrev Label := Pool.Label Operation Fate Empty
abbrev Told := History Call Call.Reply

def machine : Machine Call Call.Reply Database Fate Empty where
  perform _ fate call db := some (call.perform fate db)
  move m _ := nomatch m

namespace System

def step (s : System) (l : Label) : Option System := Pool.step machine (fun op => op.method.run) s l

/-- The item a thread is about to delete. -/
def removing (s : System) (thread : Nat) : Option String :=
  match s.nextCommand thread with
  | some (.delete id) => some id
  | _ => none

/-- No units are reserved of an item that a removal has looked at and is about to delete. -/
def Undisturbed (s : System) (_thread : Nat) (fate : Fate) : Call → Prop
  | .transact op => fate.takesEffect → ∀ i < s.threads.length, ∀ id ∈ s.removing i,
      ¬ op.Reserves s.world id
  | _ => True

instance (s : System) (thread : Nat) (fate : Fate) :
    DecidablePred (s.Undisturbed thread fate)
  | .transact op =>
    inferInstanceAs (Decidable (fate.takesEffect → ∀ i < s.threads.length, ∀ id ∈ s.removing i,
      ¬ op.Reserves s.world id))
  | .findById _ | .findBySku _ | .findByProductId _ | .create _ _ _ | .delete _ => .isTrue trivial

end System

/-- An event that deletes a row finds nothing reserved of it. -/
def Spares (e : Event) : Prop :=
  ∀ item ∈ e.before.inventoryItems, item.id ∉ e.after.inventoryItems.map (·.id) →
    item.reserved = 0

instance (e : Event) : Decidable (Spares e) :=
  inferInstanceAs (Decidable (∀ item ∈ e.before.inventoryItems,
    item.id ∉ e.after.inventoryItems.map (·.id) → item.reserved = 0))

end PracticalMicroservice.Inventory
