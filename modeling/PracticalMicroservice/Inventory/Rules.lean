import PracticalMicroservice.Inventory.Errors

/-!
# The stock rules (`inventory.rules.ts`)

The pure planners: each maps the levels of one item to the levels a stock operation wants, or to
the domain error that refuses it.
-/

namespace PracticalMicroservice.Inventory

/-- `StockLevels`: the only stock fields the invariants care about. -/
structure StockLevels where
  quantity : Int
  reserved : Int
  deriving DecidableEq, Repr

/-- Units that can still be promised to new orders. -/
def availableStock (item : StockLevels) : Int :=
  item.quantity - item.reserved

def isLowStock (item : StockLevels) (reorderLevel : Int) : Bool :=
  availableStock item ≤ reorderLevel

/-- The invariants every mutation must preserve, checked in the order of the source. -/
def assertInvariants (next : StockLevels) : Except AppError Unit :=
  if next.quantity < 0 then
    .error (.UnprocessableEntityError "On-hand quantity cannot go negative")
  else if next.reserved < 0 then
    .error (.UnprocessableEntityError "Reserved quantity cannot go negative")
  else if next.reserved > next.quantity then
    .error (.ConflictError
      s!"Cannot leave {next.reserved} units reserved against {next.quantity} on hand" [])
  else .ok ()

def planReservation (item : StockLevels) (quantity : Int) : Except AppError StockLevels :=
  let available := availableStock item
  if quantity > available then
    .error (.ConflictError
      s!"Insufficient stock: requested {quantity}, only {available} available" [])
  else .ok { quantity := item.quantity, reserved := item.reserved + quantity }

def planRelease (item : StockLevels) (quantity : Int) : Except AppError StockLevels :=
  if quantity > item.reserved then
    .error (.ConflictError
      s!"Cannot release {quantity} units; only {item.reserved} are reserved" [])
  else .ok { quantity := item.quantity, reserved := item.reserved - quantity }

/-- Ships reserved units: removes them from both on-hand and reserved. -/
def planFulfilment (item : StockLevels) (quantity : Int) : Except AppError StockLevels :=
  if quantity > item.reserved then
    .error (.ConflictError
      s!"Cannot fulfil {quantity} units; only {item.reserved} are reserved" [])
  else .ok { quantity := item.quantity - quantity, reserved := item.reserved - quantity }

/-- An over-the-counter sale may only consume what is available. -/
def planSale (item : StockLevels) (quantity : Int) : Except AppError StockLevels :=
  let available := availableStock item
  if quantity > available then
    .error (.ConflictError
      s!"Insufficient stock: requested {quantity}, only {available} available" [])
  else .ok { quantity := item.quantity - quantity, reserved := item.reserved }

/-- A supplier delivery or a customer return. -/
def planReceipt (item : StockLevels) (quantity : Int) : Except AppError StockLevels :=
  .ok { quantity := item.quantity + quantity, reserved := item.reserved }

/-- Signed correction to on-hand stock, which may not cut into what is reserved. -/
def planAdjustment (item : StockLevels) (delta : Int) : Except AppError StockLevels :=
  let next : StockLevels := { quantity := item.quantity + delta, reserved := item.reserved }
  if next.quantity < item.reserved then
    .error (.ConflictError
      s!"Cannot adjust to {next.quantity} units while {item.reserved} are reserved" [])
  else .ok next

/-- What every stored item must satisfy: `0 ≤ reserved ≤ quantity`. -/
def StockLevels.Sound (levels : StockLevels) : Prop :=
  0 ≤ levels.reserved ∧ levels.reserved ≤ levels.quantity

instance (levels : StockLevels) : Decidable levels.Sound :=
  inferInstanceAs (Decidable (_ ∧ _))

/-- The invariant check accepts exactly the sound levels. -/
theorem assertInvariants_ok {next : StockLevels} :
    assertInvariants next = .ok () ↔ next.Sound := by
  unfold assertInvariants StockLevels.Sound
  split
  · simp; omega
  · split
    · simp; omega
    · split
      · simp; omega
      · simp; omega

end PracticalMicroservice.Inventory
