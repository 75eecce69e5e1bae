import PracticalMicroservice.Cart.Custody

/-!
# One call beside other shoppers

A run in which one call of the service performs its commands, while others reserve and give back the
same products under references of their own.
-/

namespace PracticalMicroservice.Cart

open Inventory (ledgerUnits heldFor)

/-- A system about to run one call. -/
def System.alone (env : Env) (task : Task) (world : World) (others : String → Int) : System :=
  .start world others [{ program := (task.run env).run }]

/-- How the call ended, once it has. -/
def System.outcome (s : System) : Option (Except Exception (Option CheckoutResult)) :=
  match s.threads[0]? with
  | some t =>
    match t.program with
    | .done result => some result
    | .perform _ _ => none
  | none => none

/-- What can happen beside one call. Where calls report truthfully, no reply is lost. -/
def beside (lossy : Bool) (mine : List String) : Label → Prop
  | .call _ fate => fate = .replyLost → lossy = true
  | .other _ body => Inventory.trim body.reference ∉ mine
  | .lapse _ => True
  | .tick _ => True
  | .expire _ => True
  | .spawn _ => False
  | .notify _ => False
  | .crash _ => False
  | .consume _ _ => False

instance (lossy : Bool) (mine : List String) : DecidablePred (beside lossy mine)
  | .call _ fate => inferInstanceAs (Decidable (fate = .replyLost → lossy = true))
  | .other _ body => inferInstanceAs (Decidable (Inventory.trim body.reference ∉ mine))
  | .lapse _ => .isTrue trivial
  | .tick _ => .isTrue trivial
  | .expire _ => .isTrue trivial
  | .spawn _ => .isFalse id
  | .notify _ => .isFalse id
  | .crash _ => .isFalse id
  | .consume _ _ => .isFalse id

/-- A step in which the first thread performs no command of a bad verdict. -/
def avoids (bad : Command × Verdict → Bool) (s : System) : Label → Prop
  | .call i fate => i = 0 → ∀ command ∈ s.nextCommand i,
      bad (command, command.verdict fate s.world) = false
  | _ => True

instance (bad : Command × Verdict → Bool) (s : System) : DecidablePred (avoids bad s)
  | .call i fate => inferInstanceAs (Decidable (i = 0 → ∀ command ∈ s.nextCommand i,
      bad (command, command.verdict fate s.world) = false))
  | .spawn _ => .isTrue trivial
  | .notify _ => .isTrue trivial
  | .crash _ => .isTrue trivial
  | .lapse _ => .isTrue trivial
  | .tick _ => .isTrue trivial
  | .expire _ => .isTrue trivial
  | .other _ _ => .isTrue trivial
  | .consume _ _ => .isTrue trivial

/-- An undo that does not take effect. -/
def failedUndo (e : Command × Verdict) : Bool := undoes e.1 && e.2 == .failed

/-- An order's reservation of which the checkout is not told, or a record it cannot drop. -/
def leavesTwice (orderId : SessionId) (e : Command × Verdict) : Bool :=
  (orders orderId e.1 && e.2 == .untold) || (discards e.1 && e.2 == .failed)

/-- The record lists what it listed, and inventory holds for the cart what it held. -/
def Unchanged (cart : SessionId) (before after : World) : Prop :=
  after.redis.record cart = before.redis.record cart ∧
    ∀ p, heldFor after.inventory cart.text p = heldFor before.inventory cart.text p

/-- The units reserved under an order by a checkout. -/
def orderedUnits (w : World) (orderId : SessionId) (productId : String) : Int :=
  ledgerUnits w.inventory (· == orderKind orderId) productId

/-- Every unit the record listed is listed by it still and not under the order, or is under the
order and listed no more. -/
def OneOwner (cart orderId : SessionId) (before after : World) : Prop :=
  ∀ p, 0 < recorded (before.redis.record cart) p →
    (recorded (after.redis.record cart) p = recorded (before.redis.record cart) p ∧
      orderedUnits after orderId p = orderedUnits before orderId p) ∨
    (recorded (after.redis.record cart) p = 0 ∧
      orderedUnits after orderId p =
        orderedUnits before orderId p + recorded (before.redis.record cart) p)

end PracticalMicroservice.Cart
