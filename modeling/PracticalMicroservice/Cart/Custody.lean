import PracticalMicroservice.Cart.Section

/-!
# Who answers for which units

Inventory counts the reserved units of a product in one number. The claims on it are the records of
the carts, what the calls inside their sections account for, what finished checkouts handed to
orders, and what other shoppers hold.
-/

namespace PracticalMicroservice.Cart

open Inventory (Transition BulkBody units)
open Foundations (Program)

/-! ## The history of one call -/

/-- What one thread has done. -/
def pastOf (trace : List Event) (thread : Nat) : Past :=
  trace.filterMap fun event =>
    match event with
    | .performed i command verdict => if i = thread then some (command, verdict) else none
    | .consumed _ _ => none

namespace System

/-- A thread is inside the critical section of a cart. -/
def inSection (s : System) (thread : Nat) (cart : SessionId) : Prop :=
  lockHeld (pastOf s.trace thread) = some cart

instance (s : System) (thread : Nat) (cart : SessionId) : Decidable (s.inSection thread cart) :=
  inferInstanceAs (Decidable (_ = _))

/-- No thread is inside a section. -/
def quiet (s : System) : Prop := ∀ i < s.threads.length, lockHeld (pastOf s.trace i) = none

instance (s : System) : Decidable s.quiet :=
  inferInstanceAs (Decidable (∀ i < s.threads.length, lockHeld (pastOf s.trace i) = none))

/-- The units a checkout that has returned handed to its order. -/
def handedBy (s : System) (thread : Nat) (productId : String) : Int :=
  match s.threads[thread]? with
  | some t =>
    match t.program with
    | .done (.ok (some result)) => quantityOf result.lines productId
    | _ => 0
  | none => 0

end System

/-! ## Runs of truthful calls -/

/-- The calls of the service that move stock. -/
def Task.movesStock : Task → Bool
  | .setLines _ _ _ => true
  | .checkout _ _ _ => true
  | .releaseSession _ _ => true
  | _ => false

/-- Every call tells its outcome and changes nothing when it fails; no write lock lapses inside a
section; and others give back only what they hold. -/
def truthful (s : System) : Label → Prop
  | .spawn task => task.movesStock = true
  | .call _ fate => fate ≠ .replyLost
  | .lapse (.writeLock cart) => ∀ i < s.threads.length, ¬ s.inSection i cart
  | .lapse (.releaseLock _) => True
  | .tick _ => True
  | .expire _ => True
  | .other .reserve _ => True
  | .other .release body =>
    ∀ line ∈ body.items, units body.items line.productId ≤ s.others line.productId
  | .notify _ => False
  | .crash _ => False
  | .consume _ _ => False

instance (s : System) : DecidablePred (truthful s)
  | .spawn task => inferInstanceAs (Decidable (task.movesStock = true))
  | .call _ fate => inferInstanceAs (Decidable (fate ≠ .replyLost))
  | .lapse (.writeLock cart) =>
    inferInstanceAs (Decidable (∀ i < s.threads.length, ¬ s.inSection i cart))
  | .lapse (.releaseLock _) => inferInstanceAs (Decidable True)
  | .tick _ => inferInstanceAs (Decidable True)
  | .expire _ => inferInstanceAs (Decidable True)
  | .other .reserve _ => inferInstanceAs (Decidable True)
  | .other .release body => inferInstanceAs (Decidable
      (∀ line ∈ body.items, units body.items line.productId ≤ s.others line.productId))
  | .notify _ => inferInstanceAs (Decidable False)
  | .crash _ => inferInstanceAs (Decidable False)
  | .consume _ _ => inferInstanceAs (Decidable False)

/-- A call that has given units back, and now has to take them again or strike them off the record,
does not fail at it. -/
def putsRight (s : System) : Label → Prop
  | .call i fate => ∀ command ∈ s.nextCommand i, gave (pastOf s.trace i) = true →
      (undoes command || retires command) = true → command.verdict fate s.world ≠ .failed
  | _ => True

instance (s : System) : DecidablePred (putsRight s)
  | .call i fate => inferInstanceAs (Decidable (∀ command ∈ s.nextCommand i,
      gave (pastOf s.trace i) = true → (undoes command || retires command) = true →
        command.verdict fate s.world ≠ .failed))
  | .spawn _ => .isTrue trivial
  | .notify _ => .isTrue trivial
  | .crash _ => .isTrue trivial
  | .lapse _ => .isTrue trivial
  | .tick _ => .isTrue trivial
  | .expire _ => .isTrue trivial
  | .other _ _ => .isTrue trivial
  | .consume _ _ => .isTrue trivial

/-! ## The claims -/

/-- Whoever counts on reserved units. -/
inductive Holder
  | cart (cart : SessionId)
  | thread (i : Nat)
  | others
  deriving DecidableEq

/-- Some call is inside the section of the cart. -/
def Occupied (accounts : Nat → Section) (cart : SessionId) : Prop :=
  ∃ i, (accounts i).stage = .inside ∧ (accounts i).cart = cart

open Classical in
/-- What a holder counts on: a cart on its record, unless a call inside its section accounts for
it. -/
noncomputable def claimOf (w : World) (others : String → Int) (accounts : Nat → Section)
    (productId : String) : Holder → Int
  | .cart cart => if Occupied accounts cart then 0 else recorded (w.redis.record cart) productId
  | .thread i => (accounts i).share productId
  | .others => others productId

end PracticalMicroservice.Cart
