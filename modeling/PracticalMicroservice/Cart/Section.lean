import PracticalMicroservice.Cart.System

/-!
# What one critical section accounts for

The abstract side of an update, a checkout or a release: while a call is inside the critical section
of its cart, the units the cart had recorded are its to account for, and every call to inventory
moves its account. The contract says which commands a call may perform in which stage, and what it
may learn from their replies.
-/

namespace PracticalMicroservice.Cart

open Foundations (Contract)
open Inventory (Transition BulkBody units)

/-! ## What a call has done so far -/

/-- The commands a call has performed, newest first. -/
abbrev Past := List (Command × Verdict)

/-- A call that takes back an earlier one of the same section. -/
def undoes : Command → Bool
  | .post _ body =>
    body.reason == some CART_ROLLBACK_REASON ||
      body.reason == some HttpInventoryAdapter.TRANSFER_ROLLBACK_REASON
  | _ => false

/-- A call that drops the record of a cart whose units were released. -/
def retires : Command → Bool
  | .cartFinish _ => true
  | _ => false

/-- Inventory has given units of the section back, other than to take a reservation back. -/
def gives : Command × Verdict → Bool
  | (.post .release body, verdict) =>
    verdict != .failed && body.reason != some CART_ROLLBACK_REASON
  | _ => false

def gave (past : Past) : Bool := past.any gives

/-- An undo did not take effect. -/
def undoFailed (past : Past) : Bool := past.any fun e => undoes e.1 && e.2 == .failed

/-- Units were given back, and then neither could be taken again nor struck off the record. -/
def owedFailed : Past → Bool
  | [] => false
  | e :: older => ((undoes e.1 || retires e.1) && e.2 == .failed && gave older) || owedFailed older

/-- The cart whose write lock the call holds. -/
def lockHeld : Past → Option SessionId
  | [] => none
  | (.lockSet (.writeLock cart) _, .told) :: _ => some cart
  | (.lockRelease (.writeLock _) _, _) :: _ => none
  | _ :: older => lockHeld older

/-- The kind of the rows by which a checkout hands units to an order. -/
def orderKind (orderId : SessionId) : Inventory.MovementKind where
  type := .RESERVATION
  reason := some CART_CHECKOUT_REASON
  reference := some orderId.text

/-- The call that reserves the units under the order. -/
def orders (orderId : SessionId) : Command → Bool
  | .post t body => body.kind t == orderKind orderId
  | _ => false

/-- The units the order was handed. -/
def handed (orderId : SessionId) : Past → String → Int
  | [], _ => 0
  | (.post t body, verdict) :: older, p =>
    (if body.kind t == orderKind orderId && verdict != .failed then units body.items p else 0) +
      handed orderId older p
  | _ :: older, p => handed orderId older p

/-- The order was handed its units, and the checkout was not told. -/
def orderUntold (orderId : SessionId) (past : Past) : Bool :=
  past.any fun e => orders orderId e.1 && e.2 == .untold

/-- The script that drops the record of a cart that was checked out. -/
def discards : Command → Bool
  | .cartDiscard _ => true
  | _ => false

/-- The record outlived its checkout. -/
def discardFailed (past : Past) : Bool := past.any fun e => discards e.1 && e.2 == .failed

/-! ## The account of a section -/

inductive Stage
  | before
  | inside
  | after
  deriving DecidableEq

/-- The account of a call on one cart. -/
structure Section where
  cart : SessionId
  stage : Stage
  /-- The record when the section was entered. -/
  origin : List (String × Int)
  /-- The record as the section has left it. -/
  fields : List (String × Int)
  /-- The units inventory moved under the cart's own reference. -/
  cartNet : String → Int
  /-- The units inventory moved under other references. -/
  otherNet : String → Int
  past : Past

namespace Section

variable (g : Section)

/-- A call that has not reached its section. -/
def fresh (cart : SessionId) : Section where
  cart
  stage := .before
  origin := []
  fields := []
  cartNet := fun _ => 0
  otherNet := fun _ => 0
  past := []

/-- The units inventory counts as reserved on account of the section. -/
def claim (productId : String) : Int :=
  recorded g.origin productId + g.cartNet productId + g.otherNet productId

/-- The part of the claim the call answers for itself: all of it inside, and what the record does
not take over afterwards. -/
def share (productId : String) : Int :=
  match g.stage with
  | .before => 0
  | .inside => g.claim productId
  | .after => g.claim productId - recorded g.fields productId

def note (command : Command) (verdict : Verdict) : Section :=
  { g with past := (command, verdict) :: g.past }

def enter (fields : List (String × Int)) : Section :=
  { g with
    stage := .inside, origin := fields, fields,
    cartNet := fun _ => 0, otherNet := fun _ => 0 }

def leave : Section := { g with stage := .after }

def write (fields : List (String × Int)) : Section := { g with fields }

/-- What an accepted bulk call does to the account. -/
def move (t : Transition) (body : BulkBody) : Section :=
  if Inventory.trim body.reference = g.cart.text then
    { g with cartNet := fun p => g.cartNet p + match t with
        | .reserve => units body.items p
        | .release => - units body.items p }
  else
    { g with otherNet := fun p => g.otherNet p + match t with
        | .reserve => units body.items p
        | .release => - units body.items p }

end Section

/-! ## The contract -/

/-- What a call may perform at each stage. It gives back no more than it claims, unless inventory
refuses the amount out of hand, and leaves with a claim that covers the record, unless units it owes
could not be put back. -/
def sectionAllows (lossy : Bool) : Command → Section → Prop
  | .randomUUID, _ => True
  | .dateNow, _ => True
  | .lockSet (.writeLock cart) _, g => cart = g.cart ∧ g.stage = .before
  | .lockSet (.releaseLock _) _, _ => True
  | .lockRelease (.writeLock cart) _, g => cart = g.cart ∧ g.stage = .inside ∧
      (lossy = false → owedFailed g.past = false → ∀ p, recorded g.fields p ≤ g.claim p)
  | .lockRelease (.releaseLock _) _, _ => True
  | .hgetall cart, g => cart = g.cart ∧ g.stage = .inside
  | .cartCommit cart _ _ _ _ _, g => cart = g.cart ∧ g.stage = .inside
  | .cartTouch cart _ _ _, g => cart = g.cart ∧ g.stage = .inside
  | .cartTake cart _, g => cart = g.cart ∧ g.stage = .inside
  | .cartFinish cart, g => cart = g.cart ∧ g.stage = .inside
  | .cartDiscard cart, g => cart = g.cart ∧ g.stage = .inside
  | .zrem _, _ => True
  | .zadd _ _, _ => True
  | .post t body, g => g.stage = .inside ∧
      (t = .release → (∀ p, units body.items p ≤ 1000000000) →
        ∀ p, units body.items p ≤ g.claim p)
  | .startSession _ _, _ => False
  | .dueBefore _ _, _ => False
  | .pttl _, _ => False
  | .publish _, _ => False

/-- What a call learns: the reply to a command of a given verdict, and the account after it. A
record that has expired reads as an empty one. -/
def sectionReply (v : Verdict) : (command : Command) → Section → command.Reply → Section → Prop
  | .lockSet (.writeLock cart) token, g, reply, g' =>
    (v = .told ∧ reply = some true ∧ ∃ fields, Entries.Distinct fields ∧
      g' = (g.enter fields).note (.lockSet (.writeLock cart) token) v) ∨
    (v ≠ .told ∧ reply ≠ some true ∧ g' = g.note (.lockSet (.writeLock cart) token) v)
  | .lockRelease (.writeLock cart) token, g, _, g' =>
    g' = g.leave.note (.lockRelease (.writeLock cart) token) v
  | .hgetall cart, g, reply, g' =>
    g' = g.note (.hgetall cart) v ∧
      (reply = some g.fields ∨ reply = some [] ∨ reply = none)
  | .cartTake cart inFlight, g, reply, g' =>
    g' = g.note (.cartTake cart inFlight) v ∧
      (reply = some g.fields ∨ reply = some [] ∨ reply = none)
  | .cartCommit cart writes removals sessionTtl itemsTtl dueAt, g, reply, g' =>
    (v ≠ .failed ∧ (v = .told ↔ reply ≠ none) ∧ ∃ base, (base = g.fields ∨ base = []) ∧
      g' = (g.write (Redis.committed base writes removals)).note
        (.cartCommit cart writes removals sessionTtl itemsTtl dueAt) v) ∨
    (v = .failed ∧ reply = none ∧
      g' = g.note (.cartCommit cart writes removals sessionTtl itemsTtl dueAt) v)
  | .cartFinish cart, g, reply, g' =>
    (v ≠ .failed ∧ (v = .told ↔ reply ≠ none) ∧ g' = (g.write []).note (.cartFinish cart) v) ∨
    (v = .failed ∧ reply = none ∧ g' = g.note (.cartFinish cart) v)
  | .cartDiscard cart, g, reply, g' =>
    (v ≠ .failed ∧ (v = .told ↔ reply ≠ none) ∧ g' = (g.write []).note (.cartDiscard cart) v) ∨
    (v = .failed ∧ reply = none ∧ g' = g.note (.cartDiscard cart) v)
  | .post t body, g, reply, g' =>
    (v ≠ .failed ∧ (∀ line ∈ body.items, 0 < units body.items line.productId) ∧
      (∀ p, 0 ≤ units body.items p ∧ units body.items p ≤ 1000000000) ∧ (v = .told ↔ ∃ r, reply = some r ∧ r.isOk = true) ∧
      g' = (g.move t body).note (.post t body) v) ∨
    (v = .failed ∧ (∀ r, reply = some r → r.isOk = false) ∧ g' = g.note (.post t body) v)
  | command, g, _, g' => g' = g.note command v

/-- The contract of a call on one cart. Where replies are truthful, no effect goes untold. -/
def sectionContract (lossy : Bool) : Contract Command Command.Reply Section where
  allows := sectionAllows lossy
  replies := fun command g reply g' =>
    ∃ v, (v = .untold → lossy = true) ∧ sectionReply v command g reply g'

end PracticalMicroservice.Cart
