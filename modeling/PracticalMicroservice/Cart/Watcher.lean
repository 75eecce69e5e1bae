import PracticalMicroservice.Cart.Service

/-!
# Who calls the service (`cart.controller.ts`, `cart-expiry.watcher.ts`)

The HTTP handlers, the handler of an expired-key notification and the sweep. The decoding of a
request and the timers are left out: a step of the system starts one of these.
-/

namespace PracticalMicroservice.Cart

namespace CartController

def CART_SESSION_HEADER : String := "cart-session-id"

/-- A cart that has expired is gone, not malformed. -/
def requireSession (env : Env) (claimed : Option SessionId) : Promise SessionId := do
  match claimed with
  | none =>
    throw (.NotFoundException
      s!"No cart session; send one in the '{CART_SESSION_HEADER}' header")
  | some cart =>
    if ← CartService.touchSession env cart then return cart
    else throw (.NotFoundException "This cart has expired")

/-- Sets the quantity of each named line. -/
def setItems (env : Env) (items : List CartLine) (claimed : Option SessionId)
    (context : CallContext) : Promise (List CartLine) := do
  let session ← CartService.resolveSession env claimed
  CartService.setLines env items session.cartSessionId context

/-- The cart behind the claimed session. -/
def getCart (env : Env) (claimed : Option SessionId) : Promise (List CartLine) := do
  let cart ← requireSession env claimed
  CartRepository.lines env cart

/-- Hands the cart's hold to an order and ends the cart. -/
def checkout (env : Env) (orderId : SessionId) (claimed : Option SessionId)
    (context : CallContext) : Promise CheckoutResult := do
  let cart ← requireSession env claimed
  CartService.checkout env cart orderId context

/-- Abandons the cart. -/
def abandon (env : Env) (claimed : Option SessionId) : Promise Unit := do
  match claimed with
  | none => return ()
  | some cart => let _ ← CartService.releaseSession env cart .abandoned

end CartController

namespace CartExpiryWatcher

/-- Runs one release, absorbing the failure. -/
def release (env : Env) (cart : SessionId) (cause : ReleaseCause) : Promise Unit :=
  tryCatch (do let _ ← CartService.releaseSession env cart cause) fun _ => return ()

/-- `onExpiry`, for the key of a session sentinel. -/
def onExpiry (env : Env) (cart : SessionId) : Promise Unit := release env cart .expired

/-- One turn of the sweep's loop. -/
def sweepOne (env : Env) (cart : SessionId) : Promise Unit := do
  let ttlMs ← CartRepository.sessionTtlMs cart
  if ttlMs ≥ 0 then
    CartRepository.scheduleRelease cart ((← Promise.dateNow) + ttlMs.toNat)
  else release env cart .swept

/-- The loop over the carts that are due. -/
def sweepAll (env : Env) : List SessionId → Promise Unit
  | [] => return ()
  | cart :: rest => do
    sweepOne env cart
    sweepAll env rest

/-- Releases carts whose expiry event never arrived, or whose release failed the last time. -/
def sweep (env : Env) : Promise Unit :=
  tryCatch
    (do
      let due ← CartRepository.dueBefore (← Promise.dateNow) env.CART_SWEEP_BATCH.value
      sweepAll env due)
    fun _ => return ()

end CartExpiryWatcher

end PracticalMicroservice.Cart
