import PracticalMicroservice.Cart.Adapters
import PracticalMicroservice.Cart.Repository

/-!
# The cart service (`cart.service.ts`)
-/

namespace PracticalMicroservice.Cart

def CART_UPDATE_REASON : String := "Cart updated"
def CART_ROLLBACK_REASON : String := "Rolling back a failed cart update"
def CART_CHECKOUT_REASON : String := "Cart checked out"

/-- `ReleaseCause`. -/
inductive ReleaseCause
  | expired
  | swept
  | abandoned
  deriving DecidableEq, Repr

def ReleaseCause.text : ReleaseCause → String
  | expired => "expired"
  | swept => "swept"
  | abandoned => "abandoned"

/-- `ReleaseSkip`. -/
inductive ReleaseSkip
  | locked
  | empty
  | notHeld
  deriving DecidableEq, Repr

/-- `ReleaseOutcome`. -/
structure ReleaseOutcome where
  released : Bool
  skipped : Option ReleaseSkip
  lines : Nat
  deriving DecidableEq, Repr

/-- `ResolvedSession`. -/
structure ResolvedSession where
  cartSessionId : SessionId
  created : Bool
  deriving DecidableEq

/-- `CheckoutResult`. -/
structure CheckoutResult where
  cartSessionId : SessionId
  orderId : SessionId
  lines : List CartLine
  deriving DecidableEq

namespace CartService

def updateInProgress : Exception :=
  .ServiceUnavailableException "Another update to this cart is still in progress; try again"

/-- Puts inventory back where it was after a partially-applied update, as well as it can. -/
def rollback (env : Env) (reserved released : List StockLine) (cart : SessionId)
    (context : CallContext) : Promise Unit := do
  if reserved.length = 0 ∧ released.length = 0 then return ()
  tryCatch
    (do
      if reserved.length > 0 then
        dispatchReleaseMany env reserved cart { reason := some CART_ROLLBACK_REASON, context }
      if released.length > 0 then
        HttpInventoryAdapter.reserveMany released cart
          { reason := some CART_ROLLBACK_REASON, context })
    -- logged for a reconciliation by hand
    fun _ => return ()

/-- Runs a step, and on its failure the undo of what landed before it. -/
def orUndo {α : Type} (step : Promise α) (undo : Promise Unit) : Promise α :=
  tryCatch step fun error => do
    undo
    throw error

/-- Moves the stock, then writes the cart, unwinding whatever landed if a step fails. -/
def applyChanges (env : Env) (changes : CartChanges) (cart : SessionId) (context : CallContext) :
    Promise (List CartLine) := do
  let undo := fun reserved released => rollback env reserved released cart context
  let options : StockChangeOptions := { reason := some CART_UPDATE_REASON, context }
  if changes.reserve.length > 0 then
    orUndo (HttpInventoryAdapter.reserveMany changes.reserve cart options) (undo [] [])
  let reserved := changes.reserve
  if changes.release.length > 0 then
    orUndo (dispatchReleaseMany env changes.release cart options) (undo reserved [])
  let released := changes.release
  orUndo (CartRepository.commit env cart changes) (undo reserved released)

/-- Plans an update and applies it. Runs under the cart's write lock. -/
def applyRequested (env : Env) (requested : List CartLine) (cart : SessionId)
    (context : CallContext) : Promise (List CartLine) := do
  let changes := planChanges (← CartRepository.held cart) requested
  if exceedsBulkLimit changes then
    throw (.BadRequestException s!"A cart may hold at most {MAX_BULK_LINES} distinct products")
  if isNoop changes then
    let _ ← CartRepository.touch env cart
    CartRepository.lines env cart
  else applyChanges env changes cart context

/-- Sets each named line to the quantity given. -/
def setLines (env : Env) (requested : List CartLine) (cart : SessionId) (context : CallContext) :
    Promise (List CartLine) := do
  let duplicates := duplicateProductIds requested
  if duplicates.length > 0 then
    let named := ", ".intercalate duplicates
    throw (.BadRequestException
      s!"Each productId may appear only once; combine duplicates into a single line ({named})")
  match ← RedisLock.withLock (.writeLock cart) env.CART_LOCK_RETRIES.value
      (applyRequested env requested cart context) with
  | some settled => return settled
  | none => throw updateInProgress

/-- What `checkout` does under the write lock. -/
def checkoutHeld (env : Env) (cart orderId : SessionId) (context : CallContext) :
    Promise CheckoutResult := do
  let lines ← CartRepository.lines env cart
  if lines.length = 0 then throw (.ConflictException "This cart is empty")
  HttpInventoryAdapter.transferHold lines cart orderId
    { reason := some CART_CHECKOUT_REASON, context }
  CartRepository.discard cart
  return { cartSessionId := cart, orderId, lines }

/-- Hands the cart's hold over to an order and ends the cart. -/
def checkout (env : Env) (cart orderId : SessionId) (context : CallContext) :
    Promise CheckoutResult := do
  match ← RedisLock.withLock (.writeLock cart) env.CART_LOCK_RETRIES.value
      (checkoutHeld env cart orderId context) with
  | some settled => return settled
  | none => throw updateInProgress

/-- The `catch` of `releaseHeld`: no release happened, and whether it is to be tried again. -/
def releaseFailed (env : Env) (cart : SessionId) : Exception → Promise Bool
  | .InsufficientStockException _ _ => do
    -- read as a release that landed before: the cart is retired rather than retried
    CartRepository.retire cart
    return false
  | error => do
    CartRepository.scheduleRelease cart
      ((← Promise.dateNow) + env.CART_RELEASE_RETRY_DELAY_MS.value)
    throw error

/-- The release itself, once the lines to hand back are known. -/
def releaseHeld (env : Env) (cart : SessionId) (held : List CartLine) (cause : ReleaseCause) :
    Promise ReleaseOutcome := do
  let context : CallContext :=
    { requestId := some (← Promise.randomUUID), actor := some env.SERVICE_NAME }
  let dispatched ← tryCatch
    (do
      dispatchReleaseMany env held cart { reason := some s!"Cart {cause.text}", context }
      return true)
    (releaseFailed env cart)
  if dispatched then
    CartRepository.retire cart
    return { released := true, skipped := none, lines := held.length }
  else return { released := false, skipped := some .notHeld, lines := held.length }

/-- What `releaseSession` does under both locks. -/
def releaseTaken (env : Env) (cart : SessionId) (cause : ReleaseCause) :
    Promise ReleaseOutcome := do
  let held ← CartRepository.takeHeldLines env cart
  if held.length = 0 then
    CartRepository.forget cart
    return { released := false, skipped := some .empty, lines := 0 }
  else releaseHeld env cart held cause

/-- Hands a cart's units back to inventory. -/
def releaseSession (env : Env) (cart : SessionId) (cause : ReleaseCause) :
    Promise ReleaseOutcome := do
  let outcome ← RedisLock.withLock (.releaseLock cart) 0
    (RedisLock.withLock (.writeLock cart) env.CART_LOCK_RETRIES.value
      (releaseTaken env cart cause))
  match outcome with
  | some (some outcome) => return outcome
  | _ => return { released := false, skipped := some .locked, lines := 0 }

/-- Whether a cart is still live, sliding its expiry out if so. -/
def touchSession (env : Env) (cart : SessionId) : Promise Bool := CartRepository.touch env cart

/-- The session id a minted uuid is. -/
def sessionOf (uuid : String) : Option SessionId :=
  if h : Inventory.trim uuid = uuid then some ⟨uuid, h⟩ else none

/-- Settles which cart a request belongs to. -/
def resolveSession (env : Env) (claimed : Option SessionId) : Promise ResolvedSession := do
  let live ← match claimed with
    | some cart => touchSession env cart
    | none => pure false
  match claimed, live with
  | some cart, true => return { cartSessionId := cart, created := false }
  | _, _ =>
    let uuid ← Promise.randomUUID
    match sessionOf uuid with
    | some cart =>
      CartRepository.startSession env cart
      return { cartSessionId := cart, created := true }
    -- a uuid has no white space, so this never happens
    | none => throw .RedisError

end CartService

end PracticalMicroservice.Cart
