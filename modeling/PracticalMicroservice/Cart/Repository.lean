import PracticalMicroservice.Cart.World

/-!
# The cart repository and its locks (`cart.repository.ts`, `redis.lock.ts`)
-/

namespace PracticalMicroservice.Cart

namespace CartRepository

/-- What the cart currently holds, keyed by product. -/
def held (cart : SessionId) : Promise Held := do
  return heldQuantities (← Promise.reply (← Promise.call (.hgetall cart)))

def lines (env : Env) (cart : SessionId) : Promise (List CartLine) := do
  return toCartLines env.collates (← held cart)

def dueAt (env : Env) : Promise Nat := do
  return (← Promise.dateNow) + env.sessionTtlSeconds * 1000

/-- Writes the settled cart and re-arms its expiry, returning what the cart ended up holding. -/
def commit (env : Env) (cart : SessionId) (changes : CartChanges) : Promise (List CartLine) := do
  let dueAt ← dueAt env
  let settled ← Promise.reply (← Promise.call
    (.cartCommit cart changes.writes changes.removals env.sessionTtlSeconds env.itemsTtlSeconds
      dueAt))
  return toCartLines env.collates (heldQuantities settled)

/-- Slides a live cart's expiry out; false once it has gone. -/
def touch (env : Env) (cart : SessionId) : Promise Bool := do
  let dueAt ← dueAt env
  Promise.reply (← Promise.call
    (.cartTouch cart env.sessionTtlSeconds env.itemsTtlSeconds dueAt))

/-- Opens a session for a cart that does not have one yet. -/
def startSession (env : Env) (cart : SessionId) : Promise Unit := do
  Promise.reply (← Promise.call (.startSession cart env.sessionTtlSeconds))

/-- Reads the lines owed back to inventory, keeping them alive meanwhile. -/
def takeHeldLines (env : Env) (cart : SessionId) : Promise (List CartLine) := do
  let taken ← Promise.reply (← Promise.call (.cartTake cart env.inFlightTtlSeconds))
  return toCartLines env.collates (heldQuantities taken)

/-- Drops the cart once its release is confirmed. -/
def retire (cart : SessionId) : Promise Unit := do
  Promise.reply (← Promise.call (.cartFinish cart))

/-- Ends a cart outright, contents and session together. -/
def discard (cart : SessionId) : Promise Unit := do
  Promise.reply (← Promise.call (.cartDiscard cart))

/-- Takes a cart off the sweeper's queue without touching its contents. -/
def forget (cart : SessionId) : Promise Unit := do
  Promise.reply (← Promise.call (.zrem cart))

/-- Puts a cart back on the queue, for a release that has to be retried. -/
def scheduleRelease (cart : SessionId) (atMs : Nat) : Promise Unit := do
  Promise.reply (← Promise.call (.zadd cart atMs))

/-- Carts whose hold has fallen due, oldest first. -/
def dueBefore (atMs limit : Nat) : Promise (List SessionId) := do
  Promise.reply (← Promise.call (.dueBefore atMs limit))

/-- Remaining life of a session in ms; negative once it is gone. -/
def sessionTtlMs (cart : SessionId) : Promise Int := do
  Promise.reply (← Promise.call (.pttl cart))

end CartRepository

namespace RedisLock

/-- The attempts of `acquire`; the pause between two of them is time passing. -/
def attempt (key : LockKey) (token : String) : Nat → Promise Bool
  | 0 => return false
  | attempts + 1 => do
    if ← Promise.reply (← Promise.call (.lockSet key token)) then return true
    else attempt key token attempts

/-- Takes the lock under a token of its own, or returns none if someone else holds it. -/
def acquire (key : LockKey) (retries : Nat) : Promise (Option String) := do
  let token ← Promise.randomUUID
  if ← attempt key token (retries + 1) then return some token else return none

/-- Gives the lock back, never throwing. -/
def release (key : LockKey) (token : String) : Promise Unit := do
  let _ ← Promise.call (.lockRelease key token)

/-- Runs `work` under the lock, releasing it however that turns out. -/
def withLock {α : Type} (key : LockKey) (retries : Nat) (work : Promise α) :
    Promise (Option α) := do
  match ← acquire key retries with
  | none => return none
  | some token => return some (← Promise.finally_ work (release key token))

end RedisLock

end PracticalMicroservice.Cart
