import PracticalMicroservice.Inventory.Schema

/-!
# Configuration and keys (`env.ts`, `cart.keys.ts`)

The settings the cart service reads, each with the bounds its schema enforces, and the names of
what it keeps in Redis.
-/

namespace PracticalMicroservice.Cart

/-- `z.coerce.number().int()` between two bounds. -/
structure Bounded (lo hi : Nat) where
  value : Nat
  lower : lo ≤ value
  upper : value ≤ hi
  deriving DecidableEq, Repr

/-- `INVENTORY_DISPATCH_TRANSPORT`. -/
inductive Transport
  | http
  | amqp
  deriving DecidableEq, Repr

/-- The settings of `env.ts` that the cart's logic reads, and the collation of the host. -/
structure Env where
  SERVICE_NAME : String
  INVENTORY_DISPATCH_TRANSPORT : Transport
  CART_TTL_SECONDS : Bounded 1 86400
  CART_TTL_GRACE_SECONDS : Bounded 1 86400
  CART_LOCK_RETRIES : Bounded 0 200
  CART_SWEEP_BATCH : Bounded 1 1000
  CART_RELEASE_RETRY_DELAY_MS : Bounded 1 600000
  /-- `localeCompare(a, b) <= 0`. -/
  collates : String → String → Bool

namespace Env

/-- The schema's defaults. -/
def defaults (collates : String → String → Bool) : Env where
  SERVICE_NAME := "cart-service"
  INVENTORY_DISPATCH_TRANSPORT := .http
  CART_TTL_SECONDS := ⟨60, by decide, by decide⟩
  CART_TTL_GRACE_SECONDS := ⟨300, by decide, by decide⟩
  CART_LOCK_RETRIES := ⟨25, by decide, by decide⟩
  CART_SWEEP_BATCH := ⟨100, by decide, by decide⟩
  CART_RELEASE_RETRY_DELAY_MS := ⟨30000, by decide, by decide⟩
  collates

/-- The configuration with the fire-and-forget half over HTTP. -/
def overHttp (env : Env) : Env := { env with INVENTORY_DISPATCH_TRANSPORT := .http }

def sessionTtlSeconds (env : Env) : Nat := env.CART_TTL_SECONDS.value

/-- The items hash deliberately outlives its session key. -/
def itemsTtlSeconds (env : Env) : Nat :=
  env.CART_TTL_SECONDS.value + env.CART_TTL_GRACE_SECONDS.value

/-- Extension applied to the hash while a release is in flight. -/
def inFlightTtlSeconds (env : Env) : Nat := env.CART_TTL_GRACE_SECONDS.value

end Env

/-- A cart session or an order id: what inventory's ledger is told as the reference. The header
decorator trims it, and a minted one has no white space. -/
structure SessionId where
  text : String
  trimmed : Inventory.trim text = text
  deriving DecidableEq

/-- The keys of the two advisory locks of a cart. The other keys of `CartKeys` are the components
of `Redis`: every builder has a prefix of its own, so no two of them collide. -/
inductive LockKey
  | writeLock (cartSessionId : SessionId)
  | releaseLock (cartSessionId : SessionId)
  deriving DecidableEq

end PracticalMicroservice.Cart
