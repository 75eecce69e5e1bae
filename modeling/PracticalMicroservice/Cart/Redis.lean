import PracticalMicroservice.Cart.Env
import PracticalMicroservice.Cart.Planner

/-!
# The cart's Redis keys and scripts (`cart.scripts.ts`, `redis.lock.ts`)

One function for each command or script the service sends, as one atomic step of the store. Times
are milliseconds of one clock; a key is there while the clock is before its expiry.
-/

namespace PracticalMicroservice.Cart

/-- The items hash of a cart. The values are what `Number` reads from the stored text. -/
structure ItemsHash where
  fields : List (String × Int)
  expiresAt : Nat
  distinct : Entries.Distinct fields
  deriving DecidableEq

/-- The part of the database the cart service uses. -/
structure Redis where
  now : Nat
  items : SessionId → Option ItemsHash
  session : SessionId → Option Nat
  due : List (SessionId × Nat)
  locks : LockKey → Option String

namespace Redis

/-- A database without a key. -/
def empty (now : Nat) : Redis where
  now
  items := fun _ => none
  session := fun _ => none
  due := []
  locks := fun _ => none

def setItems (r : Redis) (cart : SessionId) (hash : Option ItemsHash) : Redis :=
  { r with items := fun c => if c = cart then hash else r.items c }

def setSession (r : Redis) (cart : SessionId) (expiresAt : Option Nat) : Redis :=
  { r with session := fun c => if c = cart then expiresAt else r.session c }

def setLock (r : Redis) (key : LockKey) (token : Option String) : Redis :=
  { r with locks := fun k => if k = key then token else r.locks k }

/-- The expiry of the session sentinel, while it lives. -/
def liveSession (r : Redis) (cart : SessionId) : Option Nat :=
  (r.session cart).filter (r.now < ·)

/-- The items hash, while it lives. -/
def liveItems (r : Redis) (cart : SessionId) : Option ItemsHash :=
  (r.items cart).filter (r.now < ·.expiresAt)

/-- The fields last written to a cart's hash, whether or not it has expired since. -/
def record (r : Redis) (cart : SessionId) : List (String × Int) :=
  match r.items cart with
  | some hash => hash.fields
  | none => []

/-- `HGETALL`: an absent hash reads as an empty one. -/
def hgetall (r : Redis) (cart : SessionId) : List (String × Int) :=
  match r.liveItems cart with
  | some hash => hash.fields
  | none => []

theorem hgetall_distinct (r : Redis) (cart : SessionId) : Entries.Distinct (r.hgetall cart) := by
  unfold hgetall
  split
  · exact ItemsHash.distinct _
  · exact List.nodup_nil

def expiryIn (r : Redis) (seconds : Nat) : Nat := r.now + seconds * 1000

def zadd (r : Redis) (cart : SessionId) (score : Nat) : Redis :=
  { r with due := Entries.set r.due cart score }

def zrem (r : Redis) (cart : SessionId) : Redis :=
  { r with due := Entries.delete r.due cart }

/-- `SET session EX ttl`. -/
def startSession (r : Redis) (cart : SessionId) (sessionTtl : Nat) : Redis :=
  r.setSession cart (some (r.expiryIn sessionTtl))

/-- `HSET`. -/
def hset (fields : List (String × Int)) (writes : List CartLine) : List (String × Int) :=
  writes.foldl (fun fields line => Entries.set fields line.productId line.quantity) fields

/-- `HDEL`. -/
def hdel (fields : List (String × Int)) (removals : List String) : List (String × Int) :=
  removals.foldl Entries.delete fields

/-- The fields after the `HSET` and the `HDEL` of a commit. -/
def committed (fields : List (String × Int)) (writes : List CartLine) (removals : List String) :
    List (String × Int) :=
  hdel (hset fields writes) removals

theorem hset_distinct {fields : List (String × Int)} (h : Entries.Distinct fields)
    (writes : List CartLine) : Entries.Distinct (hset fields writes) := by
  induction writes generalizing fields with
  | nil => exact h
  | cons line writes ih => exact ih (h.set _ _)

theorem hdel_distinct {fields : List (String × Int)} (h : Entries.Distinct fields)
    (removals : List String) : Entries.Distinct (hdel fields removals) := by
  induction removals generalizing fields with
  | nil => exact h
  | cons productId removals ih => exact ih (h.delete _)

theorem committed_distinct {fields : List (String × Int)} (h : Entries.Distinct fields)
    (writes : List CartLine) (removals : List String) :
    Entries.Distinct (committed fields writes removals) :=
  hdel_distinct (hset_distinct h writes) removals

/-- `CART_COMMIT`. A cart that ends up empty takes its session and its due entry with it. -/
def cartCommit (r : Redis) (cart : SessionId) (writes : List CartLine) (removals : List String)
    (sessionTtl itemsTtl dueAt : Nat) : List (String × Int) × Redis :=
  let fields := committed (r.hgetall cart) writes removals
  let hash : ItemsHash :=
    { fields, expiresAt := r.expiryIn itemsTtl,
      distinct := committed_distinct (r.hgetall_distinct cart) writes removals }
  if fields ≠ [] then
    (fields, ((r.setItems cart (some hash)).setSession cart
      (some (r.expiryIn sessionTtl))).zadd cart dueAt)
  else
    (fields, ((r.setItems cart none).setSession cart none).zrem cart)

/-- `CART_TOUCH`: false when the session has gone. -/
def cartTouch (r : Redis) (cart : SessionId) (sessionTtl itemsTtl dueAt : Nat) : Bool × Redis :=
  match r.liveSession cart with
  | none => (false, r)
  | some _ =>
    let r' := r.setSession cart (some (r.expiryIn sessionTtl))
    match r.liveItems cart with
    | none => (true, r')
    | some hash =>
      (true, (r'.setItems cart
        (some { hash with expiresAt := r.expiryIn itemsTtl })).zadd cart dueAt)

/-- `CART_TAKE`: reads the lines to hand back, and holds the hash for a while. -/
def cartTake (r : Redis) (cart : SessionId) (inFlight : Nat) : List (String × Int) × Redis :=
  match r.liveItems cart with
  | none => ([], r)
  | some hash =>
    if hash.fields ≠ [] then
      (hash.fields, r.setItems cart (some { hash with expiresAt := r.expiryIn inFlight }))
    else ([], r)

/-- `CART_FINISH`. -/
def cartFinish (r : Redis) (cart : SessionId) : Redis := (r.setItems cart none).zrem cart

/-- `CART_DISCARD`. -/
def cartDiscard (r : Redis) (cart : SessionId) : Redis :=
  ((r.setItems cart none).setSession cart none).zrem cart

/-- The order of a sorted set: by score, and by member where scores are equal. -/
def scoreLE (a b : SessionId × Nat) : Prop := a.2 < b.2 ∨ (a.2 = b.2 ∧ a.1.text ≤ b.1.text)

instance : DecidableRel scoreLE := fun a b =>
  inferInstanceAs (Decidable (a.2 < b.2 ∨ (a.2 = b.2 ∧ a.1.text ≤ b.1.text)))

/-- `ZRANGEBYSCORE due -inf at LIMIT 0 limit`. -/
def dueBefore (r : Redis) (at_ limit : Nat) : List SessionId :=
  (((r.due.filter (·.2 ≤ at_)).insertionSort scoreLE).take limit).map (·.1)

/-- `PTTL session`: negative once the sentinel is gone. -/
def sessionTtlMs (r : Redis) (cart : SessionId) : Int :=
  match r.liveSession cart with
  | some expiresAt => expiresAt - r.now
  | none => -2

/-- `SET key token PX ttl NX`. When the lock lapses is not the clock's business here: a step of the
system lets any lock lapse at any time. -/
def lockSet (r : Redis) (key : LockKey) (token : String) : Bool × Redis :=
  match r.locks key with
  | none => (true, r.setLock key (some token))
  | some _ => (false, r)

/-- `LOCK_RELEASE`: only the lock this caller still owns. -/
def lockRelease (r : Redis) (key : LockKey) (token : String) : Redis :=
  if r.locks key = some token then r.setLock key none else r

end Redis

end PracticalMicroservice.Cart
