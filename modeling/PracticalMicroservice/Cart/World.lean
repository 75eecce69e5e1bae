import PracticalMicroservice.Foundations.Program
import PracticalMicroservice.Inventory.Consumer
import PracticalMicroservice.Inventory.Requests
import PracticalMicroservice.Cart.Redis

/-!
# What the cart service asks of the outside

Every interaction of the service with Redis, inventory, the broker, the clock and the random source
is one command. `World.perform` gives the reply and the effect of a command, under the fate the
network deals it.
-/

namespace PracticalMicroservice.Cart

open Inventory (Transition BulkBody Response Database MessageContent RawStockEvent)

/-- A command. The times a script is passed are its arguments, as the repository computes them. -/
inductive Command
  | randomUUID
  | dateNow
  | lockSet (key : LockKey) (token : String)
  | lockRelease (key : LockKey) (token : String)
  | hgetall (cart : SessionId)
  | cartCommit (cart : SessionId) (writes : List CartLine) (removals : List String)
      (sessionTtl itemsTtl dueAt : Nat)
  | cartTouch (cart : SessionId) (sessionTtl itemsTtl dueAt : Nat)
  | startSession (cart : SessionId) (sessionTtl : Nat)
  | cartTake (cart : SessionId) (inFlight : Nat)
  | cartFinish (cart : SessionId)
  | cartDiscard (cart : SessionId)
  | zrem (cart : SessionId)
  | zadd (cart : SessionId) (score : Nat)
  | dueBefore (score limit : Nat)
  | pttl (cart : SessionId)
  | post (transition : Transition) (body : BulkBody)
  | publish (message : RawStockEvent)

/-- The reply to a command. A Redis command whose reply does not arrive, and a request that never
completes, reply `none`; a publish replies whether the broker's confirm arrived. -/
@[reducible] def Command.Reply : Command → Type
  | randomUUID => String
  | dateNow => Nat
  | lockSet _ _ => Option Bool
  | lockRelease _ _ => Option Unit
  | hgetall _ => Option (List (String × Int))
  | cartCommit _ _ _ _ _ _ => Option (List (String × Int))
  | cartTouch _ _ _ _ => Option Bool
  | startSession _ _ => Option Unit
  | cartTake _ _ => Option (List (String × Int))
  | cartFinish _ => Option Unit
  | cartDiscard _ => Option Unit
  | zrem _ => Option Unit
  | zadd _ _ => Option Unit
  | dueBefore _ _ => Option (List SessionId)
  | pttl _ => Option Int
  | post _ _ => Option Response
  | publish _ => Bool

/-- What the network and the server make of one command: it takes effect and its reply arrives; it
never takes effect; it takes effect and its reply is lost; or the server answers that it cannot. -/
inductive Fate
  | delivered
  | lost
  | replyLost
  | unavailable
  deriving DecidableEq, Repr

/-- Everything outside the service. `uuids` is the stream `randomUUID` draws from. -/
structure World where
  inventory : Database
  redis : Redis
  /-- The messages the broker has accepted. -/
  queue : List MessageContent
  uuids : Nat → String
  minted : Nat

namespace World

/-- A Redis command under a fate: an unavailable server is one that is not reached. -/
def onRedis {α : Type} (w : World) (fate : Fate) (run : Redis → α × Redis) :
    Option α × World :=
  match fate with
  | .delivered => (some (run w.redis).1, { w with redis := (run w.redis).2 })
  | .replyLost => (none, { w with redis := (run w.redis).2 })
  | .lost => (none, w)
  | .unavailable => (none, w)

/-- A Redis command without a result. -/
def onRedisUnit (w : World) (fate : Fate) (run : Redis → Redis) : Option Unit × World :=
  w.onRedis fate fun r => ((), run r)

/-- A request to a bulk route. An inventory that cannot reach its database answers 503. -/
def post (w : World) (fate : Fate) (t : Transition) (body : BulkBody) :
    Option Response × World :=
  let (response, db) := Inventory.bulkRoute t body w.inventory
  match fate with
  | .delivered => (some response, { w with inventory := db })
  | .replyLost => (none, { w with inventory := db })
  | .lost => (none, w)
  | .unavailable => (some { status := 503, message := "Database is unavailable" }, w)

def publish (w : World) (fate : Fate) (message : RawStockEvent) : Bool × World :=
  let accepted := { w with queue := w.queue ++ [.json message] }
  match fate with
  | .delivered => (true, accepted)
  | .replyLost => (false, accepted)
  | .lost => (false, w)
  | .unavailable => (false, w)

/-- The reply to a command and the world after it. -/
def perform (fate : Fate) (command : Command) (w : World) : command.Reply × World :=
  match command with
  | .randomUUID => (w.uuids w.minted, { w with minted := w.minted + 1 })
  | .dateNow => (w.redis.now, w)
  | .lockSet key token => w.onRedis fate fun r => r.lockSet key token
  | .lockRelease key token => w.onRedisUnit fate fun r => r.lockRelease key token
  | .hgetall cart => w.onRedis fate fun r => (r.hgetall cart, r)
  | .cartCommit cart writes removals sessionTtl itemsTtl dueAt =>
    w.onRedis fate fun r => r.cartCommit cart writes removals sessionTtl itemsTtl dueAt
  | .cartTouch cart sessionTtl itemsTtl dueAt =>
    w.onRedis fate fun r => r.cartTouch cart sessionTtl itemsTtl dueAt
  | .startSession cart sessionTtl => w.onRedisUnit fate fun r => r.startSession cart sessionTtl
  | .cartTake cart inFlight => w.onRedis fate fun r => r.cartTake cart inFlight
  | .cartFinish cart => w.onRedisUnit fate fun r => r.cartFinish cart
  | .cartDiscard cart => w.onRedisUnit fate fun r => r.cartDiscard cart
  | .zrem cart => w.onRedisUnit fate fun r => r.zrem cart
  | .zadd cart score => w.onRedisUnit fate fun r => r.zadd cart score
  | .dueBefore score limit => w.onRedis fate fun r => (r.dueBefore score limit, r)
  | .pttl cart => w.onRedis fate fun r => (r.sessionTtlMs cart, r)
  | .post t body => w.post fate t body
  | .publish message => w.publish fate message

/-- A program with the world to itself, each command under the fate it is dealt. -/
def execute {α : Type} (deal : Command → Fate) :
    Foundations.Program Command Command.Reply α → World → α × World
  | .done a, w => (a, w)
  | .perform command next, w =>
    let (reply, w') := w.perform (deal command) command
    execute deal (next reply) w'

end World

/-! ## Exceptions -/

/-- `StockFailure`. -/
structure StockFailure where
  productId : String
  code : Inventory.ErrorCode
  message : String
  requested : Int
  available : Option Int
  reserved : Option Int
  deriving DecidableEq, Repr

/-- What the cart service throws. -/
inductive Exception
  | BadRequestException (message : String)
  | ConflictException (message : String)
  | NotFoundException (message : String)
  | ServiceUnavailableException (message : String)
  | InsufficientStockException (message : String) (failures : List StockFailure)
  /-- A Redis command the client gave up on. -/
  | RedisError
  deriving DecidableEq, Repr

/-- An asynchronous function of the service: its calls are commands, and it may reject. -/
abbrev Promise := Foundations.Fallible Exception Command Command.Reply

namespace Promise

/-- Performs a command. -/
def call (command : Command) : Promise command.Reply :=
  ExceptT.lift (Foundations.Program.request command)

/-- `Date.now()`. -/
def dateNow : Promise Nat := call .dateNow

/-- `randomUUID()`. -/
def randomUUID : Promise String := call .randomUUID

/-- The reply of a Redis command, or the rejection of its promise. -/
def reply {α : Type} : Option α → Promise α
  | some a => return a
  | none => throw .RedisError

/-- `try { return await work } finally { await cleanup }`, for a cleanup that does not throw. -/
def finally_ {α : Type} (work : Promise α) (cleanup : Promise Unit) : Promise α := do
  let result ← tryCatch (do return Except.ok (← work)) fun error => return Except.error error
  cleanup
  match result with
  | .ok a => return a
  | .error error => throw error

end Promise

end PracticalMicroservice.Cart
