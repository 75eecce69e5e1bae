import PracticalMicroservice.Cart.Watcher
import PracticalMicroservice.Inventory.Ledger
import PracticalMicroservice.Foundations.Runs

/-!
# The carts, inventory and the network as one system

Any number of calls run at once, each a thread of commands; between two commands of one thread
anything else may happen. A label names what the state does not determine: which thread goes on,
what the network makes of its command, and what other parties do.
-/

namespace PracticalMicroservice.Cart

open Foundations (Program)
open Inventory (Transition BulkBody MessageContent)
open Inventory.StockEventConsumer (TransactionFate)

/-! ## The calls -/

/-- A single call of the cart repository. -/
inductive RepositoryCall
  | startSession
  | commit (changes : CartChanges)
  | touch
  | takeHeldLines
  | retire
  | discard
  | forget
  | scheduleRelease (atMs : Nat)

def RepositoryCall.run (env : Env) (cart : SessionId) : RepositoryCall → Promise Unit
  | startSession => CartRepository.startSession env cart
  | commit changes => do let _ ← CartRepository.commit env cart changes
  | touch => do let _ ← CartRepository.touch env cart
  | takeHeldLines => do let _ ← CartRepository.takeHeldLines env cart
  | retire => CartRepository.retire cart
  | discard => CartRepository.discard cart
  | forget => CartRepository.forget cart
  | scheduleRelease atMs => CartRepository.scheduleRelease cart atMs

/-- What a thread may run: a request to the controller, a pass of the sweep, a call of the service,
or a call of the repository. -/
inductive Task
  | setItems (items : List CartLine) (claimed : Option SessionId) (context : CallContext)
  | getCart (claimed : Option SessionId)
  | checkoutCart (orderId : SessionId) (claimed : Option SessionId) (context : CallContext)
  | abandon (claimed : Option SessionId)
  | sweep
  | setLines (requested : List CartLine) (cart : SessionId) (context : CallContext)
  | checkout (cart orderId : SessionId) (context : CallContext)
  | releaseSession (cart : SessionId) (cause : ReleaseCause)
  | repository (call : RepositoryCall) (cart : SessionId)

/-- The code of a call, and what it handed over to an order. -/
def Task.run (env : Env) : Task → Promise (Option CheckoutResult)
  | setItems items claimed context => do
    let _ ← CartController.setItems env items claimed context
    return none
  | getCart claimed => do
    let _ ← CartController.getCart env claimed
    return none
  | checkoutCart orderId claimed context => do
    return some (← CartController.checkout env orderId claimed context)
  | abandon claimed => do
    CartController.abandon env claimed
    return none
  | sweep => do
    CartExpiryWatcher.sweep env
    return none
  | setLines requested cart context => do
    let _ ← CartService.setLines env requested cart context
    return none
  | checkout cart orderId context => do
    return some (← CartService.checkout env cart orderId context)
  | releaseSession cart cause => do
    let _ ← CartService.releaseSession env cart cause
    return none
  | repository call cart => do
    call.run env cart
    return none

/-- The code of the handler of a notification. -/
def notified (env : Env) (cart : SessionId) : Promise (Option CheckoutResult) := do
  CartExpiryWatcher.onExpiry env cart
  return none

/-! ## The state -/

/-- Whether a command took effect, and whether its caller was told so. -/
inductive Verdict
  | told
  | untold
  | failed
  deriving DecidableEq, Repr

def Fate.verdict : Fate → Verdict
  | delivered => .told
  | replyLost => .untold
  | lost => .failed
  | unavailable => .failed

/-- What comes of a command under a fate. A lock that is taken and a batch that is refused are no
effect. -/
def Command.verdict (command : Command) (fate : Fate) (w : World) : Verdict :=
  match command with
  | .randomUUID => .told
  | .dateNow => .told
  | .lockSet key token => if (w.redis.lockSet key token).1 then fate.verdict else .failed
  | .post t body =>
    if (Inventory.bulkRoute t body w.inventory).1.isOk then fate.verdict else .failed
  | _ => fate.verdict

/-- One entry of the history of a run. -/
inductive Event
  | performed (thread : Nat) (command : Command) (verdict : Verdict)
  | consumed (content : MessageContent) (applied : Bool)

/-- A running call: the commands it still has to perform. A thread of the watcher also remembers
the cart it last judged to have expired, and how often that cart's session had been armed then. -/
structure Thread where
  program : Program Command Command.Reply (Except Exception (Option CheckoutResult))
  watching : Bool := false
  decided : Option (SessionId × Nat) := none

structure System where
  world : World
  threads : List Thread
  /-- The expired-key notifications published so far, with the armings before each. -/
  notices : List (SessionId × Nat)
  /-- The units other shoppers hold of a product. -/
  others : String → Int
  /-- How often a session has been armed. -/
  armed : SessionId → Nat
  /-- Newest first. -/
  trace : List Event

inductive Label
  | spawn (task : Task)
  | notify (notice : Nat)
  | call (thread : Nat) (fate : Fate)
  | crash (thread : Nat)
  | lapse (key : LockKey)
  | tick (ms : Nat)
  | expire (cart : SessionId)
  | other (t : Transition) (body : BulkBody)
  | consume (message : Nat) (fate : TransactionFate)

namespace System

/-- A system about to run the given calls. -/
def start (world : World) (others : String → Int) (threads : List Thread) : System where
  world
  threads
  notices := []
  others
  armed := fun _ => 0
  trace := []

/-- The command a thread performs next. -/
def nextCommand (s : System) (thread : Nat) : Option Command :=
  match s.threads[thread]? with
  | some t =>
    match t.program with
    | .perform command _ => some command
    | .done _ => none
  | none => none

/-- The session of a cart is armed by a step that gives it another expiry. -/
def rearmed (before after : Redis) (cart : SessionId) : Bool :=
  after.session cart != before.session cart && (after.session cart).isSome

def countArmed (armed : SessionId → Nat) (before after : Redis) (cart : SessionId) : Nat :=
  if rearmed before after cart then armed cart + 1 else armed cart

/-- The watcher's decision: a `PTTL` that finds no sentinel. -/
def decidedAfter (decided : Option (SessionId × Nat)) (armed : SessionId → Nat) :
    (command : Command) → command.Reply → Option (SessionId × Nat)
  | .pttl cart, some ttlMs => if ttlMs < 0 then some (cart, armed cart) else none
  | _, _ => decided

/-- A thread performs its next command. -/
def call (s : System) (thread : Nat) (fate : Fate) : Option System :=
  match s.threads[thread]? with
  | none => none
  | some t =>
    match t.program with
    | .done _ => none
    | .perform command next =>
      let (reply, world) := s.world.perform fate command
      let t' : Thread :=
        { t with program := next reply, decided := decidedAfter t.decided s.armed command reply }
      some { s with
        world
        threads := s.threads.set thread t'
        armed := countArmed s.armed s.world.redis world.redis
        trace := .performed thread command (command.verdict fate s.world) :: s.trace }

/-- Another shopper's bulk call, and what it leaves them holding. -/
def other (s : System) (t : Transition) (body : BulkBody) : System :=
  let (response, inventory) := Inventory.bulkRoute t body s.world.inventory
  { s with
    world := { s.world with inventory }
    others := fun productId =>
      if response.isOk then
        match t with
        | .reserve => s.others productId + Inventory.units body.items productId
        | .release => s.others productId - Inventory.units body.items productId
      else s.others productId }

/-- Inventory handles a message the broker delivers, for the first time or again. -/
def consume (s : System) (content : MessageContent) (fate : TransactionFate) : System :=
  let (_, inventory) := Inventory.StockEventConsumer.handle fate content s.world.inventory
  -- a message that takes effect leaves its row
  let applied := inventory.processedMessages != s.world.inventory.processedMessages
  { s with
    world := { s.world with inventory }
    trace := .consumed content applied :: s.trace }

/-- One step: no label can happen unless the state has the thread, notification, message or key it
names. -/
def step (env : Env) (s : System) : Label → Option System
  | .spawn task =>
    some { s with threads := s.threads ++
      [{ program := (task.run env).run, watching := match task with | .sweep => true | _ => false }] }
  | .notify notice =>
    match s.notices[notice]? with
    | some (cart, armings) =>
      some { s with threads := s.threads ++
        [{ program := (notified env cart).run, watching := true, decided := some (cart, armings) }] }
    | none => none
  | .call thread fate => s.call thread fate
  | .crash thread =>
    match s.threads[thread]? with
    | some t =>
      match t.program with
      -- what it still had to do is never done
      | .perform _ _ =>
        some { s with threads := s.threads.set thread { t with program := .done (.ok none) } }
      | .done _ => none
    | none => none
  | .lapse key =>
    some { s with world := { s.world with redis := s.world.redis.setLock key none } }
  | .tick ms =>
    some { s with world := { s.world with
      redis := { s.world.redis with now := s.world.redis.now + ms } } }
  | .expire cart =>
    match s.world.redis.session cart, s.world.redis.liveSession cart with
    | some _, none =>
      some { s with
        world := { s.world with redis := s.world.redis.setSession cart none }
        notices := s.notices ++ [(cart, s.armed cart)] }
    | _, _ => none
  | .other t body => some (s.other t body)
  | .consume message fate =>
    match s.world.queue[message]? with
    | some content => some (s.consume content fate)
    | none => none

end System

end PracticalMicroservice.Cart
