import PracticalMicroservice.Email.Service
import PracticalMicroservice.Foundations.Threads

/-!
# The dispatchers and the requests, running side by side

A cycle, a delivery and a request are threads. Between two steps of one any of the others may run,
the clock goes on, and the process of any of them may die. Cycles of one worker can overlap: the
timer starts one, and a request to `/emails/dispatch` another.
-/

namespace PracticalMicroservice.Email

open Foundations (DatabaseError Machine Pool)

inductive Task
  | enqueue (input : SendEmailInput) (idempotencyKey : Option String)
  | runOnce (workerId : String)
  /-- What a cycle does with the message at an index of its batch. -/
  | deliver (cycle index : Nat) (message : EmailMessage)
  | retry (id : Nat)
  | purgeExpired
  deriving DecidableEq, Repr

inductive Answer
  | enqueued (result : Except AppError EnqueueResult)
  | claimed (result : Except AppError (List EmailMessage))
  | delivered (result : Except AppError DeliveryOutcome)
  | retried (result : Except AppError EmailMessage)
  | purged (result : Except AppError Nat)
  deriving DecidableEq

abbrev Code := Foundations.Program Command Command.Reply Answer

def Task.run (env : Env) : Task → Code
  | enqueue input idempotencyKey =>
    return .enqueued (← (EmailService.enqueue .calls env input input.properties idempotencyKey).run)
  | runOnce workerId => return .claimed (← (EmailDispatcher.runOnce env workerId).run)
  | deliver _ _ message => return .delivered (← (EmailDispatcher.deliver env message).run)
  | retry id => return .retried (← (EmailService.retry id).run)
  | purgeExpired => return .purged (← (EmailDispatcher.purgeExpired env).run)

structure World where
  db : Database
  now : Nat
  /-- The threads whose process has died. -/
  stopped : List Nat

/-- What becomes of a command beyond what the state determines. -/
inductive Fate
  | served
  /-- It fails and has no effect. -/
  | refused (error : DatabaseError)
  /-- It takes effect, and its caller gets an error all the same. -/
  | unanswered (error : DatabaseError)
  | drawn (random : Nat)
  /-- What the provider does with a message. -/
  | sending (outcome : SendOutcome)
  deriving DecidableEq

def Fate.takesEffect : Fate → Bool
  | served | unanswered _ => true
  | _ => false

inductive Move
  | tick (ms : Nat)
  | stop (thread : Nat)

namespace World

/-- A call of the repository, served at once. -/
def serve (w : World) (c : Call) : Except AppError c.Result × World :=
  let (reply, db) := c.serve w.now w.db
  (reply.mapError toAppError, { w with db })

/-- Performs a command. -/
def perform (fate : Fate) : (command : Command) → World → Option (command.Reply × World)
  | .repository c, w =>
    match fate with
    | .served => some (w.serve c)
    | .refused e => some (.error (toAppError e), w)
    | .unanswered e => some (.error (toAppError e), (w.serve c).2)
    | _ => none
  | .now, w => some (w.now, w)
  | .random, w =>
    match fate with
    | .drawn random => some (random, w)
    | _ => none
  | .send _, w =>
    match fate with
    | .sending outcome => some (outcome, w)
    | _ => none

def move : Move → World → Option World
  | .tick ms, w => some { w with now := w.now + ms }
  | .stop thread, w => some { w with stopped := thread :: w.stopped }

end World

def machine : Machine Command Command.Reply World Fate Move where
  perform thread fate command w := if thread ∈ w.stopped then none else w.perform fate command
  move := World.move

abbrev System := Pool Task Command Command.Reply Answer World
abbrev Label := Pool.Label Task Fate Move
abbrev Event := Foundations.Event Command Command.Reply World
abbrev Thread := Foundations.Thread Task Command Command.Reply Answer

/-- Whether a task is a delivery of a cycle's batch. -/
def Task.deliversFor (cycle : Nat) : Task → Bool
  | deliver cycle' _ _ => cycle' = cycle
  | _ => false

namespace System

/-- What a cycle has claimed. -/
def batch (s : System) (cycle : Nat) : List EmailMessage :=
  match s.result cycle with
  | some (.claimed (.ok messages)) => messages
  | _ => []

/-- How many deliveries of a cycle have begun: its `cursor`. -/
def cursor (s : System) (cycle : Nat) : Nat :=
  (s.threads.map (·.task)).countP (Task.deliversFor cycle)

def inFlight (s : System) (cycle : Nat) : Nat :=
  s.threads.countP fun t => t.task.deliversFor cycle && t.next.isSome

/-- `mapWithConcurrency`: a delivery begins when its turn has come and a runner is free. -/
def Begins (env : Env) (s : System) : Label → Prop
  | .spawn (.deliver cycle index message) =>
    cycle ∉ s.world.stopped ∧ s.cursor cycle = index ∧ (s.batch cycle)[index]? = some message ∧
      s.inFlight cycle < env.DISPATCHER_CONCURRENCY
  | _ => True

instance (env : Env) (s : System) : (l : Label) → Decidable (Begins env s l)
  | .spawn (.deliver cycle index message) =>
    inferInstanceAs (Decidable (cycle ∉ s.world.stopped ∧ s.cursor cycle = index ∧
      (s.batch cycle)[index]? = some message ∧ s.inFlight cycle < env.DISPATCHER_CONCURRENCY))
  | .spawn (.enqueue _ _) | .spawn (.runOnce _) | .spawn (.retry _) | .spawn .purgeExpired
  | .call _ _ | .move _ => .isTrue trivial

/-- One step of the service. -/
def step (env : Env) (s : System) (l : Label) : Option System :=
  if Begins env s l then Pool.step machine (Task.run env) s l else none

end System

/-! ## A small outbox, for examples of its runs -/

def sampleEnv : Env where
  EMAIL_FROM := "onboarding@resend.dev"
  EMAIL_PROVIDER_TIMEOUT_MS := 10000
  DISPATCHER_BATCH_SIZE := 25
  DISPATCHER_CONCURRENCY := 5
  DISPATCHER_CLAIM_TIMEOUT_MS := 120000
  RETRY_BACKOFF_BASE_MS := 2000
  RETRY_BACKOFF_MAX_MS := 900000
  EMAIL_RETENTION_DAYS := 30
  EMAIL_MAX_ATTEMPTS := 5
  sha256 := id

/-- A message that is due. -/
def welcome : EmailMessage where
  id := 0
  recipient := "ada@example.com"
  subject := "Welcome"
  body := "Hello Ada"
  source := "auth-service"
  nextAttemptAt := 0
  createdAt := 0

def sampleWorld : World where
  db := { emailMessages := [welcome], idempotencyKeys := [], nextId := 1 }
  now := 0
  stopped := []

/-- A cycle that claims what is due, every command served. -/
def claiming (thread : Nat) (workerId : String) : List Label :=
  .spawn (.runOnce workerId) :: List.replicate 4 (.call thread .served)

/-- The message as a cycle that claimed it read it back. -/
def claimedBy (workerId : String) (now attempts : Nat) : EmailMessage :=
  { welcome with status := .SENDING, lockedAt := some now, lockedBy := some workerId, attempts }

/-- The provider accepts the message, and that is recorded. -/
def accepting (thread : Nat) : List Label :=
  [.call thread (.sending (.accepted "resend" "re_1")), .call thread .served, .call thread .served]

end PracticalMicroservice.Email
