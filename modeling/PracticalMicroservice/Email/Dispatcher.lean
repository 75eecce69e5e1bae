import PracticalMicroservice.Email.Repository
import PracticalMicroservice.Foundations.Program

/-!
# The dispatcher (`email.dispatcher.ts`)

A cycle claims the rows that are due; each message it has claimed is then delivered on its own, and
what became of it recorded. The provider is reached by a command, whose reply is the provider's.
-/

namespace PracticalMicroservice.Email

open Foundations (Fallible Program)

/-- `DispatcherOptions`, `EmailServiceOptions` and the functions they are used with. -/
structure Env where
  EMAIL_FROM : String
  EMAIL_PROVIDER_TIMEOUT_MS : Nat
  DISPATCHER_BATCH_SIZE : Nat
  DISPATCHER_CONCURRENCY : Nat
  DISPATCHER_CLAIM_TIMEOUT_MS : Nat
  RETRY_BACKOFF_BASE_MS : Nat
  RETRY_BACKOFF_MAX_MS : Nat
  EMAIL_RETENTION_DAYS : Nat
  EMAIL_MAX_ATTEMPTS : Nat
  sha256 : String → String

/-- `OutboundEmail`. -/
structure OutboundEmail where
  id : Nat
  sender : String
  to_ : String
  subject : String
  body : String
  bodyType : EmailBodyType
  deriving DecidableEq, Repr

/-- What becomes of a message that is handed to the provider. -/
inductive SendOutcome
  | accepted (provider providerMessageId : String)
  | refused (message : String) (retryable : Bool)
  | threw (message : String)
  deriving DecidableEq, Repr

inductive Command
  | repository (call : Call)
  | now
  /-- `Math.random`, in units of `2 ^ -53`. -/
  | random
  | send (message : OutboundEmail)
  deriving DecidableEq, Repr

def Command.Reply : Command → Type
  | repository call => Except AppError call.Result
  | now | random => Nat
  | send _ => SendOutcome

/-- `Promise<Result<α>>`. -/
abbrev Promise (α : Type) := Fallible AppError Command Command.Reply α

namespace Promise

def call (command : Command) : Promise command.Reply := ExceptT.lift (Program.request command)

/-- A result unpacked, its error forwarded. -/
def unpack {α : Type} (result : Except AppError α) : Promise α := ExceptT.mk (pure result)

def repository (c : Call) : Promise c.Result := do unpack (← call (.repository c))

def now : Promise Nat := call .now

end Promise

/-! ## Backoff (`backoff.ts`) -/

/-- Half of the delay is fixed, and half is drawn. -/
def backoffDelayMs (attempts baseMs maxMs random : Nat) : Nat :=
  let exponent := attempts - 1
  let uncapped := baseMs * 2 ^ min exponent 30
  let capped := min maxMs uncapped
  -- half + random * half, rounded to the nearest integer
  (capped * (2 ^ 53 + random) + 2 ^ 53) / 2 ^ 54

def nextAttemptAt (attempts baseMs maxMs random now : Nat) : Nat :=
  now + backoffDelayMs attempts baseMs maxMs random

inductive DeliveryOutcome
  | sent
  | retrying
  | dead
  deriving DecidableEq, Repr

namespace EmailDispatcher

/-- The claim a cycle starts with. -/
def claimDue (limit : Nat) (workerId : String) (claimTimeoutMs now : Nat) :
    Promise (List EmailMessage) := do
  let candidates ← Promise.repository (.findCandidates limit now claimTimeoutMs)
  match candidates with
  | [] => return []
  | candidate :: more =>
    let ids := (candidate :: more).map (·.id)
    let _ ← Promise.repository (.claimCandidates ids workerId now claimTimeoutMs)
    Promise.repository (.findClaimed workerId now)

/-- `runOnce` up to the deliveries, which follow one by one. -/
def runOnce (env : Env) (workerId : String) : Promise (List EmailMessage) := do
  let now ← Promise.now
  claimDue env.DISPATCHER_BATCH_SIZE workerId env.DISPATCHER_CLAIM_TIMEOUT_MS now

/-- Decides between another attempt and the dead-letter state. -/
def recordFailure (env : Env) (message : EmailMessage) (reason : String) (retryable : Bool) :
    Promise DeliveryOutcome := do
  let exhausted : Bool := message.attempts ≥ message.maxAttempts
  if !retryable || exhausted then
    let _ ← Promise.call (.repository (.markDead message.id reason))
    return .dead
  else
    let now ← Promise.now
    let random : Nat ← Promise.call .random
    let retryAt := nextAttemptAt message.attempts env.RETRY_BACKOFF_BASE_MS env.RETRY_BACKOFF_MAX_MS
      random now
    let _ ← Promise.call (.repository (.markForRetry message.id reason retryAt))
    return .retrying

def outbound (env : Env) (message : EmailMessage) : OutboundEmail where
  id := message.id
  sender := env.EMAIL_FROM
  to_ := message.recipient
  subject := message.subject
  body := message.body
  bodyType := message.bodyType

/-- Sends one claimed message and records the result. -/
def deliver (env : Env) (message : EmailMessage) : Promise DeliveryOutcome := do
  let outcome : SendOutcome ← Promise.call (.send (outbound env message))
  match outcome with
  | .threw crash => recordFailure env message ("Provider threw: " ++ crash) true
  | .refused reason retryable => recordFailure env message reason retryable
  | .accepted provider providerMessageId =>
    let now ← Promise.now
    -- a failure to record it is logged, and the row goes stale
    let _ ← Promise.call (.repository (.markSent message.id provider providerMessageId now))
    return .sent

def MS_PER_DAY : Nat := 24 * 60 * 60 * 1000

def purgeExpired (env : Env) : Promise Nat := do
  if env.EMAIL_RETENTION_DAYS = 0 then return 0
  else
    let now ← Promise.now
    Promise.repository (.purgeSentBefore (now - env.EMAIL_RETENTION_DAYS * MS_PER_DAY))

end EmailDispatcher

end PracticalMicroservice.Email
