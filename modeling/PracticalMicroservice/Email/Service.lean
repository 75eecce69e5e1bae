import PracticalMicroservice.Email.Dispatcher
import PracticalMicroservice.Foundations.Json

/-!
# The requests to the email service (`email.service.ts`)

Accepting a message writes a row and nothing more. An operator may return a message that failed to
the queue; whether it did fail is read before, and the write does not look again.
-/

namespace PracticalMicroservice.Email

open Foundations (Program)

/-- `SendEmailInput`. -/
structure SendEmailInput where
  recipient : String
  subject : String
  body : String
  bodyType : EmailBodyType
  source : String
  deriving DecidableEq, Repr

def EmailBodyType.text : EmailBodyType → String
  | TEXT => "TEXT"
  | HTML => "HTML"

/-- The properties of the object, in the order of `sendEmailSchema`. -/
def SendEmailInput.properties (input : SendEmailInput) : List (String × String) :=
  [("recipient", input.recipient), ("subject", input.subject), ("body", input.body),
    ("bodyType", input.bodyType.text), ("source", input.source)]

/-- The digest of a payload, whatever the order of its properties. -/
def fingerprint (env : Env) (payload : List (String × String)) : String :=
  env.sha256 (Foundations.Json.canonical payload)

def EmailStatus.text : EmailStatus → String
  | PENDING => "PENDING"
  | SENDING => "SENDING"
  | SENT => "SENT"
  | FAILED => "FAILED"
  | DEAD => "DEAD"

/-- `EnqueueResult`. -/
structure EnqueueResult where
  message : EmailMessage
  replayed : Bool
  deriving DecidableEq, Repr

/-- What enqueueing asks of the repository. -/
structure EmailRepository (m : Type → Type) where
  insert : NewEmailRecord → Option IdempotencyRecord → m (Except AppError EnqueueOutcome)
  findByIdempotencyKey : String → m (Except AppError (Option (EmailMessage × String)))

/-- Each method as a call of its own. -/
def EmailRepository.calls : EmailRepository (Program Command Command.Reply) where
  insert input idempotency := Program.request (Command.repository (.insert input idempotency))
  findByIdempotencyKey key := Program.request (Command.repository (.findByIdempotencyKey key))

namespace EmailService

section

variable {m : Type → Type} [Monad m] (repository : EmailRepository m)

/-- `enqueue` of the repository: the loser of a race for a key reads the winner's row. -/
def enqueueOnce (input : NewEmailRecord) (idempotency : Option IdempotencyRecord) :
    ExceptT AppError m EnqueueOutcome := do
  let inserted : Except AppError EnqueueOutcome ←
    ExceptT.lift (repository.insert input idempotency)
  match inserted, idempotency with
  | .ok outcome, _ => return outcome
  | .error e, none => throw e
  | .error e, some record =>
    if e.statusCode = 409 then
      match ← ExceptT.mk (repository.findByIdempotencyKey record.key) with
      | some (message, storedFingerprint) =>
        return { message, replayed := true, storedFingerprint := some storedFingerprint }
      | none => throw e
    else throw e

/-- `idempotencyKey ? { key: idempotencyKey, fingerprint: digest } : null`. -/
def idempotencyRecord (digest : String) (idempotencyKey : Option String) :
    Option IdempotencyRecord :=
  (idempotencyKey.filter (· ≠ "")).map fun key => { key, fingerprint := digest }

/-- `properties` are those of the input, as the request has them. -/
def enqueue (env : Env) (input : SendEmailInput) (properties : List (String × String))
    (idempotencyKey : Option String) : ExceptT AppError m EnqueueResult := do
  let digest := fingerprint env properties
  let outcome ← enqueueOnce repository
    { recipient := input.recipient, subject := input.subject, body := input.body,
      bodyType := input.bodyType, source := input.source, maxAttempts := env.EMAIL_MAX_ATTEMPTS }
    (idempotencyRecord digest idempotencyKey)
  if outcome.replayed ∧ outcome.storedFingerprint ≠ some digest then
    throw (.ConflictError ("Idempotency-Key '" ++ idempotencyKey.getD "undefined" ++
      "' was already used for a different message"))
  else return { message := outcome.message, replayed := outcome.replayed }

end

def getById (id : Nat) : Promise EmailMessage := do
  match ← Promise.repository (.findById id) with
  | some message => return message
  | none => throw (.NotFoundError s!"Email '{id}' was not found")

/-- Returns a message to the queue after an operator has fixed what caused it to fail. -/
def retry (id : Nat) : Promise EmailMessage := do
  let message ← getById id
  if message.status ∈ RETRYABLE_STATUSES then
    let now ← Promise.now
    Promise.repository (.requeue id true now)
  else
    throw (.ConflictError (s!"Email '{id}' is {message.status.text}; " ++
      "only FAILED or DEAD messages can be retried"))

end EmailService

end PracticalMicroservice.Email
