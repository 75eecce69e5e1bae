import PracticalMicroservice.Foundations.Statements

/-!
# The tables of the email service (`schema.prisma`, `email.schema.ts`)

Times are milliseconds. A message is a row of the outbox: written by the request that enqueues it,
then claimed and delivered by a dispatcher.
-/

namespace PracticalMicroservice.Email

inductive EmailStatus
  | PENDING
  | SENDING
  | SENT
  | FAILED
  | DEAD
  deriving DecidableEq, Repr

inductive EmailBodyType
  | TEXT
  | HTML
  deriving DecidableEq, Repr

/-- Statuses a dispatcher may claim. -/
def CLAIMABLE_STATUSES : List EmailStatus := [.PENDING, .FAILED]

/-- Statuses an operator may revive. -/
def RETRYABLE_STATUSES : List EmailStatus := [.FAILED, .DEAD]

/-- `EmailMessage`. -/
structure EmailMessage where
  id : Nat
  recipient : String
  subject : String
  body : String
  bodyType : EmailBodyType := .TEXT
  source : String
  status : EmailStatus := .PENDING
  attempts : Nat := 0
  maxAttempts : Nat := 5
  nextAttemptAt : Nat
  lockedAt : Option Nat := none
  lockedBy : Option String := none
  lastError : Option String := none
  provider : Option String := none
  providerMessageId : Option String := none
  sentAt : Option Nat := none
  createdAt : Nat
  deriving DecidableEq, Repr

/-- `IdempotencyKey`. -/
structure IdempotencyKey where
  key : String
  requestFingerprint : String
  emailMessageId : Nat
  deriving DecidableEq, Repr

structure Database where
  emailMessages : List EmailMessage
  idempotencyKeys : List IdempotencyKey
  nextId : Nat
  deriving DecidableEq, Repr

namespace Database

def message? (db : Database) (id : Nat) : Option EmailMessage :=
  db.emailMessages.find? (·.id = id)

def status? (db : Database) (id : Nat) : Option EmailStatus := (db.message? id).map (·.status)

end Database

/-! ## Errors -/

inductive AppError
  | NotFoundError (message : String)
  | ConflictError (message : String)
  | InternalServerError (message : String)
  /-- One raised as a bare `AppError`, with its status. -/
  | bare (message : String) (status : Nat)
  deriving DecidableEq, Repr

def AppError.statusCode : AppError → Nat
  | NotFoundError _ => 404
  | ConflictError _ => 409
  | InternalServerError _ => 500
  | bare _ status => status

/-- `fromPrismaError`. -/
def toAppError : Foundations.DatabaseError → AppError
  | .P2002 fields => .bare s!"A record with this {fields} already exists" 409
  | .P2025 => .bare "Requested record does not exist" 404
  | .P1001 => .bare "Database is unavailable" 503
  | .unexpected => .InternalServerError "Unexpected database error"

end PracticalMicroservice.Email
