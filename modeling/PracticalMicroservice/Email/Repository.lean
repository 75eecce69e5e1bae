import PracticalMicroservice.Email.Schema
import PracticalMicroservice.Inventory.Schema
import Mathlib.Data.List.Sort

/-!
# The outbox (`email.repository.ts`)

Each method is a statement, or a transaction, that runs at once; `claimDue` is three of them. `at`
is the clock when a row is written, for the columns the database stamps.
-/

namespace PracticalMicroservice.Email

open Foundations (DatabaseError)
open Inventory (jsLength)

/-- `NewEmailRecord`. -/
structure NewEmailRecord where
  recipient : String
  subject : String
  body : String
  bodyType : EmailBodyType
  source : String
  maxAttempts : Nat
  deriving DecidableEq, Repr

/-- `IdempotencyRecord`. -/
structure IdempotencyRecord where
  key : String
  fingerprint : String
  deriving DecidableEq, Repr

/-- `EnqueueOutcome`. -/
structure EnqueueOutcome where
  message : EmailMessage
  replayed : Bool
  storedFingerprint : Option String
  deriving DecidableEq, Repr

/-- As much of a text as fits in some UTF-16 code units. -/
def sliceUnits : Nat → List Char → List Char
  | _, [] => []
  | room, c :: cs =>
    let units := jsLength (String.ofList [c])
    if units ≤ room then c :: sliceUnits (room - units) cs else []

/-- Keeps a provider's essay of an error message inside the column width. -/
def truncateError (message : String) (max : Nat) : String :=
  if jsLength message ≤ max then message
  else String.ofList (sliceUnits (max - 1) message.toList) ++ "…"

namespace PrismaEmailRepository

variable {α : Type}

/-! ## The tables, as the Prisma client reaches them -/

/-- The `data` of an update, on the rows its `where` matches. -/
def changeRows (whose : EmailMessage → Bool) (change : EmailMessage → EmailMessage)
    (db : Database) : Database :=
  { db with emailMessages := db.emailMessages.map fun m => if whose m then change m else m }

/-- `update` by id: a `where` that matches nothing is an error. -/
def updateById (id : Nat) (change : EmailMessage → EmailMessage) (db : Database) :
    Except DatabaseError EmailMessage × Database :=
  match db.message? id with
  | some m => (.ok (change m), changeRows (·.id = id) change db)
  | none => (.error .P2025, db)

def byNextAttempt (messages : List EmailMessage) : List EmailMessage :=
  messages.insertionSort fun m m' => m.nextAttemptAt ≤ m'.nextAttemptAt

/-! ## Enqueueing -/

def findByIdempotencyKey (key : String) (db : Database) :
    Option (EmailMessage × String) := do
  let record ← db.idempotencyKeys.find? (·.key = key)
  let message ← db.message? record.emailMessageId
  return (message, record.requestFingerprint)

/-- The message row and its key, in one transaction. -/
def insert (at_ : Nat) (input : NewEmailRecord) (idempotency : Option IdempotencyRecord)
    (db : Database) : EnqueueOutcome × Database :=
  match idempotency.bind fun record => findByIdempotencyKey record.key db with
  | some (message, fingerprint) =>
    ({ message, replayed := true, storedFingerprint := some fingerprint }, db)
  | none =>
    let message : EmailMessage :=
      { id := db.nextId, recipient := input.recipient, subject := input.subject, body := input.body,
        bodyType := input.bodyType, source := input.source, maxAttempts := input.maxAttempts,
        nextAttemptAt := at_, createdAt := at_ }
    let keys := idempotency.toList.map fun record =>
      { key := record.key, requestFingerprint := record.fingerprint, emailMessageId := message.id }
    ({ message, replayed := false, storedFingerprint := idempotency.map (·.fingerprint) },
      { emailMessages := db.emailMessages ++ [message]
        idempotencyKeys := db.idempotencyKeys ++ keys
        nextId := db.nextId + 1 })

/-! ## Claiming -/

/-- The rows a dispatcher may take: those whose time has come, and those whose holder never came
back. -/
def due (now claimTimeoutMs : Nat) (m : EmailMessage) : Bool :=
  (m.status ∈ CLAIMABLE_STATUSES && decide (m.nextAttemptAt ≤ now)) ||
    (m.status = .SENDING && m.lockedAt.any fun lockedAt => lockedAt < now - claimTimeoutMs)

def findCandidates (limit now claimTimeoutMs : Nat) (db : Database) : List EmailMessage :=
  (byNextAttempt (db.emailMessages.filter (due now claimTimeoutMs))).take limit

/-- Stamps a row with the claim of a worker. -/
def lock (workerId : String) (now : Nat) (m : EmailMessage) : EmailMessage :=
  { m with
    status := .SENDING, lockedAt := some now, lockedBy := some workerId, attempts := m.attempts + 1 }

/-- The `where` of the claim carries the predicate the candidates were selected by. -/
def claimable (ids : List Nat) (now claimTimeoutMs : Nat) (m : EmailMessage) : Bool :=
  m.id ∈ ids && due now claimTimeoutMs m

def claimCandidates (ids : List Nat) (workerId : String) (now claimTimeoutMs : Nat)
    (db : Database) : Database :=
  changeRows (claimable ids now claimTimeoutMs) (lock workerId now) db

/-- A row under the claim a worker took at a time. -/
def heldBy (workerId : String) (now : Nat) (m : EmailMessage) : Bool :=
  m.status = .SENDING && m.lockedBy = some workerId && m.lockedAt = some now

def findClaimed (workerId : String) (now : Nat) (db : Database) : List EmailMessage :=
  byNextAttempt (db.emailMessages.filter (heldBy workerId now))

/-! ## Outcomes -/

def unlock (m : EmailMessage) : EmailMessage := { m with lockedAt := none, lockedBy := none }

def sent (provider providerMessageId : String) (now : Nat) (m : EmailMessage) : EmailMessage :=
  { unlock m with
    status := .SENT, provider := some provider, providerMessageId := some providerMessageId
    sentAt := some now, lastError := none }

def failed (error : String) (nextAttemptAt : Nat) (m : EmailMessage) : EmailMessage :=
  { unlock m with status := .FAILED, lastError := some (truncateError error 1000), nextAttemptAt }

def dead (error : String) (m : EmailMessage) : EmailMessage :=
  { unlock m with status := .DEAD, lastError := some (truncateError error 1000) }

/-- Back to the queue. -/
def revived (resetAttempts : Bool) (now : Nat) (m : EmailMessage) : EmailMessage :=
  { unlock m with
    status := .PENDING, nextAttemptAt := now, attempts := if resetAttempts then 0 else m.attempts }

/-- Delivered rows older than the cutoff go, and their keys with them. -/
def purgeable (cutoff : Nat) (m : EmailMessage) : Bool := m.status = .SENT && m.createdAt < cutoff

def purgeSentBefore (cutoff : Nat) (db : Database) : Nat × Database :=
  ((db.emailMessages.filter (purgeable cutoff)).length,
    { db with
      emailMessages := db.emailMessages.filter (! purgeable cutoff ·)
      idempotencyKeys := db.idempotencyKeys.filter fun record =>
        ! (db.message? record.emailMessageId).any (purgeable cutoff) })

end PrismaEmailRepository

/-! ## The statements as calls -/

inductive Call
  | insert (input : NewEmailRecord) (idempotency : Option IdempotencyRecord)
  | findByIdempotencyKey (key : String)
  | findById (id : Nat)
  | findCandidates (limit now claimTimeoutMs : Nat)
  | claimCandidates (ids : List Nat) (workerId : String) (now claimTimeoutMs : Nat)
  | findClaimed (workerId : String) (now : Nat)
  | markSent (id : Nat) (provider providerMessageId : String) (now : Nat)
  | markForRetry (id : Nat) (error : String) (nextAttemptAt : Nat)
  | markDead (id : Nat) (error : String)
  | requeue (id : Nat) (resetAttempts : Bool) (now : Nat)
  | purgeSentBefore (cutoff : Nat)
  deriving DecidableEq, Repr

namespace Call

def Result : Call → Type
  | insert _ _ => EnqueueOutcome
  | findByIdempotencyKey _ => Option (EmailMessage × String)
  | findById _ => Option EmailMessage
  | findCandidates _ _ _ | findClaimed _ _ => List EmailMessage
  | claimCandidates _ _ _ _ => Unit
  | markSent _ _ _ _ | markForRetry _ _ _ | markDead _ _ | requeue _ _ _ => EmailMessage
  | purgeSentBefore _ => Nat

open PrismaEmailRepository in
/-- What a call made at a time does to the tables. -/
def serve (at_ : Nat) :
    (call : Call) → Database → Except DatabaseError call.Result × Database
  | insert input idempotency, db =>
    let (outcome, db') := PrismaEmailRepository.insert at_ input idempotency db
    (.ok outcome, db')
  | findByIdempotencyKey key, db => (.ok (PrismaEmailRepository.findByIdempotencyKey key db), db)
  | findById id, db => (.ok (db.message? id), db)
  | findCandidates limit now claimTimeoutMs, db =>
    (.ok (PrismaEmailRepository.findCandidates limit now claimTimeoutMs db), db)
  | claimCandidates ids workerId now claimTimeoutMs, db =>
    (.ok (), PrismaEmailRepository.claimCandidates ids workerId now claimTimeoutMs db)
  | findClaimed workerId now, db => (.ok (PrismaEmailRepository.findClaimed workerId now db), db)
  | markSent id provider providerMessageId now, db =>
    updateById id (sent provider providerMessageId now) db
  | markForRetry id error nextAttemptAt, db => updateById id (failed error nextAttemptAt) db
  | markDead id error, db => updateById id (dead error) db
  | requeue id resetAttempts now, db => updateById id (revived resetAttempts now) db
  | purgeSentBefore cutoff, db =>
    let (count, db') := PrismaEmailRepository.purgeSentBefore cutoff db
    (.ok count, db')

end Call

end PracticalMicroservice.Email
