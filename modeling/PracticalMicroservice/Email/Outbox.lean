import PracticalMicroservice.Foundations.ReadCommitted
import PracticalMicroservice.Email.Service

/-!
# Enqueueing, statement by statement

The two tables that enqueueing writes lie in one store, and the method is a transaction on it. Any
number of requests run side by side, each its transactions one access at a time; in between, the
dispatcher and the operators rewrite rows, but never what a message says. Nothing is purged.
-/

namespace PracticalMicroservice.Email

open Foundations (Access DatabaseError Keyed Pool Session Slot Transaction Versions)

/-! ## The tables -/

/-- A row of either table. -/
inductive Row
  | message (m : EmailMessage)
  | key (record : IdempotencyKey)
  deriving DecidableEq, Repr

namespace Row

def message? : Row → Option EmailMessage
  | message m => some m
  | key _ => none

def key? : Row → Option IdempotencyKey
  | key record => some record
  | message _ => none

/-- The primary keys, and the one key a message may have. -/
def clash : Row → Row → Option String
  | message new, message old => if new.id = old.id then some "id" else none
  | key new, key old =>
    if new.key = old.key then some "key"
    else if new.emailMessageId = old.emailMessageId then some "email_message_id"
    else none
  | _, _ => none

def isMessage (p : EmailMessage → Bool) : Row → Bool
  | message m => p m
  | key _ => false

def isKey (p : IdempotencyKey → Bool) : Row → Bool
  | key record => p record
  | message _ => false

end Row

instance : Keyed Row where
  clash := Row.clash

/-! ## The transactions -/

namespace Outbox

/-- `findUnique` of a key, with `include: { emailMessage: true }`. -/
def findRecord (key : String) : Transaction Row (Option (EmailMessage × String)) := do
  let records ← Transaction.findMany (Row.isKey (·.key = key))
  match records.filterMap Row.key? with
  | [] => return none
  | record :: _ =>
    let messages ← Transaction.findMany (Row.isMessage (·.id = record.emailMessageId))
    match messages.filterMap Row.message? with
    | [] => throw .unexpected
    | message :: _ => return some (message, record.requestFingerprint)

def existing : Option IdempotencyRecord → Transaction Row (Option (EmailMessage × String))
  | some record => findRecord record.key
  | none => return none

/-- `data: input`, with the defaults of the table. -/
def newMessage (at_ : Nat) (input : NewEmailRecord) (id : Nat) : EmailMessage where
  id := id
  recipient := input.recipient
  subject := input.subject
  body := input.body
  bodyType := input.bodyType
  source := input.source
  maxAttempts := input.maxAttempts
  nextAttemptAt := at_
  createdAt := at_

def createMessage (at_ : Nat) (input : NewEmailRecord) : Transaction Row EmailMessage := do
  match ← Transaction.create fun id => .message (newMessage at_ input id) with
  | .message m => return m
  | .key _ => throw .unexpected

def newKey (record : IdempotencyRecord) (m : EmailMessage) : IdempotencyKey where
  key := record.key
  requestFingerprint := record.fingerprint
  emailMessageId := m.id

def createKey (m : EmailMessage) : Option IdempotencyRecord → Transaction Row Unit
  | some record => do
    let _ ← Transaction.create fun _ => .key (newKey record m)
  | none => return ()

/-- `insert`: the lookup, and the message row with its key. -/
def insert (at_ : Nat) (input : NewEmailRecord) (idempotency : Option IdempotencyRecord) :
    Transaction Row EnqueueOutcome := do
  match ← existing idempotency with
  | some (message, fingerprint) =>
    return { message, replayed := true, storedFingerprint := some fingerprint }
  | none =>
    let message ← createMessage at_ input
    createKey message idempotency
    return { message, replayed := false, storedFingerprint := idempotency.map (·.fingerprint) }

/-- `attempt`: a transaction with its error as the service has it. -/
def attempt {α : Type} (tx : Transaction Row α) : Session Row (Except AppError α) := do
  match ← Session.transact tx with
  | .ok a => return .ok a
  | .error e => return .error (toAppError e)

/-- The repository on the database, its rows stamped with a time. -/
def repository (at_ : Nat) : EmailRepository (Session Row) where
  insert input idempotency := attempt (insert at_ input idempotency)
  findByIdempotencyKey key := attempt (findRecord key)

end Outbox

/-! ## Requests side by side -/

/-- A request to send: its body after `sendEmailSchema`, in some order of properties, and its
header. -/
structure SendRequest where
  input : SendEmailInput
  properties : List (String × String)
  same : properties.Perm input.properties
  idempotencyKey : Option String
  at_ : Nat

def SendRequest.run (env : Env) (r : SendRequest) : Session Row (Except AppError EnqueueResult) :=
  (EmailService.enqueue (Outbox.repository r.at_) env r.input r.properties r.idempotencyKey).run

/-- What the dispatcher and the operators write on a message. -/
inductive Bookkeeping
  | lock (workerId : String) (now : Nat)
  | sent (provider providerMessageId : String) (now : Nat)
  | failed (error : String) (nextAttemptAt : Nat)
  | dead (error : String)
  | revived (resetAttempts : Bool) (now : Nat)

open PrismaEmailRepository in
def Bookkeeping.change : Bookkeeping → EmailMessage → EmailMessage
  | lock workerId now => PrismaEmailRepository.lock workerId now
  | sent provider providerMessageId now => PrismaEmailRepository.sent provider providerMessageId now
  | failed error nextAttemptAt => PrismaEmailRepository.failed error nextAttemptAt
  | dead error => PrismaEmailRepository.dead error
  | revived resetAttempts now => PrismaEmailRepository.revived resetAttempts now

/-- A row that is committed, and that no request holds, is rewritten. -/
def rewrite (index : Nat) (b : Bookkeeping) (v : Versions Row) : Option (Versions Row) :=
  match v.slots[index]? with
  | some ⟨some (.message m), none⟩ =>
    some { v with slots := v.slots.set index ⟨some (.message (b.change m)), none⟩ }
  | _ => none

/-- The requests under way. -/
abbrev Enqueueing :=
  Pool SendRequest (Access Row) Access.Reply (Except AppError EnqueueResult) (Versions Row)

namespace Enqueueing

abbrev Label := Pool.Label SendRequest (List Nat) (Nat × Bookkeeping)

def machine : Foundations.Machine (Access Row) Access.Reply (Versions Row) (List Nat)
    (Nat × Bookkeeping) :=
  Foundations.readCommitted fun move => rewrite move.1 move.2

def step (env : Env) (s : Enqueueing) (l : Label) : Option Enqueueing :=
  Pool.step machine (SendRequest.run env) s l

def messages (v : Versions Row) : List EmailMessage := v.rows.filterMap Row.message?

def keys (v : Versions Row) : List IdempotencyKey := v.rows.filterMap Row.key?

end Enqueueing

/-! ## What the claim to a key means -/

/-- What the message says, as it was accepted. -/
def EmailMessage.payload (m : EmailMessage) : SendEmailInput where
  recipient := m.recipient
  subject := m.subject
  body := m.body
  bodyType := m.bodyType
  source := m.source

/-- The tables at rest: what the database enforces of them. -/
structure Consistent (v : Versions Row) : Prop where
  quiet : ∀ slot ∈ v.slots, slot.written = none
  unique : v.slots.Pairwise fun slot slot' => ∀ row ∈ slot.versions, ∀ row' ∈ slot'.versions,
    Row.clash row' row = none
  numbered : ∀ m ∈ Enqueueing.messages v, m.id < v.nextKey
  /-- The foreign key. -/
  linked : ∀ record ∈ Enqueueing.keys v, ∃ m ∈ Enqueueing.messages v, m.id = record.emailMessageId

/-- A request was answered with a message of its own. -/
def Enqueueing.Accepted (s : Enqueueing) (i : Nat) (m : EmailMessage) : Prop :=
  s.result i = some (.ok { message := m, replayed := false })

/-- The first request with a key is accepted, the ones like it are answered with its message, and
every other one is refused. -/
structure Idempotent (v₀ : Versions Row) (key : String) (s : Enqueueing) : Prop where
  /-- The key has one message at most. -/
  one : ∀ record ∈ Enqueueing.keys s.world, ∀ record' ∈ Enqueueing.keys s.world,
    record.key = key → record'.key = key → record = record'
  answered : ∀ i r, s.task i = some r → r.idempotencyKey = some key →
    ∀ result, s.result i = some result →
      ∃ record ∈ Enqueueing.keys s.world, record.key = key ∧
        ∃ stored ∈ Enqueueing.messages s.world, stored.id = record.emailMessageId ∧
          (r.input = stored.payload → ∃ m replayed, result = .ok { message := m, replayed } ∧
            m.id = stored.id ∧ m.payload = stored.payload) ∧
          (r.input ≠ stored.payload → result = .error (.ConflictError ("Idempotency-Key '" ++
            key ++ "' was already used for a different message")))
  /-- Exactly one of the requests with the key was not replayed. -/
  once : ∀ record ∈ Enqueueing.keys s.world, record.key = key →
    ∃! i, (∃ r, s.task i = some r ∧ r.idempotencyKey = some key) ∧ ∃ m, s.Accepted i m
  /-- Every message is an old one, or that of one request, which was not replayed. -/
  accounted : ∀ m ∈ Enqueueing.messages s.world,
    m.id ∈ (Enqueueing.messages v₀).map (·.id) ∨ ∃! i, ∃ own, s.Accepted i own ∧ own.id = m.id

end PracticalMicroservice.Email
