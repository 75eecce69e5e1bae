import PracticalMicroservice.Email.History
import PracticalMicroservice.Email.Outbox

/-!
# What the outbox keeps

A message that was accepted is a row until it has been sent and its time is over. What is written on
the row in between leaves what was accepted as it is; the purge takes rows that were sent, and their
keys with them. A row that was not sent can still be, with nobody to attend to it unless it is dead.
-/

namespace PracticalMicroservice.Email

open EmailDispatcher (MS_PER_DAY)

/-- Two rows of one message, with what was accepted the same. -/
structure SameMessage (m m' : EmailMessage) : Prop where
  id : m'.id = m.id
  payload : m'.payload = m.payload
  maxAttempts : m'.maxAttempts = m.maxAttempts
  createdAt : m'.createdAt = m.createdAt

/-- A row past its retention window. -/
structure Expired (env : Env) (now : Nat) (m : EmailMessage) : Prop where
  enabled : env.EMAIL_RETENTION_DAYS ≠ 0
  sent : m.status = .SENT
  past : m.createdAt + env.EMAIL_RETENTION_DAYS * MS_PER_DAY < now

/-- An event takes the row of a message, which was sent and is past its window. -/
def PurgesRow (env : Env) (e : Event) (m : EmailMessage) : Prop :=
  ∃ row, e.before.db.message? m.id = some row ∧ SameMessage m row ∧
    Expired env e.before.now row ∧ e.after.db.message? m.id = none

/-- A message has its row, or it was purged. -/
def System.Keeps (env : Env) (s : System) (m : EmailMessage) : Prop :=
  (∃ row ∈ s.world.db.emailMessages, SameMessage m row) ∨ ∃ e ∈ s.trace, PurgesRow env e m

/-- The keys are unique, and each has its message. -/
structure Database.Linked (db : Database) : Prop where
  below : ∀ row ∈ db.emailMessages, row.id < db.nextId
  distinct : (db.emailMessages.map (·.id)).Nodup
  unique : (db.idempotencyKeys.map (·.key)).Nodup
  /-- The foreign key. -/
  linked : ∀ record ∈ db.idempotencyKeys, (db.message? record.emailMessageId).isSome

/-- What a run from a world has kept. -/
structure Lossless (env : Env) (world : World) (s : System) : Prop where
  /-- What a request was answered with. -/
  accepted : ∀ i result, s.result i = some (.enqueued (.ok result)) → s.Keeps env result.message
  /-- What was a row at some moment. -/
  rows : ∀ m, (m ∈ world.db.emailMessages ∨ ∃ e ∈ s.trace, m ∈ e.after.db.emailMessages) →
    s.Keeps env m
  /-- A key is there as long as its message is. -/
  keys : ∀ record,
    (record ∈ world.db.idempotencyKeys ∨ ∃ e ∈ s.trace, record ∈ e.after.db.idempotencyKeys) →
    (record ∈ s.world.db.idempotencyKeys ↔
      (s.world.db.message? record.emailMessageId).isSome)
  tables : s.world.db.Linked

/-- Nobody puts a message back in the queue. -/
def Unattended : Label → Prop
  | .spawn (.retry _) => False
  | _ => True

/-- A row that is claimed has the time of its claim. -/
def Database.Stamped (db : Database) : Prop :=
  ∀ row ∈ db.emailMessages, row.status = .SENDING → row.lockedAt.isSome

/-! ## What the tasks go by -/

/-- A purge goes by the clock. -/
def Dated (env : Env) (_task : Task) (past : Told) (command : Command) : Prop :=
  ∀ cutoff, command = .repository (.purgeSentBefore cutoff) → env.EMAIL_RETENTION_DAYS ≠ 0 ∧
    ∃ x ∈ past, ∃ now, clock? x = some now ∧
      cutoff = now - env.EMAIL_RETENTION_DAYS * MS_PER_DAY

/-- The message a request is told of. -/
def stored? : (command : Command) × command.Reply → Option EmailMessage
  | ⟨.repository (.insert _ _), .ok outcome⟩ => some (EnqueueOutcome.message outcome)
  | ⟨.repository (.findByIdempotencyKey _), .ok (some found)⟩ => some (Prod.fst found)
  | _ => none

/-- A request is answered with a message it was told of. -/
def ToldOf (answer : Answer) (g : Task × Told) : Prop :=
  ∀ result, answer = .enqueued (.ok result) → ∃ x ∈ g.2, stored? x = some result.message

end PracticalMicroservice.Email
