import PracticalMicroservice.Email.System
import PracticalMicroservice.Foundations.Histories

/-!
# What each task does, and what it has been told before

A delivery hands over its own message, and ends when it has recorded what became of it; a cycle
reads back the rows of the claim it made.
-/

namespace PracticalMicroservice.Email

open Foundations (Contract History)

/-- Whether a command claims rows. -/
def Command.claims : Command → Bool
  | .repository (.claimCandidates _ _ _ _) => true
  | _ => false

/-- The worker and the time of a claim that was answered. -/
def claimed? : (command : Command) × command.Reply → Option (String × Nat)
  | ⟨.repository (.claimCandidates _ workerId at_ _), .ok _⟩ => some (workerId, at_)
  | _ => none

/-- The message a command hands to the provider. -/
def Command.handed? : Command → Option Nat
  | .send message => some message.id
  | _ => none

/-- The message whose outcome a command records. -/
def Command.recorded? : Command → Option Nat
  | .repository (.markSent id _ _ _) => some id
  | .repository (.markForRetry id _ _) => some id
  | .repository (.markDead id _) => some id
  | _ => none

/-- The commands of a task. -/
def Task.Does (env : Env) : Task → Command → Prop
  | .enqueue _ _, .repository (.insert input _) => input.maxAttempts = env.EMAIL_MAX_ATTEMPTS
  | .enqueue _ _, .repository (.findByIdempotencyKey _) => True
  | .runOnce _, .now => True
  | .runOnce _, .repository (.findCandidates _ _ _) => True
  | .runOnce workerId, .repository (.claimCandidates _ workerId' _ _) => workerId' = workerId
  | .runOnce workerId, .repository (.findClaimed workerId' _) => workerId' = workerId
  | .deliver _ _ message, .send outbound => outbound.id = message.id
  | .deliver _ _ _, .now => True
  | .deliver _ _ _, .random => True
  | .deliver _ _ message, .repository (.markSent id _ _ _) => id = message.id
  | .deliver _ _ message, .repository (.markForRetry id _ _) =>
    id = message.id ∧ message.attempts < message.maxAttempts
  | .deliver _ _ message, .repository (.markDead id _) => id = message.id
  | .retry id, .repository (.findById id') => id' = id
  | .retry _, .now => True
  | .retry id, .repository (.requeue id' resetAttempts _) => id' = id ∧ resetAttempts = true
  | .purgeExpired, .now => True
  | .purgeExpired, .repository (.purgeSentBefore _) => True
  | _, _ => False

/-- What a thread has been told, newest first. -/
abbrev Told := History Command Command.Reply

/-- The time a thread was told. -/
def clock? : (command : Command) × command.Reply → Option Nat
  | ⟨.now, at_⟩ => some at_
  | _ => none

/-- A search for candidates finds no more than it asks for. -/
def Credible : (command : Command) → command.Reply → Prop
  | .repository (.findCandidates limit _ _), .ok messages => messages.length ≤ limit
  | _, _ => True

structure Justified (env : Env) (task : Task) (past : Told) (command : Command) : Prop where
  does : task.Does env command
  /-- A message is handed over before anything else. -/
  first : ∀ id, command.handed? = some id → past = []
  /-- Nothing is left to do once an outcome is recorded. -/
  unrecorded : ∀ x ∈ past, x.1.recorded? = none
  /-- What is read back was claimed before. -/
  claimed : ∀ workerId now, command = .repository (.findClaimed workerId now) →
    ∃ x ∈ past, claimed? x = some (workerId, now)
  /-- A cycle claims once, at the time it was told, and no more than a batch. -/
  claims : ∀ ids workerId now claimTimeoutMs,
    command = .repository (.claimCandidates ids workerId now claimTimeoutMs) →
    ids.length ≤ env.DISPATCHER_BATCH_SIZE ∧
      claimTimeoutMs = env.DISPATCHER_CLAIM_TIMEOUT_MS ∧ (∃ x ∈ past, clock? x = some now) ∧
      ∀ x ∈ past, x.1.claims = false

/-- The batch a cycle ends with is what it read back last, if it claimed at all. -/
def Concluded (answer : Answer) (g : Task × Told) : Prop :=
  ∀ messages, answer = .claimed (.ok messages) →
    (messages = [] ∧ ∀ x ∈ g.2, x.1.claims = false) ∨ ∃ workerId now rest,
      g.2 = ⟨.repository (.findClaimed workerId now), .ok messages⟩ :: rest ∧
        ∃ x ∈ rest, claimed? x = some (workerId, now)

/-- The analysis of the tasks. -/
def told (env : Env) : Contract Command Command.Reply (Task × Told) :=
  Foundations.recounting (Justified env) Credible

end PracticalMicroservice.Email
