import PracticalMicroservice.Email.Fencing

/-!
# How often a message is tried

An attempt is counted when its row is claimed, and an operator who puts a message back in the queue
starts the count again. A delivery whose attempts are used up records that the message is dead; a
claim does not look at the count.
-/

namespace PracticalMicroservice.Email

open PrismaEmailRepository (claimable)

/-- The message a command puts back in the queue. -/
def Command.requeued? : Command → Option Nat
  | .repository (.requeue id _ _) => some id
  | _ => none

/-- An event changes the row of a message by an operator's retry. -/
def Requeues (e : Event) (id : Nat) : Prop :=
  e.command.requeued? = some id ∧ e.after.db.message? id ≠ e.before.db.message? id

instance (e : Event) (id : Nat) : Decidable (Requeues e id) :=
  inferInstanceAs (Decidable (_ ∧ _))

/-- What has happened since a message was last put back in the queue, newest first. -/
def sinceRequeue (id : Nat) (trace : List Event) : List Event :=
  trace.takeWhile fun e => ¬ Requeues e id

/-- The claims of a message since then. -/
def claimsOf (id : Nat) (trace : List Event) : List Event :=
  (sinceRequeue id trace).filter fun e => ClaimsRow e id

/-- The times since then that it was handed to the provider. -/
def handingsOf (id : Nat) (trace : List Event) : List Event :=
  (sinceRequeue id trace).filter fun e => e.command.handed? = some id

/-- Tables with attempts left for every message that waits, and nothing claimed. -/
structure Database.Queued (db : Database) : Prop where
  below : ∀ row ∈ db.emailMessages, row.id < db.nextId
  distinct : (db.emailMessages.map (·.id)).Nodup
  unclaimed : ∀ row ∈ db.emailMessages, row.status ≠ .SENDING
  left : ∀ row ∈ db.emailMessages, row.attempts ≤ row.maxAttempts ∧
    (row.status ∈ CLAIMABLE_STATUSES → row.attempts < row.maxAttempts)
  positive : ∀ row ∈ db.emailMessages, 0 < row.maxAttempts

namespace System

/-- The message a thread delivers. -/
def delivering (s : System) (thread : Nat) : Option EmailMessage :=
  match s.task thread with
  | some (.deliver _ _ message) => some message
  | _ => none

/-- The messages a thread may still hand to the provider. -/
def waiting (s : System) (thread : Nat) : List EmailMessage :=
  if (s.nextCommand thread).all fun command => command.handed?.isSome then s.pending thread else []

/-- The messages that processes that live may still hand to the provider. -/
def unsent (s : System) : List EmailMessage :=
  (List.range s.threads.length).flatMap fun thread =>
    if thread ∈ s.world.stopped then [] else s.waiting thread

/-- A stale row is claimed only while it has attempts left, at a time at which the worker has made
no other claim; a failure that is recorded after the row was claimed again finds attempts left too;
and an operator's retry finds no delivery of the message about to begin. -/
def Sparing (s : System) (thread : Nat) (fate : Fate) : Command → Prop
  | .repository (.claimCandidates ids workerId now claimTimeoutMs) =>
    (fate.takesEffect → ∀ row ∈ s.world.db.emailMessages, claimable ids now claimTimeoutMs row →
      row.status = .SENDING → row.attempts < row.maxAttempts) ∧
    (fate = .served → ∀ e ∈ s.trace, claimed? e.told ≠ some (workerId, now))
  | .repository (.markForRetry id _ _) =>
    fate.takesEffect → ∀ row ∈ s.world.db.emailMessages, row.id = id →
      ∀ message ∈ s.delivering thread, message.attempts < row.attempts →
        row.attempts < row.maxAttempts
  | .repository (.requeue id _ _) => fate.takesEffect → ∀ message ∈ s.unsent, message.id ≠ id
  | _ => True

instance (s : System) (thread : Nat) (fate : Fate) :
    (command : Command) → Decidable (s.Sparing thread fate command)
  | .repository (.claimCandidates ids workerId now claimTimeoutMs) =>
    inferInstanceAs (Decidable (
      (fate.takesEffect → ∀ row ∈ s.world.db.emailMessages, claimable ids now claimTimeoutMs row →
        row.status = .SENDING → row.attempts < row.maxAttempts) ∧
      (fate = .served → ∀ e ∈ s.trace, claimed? e.told ≠ some (workerId, now))))
  | .repository (.markForRetry id _ _) =>
    inferInstanceAs (Decidable (fate.takesEffect → ∀ row ∈ s.world.db.emailMessages, row.id = id →
      ∀ message ∈ s.delivering thread, message.attempts < row.attempts →
        row.attempts < row.maxAttempts))
  | .repository (.requeue id _ _) =>
    inferInstanceAs (Decidable (fate.takesEffect → ∀ message ∈ s.unsent, message.id ≠ id))
  | .repository (.insert _ _) | .repository (.findByIdempotencyKey _) | .repository (.findById _)
  | .repository (.findCandidates _ _ _) | .repository (.findClaimed _ _)
  | .repository (.markSent _ _ _ _) | .repository (.markDead _ _)
  | .repository (.purgeSentBefore _) | .now | .random | .send _ => .isTrue trivial

end System

/-- A message there is at one moment of a run has at a later one been claimed, and handed to the
provider, at most as often as its attempts allow since an operator last put it back. -/
def Bounded (s s' : System) : Prop :=
  ∀ row ∈ s.world.db.emailMessages, (claimsOf row.id s'.trace).length ≤ row.maxAttempts ∧
    (handingsOf row.id s'.trace).length ≤ row.maxAttempts

end PracticalMicroservice.Email
