import PracticalMicroservice.Email.History
import PracticalMicroservice.Foundations.Tables

/-!
# What a claim is worth

A delivery goes by the row its cycle read back: the claim it works under is that row's. The claim
holds while the row in the table is locked by the same worker since the same time; what the claims
are for is that an outcome counts only while they hold, and that nothing happens to a message after
it was sent.
-/

namespace PracticalMicroservice.Email

open Foundations (KeyedTable Pool)
open PrismaEmailRepository (claimable)

/-- The row in the table is under the claim a delivery has its message from. -/
def SameClaim (message row : EmailMessage) : Prop :=
  row.status = .SENDING ∧ row.lockedBy = message.lockedBy ∧ row.lockedAt = message.lockedAt

/-- The claim of a message holds in the tables. -/
def Holds (db : Database) (message : EmailMessage) : Prop :=
  ∃ row, db.message? message.id = some row ∧ SameClaim message row

namespace System

/-- The messages a thread may still deliver: the one it is at, or those its batch has left. -/
def pending (s : System) (thread : Nat) : List EmailMessage :=
  match s.threads[thread]? with
  | some ⟨.deliver _ _ message, .perform _ _⟩ => [message]
  | some ⟨_, .done (.claimed (.ok messages))⟩ => messages.drop (s.cursor thread)
  | _ => []

/-- The messages whose delivery is under way, in processes that live. -/
def underWay (s : System) : List EmailMessage :=
  (List.range s.threads.length).flatMap fun thread =>
    if thread ∈ s.world.stopped then [] else s.pending thread

/-- A claim takes over stale rows only of deliveries that have ended, and at a time at which its
worker has made no other; and an operator's retry finds the row still as it was when it was read. -/
def Timely (s : System) (_thread : Nat) (fate : Fate) : Command → Prop
  | .repository (.claimCandidates ids workerId now claimTimeoutMs) =>
    (fate.takesEffect → ∀ row ∈ s.world.db.emailMessages, claimable ids now claimTimeoutMs row →
      row.status = .SENDING → ∀ message ∈ s.underWay, message.id ≠ row.id) ∧
    (fate = .served → ∀ e ∈ s.trace, claimed? e.told ≠ some (workerId, now))
  | .repository (.requeue id _ _) =>
    fate.takesEffect → ∀ status ∈ s.world.db.status? id, status ∈ RETRYABLE_STATUSES
  | _ => True

instance (s : System) (thread : Nat) (fate : Fate) :
    (command : Command) → Decidable (s.Timely thread fate command)
  | .repository (.claimCandidates ids workerId now claimTimeoutMs) =>
    inferInstanceAs (Decidable (
      (fate.takesEffect → ∀ row ∈ s.world.db.emailMessages, claimable ids now claimTimeoutMs row →
        row.status = .SENDING → ∀ message ∈ s.underWay, message.id ≠ row.id) ∧
      (fate = .served → ∀ e ∈ s.trace, claimed? e.told ≠ some (workerId, now))))
  | .repository (.requeue id _ _) =>
    inferInstanceAs (Decidable
      (fate.takesEffect → ∀ status ∈ s.world.db.status? id, status ∈ RETRYABLE_STATUSES))
  | .repository (.insert _ _) | .repository (.findByIdempotencyKey _) | .repository (.findById _)
  | .repository (.findCandidates _ _ _) | .repository (.findClaimed _ _)
  | .repository (.markSent _ _ _ _) | .repository (.markForRetry _ _ _) | .repository (.markDead _ _)
  | .repository (.purgeSentBefore _) | .now | .random | .send _ => .isTrue trivial

end System

/-- The worker and the time a claim locks its rows with. -/
def Command.lockedFor : Command → Option String × Option Nat
  | .repository (.claimCandidates _ workerId at_ _) => (some workerId, some at_)
  | _ => (none, none)

/-- The worker and the time a row is locked with. -/
def EmailMessage.lockedFor (m : EmailMessage) : Option String × Option Nat :=
  (m.lockedBy, m.lockedAt)

/-- An event changes the row of a message by a claim. -/
def ClaimsRow (e : Event) (id : Nat) : Prop :=
  e.command.claims ∧ e.after.db.message? id ≠ e.before.db.message? id

instance (e : Event) (id : Nat) : Decidable (ClaimsRow e id) :=
  inferInstanceAs (Decidable (_ ∧ _))

/-- What happens on the way from one state of a run to a later one. -/
structure Fenced (s s' : System) : Prop where
  /-- A message that was sent stays so, for as long as its row is kept. -/
  terminal : ∀ id, s.world.db.status? id = some .SENT →
    s'.world.db.status? id = some .SENT ∨ s'.world.db.status? id = none
  /-- It is not claimed again, and not handed to the provider again. -/
  final : ∀ id, s.world.db.status? id = some .SENT → ∀ newer, s'.trace = newer ++ s.trace →
    ∀ e ∈ newer, ¬ ClaimsRow e id ∧ e.command.handed? ≠ some id
  /-- What a delivery records takes effect only while its claim holds. -/
  recorded : ∀ e ∈ s'.trace, ∀ cycle index message,
    s'.task e.thread = some (.deliver cycle index message) → e.after.db ≠ e.before.db →
    Holds e.before.db message

end PracticalMicroservice.Email
