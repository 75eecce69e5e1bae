import PracticalMicroservice.Auth.History

/-!
# The lockout

A failed login is counted on the row as it is then, and whether it locks the account was decided on
the row the login read at its start.
-/

namespace PracticalMicroservice.Auth

open Foundations (pastOf)

/-- The event counts a failed login on an account. -/
def Fails (e : Event) (id : Nat) : Prop :=
  ∃ u ∈ e.before.db.users, u.id = id ∧ ∃ u' ∈ e.after.db.users, u'.id = id ∧
    u.failedLoginAttempts < u'.failedLoginAttempts

instance (e : Event) (id : Nat) : Decidable (Fails e id) := inferInstanceAs (Decidable (∃ u ∈ _, _))

/-- The event brings the count recorded for an account to the maximum or beyond. -/
def Reaches (env : Env) (e : Event) (id : Nat) : Prop :=
  Fails e id ∧ ∃ u' ∈ e.after.db.users, u'.id = id ∧
    env.maxFailedLoginAttempts ≤ u'.failedLoginAttempts

instance (env : Env) (e : Event) (id : Nat) : Decidable (Reaches env e id) :=
  inferInstanceAs (Decidable (_ ∧ _))

/-- The account is locked whenever its count is at the maximum. -/
def LockedAt (env : Env) (w : World) (now id : Nat) : Prop :=
  ∀ u ∈ w.db.users, u.id = id → env.maxFailedLoginAttempts ≤ u.failedLoginAttempts →
    AuthService.lockHolds u.lockedUntil now = true

instance (env : Env) (w : World) (now id : Nat) : Decidable (LockedAt env w now id) :=
  inferInstanceAs (Decidable (∀ u ∈ _, _))

/-- The row a login was told. -/
def foundRow : ((command : Command) × command.Reply) → Option AuthUser
  | ⟨.repository (.findAuthUserByEmail _), .ok (some u)⟩ => some u
  | _ => none

/-- When a failed login that brought the count to the maximum has returned and still counts, the
account is locked; and no login that read it while locked is accepted. -/
structure LocksOut (env : Env) (s : System) : Prop where
  locked : ∀ newer last older, s.trace = newer ++ last :: older →
    (∃ answer, s.result last.thread = some answer) →
    (∀ e ∈ newer, e.thread ≠ last.thread) →
    ∀ e ∈ last :: older, e.thread = last.thread → ∀ id, Reaches env e id →
      LockedAt env last.after last.after.now id
  refused : ∀ e ∈ s.trace, ∀ email password info,
    s.task e.thread = some (.login email password info) → ∀ u ∈ foundRow e.told,
      AuthService.lockHolds u.lockedUntil e.before.now = true →
      ∀ a, s.result e.thread ≠ some (.ok a)

/-! ## When it works -/

/-- The command counts a failed login on an account. -/
def countsFailure (id : Nat) : Command → Bool
  | .repository (.registerFailedLogin id' _) => id' = id
  | _ => false

/-- The row a request read at its start. -/
def rowRead (past : Told) : Option AuthUser := past.findSome? foundRow

/-- The clock, if the last thing a request did was to read it. -/
def clockRead : Told → Option Nat
  | ⟨.now, now⟩ :: _ => some now
  | _ => none

/-- The password has just been found right. -/
def passwordRight : Told → Bool
  | ⟨.verifyPassword _ _, .ok true⟩ :: _ => true
  | _ => false

def readsClock : Command → Bool
  | .now => true
  | _ => false

/-- A failed login about to bring the count to the maximum had itself read a count next to it, less
than the length of a lock ago, or the account is locked already; and a lock that a login read has not
run out when it is checked. -/
def heedsLock (env : Env) (s : System) (thread : Nat) (_fate : Fate) (command : Command) : Prop :=
  (∀ u ∈ s.world.db.users, countsFailure u.id command = true →
    env.maxFailedLoginAttempts ≤ u.failedLoginAttempts + 1 →
    if (rowRead (pastOf thread s.trace)).any
        (fun read => env.maxFailedLoginAttempts ≤ read.failedLoginAttempts + 1) = true then
      ∀ now ∈ clockRead (pastOf thread s.trace),
        s.world.now < now + env.lockDurationMinutes * MINUTE_MS
    else AuthService.lockHolds u.lockedUntil s.world.now = true) ∧
  (readsClock command = true → passwordRight (pastOf thread s.trace) = true →
    ∀ e ∈ s.trace, e.thread = thread → ∀ u ∈ foundRow e.told,
      AuthService.lockHolds u.lockedUntil e.before.now = true →
      AuthService.lockHolds u.lockedUntil s.world.now = true)

instance (env : Env) (s : System) (thread : Nat) (fate : Fate) (command : Command) :
    Decidable (heedsLock env s thread fate command) := inferInstanceAs (Decidable (_ ∧ _))

/-- The steps under which the lockout holds: no lock runs out, either, while a failed login that
counts on it has yet to return. -/
def keepsLocks (env : Env) (s : System) : Label → Prop
  | .call thread fate => ∀ command ∈ s.nextCommand thread, heedsLock env s thread fate command
  | .move (.tick ms) => ∀ e ∈ s.trace, s.result e.thread = none → ∀ u ∈ s.world.db.users,
      Fails e u.id → LockedAt env s.world (s.world.now + ms) u.id
  | _ => True

instance (env : Env) (s : System) : DecidablePred (keepsLocks env s)
  | .call thread fate => inferInstanceAs (Decidable
      (∀ command ∈ s.nextCommand thread, heedsLock env s thread fate command))
  | .move (.tick ms) => inferInstanceAs (Decidable
      (∀ e ∈ s.trace, s.result e.thread = none → ∀ u ∈ s.world.db.users,
        Fails e u.id → LockedAt env s.world (s.world.now + ms) u.id))
  | .move (.setStatus _ _) => .isTrue trivial
  | .spawn _ => .isTrue trivial

end PracticalMicroservice.Auth
