import PracticalMicroservice.Auth.History
import PracticalMicroservice.Auth.Guesses

/-!
# Who is minted a token, how a one-time code ends, and when the next may come

Four requests mint tokens, and each has a gate of its own. What is asked of them together is that a
token goes to an account that is active and verified at that moment.

A code leaves `PENDING` by being used, superseded or burnt. The writes that say so are guarded by the
status the row has, except the one that burns a code after its last wrong guess. Whether the next one
may be issued is judged by the one outstanding: one that was burnt or used is not outstanding any more,
however young it is.
-/

namespace PracticalMicroservice.Auth

open Foundations (pastOf)

/-- The account a command mints a token for. -/
def mintsFor : Command → Option Nat
  | .repository (.createRefreshToken input) => some input.authUserId
  | .repository (.rotateRefreshToken _ next) => some next.authUserId
  | .signAccessToken claims => some claims.sub
  | _ => none

/-- The account is there, active, and its address verified. -/
def Entitled (w : World) (id : Nat) : Prop :=
  ∃ u ∈ w.db.users, u.id = id ∧ u.status = .ACTIVE ∧ u.verified = true

instance (w : World) (id : Nat) : Decidable (Entitled w id) :=
  inferInstanceAs (Decidable (∃ u ∈ _, _))

/-- Every token has been minted when its account was entitled to one. -/
def OnlyEntitled (s : System) : Prop :=
  ∀ e ∈ s.trace, ∀ id ∈ mintsFor e.command, Entitled e.before id

/-! ## Requests one after another -/

/-- Every request has been answered. -/
def System.idle (s : System) : Prop := ∀ i < s.threads.length, s.result i ≠ none

instance (s : System) : Decidable s.idle :=
  inferInstanceAs (Decidable (∀ i < s.threads.length, s.result i ≠ none))

/-- Requests and changes of status come one after another. -/
def inTurn (s : System) : Label → Prop
  | .spawn _ => s.idle
  | .move (.setStatus _ _) => s.idle
  | _ => True

instance (s : System) : DecidablePred (inTurn s)
  | .spawn _ => inferInstanceAs (Decidable s.idle)
  | .move (.setStatus _ _) => inferInstanceAs (Decidable s.idle)
  | .move (.tick _) => .isTrue trivial
  | .call _ _ => .isTrue trivial

/-- The account whose password a request is to change. -/
def changing : Task → Option Nat
  | .changePassword token _ _ _ => some token.sub
  | _ => none

/-- The hash a command checks a password against, and the password. -/
def passwordCheck : Command → Option (String × String)
  | .verifyPassword digest plaintext => some (digest, plaintext)
  | _ => none

/-- A change of password whose current password is right is for an active account. -/
def changesActive (env : Env) (s : System) (thread : Nat) (_fate : Fate) (command : Command) : Prop :=
  ∀ task ∈ s.task thread, ∀ id ∈ changing task, ∀ check ∈ passwordCheck command,
    env.argon2Verify check.1 check.2 = true → ∀ u ∈ s.world.db.users, u.id = id → u.status = .ACTIVE

instance (env : Env) (s : System) (thread : Nat) (fate : Fate) (command : Command) :
    Decidable (changesActive env s thread fate command) :=
  inferInstanceAs (Decidable (∀ task ∈ s.task thread, _))

/-! ## How a code ends -/

/-- The status of a code. -/
def Database.statusOf (db : Database) (id : Nat) : Option VerificationStatus :=
  (db.verification? id).map (·.status)

/-- The event changes the status of a code. -/
def Settles (e : Event) (id : Nat) : Prop :=
  (e.before.db.statusOf id).isSome = true ∧ e.after.db.statusOf id ≠ e.before.db.statusOf id

instance (e : Event) (id : Nat) : Decidable (Settles e id) := inferInstanceAs (Decidable (_ ∧ _))

/-- Every code leaves `PENDING` once, and is then what it became. -/
structure SettledOnce (s : System) : Prop where
  fromPending : ∀ e ∈ s.trace, ∀ id, Settles e id →
    e.before.db.statusOf id = some .PENDING ∧ ∃ status, e.after.db.statusOf id = some status ∧
      (status = .VERIFIED ∨ status = .REVOKED ∨ status = .EXPIRED)
  once : ∀ id, s.trace.Pairwise fun e e' => ¬ (Settles e id ∧ Settles e' id)
  kept : ∀ e ∈ s.trace, ∀ id, Settles e id → s.world.db.statusOf id = e.after.db.statusOf id

/-- The command burns a code. -/
def burns (id : Nat) : Command → Bool
  | .repository (.registerVerificationAttempt id' exhausted) => exhausted && id' == id
  | _ => false

/-- A code is burnt while it is pending, or burnt already. -/
def burnsPending (s : System) (_thread : Nat) (fate : Fate) (command : Command) : Prop :=
  fate.isRefused = false → ∀ row ∈ s.world.db.verifications, burns row.id command = true →
    row.status = .PENDING ∨ row.status = .EXPIRED

instance (s : System) (thread : Nat) (fate : Fate) (command : Command) :
    Decidable (burnsPending s thread fate command) := inferInstanceAs (Decidable (_ → _))

/-! ## The cooldown between two codes -/

/-- The account a command issues a code to, and the type of the code. -/
def issuedTo : Command → Option (Nat × VerificationType)
  | .repository (.replaceVerification id input) => some (id, input.type)
  | _ => none

/-- The event issues a code of a type to an account. -/
def Issues (e : Event) (id : Nat) (type : VerificationType) : Prop :=
  issuedTo e.command = some (id, type) ∧
    ∃ v ∈ e.after.db.verifications, v.id = e.before.db.nextKey

instance (e : Event) (id : Nat) (type : VerificationType) : Decidable (Issues e id type) :=
  inferInstanceAs (Decidable (_ ∧ _))

def Env.resendCooldownMs (env : Env) : Nat := env.resendCooldownSeconds * 1000

/-- Two codes of one type are issued to one account a cooldown apart. -/
def SpacedOut (env : Env) (s : System) : Prop :=
  ∀ id type, s.trace.Pairwise fun e e' => Issues e id type → Issues e' id type →
    e'.before.now + env.resendCooldownMs ≤ e.before.now

/-- When a code is issued, every one of its type issued to the account less than a cooldown ago is
still pending. -/
def leavesPending (env : Env) (s : System) (_thread : Nat) (fate : Fate) (command : Command) :
    Prop :=
  fate.isRefused = false → ∀ issue ∈ issuedTo command, ∀ e ∈ s.trace, Issues e issue.1 issue.2 →
    s.world.now < e.before.now + env.resendCooldownMs →
    ∀ v ∈ s.world.db.verifications, v.id = e.before.db.nextKey → v.status = .PENDING

instance (env : Env) (s : System) (thread : Nat) (fate : Fate) (command : Command) :
    Decidable (leavesPending env s thread fate command) := inferInstanceAs (Decidable (_ → _))

end PracticalMicroservice.Auth
