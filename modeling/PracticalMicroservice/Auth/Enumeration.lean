import PracticalMicroservice.Auth.Guesses

/-!
# What an answer gives away

Five requests take an address from anyone. Whoever knows neither the password nor a code is to learn
nothing from the answer about whether the address has an account.
-/

namespace PracticalMicroservice.Auth

open Foundations (Contract Ends)
open PrismaAuthRepository

/-- What becomes of the commands of a request when no call of the repository fails: argon2 fails on
just the digests it cannot read. -/
def unhindered (readable : String → Bool) : Command → Fate → Bool
  | .repository _, .served => true
  | .repository _, _ => false
  | .verifyPassword digest _, .served => readable digest
  | .verifyPassword digest _, _ => !readable digest
  | _, _ => true

/-- A request with nothing beside it. Time passes before each command, and the other services answer
what they like. -/
def unattended (env : Env) (readable : String → Bool) :
    Contract Command Command.Reply World where
  allows _ _ := True
  replies command w reply w' := ∃ ms fate, unhindered readable command fate = true ∧
    World.perform env fate command { w with now := w.now + ms } = some (reply, w')

/-- A request can be answered so. -/
def Responds (env : Env) (readable : String → Bool) (w : World) (task : Task) (answer : Outcome) :
    Prop :=
  ∃ w', Ends (unattended env readable) (task.run env) w answer w'

/-- The address a request takes from anyone. -/
def Task.address : Task → Option String
  | .login email _ _ | .resendVerification email _ | .verifyEmail email _ _
  | .forgotPassword email _ | .resetPassword email _ _ _ => some email
  | _ => none

def Database.byEmail (db : Database) (email : String) : Option AuthUser :=
  db.users.find? (·.email = email)

/-- The code a type of guess is compared with. -/
def Database.activeCode (db : Database) (id : Nat) (type : VerificationType) :
    Option Verification :=
  newest (db.verifications.filter (isPending id type))

/-- The guess is the code of an account, and the code may still be used. -/
def ValidCode (env : Env) (w : World) (id : Nat) (type : VerificationType) (code : String) : Prop :=
  ∃ v, w.db.activeCode id type = some v ∧ w.now < v.expiresAt ∧ v.attempts < v.maxAttempts ∧
    v.codeHash = env.hashCode code

/-- The caller knows neither the password of the account nor a valid code of it. -/
def KnowsNothing (env : Env) (w : World) (u : AuthUser) : Task → Prop
  | .login _ password _ => env.argon2Verify u.passwordHash password = false
  | .verifyEmail _ code _ => ¬ ValidCode env w u.id .EMAIL_VERIFICATION code
  | .resetPassword _ code _ _ => ¬ ValidCode env w u.id .PASSWORD_RESET code
  | _ => True

/-- The request is answered alike in two states, however it goes in each. -/
def AnsweredAlike (env : Env) (readable : String → Bool) (w w₀ : World) (task : Task) : Prop :=
  ∀ answer answer₀, Responds env readable w task answer → Responds env readable w₀ task answer₀ →
    answer = answer₀

/-- The requests whose answers tell: a verification of an active account that is verified already,
and a login to one whose stored digest cannot be read. -/
def Reveals (readable : String → Bool) (u : AuthUser) : Task → Prop
  | .verifyEmail _ _ _ => u.status = .ACTIVE ∧ u.verified = true
  | .login _ _ _ => readable u.passwordHash = false
  | _ => False

/-- The answer where the address has no account. -/
def Task.answerAbsent : Task → Outcome
  | .login _ _ _ => .error AuthService.invalidCredentialsError
  | .verifyEmail _ _ _ | .resetPassword _ _ _ _ => .error AuthService.invalidCodeError
  | _ => .ok .done

/-- The answer to a caller who knows nothing where it has one. -/
def Task.answerPresent (readable : String → Bool) (u : AuthUser) : Task → Outcome
  | .login _ _ _ => .error (if readable u.passwordHash then AuthService.invalidCredentialsError
      else .InternalServerError "Stored password hash could not be verified")
  | .verifyEmail _ _ _ => .error (if u.status = .ACTIVE ∧ u.verified = true then
      .ConflictError "This account has already been verified" else AuthService.invalidCodeError)
  | task => task.answerAbsent

end PracticalMicroservice.Auth
