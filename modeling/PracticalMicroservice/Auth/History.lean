import PracticalMicroservice.Auth.System
import PracticalMicroservice.Foundations.Histories

/-!
# What a request has been told, and what that lets it do

For each command that matters, the part of the request's own history that leads to it: the row it
read, the clock it compared it with, the password or the code that was right or wrong.
-/

namespace PracticalMicroservice.Auth

open Foundations (Accounted Contract History Recounted)
open PrismaAuthRepository

/-- What a request has been told, newest first. -/
abbrev Told := History Command Command.Reply

/-- A repository that fails does so with an error of its own. -/
def FromDatabase {α : Type} : Except AppError α → Prop
  | .ok _ => True
  | .error e => ∃ d, e = toAppError d

/-- A reply to a call: the rows it returns are the ones it was asked for. -/
def PlausibleResult : (c : Call) → c.Result → Prop
  | .findAuthUserById id, some u => u.id = id
  | .findAuthUserByEmail email, some u => u.email = email
  | .attachProfile id _, u => u.id = id
  | .registerFailedLogin id _, u => u.id = id
  | .registerSuccessfulLogin id _, u => u.id = id
  | .consumeEmailVerification _ id _, u => u.id = id
  | .updatePassword id _ _, u => u.id = id
  | .findActiveVerification id type, some v => isPending id type v = true
  | .findRefreshTokenByHash hash, some t => t.tokenHash = hash
  | _, _ => True

def Plausible : (command : Command) → command.Reply → Prop
  | .repository c, reply => FromDatabase reply ∧ ∀ result, reply = .ok result → PlausibleResult c result
  | .safeEqual v codeHash, reply => reply = decide (v.codeHash = codeHash)
  | .signAccessToken claims, reply =>
    reply = .ok claims ∨ reply = .error (.InternalServerError "Access token could not be issued")
  | .verifyAccessToken token, reply => ∀ claims, reply = .ok claims → claims = token
  | _, _ => True

def Told.Heard (past : Told) (command : Command) (reply : command.Reply) : Prop :=
  ⟨command, reply⟩ ∈ past

/-- An account was looked up, and this row found. -/
def Told.Found (past : Told) (u : AuthUser) : Prop :=
  (∃ email, past.Heard (.repository (.findAuthUserByEmail email)) (.ok (some u))) ∨
    past.Heard (.repository (.findAuthUserById u.id)) (.ok (some u))

/-- The request consumed a code that confirms the account. -/
def Told.Confirmed (past : Told) (id : Nat) : Prop :=
  ∃ verificationId at_ u,
    past.Heard (.repository (.consumeEmailVerification verificationId id at_)) (.ok u)

/-- The requests that present a one-time code. -/
def Task.PresentsCode : Task → Prop
  | .verifyEmail _ _ _ | .resetPassword _ _ _ _ => True
  | _ => False

/-- A code was compared and found right, and then consumed. -/
def Told.Redeemed (past : Told) : Prop :=
  ∃ v guess, past.Heard (.safeEqual v guess) true ∧
    ((∃ id at_ u,
        past.Heard (.repository (.consumeEmailVerification v.id id at_)) (.ok u)) ∨
      ∃ id passwordHash at_ u,
        past.Heard (.repository (.consumePasswordReset v.id id passwordHash at_)) (.ok u))

/-- What lets a request mint tokens for an account: an active and verified row, or for a change of
password the row the current password was right for. -/
def MayMint (task : Task) (past : Told) (id : Nat) : Prop :=
  (∃ u, past.Found u ∧ u.id = id ∧ u.status = .ACTIVE ∧
    (u.verified = true ∨ past.Confirmed id)) ∨
  ∃ token currentPassword password info u,
    task = .changePassword token currentPassword password info ∧ token.sub = id ∧
      past.Heard (.verifyAccessToken token) (.ok token) ∧ past.Found u ∧ u.id = id ∧
      past.Heard (.verifyPassword u.passwordHash currentPassword) (.ok true)

/-- The record is of an account signing in. -/
def NewLoginHistoryRecord.IsSignIn (record : NewLoginHistoryRecord) (id : Nat) : Prop :=
  record.authUserId = some id ∧ record.success = true ∧ record.outcome = .SUCCESS

/-- The request has put a sign-in of an account on record. -/
def Told.SignedIn (past : Told) (id : Nat) : Prop :=
  ∃ record : NewLoginHistoryRecord,
    past.Heard (.repository (.recordLoginAttempt record)) (.ok ()) ∧ record.IsSignIn id

/-- The token expires a lifetime after a time the request was told. -/
def Told.Expires (env : Env) (past : Told) (input : NewRefreshTokenRecord) : Prop :=
  ∃ now : Nat, past.Heard .now now ∧ input.expiresAt = now + env.refreshTokenTtlMs

/-- The request was told which profile an account has. -/
def Told.Profiled (past : Told) (id : Nat) (userId : String) : Prop :=
  (∃ profile : NewProfile, profile.authUserId = id ∧
    past.Heard (.createProfile profile) (.ok userId)) ∨
  past.Heard (.findByAuthUserId id) (.ok (some userId))

/-- All the request did was to look up an account and the code it has outstanding, and it found none,
or one whose cooldown had run out. -/
def CooledDown (env : Env) (id : Nat) (type : VerificationType) (past : Told) : Prop :=
  ∃ (email : String) (u : AuthUser), u.id = id ∧
    (past = [⟨.repository (.findActiveVerification id type), .ok none⟩,
      ⟨.repository (.findAuthUserByEmail email), .ok (some u)⟩] ∨
    ∃ (now : Nat) (active : Verification),
      AuthService.withinCooldown env now active.issuedAt = false ∧
      past = [⟨.now, now⟩, ⟨.repository (.findActiveVerification id type), .ok (some active)⟩,
        ⟨.repository (.findAuthUserByEmail email), .ok (some u)⟩])

/-- The lookup and the password check a login starts with. -/
def loginStart (email password : String) (u : AuthUser) (matched : Bool) : Told :=
  [⟨.verifyPassword u.passwordHash password, .ok matched⟩,
    ⟨.repository (.findAuthUserByEmail email), .ok (some u)⟩]

/-- The part of its history that leads a request to a command. -/
def Grounds (env : Env) (task : Task) (past : Told) : Command → Prop
  | .repository (.createRefreshToken input) =>
    ∃ token familyId rest, past = ⟨.randomToken, token⟩ :: ⟨.randomUUID, familyId⟩ :: rest ∧
      input.familyId = familyId ∧ input.tokenHash = env.hashRefreshToken token ∧
      MayMint task rest input.authUserId ∧ past.Expires env input ∧
      ∀ email password info, task = .login email password info → Told.SignedIn rest input.authUserId
  | .repository (.rotateRefreshToken currentId next) =>
    ∃ presented info stored, task = .refresh presented info ∧
      past.Heard (.repository (.findRefreshTokenByHash (env.hashRefreshToken presented)))
        (.ok (some stored)) ∧
      stored.id = currentId ∧ next.familyId = stored.familyId ∧
      next.authUserId = stored.authUserId ∧ MayMint task past next.authUserId ∧
      past.Expires env next
  | .repository (.findRefreshTokenByHash hash) =>
    past = [] ∧ ∃ presented, hash = env.hashRefreshToken presented ∧
      (task = .logout presented ∨ ∃ info, task = .refresh presented info)
  | .repository (.findAuthUserByEmail _) => past = []
  | .repository (.registerVerificationAttempt id exhausted) =>
    ∃ v guess rest, past = ⟨.safeEqual v guess, false⟩ :: rest ∧ v.id = id ∧
      exhausted = decide (v.attempts + 1 ≥ v.maxAttempts)
  | .safeEqual v _ =>
    task.PresentsCode ∧ ∃ (now id : Nat) (type : VerificationType) (email : String) (u : AuthUser),
      past = [⟨.now, now⟩, ⟨.repository (.findActiveVerification id type), .ok (some v)⟩,
        ⟨.repository (.findAuthUserByEmail email), .ok (some u)⟩] ∧
      now < v.expiresAt ∧ v.attempts < v.maxAttempts
  | .repository (.consumeEmailVerification id _ at_) =>
    ∃ v guess rest, past = ⟨.now, at_⟩ :: ⟨.safeEqual v guess, true⟩ :: rest ∧ v.id = id
  | .repository (.consumePasswordReset id _ passwordHash at_) =>
    ∃ v guess rest password, past = ⟨.now, at_⟩ :: ⟨.hashPassword password, .ok passwordHash⟩ ::
      ⟨.safeEqual v guess, true⟩ :: rest ∧ v.id = id
  | .repository (.registerFailedLogin id until_) =>
    ∃ email password info u, task = .login email password info ∧ u.id = id ∧
      ((u.failedLoginAttempts + 1 < env.maxFailedLoginAttempts ∧ until_ = none ∧
          past = loginStart email password u false) ∨
        (env.maxFailedLoginAttempts ≤ u.failedLoginAttempts + 1 ∧
          ∃ now : Nat, until_ = some (now + env.lockDurationMinutes * MINUTE_MS) ∧
            past = ⟨.now, now⟩ :: loginStart email password u false))
  | .repository (.registerSuccessfulLogin id _) =>
    ∃ email password info u now at_, task = .login email password info ∧ u.id = id ∧
      past = ⟨.now, at_⟩ :: ⟨.now, now⟩ :: loginStart email password u true ∧
      AuthService.lockHolds u.lockedUntil now = false
  | .repository (.revokeFamily familyId _) =>
    ∃ hash stored, past.Heard (.repository (.findRefreshTokenByHash hash)) (.ok (some stored)) ∧
      stored.familyId = familyId
  | .verifyPassword _ _ => ∀ token currentPassword password info,
    task = .changePassword token currentPassword password info →
      past.Heard (.verifyAccessToken token) (.ok token)
  | .signAccessToken claims => MayMint task past claims.sub
  | .repository (.replaceVerification id input) =>
    ∃ (now : Nat) (code : String) (rest : Told),
      past = ⟨.now, now⟩ :: ⟨.generateCode, code⟩ :: rest ∧ CooledDown env id input.type rest
  | .repository (.attachProfile id userId) => past.Profiled id userId
  | _ => True

/-- What is left to do after a wrong guess is to count it. -/
def CountsFirst (past : Told) (command : Command) : Prop :=
  ∀ v guess rest, past = ⟨.safeEqual v guess, false⟩ :: rest →
    ∃ exhausted, command = .repository (.registerVerificationAttempt v.id exhausted)

def Justified (env : Env) (task : Task) (past : Told) (command : Command) : Prop :=
  CountsFirst past command ∧ Grounds env task past command

/-- Every session the request opened is on record, or it failed right after opening it. -/
def Told.Recorded (past : Told) : Prop :=
  ∀ input row, past.Heard (.repository (.createRefreshToken input)) (.ok row) →
    past.SignedIn input.authUserId ∨
    (∃ claims e rest, past = ⟨.signAccessToken claims, .error e⟩ :: rest) ∨
    ∃ record e rest, past = ⟨.repository (.recordLoginAttempt record), .error e⟩ :: rest ∧
      record.IsSignIn input.authUserId

/-- What a request has been through when it is answered. -/
structure Concluded (env : Env) (answer : Outcome) (g : Task × Told) : Prop where
  /-- No wrong guess is left uncounted. -/
  counted : ∀ v guess rest, g.2 ≠ ⟨.safeEqual v guess, false⟩ :: rest
  /-- The answer to a reused token comes after its family is revoked. -/
  reuse : ∀ presented info, g.1 = .refresh presented info → answer = .error AuthService.reuseError →
    ∃ stored n, g.2 = [⟨.repository (.revokeFamily stored.familyId .REUSE_DETECTED), .ok n⟩,
      ⟨.repository (.findRefreshTokenByHash (env.hashRefreshToken presented)), .ok (some stored)⟩]
  /-- A login is accepted on a row whose lock had run out when it was checked. -/
  accepted : ∀ email password info a, g.1 = .login email password info →
    answer = .ok a → ∃ u now newer,
      g.2 = newer ++ ⟨.now, now⟩ :: loginStart email password u true ∧
      AuthService.lockHolds u.lockedUntil now = false
  /-- A request that presents a code succeeds only with the code it consumed. -/
  redeemed : ∀ a, g.1.PresentsCode → answer = .ok a → g.2.Redeemed
  /-- A verification that opened a session went on to put it on record. -/
  recorded : ∀ email code info, g.1 = .verifyEmail email code info → g.2.Recorded

/-- The analysis of the requests. -/
def told (env : Env) : Contract Command Command.Reply (Task × Told) :=
  Foundations.recounting (Justified env) Plausible

end PracticalMicroservice.Auth
