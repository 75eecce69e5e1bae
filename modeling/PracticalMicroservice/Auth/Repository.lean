import PracticalMicroservice.Auth.Schema

/-!
# The auth repository (`auth.repository.ts`)

Each method is a transaction on the tables; a method of a single statement is a transaction of one.
`at` is the clock when the method is called, for the columns the database and the method stamp.
-/

namespace PracticalMicroservice.Auth

open Foundations (DatabaseError Transaction)

/-- `NewAuthUserRecord`. -/
structure NewAuthUserRecord where
  email : String
  username : String
  passwordHash : String
  pendingProfile : PendingProfile
  deriving DecidableEq, Repr

/-- `NewVerificationRecord`, but for the account it is for. -/
structure NewVerificationRecord where
  codeHash : String
  type : VerificationType
  expiresAt : Nat
  maxAttempts : Nat
  newEmail : Option String := none
  deriving DecidableEq, Repr

/-- `NewLoginHistoryRecord`. -/
structure NewLoginHistoryRecord where
  authUserId : Option Nat
  email : String
  success : Bool
  outcome : LoginOutcome
  attempt : Nat
  ip : Option String
  userAgent : Option String
  deriving DecidableEq, Repr

/-- `NewRefreshTokenRecord`. -/
structure NewRefreshTokenRecord where
  authUserId : Nat
  tokenHash : String
  familyId : String
  expiresAt : Nat
  ip : Option String
  userAgent : Option String
  deriving DecidableEq, Repr

namespace PrismaAuthRepository

/-! ## The tables, as the Prisma client reaches them -/

/-- The row of a table a statement was about. -/
def only {α : Type} (get : Row → Option α) (row : Row) : Transaction Row α :=
  match get row with
  | some a => return a
  | none => throw .unexpected

def findUser (p : AuthUser → Bool) : Transaction Row (Option AuthUser) := do
  return ((← Transaction.findMany (Row.isUser p)).filterMap Row.user?).head?

def updateUser (p : AuthUser → Bool) (f : AuthUser → AuthUser) : Transaction Row AuthUser := do
  only Row.user? (← Transaction.update (Row.isUser p) (Row.onUser f))

def updateVerification (p : Verification → Bool) (f : Verification → Verification) :
    Transaction Row Verification := do
  only Row.verification? (← Transaction.update (Row.isVerification p) (Row.onVerification f))

def updateToken (p : RefreshToken → Bool) (f : RefreshToken → RefreshToken) :
    Transaction Row RefreshToken := do
  only Row.token? (← Transaction.update (Row.isToken p) (Row.onToken f))

def updateManyTokens (p : RefreshToken → Bool) (f : RefreshToken → RefreshToken) :
    Transaction Row Nat := Transaction.updateMany (Row.isToken p) (Row.onToken f)

def insertVerification (at_ authUserId : Nat) (input : NewVerificationRecord) :
    Transaction Row Verification := do
  only Row.verification? (← Transaction.create fun id => .verification
    { id, authUserId, codeHash := input.codeHash, type := input.type, newEmail := input.newEmail,
      maxAttempts := input.maxAttempts, issuedAt := at_, expiresAt := input.expiresAt })

def insertToken (at_ : Nat) (input : NewRefreshTokenRecord) : Transaction Row RefreshToken := do
  only Row.token? (← Transaction.create fun id => .token
    { id, authUserId := input.authUserId, tokenHash := input.tokenHash,
      familyId := input.familyId, expiresAt := input.expiresAt, ip := input.ip,
      userAgent := input.userAgent, createdAt := at_ })

/-! ## Auth users -/

def createAuthUserWithVerification (at_ : Nat) (user : NewAuthUserRecord)
    (verification : NewVerificationRecord) : Transaction Row (AuthUser × Verification) := do
  let authUser ← only Row.user? (← Transaction.create fun id => .user
    { id, email := user.email, username := user.username, passwordHash := user.passwordHash,
      pendingProfile := some user.pendingProfile, createdAt := at_ })
  let created ← insertVerification at_ authUser.id verification
  return (authUser, created)

def findAuthUserById (id : Nat) : Transaction Row (Option AuthUser) := findUser (·.id = id)

def findAuthUserByEmail (email : String) : Transaction Row (Option AuthUser) :=
  findUser (·.email = email)

def findAuthUserByUsername (username : String) : Transaction Row (Option AuthUser) :=
  findUser (·.username = username)

def attachProfile (id : Nat) (userId : String) : Transaction Row AuthUser :=
  updateUser (·.id = id) fun u => { u with userId := some userId, pendingProfile := none }

/-! ## Login accounting -/

def recordLoginAttempt (at_ : Nat) (input : NewLoginHistoryRecord) : Transaction Row Unit := do
  let _ ← Transaction.create fun id => .history
    { id, authUserId := input.authUserId, email := input.email, success := input.success,
      outcome := input.outcome, attempt := input.attempt, ip := input.ip,
      userAgent := input.userAgent, loginAt := at_ }

/-- `increment` rather than a read-modify-write. -/
def registerFailedLogin (id : Nat) (lockUntil : Option Nat) : Transaction Row AuthUser :=
  updateUser (·.id = id) fun u =>
    { u with
      failedLoginAttempts := u.failedLoginAttempts + 1
      lockedUntil := match lockUntil with
        | some t => some t
        | none => u.lockedUntil }

def registerSuccessfulLogin (id at_ : Nat) : Transaction Row AuthUser :=
  updateUser (·.id = id) fun u =>
    { u with failedLoginAttempts := 0, lockedUntil := none, lastLoginAt := some at_ }

/-! ## Verification -/

/-- The newest of some rows, the first of equals. -/
def newest : List Verification → Option Verification
  | [] => none
  | v :: vs =>
    match newest vs with
    | some w => if v.issuedAt < w.issuedAt then some w else some v
    | none => some v

def isPending (authUserId : Nat) (type : VerificationType) (v : Verification) : Bool :=
  v.authUserId = authUserId ∧ v.type = type ∧ v.status = .PENDING

def findActiveVerification (authUserId : Nat) (type : VerificationType) :
    Transaction Row (Option Verification) := do
  let rows ← Transaction.findMany (Row.isVerification (isPending authUserId type))
  return newest (rows.filterMap Row.verification?)

/-- Revokes any outstanding codes of this type before issuing a new one. -/
def replaceVerification (at_ authUserId : Nat) (input : NewVerificationRecord) :
    Transaction Row Verification := do
  let _ ← Transaction.updateMany (Row.isVerification (isPending authUserId input.type))
    (Row.onVerification fun v => { v with status := .REVOKED })
  insertVerification at_ authUserId input

def registerVerificationAttempt (id : Nat) (exhausted : Bool) : Transaction Row Verification :=
  updateVerification (·.id = id) fun v =>
    { v with
      attempts := v.attempts + 1
      status := if exhausted then .EXPIRED else v.status }

def attachVerificationEmail (id : Nat) (emailMessageId : String) : Transaction Row Unit := do
  let _ ← updateVerification (·.id = id) fun v => { v with emailMessageId := some emailMessageId }

/-- The guarded half of the two methods that consume a code. -/
def spendVerification (verificationId at_ : Nat) : Transaction Row Verification :=
  updateVerification (fun v => v.id = verificationId ∧ v.status = .PENDING) fun v =>
    { v with status := .VERIFIED, verifiedAt := some at_ }

def consumeEmailVerification (verificationId authUserId at_ : Nat) :
    Transaction Row AuthUser := do
  let _ ← spendVerification verificationId at_
  updateUser (·.id = authUserId) fun u => { u with verified := true, verifiedAt := some at_ }

/-! ## Sessions -/

def isLive (t : RefreshToken) : Bool := t.revokedAt = none

def revoke (at_ : Nat) (reason : RevokeReason) (t : RefreshToken) : RefreshToken :=
  { t with revokedAt := some at_, revokedReason := some reason }

def consumePasswordReset (verificationId authUserId : Nat) (passwordHash : String) (at_ : Nat) :
    Transaction Row AuthUser := do
  let _ ← spendVerification verificationId at_
  let _ ← updateManyTokens (fun t => t.authUserId = authUserId ∧ isLive t)
    (revoke at_ .PASSWORD_CHANGED)
  updateUser (·.id = authUserId) fun u =>
    { u with
      passwordHash, passwordChangedAt := some at_, verified := true, verifiedAt := some at_
      failedLoginAttempts := 0, lockedUntil := none }

def createRefreshToken (at_ : Nat) (input : NewRefreshTokenRecord) :
    Transaction Row RefreshToken := insertToken at_ input

def findRefreshTokenByHash (tokenHash : String) : Transaction Row (Option RefreshToken) := do
  let rows ← Transaction.findMany (Row.isToken (·.tokenHash = tokenHash))
  return (rows.filterMap Row.token?).head?

/-- Exchanges a live token for its successor: the insert first, the guarded update second. -/
def rotateRefreshToken (at_ currentId : Nat) (next : NewRefreshTokenRecord) :
    Transaction Row RefreshToken := do
  let created ← insertToken at_ next
  let _ ← updateToken (fun t => t.id = currentId ∧ isLive t) fun t =>
    { revoke at_ .ROTATED t with replacedById := some created.id }
  return created

def revokeRefreshToken (at_ id : Nat) (reason : RevokeReason) : Transaction Row Unit := do
  let _ ← updateManyTokens (fun t => t.id = id ∧ isLive t) (revoke at_ reason)

def revokeFamily (at_ : Nat) (familyId : String) (reason : RevokeReason) : Transaction Row Nat :=
  updateManyTokens (fun t => t.familyId = familyId ∧ isLive t) (revoke at_ reason)

def revokeAllForUser (at_ authUserId : Nat) (reason : RevokeReason) : Transaction Row Nat :=
  updateManyTokens (fun t => t.authUserId = authUserId ∧ isLive t) (revoke at_ reason)

/-! ## Password -/

def updatePassword (authUserId : Nat) (passwordHash : String) (at_ : Nat) :
    Transaction Row AuthUser := do
  let _ ← updateManyTokens (fun t => t.authUserId = authUserId ∧ isLive t)
    (revoke at_ .PASSWORD_CHANGED)
  updateUser (·.id = authUserId) fun u => { u with passwordHash, passwordChangedAt := some at_ }

end PrismaAuthRepository

/-! ## The methods as calls -/

/-- A call of the repository. -/
inductive Call
  | createAuthUserWithVerification (user : NewAuthUserRecord) (verification : NewVerificationRecord)
  | findAuthUserById (id : Nat)
  | findAuthUserByEmail (email : String)
  | findAuthUserByUsername (username : String)
  | attachProfile (id : Nat) (userId : String)
  | recordLoginAttempt (input : NewLoginHistoryRecord)
  | registerFailedLogin (id : Nat) (lockUntil : Option Nat)
  | registerSuccessfulLogin (id at_ : Nat)
  | findActiveVerification (authUserId : Nat) (type : VerificationType)
  | replaceVerification (authUserId : Nat) (input : NewVerificationRecord)
  | registerVerificationAttempt (id : Nat) (exhausted : Bool)
  | attachVerificationEmail (id : Nat) (emailMessageId : String)
  | consumeEmailVerification (verificationId authUserId at_ : Nat)
  | consumePasswordReset (verificationId authUserId : Nat) (passwordHash : String) (at_ : Nat)
  | createRefreshToken (input : NewRefreshTokenRecord)
  | findRefreshTokenByHash (tokenHash : String)
  | rotateRefreshToken (currentId : Nat) (next : NewRefreshTokenRecord)
  | revokeRefreshToken (id : Nat) (reason : RevokeReason)
  | revokeFamily (familyId : String) (reason : RevokeReason)
  | revokeAllForUser (authUserId : Nat) (reason : RevokeReason)
  | updatePassword (authUserId : Nat) (passwordHash : String) (at_ : Nat)
  deriving DecidableEq, Repr

namespace Call

def Result : Call → Type
  | createAuthUserWithVerification _ _ => AuthUser × Verification
  | findAuthUserById _ | findAuthUserByEmail _ | findAuthUserByUsername _ => Option AuthUser
  | attachProfile _ _ | registerFailedLogin _ _ | registerSuccessfulLogin _ _
  | consumeEmailVerification _ _ _ | consumePasswordReset _ _ _ _ | updatePassword _ _ _ => AuthUser
  | findActiveVerification _ _ => Option Verification
  | replaceVerification _ _ | registerVerificationAttempt _ _ => Verification
  | recordLoginAttempt _ | attachVerificationEmail _ _ | revokeRefreshToken _ _ => Unit
  | createRefreshToken _ | rotateRefreshToken _ _ => RefreshToken
  | findRefreshTokenByHash _ => Option RefreshToken
  | revokeFamily _ _ | revokeAllForUser _ _ => Nat

/-- The transaction of a call made at a time. -/
def transaction (now : Nat) : (call : Call) → Transaction Row call.Result
  | createAuthUserWithVerification user verification =>
    PrismaAuthRepository.createAuthUserWithVerification now user verification
  | findAuthUserById id => PrismaAuthRepository.findAuthUserById id
  | findAuthUserByEmail email => PrismaAuthRepository.findAuthUserByEmail email
  | findAuthUserByUsername username => PrismaAuthRepository.findAuthUserByUsername username
  | attachProfile id userId => PrismaAuthRepository.attachProfile id userId
  | recordLoginAttempt input => PrismaAuthRepository.recordLoginAttempt now input
  | registerFailedLogin id lockUntil => PrismaAuthRepository.registerFailedLogin id lockUntil
  | registerSuccessfulLogin id at_ => PrismaAuthRepository.registerSuccessfulLogin id at_
  | findActiveVerification authUserId type =>
    PrismaAuthRepository.findActiveVerification authUserId type
  | replaceVerification authUserId input =>
    PrismaAuthRepository.replaceVerification now authUserId input
  | registerVerificationAttempt id exhausted =>
    PrismaAuthRepository.registerVerificationAttempt id exhausted
  | attachVerificationEmail id emailMessageId =>
    PrismaAuthRepository.attachVerificationEmail id emailMessageId
  | consumeEmailVerification verificationId authUserId at_ =>
    PrismaAuthRepository.consumeEmailVerification verificationId authUserId at_
  | consumePasswordReset verificationId authUserId passwordHash at_ =>
    PrismaAuthRepository.consumePasswordReset verificationId authUserId passwordHash at_
  | createRefreshToken input => PrismaAuthRepository.createRefreshToken now input
  | findRefreshTokenByHash tokenHash => PrismaAuthRepository.findRefreshTokenByHash tokenHash
  | rotateRefreshToken currentId next => PrismaAuthRepository.rotateRefreshToken now currentId next
  | revokeRefreshToken id reason => PrismaAuthRepository.revokeRefreshToken now id reason
  | revokeFamily familyId reason => PrismaAuthRepository.revokeFamily now familyId reason
  | revokeAllForUser authUserId reason =>
    PrismaAuthRepository.revokeAllForUser now authUserId reason
  | updatePassword authUserId passwordHash at_ =>
    PrismaAuthRepository.updatePassword authUserId passwordHash at_

end Call

end PracticalMicroservice.Auth
