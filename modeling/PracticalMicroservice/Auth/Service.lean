import PracticalMicroservice.Auth.Repository

/-!
# The auth service (`auth.service.ts`, `tokens.ts`)

A method is a program of commands: calls of the repository, which answer with a result or an error,
and the clock, randomness, hashing, signing and remote services it reaches. The comparison of a code
is a command of its own, so that a run shows which guesses were compared.
-/

namespace PracticalMicroservice.Auth

open Foundations (DatabaseError Fallible Program)

inductive AppError
  | ConflictError (message : String)
  | ForbiddenError (message : String)
  | TooManyRequestsError (message : String)
  | UnauthorizedError (message : String)
  | InternalServerError (message : String)
  /-- One raised as a bare `AppError`, with its status. -/
  | bare (message : String) (status : Nat)
  deriving DecidableEq, Repr

/-- `fromPrismaError`. -/
def toAppError : DatabaseError → AppError
  | .P2002 fields => .bare s!"A record with this {fields} already exists" 409
  | .P2025 => .bare "Requested record does not exist" 404
  | .P1001 => .bare "Database is unavailable" 503
  | .unexpected => .InternalServerError "Unexpected database error"

/-- The configuration, and the functions of the libraries a method computes with. -/
structure Env where
  verificationTtlMinutes : Nat
  verificationMaxAttempts : Nat
  resendCooldownSeconds : Nat
  maxFailedLoginAttempts : Nat
  lockDurationMinutes : Nat
  ACCESS_TOKEN_TTL_MINUTES : Nat
  REFRESH_TOKEN_TTL_DAYS : Nat
  sha256 : String → String
  argon2Hash : (salt : Nat) → String → String
  argon2Verify : (digest plaintext : String) → Bool
  /-- The values `randomUUID`, `randomToken` and `generateCode` draw, in the order of the draws. -/
  uuid : Nat → String
  token : Nat → String
  code : Nat → String

def MINUTE_MS : Nat := 60000

namespace Env

def hashRefreshToken (env : Env) (token : String) : String := env.sha256 token
def hashCode (env : Env) (code : String) : String := env.sha256 code
def accessTokenTtlSeconds (env : Env) : Nat := env.ACCESS_TOKEN_TTL_MINUTES * 60
def refreshTokenTtlMs (env : Env) : Nat := env.REFRESH_TOKEN_TTL_DAYS * 24 * 60 * 60 * 1000

end Env

/-- `RequestMeta`. -/
structure RequestMeta where
  ip : Option String := none
  userAgent : Option String := none
  requestId : Option String := none
  deriving DecidableEq, Repr

/-- The claims of an access token, with the times it was signed for. -/
structure AccessTokenClaims where
  sub : Nat
  email : String
  username : String
  role : Role
  sid : String
  iat : Nat
  exp : Nat
  deriving DecidableEq, Repr

/-- The mails `auth.templates.ts` composes. -/
inductive Message
  | verificationEmail (email code : String)
  | passwordResetEmail (email code : String)
  | passwordChangedEmail (email : String)
  deriving DecidableEq, Repr

/-- What the user service is asked to create. -/
structure NewProfile where
  authUserId : Nat
  email : String
  profile : PendingProfile
  deriving DecidableEq, Repr

inductive Command
  | repository (call : Call)
  | now
  | randomUUID
  | randomToken
  | generateCode
  | hashPassword (plaintext : String)
  | verifyPassword (digest plaintext : String)
  /-- `safeEqual` of the hash in a row and the hash of a guess. -/
  | safeEqual (verification : Verification) (codeHash : String)
  | signAccessToken (claims : AccessTokenClaims)
  | verifyAccessToken (token : AccessTokenClaims)
  | enqueue (message : Message) (requestId idempotencyKey : Option String)
  | createProfile (profile : NewProfile)
  | findByAuthUserId (id : Nat)
  deriving DecidableEq, Repr

def Command.Reply : Command → Type
  | repository call => Except AppError call.Result
  | now => Nat
  | randomUUID | randomToken | generateCode => String
  | hashPassword _ => Except AppError String
  | verifyPassword _ _ => Except AppError Bool
  | safeEqual _ _ => Bool
  | signAccessToken _ | verifyAccessToken _ => Except AppError AccessTokenClaims
  | enqueue _ _ _ => Except AppError String
  | createProfile _ => Except AppError String
  | findByAuthUserId _ => Except AppError (Option String)

/-- `Promise<Result<α>>`. -/
abbrev Promise (α : Type) := Fallible AppError Command Command.Reply α

namespace Promise

def call (command : Command) : Promise command.Reply := ExceptT.lift (Program.request command)

/-- A result unpacked, its error forwarded. -/
def unpack {α : Type} (result : Except AppError α) : Promise α := ExceptT.mk (pure result)

def repository (c : Call) : Promise c.Result := do unpack (← call (.repository c))

def now : Promise Nat := call .now

end Promise

/-! ## What the methods answer -/

/-- `PublicAuthUser`. -/
structure PublicAuthUser where
  id : Nat
  email : String
  username : String
  role : Role
  status : AuthUserStatus
  verified : Bool
  userId : Option String
  lastLoginAt : Option Nat
  createdAt : Nat
  deriving DecidableEq, Repr

def toPublicAuthUser (user : AuthUser) : PublicAuthUser where
  id := user.id
  email := user.email
  username := user.username
  role := user.role
  status := user.status
  verified := user.verified
  userId := user.userId
  lastLoginAt := user.lastLoginAt
  createdAt := user.createdAt

/-- `AuthTokens`. -/
structure AuthTokens where
  accessToken : AccessTokenClaims
  refreshToken : String
  expiresIn : Nat
  deriving DecidableEq, Repr

/-- `AuthenticatedResult`. -/
structure AuthenticatedResult where
  user : PublicAuthUser
  tokens : AuthTokens
  deriving DecidableEq, Repr

/-- `RegistrationResult`. -/
structure RegistrationResult where
  user : PublicAuthUser
  emailQueued : Bool
  deriving DecidableEq, Repr

/-- `VerificationResult`. -/
structure VerificationResult where
  session : AuthenticatedResult
  profileCreated : Bool
  deriving DecidableEq, Repr

/-- `RefreshTokenValue`. -/
structure RefreshTokenValue where
  token : String
  tokenHash : String
  expiresAt : Nat
  deriving DecidableEq, Repr

/-- `RegisterInput`. -/
structure RegisterInput where
  email : String
  username : String
  password : String
  profile : PendingProfile
  deriving DecidableEq, Repr

namespace AuthService

/-! ## The errors a caller may see -/

def invalidCredentialsError : AppError := .UnauthorizedError "Invalid email or password"

def invalidCodeError : AppError := .UnauthorizedError "The code is invalid or has expired"

def invalidSessionError : AppError :=
  .UnauthorizedError "Session is invalid or has expired. Please sign in again."

/-- The answer to a token that was revoked before it was presented. -/
def reuseError : AppError :=
  .UnauthorizedError "This session was ended for security reasons. Please sign in again."

def notActiveError : AppError :=
  .ForbiddenError "This account is not active. Contact support."

def notVerifiedError : AppError :=
  .ForbiddenError "Verify your email address before signing in. Request a new code."

def lockedError (env : Env) : AppError :=
  .TooManyRequestsError ("Too many failed attempts. Try again after " ++
    s!"{env.lockDurationMinutes} minutes, or reset your password.")

/-! ## Internals -/

def recordAttempt (authUserId : Option Nat) (email : String) (outcome : LoginOutcome)
    (attempt : Nat) (info : RequestMeta) : Promise Unit :=
  Promise.repository (.recordLoginAttempt
    { authUserId, email, success := outcome = .SUCCESS, outcome, attempt, ip := info.ip,
      userAgent := info.userAgent })

def withinCooldown (env : Env) (now issuedAt : Nat) : Bool :=
  now < issuedAt + env.resendCooldownSeconds * 1000

/-- `createRefreshToken` of `tokens.ts`. -/
def createRefreshToken (env : Env) (now : Nat) : Promise RefreshTokenValue := do
  let token ← Promise.call .randomToken
  return { token, tokenHash := env.hashRefreshToken token, expiresAt := now + env.refreshTokenTtlMs }

/-- `signAccessToken` of `tokens.ts`. -/
def signAccessToken (env : Env) (authUser : AuthUser) (sid : String) (now : Nat) :
    Promise AccessTokenClaims := do
  let iat := now / 1000
  Promise.unpack (← Promise.call (.signAccessToken
    { sub := authUser.id, email := authUser.email, username := authUser.username,
      role := authUser.role, sid, iat, exp := iat + env.accessTokenTtlSeconds }))

/-- Validates a submitted code against the account's live one. -/
def consumeCode (env : Env) (authUserId : Nat) (type : VerificationType) (code : String) :
    Promise Nat := do
  let active ← Promise.repository (.findActiveVerification authUserId type)
  match active with
  | none => throw invalidCodeError
  | some verification =>
    let now ← Promise.now
    if verification.expiresAt ≤ now then throw invalidCodeError
    else if verification.attempts ≥ verification.maxAttempts then throw invalidCodeError
    else
      let right : Bool ← Promise.call (.safeEqual verification (env.hashCode code))
      if right then return verification.id
      else
        let exhausted : Bool := verification.attempts + 1 ≥ verification.maxAttempts
        let _ ← Promise.repository (.registerVerificationAttempt verification.id exhausted)
        throw invalidCodeError

/-- Hands a code to the email service and records the message id, never failing the caller. -/
def dispatchCode (verificationId : Nat) (message : Message) (idempotencyKey : String)
    (info : RequestMeta) : Promise Bool := do
  let enqueued : Except AppError String ←
    Promise.call (.enqueue message info.requestId (some idempotencyKey))
  match enqueued with
  | .error _ => return false
  | .ok messageId =>
    let _ ← Promise.call (.repository (.attachVerificationEmail verificationId messageId))
    return true

def VerificationType.text : VerificationType → String
  | .EMAIL_VERIFICATION => "EMAIL_VERIFICATION"
  | .PASSWORD_RESET => "PASSWORD_RESET"
  | .EMAIL_CHANGE => "EMAIL_CHANGE"

/-- Issues a code of a given type and mails it. -/
def issueCode (env : Env) (authUser : AuthUser) (type : VerificationType) (info : RequestMeta) :
    Promise Unit := do
  let code ← Promise.call .generateCode
  let now ← Promise.now
  let verification ← Promise.repository (.replaceVerification authUser.id
    { codeHash := env.hashCode code, type, expiresAt := now + env.verificationTtlMinutes * MINUTE_MS,
      maxAttempts := env.verificationMaxAttempts })
  let message := match type with
    | .EMAIL_VERIFICATION => Message.verificationEmail authUser.email code
    | _ => Message.passwordResetEmail authUser.email code
  let _ ← dispatchCode verification.id message s!"{VerificationType.text type}:{verification.id}" info

/-- A failed step leaves the account as it was. -/
def orElse (authUser : AuthUser) (attached : Except AppError AuthUser) : AuthUser :=
  match attached with
  | .ok user => user
  | .error _ => authUser

/-- Creates the user-service profile if it does not exist yet, as well as it can. -/
def ensureProfile (authUser : AuthUser) : Promise AuthUser := do
  match authUser.userId, authUser.pendingProfile with
  | none, some profile =>
    let created : Except AppError String ←
      Promise.call (.createProfile { authUserId := authUser.id, email := authUser.email, profile })
    match created with
    | .ok userId =>
      return orElse authUser (← Promise.call (.repository (.attachProfile authUser.id userId)))
    | .error (.ConflictError _) =>
      -- created by an earlier attempt whose response was lost
      let existing : Except AppError (Option String) ← Promise.call (.findByAuthUserId authUser.id)
      match existing with
      | .ok (some userId) =>
        return orElse authUser (← Promise.call (.repository (.attachProfile authUser.id userId)))
      | _ => return authUser
    | .error _ => return authUser
  | _, _ => return authUser

/-- Mints a token pair and opens a new refresh-token family. -/
def startSession (env : Env) (authUser : AuthUser) (info : RequestMeta) (now : Nat) :
    Promise AuthenticatedResult := do
  let familyId ← Promise.call .randomUUID
  let refresh ← createRefreshToken env now
  let _ ← Promise.repository (.createRefreshToken
    { authUserId := authUser.id, tokenHash := refresh.tokenHash, familyId,
      expiresAt := refresh.expiresAt, ip := info.ip, userAgent := info.userAgent })
  let access ← signAccessToken env authUser familyId now
  return {
    user := toPublicAuthUser authUser
    tokens := { accessToken := access, refreshToken := refresh.token,
                expiresIn := env.accessTokenTtlSeconds } }

/-! ## Registration -/

/-- The account and its code, once neither the address nor the name is found taken. -/
def createAccount (env : Env) (input : RegisterInput) (info : RequestMeta) :
    Promise RegistrationResult := do
  let passwordHash ← Promise.unpack (← Promise.call (.hashPassword input.password))
  let code ← Promise.call .generateCode
  let now ← Promise.now
  let (authUser, verification) ← Promise.repository (.createAuthUserWithVerification
    { email := input.email, username := input.username, passwordHash,
      pendingProfile := input.profile }
    { codeHash := env.hashCode code, type := .EMAIL_VERIFICATION,
      expiresAt := now + env.verificationTtlMinutes * MINUTE_MS,
      maxAttempts := env.verificationMaxAttempts })
  let emailQueued ← dispatchCode verification.id (.verificationEmail input.email code)
    s!"verify:{verification.id}" info
  return { user := toPublicAuthUser authUser, emailQueued }

/-- Creates an unverified account and mails it a code. -/
def register (env : Env) (input : RegisterInput) (info : RequestMeta) :
    Promise RegistrationResult := do
  match ← Promise.repository (.findAuthUserByEmail input.email) with
  | some _ => throw (.ConflictError s!"An account with email '{input.email}' already exists")
  | none =>
    match ← Promise.repository (.findAuthUserByUsername input.username) with
    | some _ => throw (.ConflictError s!"The username '{input.username}' is taken")
    | none => createAccount env input info

/-- Issues a code unless the one last issued is too young. -/
def issueAfterCooldown (env : Env) (authUser : AuthUser) (type : VerificationType)
    (info : RequestMeta) : Promise Unit := do
  match ← Promise.repository (.findActiveVerification authUser.id type) with
  | none => issueCode env authUser type info
  | some active =>
    let now ← Promise.now
    if withinCooldown env now active.issuedAt then return ()
    else issueCode env authUser type info

/-- Issues a fresh code, subject to a cooldown. -/
def resendVerification (env : Env) (email : String) (info : RequestMeta) : Promise Unit := do
  match ← Promise.repository (.findAuthUserByEmail email) with
  | none => return ()
  | some authUser =>
    if authUser.verified ∨ authUser.status ≠ .ACTIVE then return ()
    else issueAfterCooldown env authUser .EMAIL_VERIFICATION info

/-- The code consumed, the account is logged in. -/
def confirmEmail (env : Env) (authUser : AuthUser) (code : String) (info : RequestMeta) :
    Promise VerificationResult := do
  let verificationId ← consumeCode env authUser.id .EMAIL_VERIFICATION code
  let now ← Promise.now
  let verified ← Promise.repository (.consumeEmailVerification verificationId authUser.id now)
  let handoff ← ensureProfile verified
  let session ← startSession env handoff info now
  recordAttempt (some authUser.id) authUser.email .SUCCESS 1 info
  return { session, profileCreated := handoff.userId.isSome }

/-- Consumes an email-verification code, then logs the account in. -/
def verifyEmail (env : Env) (email code : String) (info : RequestMeta) :
    Promise VerificationResult := do
  match ← Promise.repository (.findAuthUserByEmail email) with
  | none => throw invalidCodeError
  | some authUser =>
    if authUser.status ≠ .ACTIVE then throw invalidCodeError
    else if authUser.verified then
      throw (.ConflictError "This account has already been verified")
    else confirmEmail env authUser code info

/-! ## Login -/

/-- When the account is to be locked until, if this attempt is one too many. -/
def lockUntil (env : Env) (attemptNumber : Nat) : Promise (Option Nat) := do
  if attemptNumber ≥ env.maxFailedLoginAttempts then
    return some ((← Promise.now) + env.lockDurationMinutes * MINUTE_MS)
  else return none

/-- A wrong password: the lock is decided on the row read at the start. -/
def failLogin (env : Env) (authUser : AuthUser) (email : String) (info : RequestMeta) :
    Promise AuthenticatedResult := do
  let attemptNumber := authUser.failedLoginAttempts + 1
  let until_ ← lockUntil env attemptNumber
  let _ ← Promise.repository (.registerFailedLogin authUser.id until_)
  recordAttempt (some authUser.id) email .INVALID_CREDENTIALS attemptNumber info
  throw invalidCredentialsError

/-- A login refused after the password was right, with the cause on record. -/
def refuseLogin (authUser : AuthUser) (email : String) (outcome : LoginOutcome) (info : RequestMeta)
    (error : AppError) : Promise AuthenticatedResult := do
  recordAttempt (some authUser.id) email outcome authUser.failedLoginAttempts info
  throw error

/-- A login accepted: the counters are reset and a session starts. -/
def acceptLogin (env : Env) (authUser : AuthUser) (email : String) (info : RequestMeta) :
    Promise AuthenticatedResult := do
  let now ← Promise.now
  let refreshed ← Promise.repository (.registerSuccessfulLogin authUser.id now)
  recordAttempt (some authUser.id) email .SUCCESS 1 info
  let handoff ← ensureProfile refreshed
  startSession env handoff info now

/-- `lockedUntil && lockedUntil > new Date()`. -/
def lockHolds (lockedUntil : Option Nat) (now : Nat) : Bool :=
  match lockedUntil with
  | some t => now < t
  | none => false

/-- Exchanges credentials for a token pair. -/
def login (env : Env) (email password : String) (info : RequestMeta) :
    Promise AuthenticatedResult := do
  match ← Promise.repository (.findAuthUserByEmail email) with
  | none =>
    -- hashed all the same, so that the answer takes as long
    let _ ← Promise.call (.hashPassword password)
    recordAttempt none email .UNKNOWN_EMAIL 1 info
    throw invalidCredentialsError
  | some authUser =>
    let matched ← Promise.unpack (← Promise.call (.verifyPassword authUser.passwordHash password))
    if !matched then failLogin env authUser email info
    else
      let now ← Promise.now
      if lockHolds authUser.lockedUntil now then
        refuseLogin authUser email .ACCOUNT_LOCKED info (lockedError env)
      else if authUser.status ≠ .ACTIVE then
        refuseLogin authUser email .ACCOUNT_INACTIVE info notActiveError
      else if !authUser.verified then
        refuseLogin authUser email .NOT_VERIFIED info notVerifiedError
      else acceptLogin env authUser email info

/-- What a refresh does with a live token of an account that may use it. -/
def rotate (env : Env) (stored : RefreshToken) (authUser : AuthUser) (info : RequestMeta) :
    Promise AuthTokens := do
  let next ← createRefreshToken env (← Promise.now)
  let _ ← Promise.repository (.rotateRefreshToken stored.id
    { authUserId := authUser.id, tokenHash := next.tokenHash, familyId := stored.familyId,
      expiresAt := next.expiresAt, ip := info.ip, userAgent := info.userAgent })
  let access ← signAccessToken env authUser stored.familyId (← Promise.now)
  return { accessToken := access, refreshToken := next.token,
           expiresIn := env.accessTokenTtlSeconds }

/-- What a refresh does with a token that was not revoked when it was looked up. -/
def refreshLive (env : Env) (stored : RefreshToken) (info : RequestMeta) : Promise AuthTokens := do
  let now ← Promise.now
  if stored.expiresAt ≤ now then throw invalidSessionError
  else
    match ← Promise.repository (.findAuthUserById stored.authUserId) with
    | none => throw invalidSessionError
    | some authUser =>
      if authUser.status ≠ .ACTIVE ∨ authUser.verified = false then
        let _ ← Promise.repository (.revokeAllForUser authUser.id .LOGOUT_ALL)
        throw notActiveError
      else rotate env stored authUser info

/-- Exchanges a refresh token for a new pair, invalidating the old one. -/
def refresh (env : Env) (token : String) (info : RequestMeta) : Promise AuthTokens := do
  match ← Promise.repository (.findRefreshTokenByHash (env.hashRefreshToken token)) with
  | none => throw invalidSessionError
  | some stored =>
    if stored.revokedAt.isSome then
      let _ ← Promise.repository (.revokeFamily stored.familyId .REUSE_DETECTED)
      throw reuseError
    else refreshLive env stored info

/-- Ends one session. -/
def logout (env : Env) (token : String) : Promise Unit := do
  match ← Promise.repository (.findRefreshTokenByHash (env.hashRefreshToken token)) with
  | none => return ()
  | some stored => Promise.repository (.revokeRefreshToken stored.id .LOGOUT)

/-- Ends every session for the account. -/
def logoutAll (authUserId : Nat) : Promise Nat :=
  Promise.repository (.revokeAllForUser authUserId .LOGOUT_ALL)

/-! ## Passwords -/

/-- Starts a password reset. -/
def forgotPassword (env : Env) (email : String) (info : RequestMeta) : Promise Unit := do
  match ← Promise.repository (.findAuthUserByEmail email) with
  | none => return ()
  | some authUser =>
    if authUser.status ≠ .ACTIVE then return ()
    else issueAfterCooldown env authUser .PASSWORD_RESET info

/-- The code consumed, the new password is in place and every session cut. -/
def installPassword (env : Env) (authUser : AuthUser) (code password : String)
    (info : RequestMeta) : Promise Unit := do
  let verificationId ← consumeCode env authUser.id .PASSWORD_RESET code
  let passwordHash ← Promise.unpack (← Promise.call (.hashPassword password))
  let now ← Promise.now
  let _ ← Promise.repository (.consumePasswordReset verificationId authUser.id passwordHash now)
  let _ ← Promise.call (.enqueue (.passwordChangedEmail authUser.email) info.requestId none)

/-- Completes a reset: consumes the code, installs the new password, and cuts every session. -/
def resetPassword (env : Env) (email code password : String) (info : RequestMeta) :
    Promise Unit := do
  match ← Promise.repository (.findAuthUserByEmail email) with
  | none => throw invalidCodeError
  | some authUser =>
    if authUser.status ≠ .ACTIVE then throw invalidCodeError
    else installPassword env authUser code password info

/-- The password changed and every session cut, the caller gets a session of its own. -/
def replacePassword (env : Env) (authUser : AuthUser) (password : String) (info : RequestMeta) :
    Promise AuthTokens := do
  let passwordHash ← Promise.unpack (← Promise.call (.hashPassword password))
  let now ← Promise.now
  let updated ← Promise.repository (.updatePassword authUser.id passwordHash now)
  let _ ← Promise.call (.enqueue (.passwordChangedEmail authUser.email) info.requestId none)
  let session ← startSession env updated info now
  return session.tokens

/-- Changes the password of a signed-in user, and starts a fresh session. -/
def changePassword (env : Env) (authUserId : Nat) (currentPassword password : String)
    (info : RequestMeta) : Promise AuthTokens := do
  match ← Promise.repository (.findAuthUserById authUserId) with
  | none => throw (.UnauthorizedError "Authentication required")
  | some authUser =>
    let matched ←
      Promise.unpack (← Promise.call (.verifyPassword authUser.passwordHash currentPassword))
    if !matched then throw (.UnauthorizedError "Current password is incorrect")
    else replacePassword env authUser password info

end AuthService

end PracticalMicroservice.Auth
