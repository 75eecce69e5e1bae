import PracticalMicroservice.Foundations.Statements

/-!
# The tables of the auth service (`schema.prisma`)

Times are milliseconds. The rows of the four tables lie in one store, so that a transaction over
several of them is a transaction on that store; a row's `id` is its key there.
-/

namespace PracticalMicroservice.Auth

open Foundations (Keyed Store)

inductive Role
  | USER
  | ADMIN
  deriving DecidableEq, Repr

inductive AuthUserStatus
  | ACTIVE
  | SUSPENDED
  | DELETED
  deriving DecidableEq, Repr

inductive VerificationType
  | EMAIL_VERIFICATION
  | PASSWORD_RESET
  | EMAIL_CHANGE
  deriving DecidableEq, Repr

inductive VerificationStatus
  | PENDING
  | VERIFIED
  | EXPIRED
  | REVOKED
  deriving DecidableEq, Repr

inductive LoginOutcome
  | SUCCESS
  | INVALID_CREDENTIALS
  | UNKNOWN_EMAIL
  | NOT_VERIFIED
  | ACCOUNT_LOCKED
  | ACCOUNT_INACTIVE
  deriving DecidableEq, Repr

inductive RevokeReason
  | ROTATED
  | LOGOUT
  | LOGOUT_ALL
  | PASSWORD_CHANGED
  | REUSE_DETECTED
  deriving DecidableEq, Repr

/-- `PendingProfile`. -/
structure PendingProfile where
  name : String
  address : String
  phone : String
  deriving DecidableEq, Repr

/-- `AuthUser`. -/
structure AuthUser where
  id : Nat
  email : String
  username : String
  passwordHash : String
  role : Role := .USER
  status : AuthUserStatus := .ACTIVE
  verified : Bool := false
  verifiedAt : Option Nat := none
  userId : Option String := none
  /-- The column as `readPendingProfile` reads it. -/
  pendingProfile : Option PendingProfile := none
  failedLoginAttempts : Nat := 0
  lockedUntil : Option Nat := none
  lastLoginAt : Option Nat := none
  passwordChangedAt : Option Nat := none
  createdAt : Nat
  deriving DecidableEq, Repr

/-- `Verification`. -/
structure Verification where
  id : Nat
  authUserId : Nat
  codeHash : String
  type : VerificationType
  status : VerificationStatus := .PENDING
  newEmail : Option String := none
  attempts : Nat := 0
  maxAttempts : Nat := 5
  issuedAt : Nat
  expiresAt : Nat
  verifiedAt : Option Nat := none
  emailMessageId : Option String := none
  deriving DecidableEq, Repr

/-- `LoginHistory`. -/
structure LoginHistory where
  id : Nat
  authUserId : Option Nat
  email : String
  success : Bool
  outcome : LoginOutcome
  attempt : Nat
  ip : Option String
  userAgent : Option String
  loginAt : Nat
  deriving DecidableEq, Repr

/-- `RefreshToken`. -/
structure RefreshToken where
  id : Nat
  authUserId : Nat
  tokenHash : String
  familyId : String
  expiresAt : Nat
  revokedAt : Option Nat := none
  revokedReason : Option RevokeReason := none
  replacedById : Option Nat := none
  ip : Option String
  userAgent : Option String
  createdAt : Nat
  deriving DecidableEq, Repr

/-- A row of any of the tables. -/
inductive Row
  | user (u : AuthUser)
  | verification (v : Verification)
  | history (h : LoginHistory)
  | token (t : RefreshToken)
  deriving DecidableEq, Repr

namespace Row

def id : Row → Nat
  | user u => u.id
  | verification v => v.id
  | history h => h.id
  | token t => t.id

def user? : Row → Option AuthUser
  | user u => some u
  | _ => none

def verification? : Row → Option Verification
  | verification v => some v
  | _ => none

def history? : Row → Option LoginHistory
  | history h => some h
  | _ => none

def token? : Row → Option RefreshToken
  | token t => some t
  | _ => none

/-- The unique columns, the primary key apart. -/
def clash : Row → Row → Option String
  | user new, user old =>
    if new.email = old.email then some "email"
    else if new.username = old.username then some "username"
    else none
  | token new, token old => if new.tokenHash = old.tokenHash then some "token_hash" else none
  | _, _ => none

/-- A `where` on one table, and the change of the rows it matches. -/
def isUser (p : AuthUser → Bool) : Row → Bool
  | user u => p u
  | _ => false

def isVerification (p : Verification → Bool) : Row → Bool
  | verification v => p v
  | _ => false

def isToken (p : RefreshToken → Bool) : Row → Bool
  | token t => p t
  | _ => false

def onUser (f : AuthUser → AuthUser) : Row → Row
  | user u => user (f u)
  | row => row

def onVerification (f : Verification → Verification) : Row → Row
  | verification v => verification (f v)
  | row => row

def onToken (f : RefreshToken → RefreshToken) : Row → Row
  | token t => token (f t)
  | row => row

end Row

instance : Keyed Row where
  clash := Row.clash

abbrev Database := Store Row

namespace Database

def users (db : Database) : List AuthUser := db.rows.filterMap Row.user?

def verifications (db : Database) : List Verification := db.rows.filterMap Row.verification?

def loginHistory (db : Database) : List LoginHistory := db.rows.filterMap Row.history?

def tokens (db : Database) : List RefreshToken := db.rows.filterMap Row.token?

def verification? (db : Database) (id : Nat) : Option Verification :=
  db.verifications.find? (·.id = id)

end Database

end PracticalMicroservice.Auth
