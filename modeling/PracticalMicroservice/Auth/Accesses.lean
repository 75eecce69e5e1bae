import PracticalMicroservice.Auth.History
import PracticalMicroservice.Auth.Proofs.TableProofs
import PracticalMicroservice.Foundations.Accesses

/-!
# What the calls access

What the transaction of a call inserts, how its updates leave the rows they visit, and what it has
done when it commits, each from the accesses it has made so far.
-/

namespace PracticalMicroservice.Auth

open Foundations (Access Accesses DatabaseError Left Updated)
open PrismaAuthRepository

/-- What stays the same about a row. -/
inductive RowKey
  | user (id : Nat)
  | verification (id authUserId : Nat) (type : VerificationType)
  | history (id : Nat)
  | token (id authUserId : Nat) (familyId : String)
  deriving DecidableEq, Repr

def RowKey.id : RowKey → Nat
  | user id => id
  | verification id _ _ => id
  | history id => id
  | token id _ _ => id

def Row.key : Row → RowKey
  | user u => .user u.id
  | verification v => .verification v.id v.authUserId v.type
  | history h => .history h.id
  | token t => .token t.id t.authUserId t.familyId

@[simp] theorem Row.id_key (row : Row) : row.key.id = row.id := by cases row <;> rfl

/-- The count a row keeps: of an account's wrong passwords, or of the wrong guesses at a code. -/
def Row.count : Row → Nat
  | user u => u.failedLoginAttempts
  | verification v => v.attempts
  | _ => 0

/-- The tokens a call revokes wholesale: those of an account, or of a family. -/
def Call.sweeps : Call → Option (RefreshToken → Bool)
  | consumePasswordReset _ authUserId _ _ | updatePassword authUserId _ _
  | revokeAllForUser authUserId _ => some (·.authUserId = authUserId)
  | revokeFamily familyId _ => some (·.familyId = familyId)
  | _ => none

/-- A code the call takes the place of. -/
def Call.replaces : Call → Option (Nat × VerificationType)
  | replaceVerification authUserId input => some (authUserId, input.type)
  | _ => none

/-- The code a call consumes. -/
def Call.consumes : Call → Option Nat
  | consumeEmailVerification id _ _ | consumePasswordReset id _ _ _ => some id
  | _ => none

/-- The rows there are when a call is made. -/
def Call.needs : Call → List RowKey
  | rotateRefreshToken currentId next => [.token currentId next.authUserId next.familyId]
  | replaceVerification authUserId _ => [.user authUserId]
  | _ => []

/-- The calls that count something. -/
def Call.counts : Call → Bool
  | registerFailedLogin _ _ | registerVerificationAttempt _ _ => true
  | _ => false

/-- What a call makes of the count of a row. -/
def Call.tallies : Call → RowKey → Nat → Nat
  | registerFailedLogin id _, .user id', n => if id' = id then n + 1 else n
  | registerSuccessfulLogin id _, .user id', n => if id' = id then 0 else n
  | consumePasswordReset _ id _ _, .user id', n => if id' = id then 0 else n
  | registerVerificationAttempt id _, .verification id' _ _, n => if id' = id then n + 1 else n
  | _, _, n => n

/-- A transaction has inserted a row. -/
def Inserted (made : Accesses Row) (new : Row) : Prop :=
  ∃ row, (⟨.insert row, .ok new⟩ : (a : Access Row) × a.Reply) ∈ made

/-- What a call inserts. -/
def Inserts (made : Accesses Row) (now : Nat) (row : Nat → Row) : Call → Prop
  | .createAuthUserWithVerification _ verification =>
    (made = [] ∧ ∀ key, ∃ u : AuthUser, row key = .user u ∧ u.id = key) ∨
      ∃ u : AuthUser, Inserted made (.user u) ∧ (∀ v, ¬ Inserted made (.verification v)) ∧
        ∀ key, row key = .verification (verificationRow key now u.id verification)
  | .recordLoginAttempt _ => ∀ key, ∃ h : LoginHistory, row key = .history h ∧ h.id = key
  | .replaceVerification authUserId input =>
    (∀ key, row key = .verification (verificationRow key now authUserId input)) ∧
      ∃ change, Updated (Row.isVerification (isPending authUserId input.type)) change [] made
  | .createRefreshToken input | .rotateRefreshToken _ input =>
    made = [] ∧ ∀ key, row key = .token (tokenRow key now input)
  | _ => False

/-- How an update of a call leaves a row that its `where` matches. -/
inductive Changes (call : Call) (now : Nat) (made : Accesses Row) : Row → Row → Prop
  | user {u u' : AuthUser} (same : u'.id = u.id)
    (tallied : u'.failedLoginAttempts = call.tallies (.user u.id) u.failedLoginAttempts) :
    Changes call now made (.user u) (.user u')
  | superseded {v : Verification} {input : NewVerificationRecord} (pending : v.status = .PENDING)
    (ofCall : call = .replaceVerification v.authUserId input) (type : input.type = v.type) :
    Changes call now made (.verification v) (.verification { v with status := .REVOKED })
  | counted {v : Verification} {exhausted : Bool}
    (ofCall : call = .registerVerificationAttempt v.id exhausted) :
    Changes call now made (.verification v) (.verification
      { v with
        attempts := v.attempts + 1
        status := if exhausted then .EXPIRED else v.status })
  | mailed {v : Verification} {emailMessageId : String}
    (ofCall : call = .attachVerificationEmail v.id emailMessageId) :
    Changes call now made (.verification v)
      (.verification { v with emailMessageId := some emailMessageId })
  | spent {v : Verification} {at_ : Nat} (pending : v.status = .PENDING)
    (ofCall : call.consumes = some v.id) :
    Changes call now made (.verification v)
      (.verification { v with status := .VERIFIED, verifiedAt := some at_ })
  | revoked {t : RefreshToken} {at_ : Nat} {reason : RevokeReason} (live : isLive t = true)
    (ofCall : ∀ id next, call ≠ .rotateRefreshToken id next) :
    Changes call now made (.token t) (.token (revoke at_ reason t))
  | rotated {t created : RefreshToken} {next : NewRefreshTokenRecord} (live : isLive t = true)
    (ofCall : call = .rotateRefreshToken t.id next) (inserted : Inserted made (.token created))
    (ofAccount : created.authUserId = next.authUserId)
    (ofFamily : created.familyId = next.familyId) :
    Changes call now made (.token t)
      (.token { revoke now .ROTATED t with replacedById := some created.id })

/-- A wholesale revocation has visited every token of its snapshot. -/
def SweptAll (sel : RefreshToken → Bool) (made : Accesses Row) : Prop :=
  ∃ (whose : Row → Bool) (change : Row → Row) (before after later : Accesses Row),
    made = later ++ after ∧ Updated whose change before after ∧
      ∀ t, whose (.token t) = (sel t && isLive t)

/-- What a call has left behind when it commits. -/
def Completes (made : Accesses Row) : Call → Prop
  | .registerFailedLogin id _ | .registerSuccessfulLogin id _ | .consumePasswordReset _ id _ _ =>
    ∃ u, Left made (.user u) ∧ u.id = id
  | .registerVerificationAttempt id _ => ∃ v, Left made (.verification v) ∧ v.id = id
  | .rotateRefreshToken currentId _ => ∃ t created, Left made (.token t) ∧
    Inserted made (.token created) ∧ t.id = currentId ∧ isLive t = false ∧
      t.replacedById = some created.id
  | _ => True

/-- What a call accesses, given what it has accessed so far. -/
def Fits (task : Call × Nat) (made : Accesses Row) : Access Row → Prop
  | .select _ => made = []
  | .insert row => Inserts made task.2 row task.1
  | .visit index whose change =>
    (∀ row, whose row = true → Changes task.1 task.2 made row (change row)) ∧
      (task.1.counts = true → ∀ whose' change' reply,
        (⟨.visit index whose' change', reply⟩ : (a : Access Row) × a.Reply) ∉ made)
  | .commit => Completes made task.1 ∧ ∀ sel, task.1.sweeps = some sel → SweptAll sel made
  | .targets _ | .rollback => True

/-- A row among those a lookup found. -/
def Sighted (made : Accesses Row) (row : Row) : Prop :=
  ∃ whose rows, (⟨.select whose, rows⟩ : (a : Access Row) × a.Reply) ∈ made ∧ row ∈ rows

/-- What a call returns is what it was asked for, and a row it looked up is one it has read. -/
def Answers (made : Accesses Row) : (call : Call) → call.Result → Prop
  | .findAuthUserById id, some u => u.id = id ∧ Sighted made (.user u)
  | .findAuthUserByEmail email, some u => u.email = email ∧ Sighted made (.user u)
  | .findRefreshTokenByHash hash, some t => t.tokenHash = hash ∧ Sighted made (.token t)
  | call, result => PlausibleResult call result

end PracticalMicroservice.Auth
