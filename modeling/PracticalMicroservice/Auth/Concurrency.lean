import PracticalMicroservice.Auth.Interleaving
import PracticalMicroservice.Foundations.Tallies
import Mathlib.Logic.Relation

/-!
# What holds side by side

What rotations leave of the tokens and which tokens descend from one, when a wholesale revocation
meets a rotation that has overtaken it, which codes can still be redeemed, and what is counted: each
with the transactions of the requests under READ COMMITTED.
-/

namespace PracticalMicroservice.Auth

open Foundations (Access Pool Slot Tally Traffic Undertaking Unended Versions)
open PrismaAuthRepository

/-! ## Rotations and wholesale revocations -/

/-- The tokens as rotations leave them: a live one has no successor, and one that was replaced names
a younger token of its account and session, which no other one names. -/
structure Unbroken (rows : List Row) : Prop where
  live : ∀ t, Row.token t ∈ rows → isLive t = true → t.replacedById = none
  successor : ∀ t, Row.token t ∈ rows → ∀ n, t.replacedById = some n → t.id < n ∧
    ∃ t', Row.token t' ∈ rows ∧ t'.id = n ∧ t'.authUserId = t.authUserId ∧ t'.familyId = t.familyId
  sole : ∀ t t' n, Row.token t ∈ rows → Row.token t' ∈ rows → t.replacedById = some n →
    t'.replacedById = some n → t = t'

/-- A token was exchanged for another. -/
def Replaced (rows : List Row) (id id' : Nat) : Prop :=
  ∃ t, Row.token t ∈ rows ∧ t.id = id ∧ t.replacedById = some id'

/-- A token descends from another by rotations. -/
def Descends (rows : List Row) : Nat → Nat → Prop := Relation.ReflTransGen (Replaced rows)

/-- Every session is one chain of tokens, and its id is one that has been drawn. -/
structure Lineages (env : Env) (w : SharedWorld) : Prop where
  chains : ∀ t t', Row.token t ∈ w.tables.rows → Row.token t' ∈ w.tables.rows →
    t.familyId = t'.familyId → Descends w.tables.rows t.id t'.id ∨ Descends w.tables.rows t'.id t.id
  drawn : ∀ t, Row.token t ∈ w.tables.rows → ∀ n, w.draws ≤ n → env.uuid n ≠ t.familyId

/-- A call has committed whose transaction began on some tables. -/
def Committed (s : Interleaved) (call : Call) (begun : Versions Row) : Prop :=
  ∃ u ∈ committed s.trace, u.task.1 = call ∧ u.begun = begun

/-- The row is no token that was rotated. -/
def Row.unrotated : Row → Bool
  | .token t => t.replacedById.isNone
  | _ => true

/-- A wholesale revocation reaches a row of its snapshot while that is no rotated token. -/
def MeetsUnrotated (c : Traffic Row (Call × Nat)) (_ : Nat) (u : Transacting) :
    Access Row → Prop
  | .visit index _ _ => u.task.1.sweeps.isSome = true →
    ∀ slot ∈ c.tables.slots[index]?, ∀ row ∈ slot.committed, row.unrotated = true
  | _ => True

instance (c : Traffic Row (Call × Nat)) (i : Nat) (u : Transacting) :
    DecidablePred (MeetsUnrotated c i u)
  | .visit index _ _ => inferInstanceAs (Decidable (u.task.1.sweeps.isSome = true →
      ∀ slot ∈ c.tables.slots[index]?, ∀ row ∈ slot.committed, row.unrotated = true))
  | .select _ | .insert _ | .targets _ | .commit | .rollback => .isTrue trivial

/-- No wholesale revocation reaches a token that was rotated behind its back. -/
def sweepsAhead : Interleaved → Interleaved.Label → Prop := heeding MeetsUnrotated

/-! ### An account signed in on two devices -/

def deviceToken (id : Nat) (secret : String) : RefreshToken where
  id
  authUserId := ada.id
  tokenHash := sampleEnv.hashRefreshToken secret
  familyId := secret
  expiresAt := 1000000
  ip := none
  userAgent := none
  createdAt := 0

def phoneClaims : AccessTokenClaims where
  sub := ada.id
  email := ada.email
  username := ada.username
  role := ada.role
  sid := "phone"
  iat := 0
  exp := 900

def adasDevices : SharedWorld where
  tables :=
    { slots := [⟨some (.user ada), none⟩, ⟨some (.token (deviceToken 1 "phone")), none⟩,
        ⟨some (.token (deviceToken 2 "laptop")), none⟩]
      nextKey := 3 }
  now := 0
  draws := 0
  signed := [phoneClaims]

/-- The laptop refreshes its session while the phone signs out everywhere. The revocation begins,
and the token of the laptop is exchanged before its snapshot. -/
def exchangedAhead : List Interleaved.Label :=
  [.spawn (.refresh "laptop" {}), .spawn (.logoutAll phoneClaims)] ++ piecewise 1 2 ++
    piecewise 0 13 ++ [aiming 0 [2]] ++ piecewise 0 2

/-- All of it, to the end of the revocation. -/
def signedOut : List Interleaved.Label := exchangedAhead ++ [aiming 1 [1, 3]] ++ piecewise 1 3

/-- The same, with the exchange committed after the snapshot. -/
def overtaken : List Interleaved.Label :=
  [.spawn (.refresh "laptop" {}), .spawn (.logoutAll phoneClaims)] ++ piecewise 1 2 ++
    piecewise 0 13 ++ [aiming 0 [2], aiming 1 [1, 2]] ++ piecewise 0 2 ++ piecewise 1 3

/-! ## The codes that can still be redeemed -/

/-- A code that is not outstanding stays so, and is redeemed only if it was. -/
def Fades (v v' : Verification) : Prop :=
  v.status ≠ .PENDING → v'.status ≠ .PENDING ∧ (v'.status = .VERIFIED → v.status = .VERIFIED)

/-- A code with a newer one beside it, for the same account and of the same type, is not
outstanding. -/
def Superseded (rows : List Row) : Prop :=
  ∀ v v', Row.verification v ∈ rows → Row.verification v' ∈ rows →
    v.authUserId = v'.authUserId → v.type = v'.type → v.id < v'.id → v.status ≠ .PENDING

/-- Every code is one of an account. -/
def Accounted (rows : List Row) : Prop :=
  ∀ v, Row.verification v ∈ rows → ∃ u, Row.user u ∈ rows ∧ u.id = v.authUserId

/-- A replacement of a code that has begun to access the tables, and is not over. -/
def Replacing (u : Transacting) (of : Nat × VerificationType) : Prop :=
  u.task.1.replaces = some of ∧ u.made.isEmpty = false ∧ Unended u.made

instance (u : Transacting) (of : Nat × VerificationType) : Decidable (Replacing u of) :=
  inferInstanceAs (Decidable (u.task.1.replaces = some of ∧ u.made.isEmpty = false ∧
    ∀ m ∈ u.made, m.1.ends = false))

/-- No replacement makes its first access, which is its snapshot, in the midst of another of the same
account's codes of the same type. -/
def MeetsNoOther (c : Traffic Row (Call × Nat)) (i : Nat) (u : Transacting) (_ : Access Row) :
    Prop :=
  u.made = [] → ∀ of, u.task.1.replaces = some of →
    ∀ j u', j ≠ i → c.under j = some u' → ¬ Replacing u' of

/-- The same, of the requests whose events are on the trace. -/
def ReplacesAlone (s : Interleaved) (i : Nat) : Piece → Prop
  | .access _ => ∀ u ∈ underway s.trace i, u.made.isEmpty = true → ∀ of ∈ u.task.1.replaces,
    ∀ e ∈ s.trace, e.thread ≠ i → ∀ u' ∈ underway s.trace e.thread, ¬ Replacing u' of
  | _ => True

instance (s : Interleaved) (i : Nat) : DecidablePred (ReplacesAlone s i)
  | .access _ => inferInstanceAs (Decidable (∀ u ∈ underway s.trace i, u.made.isEmpty = true →
      ∀ of ∈ u.task.1.replaces, ∀ e ∈ s.trace, e.thread ≠ i →
        ∀ u' ∈ underway s.trace e.thread, ¬ Replacing u' of))
  | .called _ | .replied _ _ | .other _ => .isTrue trivial

/-- Replacements of the same account's codes of the same type keep apart. -/
def replacementsApart : Interleaved → Interleaved.Label → Prop :=
  Pool.calls fun s i _ piece => ReplacesAlone s i piece

instance (s : Interleaved) : DecidablePred (replacementsApart s) :=
  inferInstanceAs (DecidablePred (Pool.calls (fun s i _ piece => ReplacesAlone s i piece) s))

/-! ### An account whose address is not verified yet -/

def mailedCode : Verification where
  id := 1
  authUserId := ada.id
  codeHash := "mailed"
  type := .EMAIL_VERIFICATION
  maxAttempts := 2
  issuedAt := 0
  expiresAt := 1000000

def adaUnverified : SharedWorld where
  tables :=
    { slots := [⟨some (.user { ada with verified := false }), none⟩,
        ⟨some (.verification mailedCode), none⟩]
      nextKey := 2 }
  now := 120000
  draws := 0
  signed := []

/-- A new verification code and a reset code are asked for at once; the first is issued while the
other request is in the midst of its replacement. -/
def askedForBoth : List Interleaved.Label :=
  [.spawn (.resendVerification ada.email {}), .spawn (.forgotPassword ada.email {})] ++
    piecewise 0 12 ++ [aiming 0 [1]] ++ piecewise 1 11 ++ [aiming 1 []] ++ piecewise 0 3

/-- A new verification code is asked for twice at once. -/
def askedForTwice : List Interleaved.Label :=
  [.spawn (.resendVerification ada.email {}), .spawn (.resendVerification ada.email {})] ++
    piecewise 0 12 ++ piecewise 1 12 ++ [aiming 0 [1], aiming 1 [1]] ++ piecewise 0 3 ++ piecewise 1 3

/-! ## What is counted -/

/-- The count of a row, and what a call makes of it. -/
def tallying : Tally Row (Call × Nat) RowKey Nat where
  value := Row.count
  act task := task.1.tallies

/-! ### Two wrong passwords at once -/

def adaAlone : SharedWorld where
  tables := { slots := [⟨some (.user ada), none⟩], nextKey := 1 }
  now := 0
  draws := 0
  signed := []

/-- Two logins have found the password wrong, and are about to count it. -/
def bothWrong : List Interleaved.Label :=
  [.spawn (.login ada.email "wrong" {}), .spawn (.login ada.email "false" {})] ++ piecewise 0 5 ++
    piecewise 1 5

/-- They count it together: the second waits for the first where their updates meet. -/
def countedTogether : List Interleaved.Label :=
  piecewise 0 1 ++ piecewise 1 1 ++ [aiming 0 [0], aiming 1 [0]] ++ piecewise 0 2 ++ piecewise 1 2

end PracticalMicroservice.Auth
