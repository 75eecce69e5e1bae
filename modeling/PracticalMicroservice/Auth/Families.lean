import PracticalMicroservice.Auth.System
import PracticalMicroservice.Foundations.Chains

/-!
# Families of refresh tokens

A login starts a family, and each token rotated from it joins that family. What is expected of a
family is that its tokens form one chain, in the order they were issued.
-/

namespace PracticalMicroservice.Auth

open Foundations (Chained Links)
open PrismaAuthRepository

/-- The tokens of a family, in the order they were issued. -/
def familyOf (tokens : List RefreshToken) (familyId : String) : List RefreshToken :=
  tokens.filter (·.familyId = familyId)

/-- The row a token is looked up by its hash. -/
def tokenOf (tokens : List RefreshToken) (tokenHash : String) : Option RefreshToken :=
  tokens.find? (·.tokenHash = tokenHash)

/-- A token as a link of its family: `replacedById` names the next. -/
def tokenLinks : Links RefreshToken where
  id := (·.id)
  next := (·.replacedById)
  live := isLive

/-- The tokens of a family form one linear chain in the order of their issue, of which at most one
is live. -/
structure Orderly (family : List RefreshToken) : Prop where
  oneLive : (family.filter isLive).length ≤ 1
  distinct : (family.map (·.id)).Nodup
  linked : ∀ n t, family[n]? = some t → t.replacedById = family[n + 1]?.map (·.id)

/-- The event is a rotation that issued a successor of the token. -/
def Mints (e : Event) (currentId : Nat) : Prop :=
  (∃ next, e.command = .repository (.rotateRefreshToken currentId next)) ∧
    e.before.db.tokens.length < e.after.db.tokens.length

/-- A request whose rotation issued a successor of the token it presented. -/
def System.minted (s : System) (thread : Nat) : Prop :=
  ∃ e ∈ s.trace, e.thread = thread ∧ ∃ currentId, Mints e currentId

/-- Every token of the family a presented token belongs to is revoked. -/
def System.familyEnded (env : Env) (s : System) (presented : String) : Prop :=
  ∃ stored, tokenOf s.world.db.tokens (env.hashRefreshToken presented) = some stored ∧
    ∀ t ∈ s.world.db.tokens, t.familyId = stored.familyId → isLive t = false

end PracticalMicroservice.Auth
