import PracticalMicroservice.Auth.History
import PracticalMicroservice.Foundations.Tables
import PracticalMicroservice.Users.Service

/-!
# The hand-off of profiles to the user service (`user.client.ts`)

The auth service and the user service side by side. A request for a profile is answered with the
outcome of a request of the user service, or its reply is lost: whether the user service ever ran it,
and when, is left open.
-/

namespace PracticalMicroservice.Auth

open Foundations (KeyedTable Machine Pool)
open Users (errorHandler createUserSchema)

namespace HttpUserClient

/-- A 409 stays a 409, and what is not the payload's fault becomes a 503. -/
def toError (failure : Nat × String) : AppError :=
  if failure.1 ≥ 500 then .bare s!"User service failed: {failure.2}" 503
  else if failure.1 = 409 then .ConflictError failure.2
  else if failure.1 = 404 then .bare s!"User record is missing: {failure.2}" 503
  else .bare s!"User service rejected the request: {failure.2}" 400

/-- The request never completed. -/
def unreachable : AppError := .bare "User service is unreachable" 503

/-- `request`, once there is a response. A call resolves with `onMissing`, if there is such a value,
when the user service answers with a 404. -/
def request {α : Type} (onMissing : Option α) : Users.Response α → Except AppError α
  | .ok a => .ok a
  | .error failure =>
    match onMissing with
    | some a => if failure.1 = 404 then .ok a else .error (toError failure)
    | none => .error (toError failure)

/-- The body of the request for a profile. -/
def body (input : NewProfile) : Users.CreateUserInput where
  authUserId := input.authUserId
  name := input.profile.name
  email := input.email
  address := input.profile.address
  phone := input.profile.phone

end HttpUserClient

/-- What of the user service's answer the auth service reads: the id of the profile. -/
def profileId : Users.Answer → Option String
  | .user user => some user.id
  | .removed => none

/-- The auth service and the user service. -/
structure Neighbours where
  auth : World
  users : Users.System

/-- What becomes of a command. -/
inductive HandoffFate
  | here (fate : Fate)
  /-- The user service answers with the outcome of a request of its own for the same. -/
  | answered (thread : Nat)
  /-- The reply is lost, or the request never arrived. -/
  | unreachable

/-- What happens besides: the clock and the operators, and the user service at work on the requests
that reach it, from this service or another client. -/
inductive HandoffMove
  | here (move : Move)
  | users (label : Users.Label)

namespace Neighbours

/-- The outcome of a request of the user service, if it was for this and has finished. -/
def outcomeOf (w : Neighbours) (thread : Nat) (task : Users.Task) : Option Users.Outcome :=
  if w.users.task thread = some task then w.users.result thread else none

/-- The response to a request, read as the id of a profile. -/
def response (isProduction : Bool) (outcome : Users.Outcome) : Option (Users.Response String) :=
  match outcome with
  | .ok answer => (profileId answer).map .ok
  | .error e => some (.error (errorHandler isProduction e))

variable (isEmail : String → Bool) (isProduction : Bool)

/-- What `createProfile` is answered. -/
def createProfile (fate : HandoffFate) (input : NewProfile) (w : Neighbours) :
    Option (Except AppError String) :=
  match fate with
  | .here _ => none
  | .unreachable => some (.error HttpUserClient.unreachable)
  | .answered thread =>
    match createUserSchema isEmail (HttpUserClient.body input) with
    | none =>
      some (HttpUserClient.request none
        (.error (errorHandler isProduction (.ValidationError "Request validation failed"))))
    | some validated =>
      ((w.outcomeOf thread (.create validated)).bind (response isProduction)).map
        (HttpUserClient.request none)

/-- What `findByAuthUserId` is answered. -/
def findByAuthUserId (fate : HandoffFate) (id : Nat) (w : Neighbours) :
    Option (Except AppError (Option String)) :=
  match fate with
  | .here _ => none
  | .unreachable => some (.error HttpUserClient.unreachable)
  | .answered thread =>
    ((w.outcomeOf thread (.getByAuthUserId id)).bind (response isProduction)).map fun reply =>
      HttpUserClient.request (some none) (reply.map some)

/-- The fate a command has in the auth service. -/
def fateOf (fate : HandoffFate) (command : Command) (w : Neighbours) : Option Fate :=
  match command, fate with
  | .createProfile input, fate =>
    (w.createProfile isEmail isProduction fate input).map fun reply => .remote (reply.map some)
  | .findByAuthUserId id, fate => (w.findByAuthUserId isProduction fate id).map .remote
  | _, .here fate => some fate
  | _, _ => none

def perform (env : Env) (fate : HandoffFate) (command : Command) (w : Neighbours) :
    Option (command.Reply × Neighbours) :=
  (w.fateOf isEmail isProduction fate command).bind fun fate =>
    (w.auth.perform env fate command).map fun (reply, auth) => (reply, { w with auth })

def move : HandoffMove → Neighbours → Option Neighbours
  | .here move, w => (World.move move w.auth).map fun auth => { w with auth }
  | .users label, w => (Users.System.step w.users label).map fun users => { w with users }

/-- The profiles of an account. -/
def profilesOf (w : Neighbours) (authUserId : Nat) : List Users.User :=
  w.users.world.db.rows.filter (·.authUserId = authUserId)

end Neighbours

/-- The columns of an account the hand-off reads and writes. -/
structure Handoff where
  id : Nat
  userId : Option String
  pendingProfile : Option PendingProfile
  deriving DecidableEq, Repr

def AuthUser.handoff (u : AuthUser) : Handoff where
  id := u.id
  userId := u.userId
  pendingProfile := u.pendingProfile

def Database.handoffs (db : Database) : List Handoff := db.users.map AuthUser.handoff

/-- The services at rest: nothing runs in the user service, the keys of the accounts are handed out
once, and each account has its profile attached or parked. -/
structure Neighbours.AtRest (w : Neighbours) : Prop where
  idle : w.users = Pool.start w.users.world
  keyed : KeyedTable AuthUser.id w.auth.db.nextKey w.auth.db.users
  attached : ∀ h ∈ w.auth.db.handoffs, ∀ userId, h.userId = some userId →
    w.users.world.db.Has h.id userId
  parked : ∀ h ∈ w.auth.db.handoffs, h.pendingProfile.isSome = h.userId.isNone

def handoffMachine (isEmail : String → Bool) (isProduction : Bool) (env : Env) :
    Machine Command Command.Reply Neighbours HandoffFate HandoffMove where
  perform _ fate command w := w.perform isEmail isProduction env fate command
  move := Neighbours.move

abbrev HandoffSystem := Pool Task Command Command.Reply Outcome Neighbours
abbrev HandoffLabel := Pool.Label Task HandoffFate HandoffMove

/-- One step of the two services. -/
def HandoffSystem.step (isEmail : String → Bool) (isProduction : Bool) (env : Env) :
    HandoffSystem → HandoffLabel → Option HandoffSystem :=
  Pool.step (handoffMachine isEmail isProduction env) (Task.run env)

/-- No client asks the user service to delete a profile. -/
def HandoffLabel.Keeps : HandoffLabel → Prop
  | .move (.users (.spawn (.remove _))) => False
  | _ => True

instance : DecidablePred HandoffLabel.Keeps
  | .spawn _ => .isTrue trivial
  | .call _ _ => .isTrue trivial
  | .move (.here _) => .isTrue trivial
  | .move (.users (.call _ _)) => .isTrue trivial
  | .move (.users (.move _)) => .isTrue trivial
  | .move (.users (.spawn (.remove _))) => .isFalse id
  | .move (.users (.spawn (.create _))) => .isTrue trivial
  | .move (.users (.spawn (.getById _))) => .isTrue trivial
  | .move (.users (.spawn (.getByAuthUserId _))) => .isTrue trivial
  | .move (.users (.spawn (.update _ _))) => .isTrue trivial

/-- What the hand-off has come to: an account has one profile at most, which is the one its `userId`
names, and its data is parked until then. -/
structure HandedOff (w : Neighbours) : Prop where
  single : ∀ authUserId, (w.profilesOf authUserId).length ≤ 1
  attached : ∀ h ∈ w.auth.db.handoffs, ∀ userId, h.userId = some userId →
    ∃ user, w.profilesOf h.id = [user] ∧ user.id = userId
  parked : ∀ h ∈ w.auth.db.handoffs, h.pendingProfile.isSome = h.userId.isNone

/-- What an account keeps: its `userId` once it has one, with nothing parked, and what is parked as
long as it has none. -/
structure Handoff.Kept (h later : Handoff) : Prop where
  userId : h.userId.isSome → later.userId = h.userId ∧ later.pendingProfile = none
  pendingProfile : later.userId = none → later.pendingProfile = h.pendingProfile

/-- Every account is still there later, and has kept that. -/
structure KeepsHandoffs (w later : Neighbours) : Prop where
  stays : ∀ h ∈ w.auth.db.handoffs, ∃ h' ∈ later.auth.db.handoffs, h'.id = h.id
  kept : ∀ h ∈ w.auth.db.handoffs, ∀ h' ∈ later.auth.db.handoffs, h'.id = h.id → h.Kept h'

end PracticalMicroservice.Auth
