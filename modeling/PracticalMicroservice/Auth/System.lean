import PracticalMicroservice.Auth.Service
import PracticalMicroservice.Foundations.Threads
import Mathlib.Logic.Function.Basic

/-!
# The requests to the auth service, running side by side

Each request is a thread, and each call of the repository one atomic step on the tables; between two
steps of one request any of the others may run, the clock goes on, and an operator may change the
status of an account.
-/

namespace PracticalMicroservice.Auth

open Foundations (DatabaseError Machine Pool Store)

namespace AuthController

/-- `authenticate`: the claims of a token this service signed and that has not expired. -/
def authenticate (token : AccessTokenClaims) : Promise AccessTokenClaims := do
  Promise.unpack (← Promise.call (.verifyAccessToken token))

def logoutAll (token : AccessTokenClaims) : Promise Nat := do
  AuthService.logoutAll (← authenticate token).sub

def changePassword (env : Env) (token : AccessTokenClaims) (currentPassword password : String)
    (info : RequestMeta) : Promise AuthTokens := do
  AuthService.changePassword env (← authenticate token).sub currentPassword password info

end AuthController

/-- A request to the service. -/
inductive Task
  | register (input : RegisterInput) (info : RequestMeta)
  | resendVerification (email : String) (info : RequestMeta)
  | verifyEmail (email code : String) (info : RequestMeta)
  | login (email password : String) (info : RequestMeta)
  | refresh (token : String) (info : RequestMeta)
  | logout (token : String)
  | logoutAll (token : AccessTokenClaims)
  | forgotPassword (email : String) (info : RequestMeta)
  | resetPassword (email code password : String) (info : RequestMeta)
  | changePassword (token : AccessTokenClaims) (currentPassword password : String)
    (info : RequestMeta)
  deriving DecidableEq, Repr

/-- What a request is answered. -/
inductive Answer
  | registered (result : RegistrationResult)
  | verified (result : VerificationResult)
  | loggedIn (result : AuthenticatedResult)
  | refreshed (tokens : AuthTokens)
  | changed (tokens : AuthTokens)
  | revoked (count : Nat)
  | done
  deriving DecidableEq, Repr

abbrev Outcome := Except AppError Answer

def Task.promise (env : Env) : Task → Promise Answer
  | register input info => return .registered (← AuthService.register env input info)
  | resendVerification email info => do
    AuthService.resendVerification env email info
    return .done
  | verifyEmail email code info => return .verified (← AuthService.verifyEmail env email code info)
  | login email password info => return .loggedIn (← AuthService.login env email password info)
  | refresh token info => return .refreshed (← AuthService.refresh env token info)
  | logout token => do
    AuthService.logout env token
    return .done
  | logoutAll token => return .revoked (← AuthController.logoutAll token)
  | forgotPassword email info => do
    AuthService.forgotPassword env email info
    return .done
  | resetPassword email code password info => do
    AuthService.resetPassword env email code password info
    return .done
  | changePassword token currentPassword password info =>
    return .changed (← AuthController.changePassword env token currentPassword password info)

abbrev Code := Foundations.Program Command Command.Reply Outcome

def Task.run (env : Env) (task : Task) : Code := (task.promise env).run

structure World where
  db : Database
  now : Nat
  /-- How often randomness was drawn. -/
  draws : Nat
  /-- The access tokens signed so far: no other is ever taken for one of this service. -/
  signed : List AccessTokenClaims

/-- What becomes of a command beyond what the state determines. -/
inductive Fate
  | served
  /-- It fails and has no effect. -/
  | refused (error : DatabaseError)
  /-- It takes effect, and its caller gets an error all the same. -/
  | unanswered (error : DatabaseError)
  /-- What another service answers. -/
  | remote (reply : Except AppError (Option String))

/-- What the clock and the operators do. -/
inductive Move
  | tick (ms : Nat)
  | setStatus (authUserId : Nat) (status : AuthUserStatus)

namespace World

/-- A call of the repository, served as one step. -/
def serve (w : World) (c : Call) : Except AppError c.Result × World :=
  let (reply, db) := Store.atomically (c.transaction w.now) w.db
  (reply.mapError toAppError, { w with db })

def drawn (w : World) : World := { w with draws := w.draws + 1 }

/-- The `exp` check of `jwtVerify`, in whole seconds. -/
def accepts (w : World) (token : AccessTokenClaims) : Bool :=
  token ∈ w.signed ∧ w.now / 1000 < token.exp

def remote (w : World) (reply : Except AppError (Option String)) :
    Option (Except AppError String × World) :=
  match reply with
  | .ok (some id) => some (.ok id, w)
  | .ok none => none
  | .error e => some (.error e, w)

/-- Performs a command. -/
def perform (env : Env) (fate : Fate) : (command : Command) → World → Option (command.Reply × World)
  | .repository c, w =>
    match fate with
    | .served => some (w.serve c)
    | .refused e => some (.error (toAppError e), w)
    | .unanswered e => some (.error (toAppError e), (w.serve c).2)
    | .remote _ => none
  | .now, w => some (w.now, w)
  | .randomUUID, w => some (env.uuid w.draws, w.drawn)
  | .randomToken, w => some (env.token w.draws, w.drawn)
  | .generateCode, w => some (env.code w.draws, w.drawn)
  | .hashPassword plaintext, w =>
    match fate with
    | .served => some (.ok (env.argon2Hash w.draws plaintext), w.drawn)
    | _ => some (.error (.InternalServerError "argon2 failed"), w)
  | .verifyPassword digest plaintext, w =>
    match fate with
    | .served => some (.ok (env.argon2Verify digest plaintext), w)
    | _ => some (.error (.InternalServerError "Stored password hash could not be verified"), w)
  | .safeEqual verification codeHash, w => some (decide (verification.codeHash = codeHash), w)
  | .signAccessToken claims, w =>
    match fate with
    | .served => some (.ok claims, { w with signed := claims :: w.signed })
    | _ => some (.error (.InternalServerError "Access token could not be issued"), w)
  | .verifyAccessToken token, w =>
    if w.accepts token then some (.ok token, w)
    else some (.error (.UnauthorizedError "Access token is invalid or has expired"), w)
  | .enqueue _ _ _, w =>
    match fate with
    | .remote reply => w.remote reply
    | _ => none
  | .createProfile _, w =>
    match fate with
    | .remote reply => w.remote reply
    | _ => none
  | .findByAuthUserId _, w =>
    match fate with
    | .remote reply => some (reply, w)
    | _ => none

def move : Move → World → Option World
  | .tick ms, w => some { w with now := w.now + ms }
  | .setStatus id status, w =>
    some { w with db := w.db.update (Row.isUser (·.id = id)) (Row.onUser ({ · with status })) }

end World

def machine (env : Env) : Machine Command Command.Reply World Fate Move where
  perform _ fate command w := w.perform env fate command
  move := World.move

abbrev System := Pool Task Command Command.Reply Outcome World
abbrev Label := Pool.Label Task Fate Move
abbrev Event := Foundations.Event Command Command.Reply World

/-- One step of the service. -/
def System.step (env : Env) : System → Label → Option System :=
  Pool.step (machine env) (Task.run env)

/-! ## A small service, for examples of its runs -/

/-- Draws that never repeat. -/
def sampleDraw (n : Nat) : String := String.ofList (List.replicate n 'f')

theorem sampleDraw_injective : Function.Injective sampleDraw := by
  intro n n' h
  have hlength := congrArg (fun s : String => s.toList.length) h
  simpa [sampleDraw] using hlength

def sampleEnv : Env where
  verificationTtlMinutes := 15
  verificationMaxAttempts := 2
  resendCooldownSeconds := 60
  maxFailedLoginAttempts := 2
  lockDurationMinutes := 15
  ACCESS_TOKEN_TTL_MINUTES := 15
  REFRESH_TOKEN_TTL_DAYS := 30
  sha256 := id
  argon2Hash _ plaintext := plaintext
  argon2Verify digest plaintext := digest = plaintext
  uuid := sampleDraw
  token := sampleDraw
  code := sampleDraw

/-- An account that may log in. -/
def ada : AuthUser where
  id := 0
  email := "ada@example.com"
  username := "ada"
  passwordHash := "right"
  verified := true
  createdAt := 0

/-- A service with one account. -/
def adasWorld : World where
  db := { rows := [.user ada], nextKey := 1 }
  now := 0
  draws := 0
  signed := []

/-- A request that runs with nothing beside it, every command served. -/
def alone (thread steps : Nat) (task : Task) : List Label :=
  .spawn task :: List.replicate steps (.call thread .served)

end PracticalMicroservice.Auth
