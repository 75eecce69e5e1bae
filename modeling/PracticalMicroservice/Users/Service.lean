import PracticalMicroservice.Foundations.Histories
import PracticalMicroservice.Users.Repository

/-!
# The user service (`user.service.ts`, `user.controller.ts`)

A method is a program of calls of the repository. Requests run side by side, each call one step on the
table, and a call may not be made at all, or take effect and lose its reply.
-/

namespace PracticalMicroservice.Users

open Foundations (DatabaseError Fallible Machine Pool Program)

/-- An `AppError`, as far as it shows in a response. -/
structure AppError where
  message : String
  statusCode : Nat
  isOperational : Bool := true
  deriving DecidableEq, Repr

namespace AppError

def ConflictError (message : String) : AppError := { message, statusCode := 409 }

def NotFoundError (message : String) : AppError := { message, statusCode := 404 }

def ValidationError (message : String) : AppError := { message, statusCode := 422 }

def InternalServerError (message : String) : AppError :=
  { message, statusCode := 500, isOperational := false }

end AppError

/-- `fromPrismaError`. -/
def toAppError : DatabaseError → AppError
  | .P2002 fields => .ConflictError s!"A record with this {fields} already exists"
  | .P2025 => .NotFoundError "Requested record does not exist"
  | .P1001 => { message := "Database is unavailable", statusCode := 503, isOperational := false }
  | .unexpected => .InternalServerError "Unexpected database error"

abbrev Call.Reply (call : Call) : Type := Except AppError call.Result

/-- `Promise<Result<α>>`. -/
abbrev Promise (α : Type) := Fallible AppError Call Call.Reply α

def repository (call : Call) : Promise call.Result := do
  let reply : Except AppError call.Result ← ExceptT.lift (Program.request call)
  ExceptT.mk (pure reply)

namespace UserService

/-- Creates a profile. Both lookups are advisory: the unique indexes settle it. -/
def create (input : CreateUserInput) : Promise User := do
  match ← repository (.getUserByAuthUserId input.authUserId) with
  | some _ => throw (.ConflictError s!"A user for authUserId '{input.authUserId}' already exists")
  | none =>
    match ← repository (.getUserByEmail input.email) with
    | some _ => throw (.ConflictError s!"A user with email '{input.email}' already exists")
    | none => repository (.createUser input)

def getById (id : String) : Promise User := do
  match ← repository (.getUserById id) with
  | some user => return user
  | none => throw (.NotFoundError s!"User '{id}' was not found")

def getByAuthUserId (authUserId : Nat) : Promise User := do
  match ← repository (.getUserByAuthUserId authUserId) with
  | some user => return user
  | none => throw (.NotFoundError s!"No user found for authUserId '{authUserId}'")

/-- Whether the email of an update that moves one is still free. -/
def checkEmail (id : String) (current : User) : Option String → Promise Unit
  | none => return ()
  | some email => do
    if email = "" ∨ email = current.email then return ()
    else
      match ← repository (.getUserByEmail email) with
      | none => return ()
      | some byEmail =>
        if byEmail.id ≠ id then
          throw (.ConflictError s!"A user with email '{email}' already exists")
        else return ()

def update (id : String) (input : UpdateUserInput) : Promise User := do
  let current ← getById id
  checkEmail id current input.email
  repository (.updateUser id input)

def remove (id : String) : Promise Unit := do
  let _ ← getById id
  repository (.deleteUser id)

end UserService

/-! ## Requests -/

/-- A request, its input validated. -/
inductive Task
  | create (input : CreateUserInput)
  | getById (id : String)
  | getByAuthUserId (authUserId : Nat)
  | update (id : String) (input : UpdateUserInput)
  | remove (id : String)
  deriving DecidableEq, Repr

/-- What a request is answered. -/
inductive Answer
  | user (user : User)
  | removed
  deriving DecidableEq, Repr

abbrev Outcome := Except AppError Answer

def Task.promise : Task → Promise Answer
  | create input => return .user (← UserService.create input)
  | getById id => return .user (← UserService.getById id)
  | getByAuthUserId authUserId => return .user (← UserService.getByAuthUserId authUserId)
  | update id input => return .user (← UserService.update id input)
  | remove id => do
    UserService.remove id
    return .removed

abbrev Code := Program Call Call.Reply Outcome

def Task.run (task : Task) : Code := task.promise.run

/-- The data of a response, or its status and the message of the error in it. -/
abbrev Response (α : Type) := Except (Nat × String) α

/-- `errorHandler`. -/
def errorHandler (isProduction : Bool) (e : AppError) : Nat × String :=
  (e.statusCode, if e.isOperational || !isProduction then e.message else "Internal server error")

/-! ## Side by side -/

structure World where
  db : Database
  /-- The ids the database gives new rows, in turn. -/
  uuids : Nat → String
  minted : Nat

/-- What becomes of a call. -/
inductive Fate
  | served
  /-- It fails and has no effect. -/
  | refused (error : DatabaseError)
  /-- It takes effect, and its caller gets an error all the same. -/
  | unanswered (error : DatabaseError)
  deriving DecidableEq, Repr

/-- A call of the repository, served as one step. -/
def World.serve (w : World) (call : Call) : Call.Reply call × World :=
  let (reply, db) := call.run (w.uuids w.minted) w.db
  (reply.mapError toAppError, { w with db, minted := w.minted + 1 })

def World.perform (fate : Fate) (call : Call) (w : World) : Call.Reply call × World :=
  match fate with
  | .served => w.serve call
  | .refused e => (.error (toAppError e), w)
  | .unanswered e => (.error (toAppError e), (w.serve call).2)

def machine : Machine Call Call.Reply World Fate Empty where
  perform _ fate call w := some (w.perform fate call)
  move m := nomatch m

abbrev System := Pool Task Call Call.Reply Outcome World
abbrev Label := Pool.Label Task Fate Empty

def System.step : System → Label → Option System := Pool.step machine Task.run

end PracticalMicroservice.Users
