/-!
# The errors of the inventory service

The `AppError` classes of `app-error.ts` that the stock operations raise, the errors the database
driver raises below them, and the status the error handler answers with.
-/

namespace PracticalMicroservice.Inventory

/-- `ErrorCode`: the machine-readable codes a client branches on. -/
inductive ErrorCode
  | BAD_REQUEST
  | VALIDATION_ERROR
  | NOT_FOUND
  | CONFLICT
  | UNPROCESSABLE_ENTITY
  | INTERNAL_SERVER_ERROR
  | SERVICE_UNAVAILABLE
  deriving DecidableEq, Repr

/-- `ErrorDetail`, in the shape the bulk operations attach one to each rejected line. -/
structure ErrorDetail where
  field : String
  productId : String
  code : ErrorCode
  message : String
  requested : Int
  available : Option Int := none
  reserved : Option Int := none
  deriving DecidableEq, Repr

/-- The `AppError` subclasses, each with the arguments of its constructor. -/
inductive AppError
  | NotFoundError (message : String)
  | ConflictError (message : String) (details : List ErrorDetail)
  | DuplicateOperationError (idempotencyKey : String)
  | UnprocessableEntityError (message : String)
  | InternalServerError (message : String)
  deriving DecidableEq, Repr

namespace AppError

def code : AppError → ErrorCode
  | NotFoundError _ => .NOT_FOUND
  | ConflictError _ _ => .CONFLICT
  | DuplicateOperationError _ => .CONFLICT
  | UnprocessableEntityError _ => .UNPROCESSABLE_ENTITY
  | InternalServerError _ => .INTERNAL_SERVER_ERROR

def statusCode : AppError → Nat
  | NotFoundError _ => 404
  | ConflictError _ _ => 409
  | DuplicateOperationError _ => 409
  | UnprocessableEntityError _ => 422
  | InternalServerError _ => 500

def message : AppError → String
  | NotFoundError message => message
  | ConflictError message _ => message
  | DuplicateOperationError key => s!"Operation '{key}' has already been applied"
  | UnprocessableEntityError message => message
  | InternalServerError message => message

/-- The per-line details, empty for the classes that carry none. -/
def details : AppError → List ErrorDetail
  | ConflictError _ details => details
  | _ => []

end AppError

/-- What the database driver raises, by the cases the service tells apart: `P2002`, `P2025`, a value
outside its column's range, and everything transient. -/
inductive DatabaseError
  | uniqueViolation
  | recordNotFound
  | valueOutOfRange
  | unavailable
  deriving DecidableEq, Repr

/-- Anything a `catch` can meet: `isAppError` tells the two apart. -/
inductive Thrown
  | app (error : AppError)
  | database (error : DatabaseError)
  deriving DecidableEq, Repr

namespace Thrown

def isUniqueViolation : Thrown → Bool
  | database .uniqueViolation => true
  | _ => false

/-- The status `errorHandler` answers with, after `toAppError` and `fromPrismaError`. -/
def statusCode : Thrown → Nat
  | app error => error.statusCode
  | database .uniqueViolation => 409
  | database .recordNotFound => 404
  | database .valueOutOfRange => 500
  | database .unavailable => 503

end Thrown

end PracticalMicroservice.Inventory
