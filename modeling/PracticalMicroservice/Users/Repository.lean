import PracticalMicroservice.Foundations.Statements
import PracticalMicroservice.Inventory.Schema

/-!
# The profiles of the user service (`user.schema.ts`, `user.repository.ts`)

`Database` carries the unique indexes of the table as fields; a statement that would break one raises.
An account is known here by the key of its row in the auth service.
-/

namespace PracticalMicroservice.Users

open Foundations (DatabaseError)
open Inventory (boundedText isWhiteSpace jsLength trim)

/-- `CreateUserInput`, and the body it is read from. -/
structure CreateUserInput where
  authUserId : Nat
  name : String
  email : String
  address : String
  phone : String
  deriving DecidableEq, Repr

/-- `UpdateUserInput`. -/
structure UpdateUserInput where
  name : Option String := none
  email : Option String := none
  address : Option String := none
  phone : Option String := none
  deriving DecidableEq, Repr

def isPhoneChar (c : Char) : Bool :=
  c.isDigit || isWhiteSpace c || c == '(' || c == ')' || c == '.' || c == '-'

/-- The pattern of a phone number: a digit, after a plus or not, and then the supported characters. -/
def isPhone (s : String) : Bool :=
  match s.toList with
  | '+' :: c :: rest => c.isDigit && rest.all isPhoneChar
  | c :: rest => c.isDigit && rest.all isPhoneChar
  | [] => false

def phoneText (s : String) : Option String :=
  let trimmed := trim s
  if 7 ≤ jsLength trimmed ∧ jsLength trimmed ≤ 20 ∧ isPhone trimmed then some trimmed else none

/-- `z.email`, whose pattern is the library's, with the bound and `toLowerCase`. -/
def emailText (isEmail : String → Bool) (s : String) : Option String :=
  if isEmail s ∧ jsLength s ≤ 150 then some s.toLower else none

/-- `createUserSchema`. -/
def createUserSchema (isEmail : String → Bool) (body : CreateUserInput) :
    Option CreateUserInput := do
  let name ← boundedText 150 body.name
  let email ← emailText isEmail body.email
  let address ← boundedText 250 body.address
  let phone ← phoneText body.phone
  return { authUserId := body.authUserId, name, email, address, phone }

/-- `User`. -/
structure User where
  id : String
  authUserId : Nat
  name : String
  email : String
  address : String
  phone : String
  deriving DecidableEq, Repr

/-- The primary key and the unique indexes. -/
structure UniqueColumns (rows : List User) : Prop where
  ids : (rows.map (·.id)).Nodup
  authUserIds : (rows.map (·.authUserId)).Nodup
  emails : (rows.map (·.email)).Nodup

theorem uniqueColumns_iff {rows : List User} : UniqueColumns rows ↔
    (rows.map (·.id)).Nodup ∧ (rows.map (·.authUserId)).Nodup ∧ (rows.map (·.email)).Nodup :=
  ⟨fun h => ⟨h.ids, h.authUserIds, h.emails⟩, fun h => ⟨h.1, h.2.1, h.2.2⟩⟩

instance (rows : List User) : Decidable (UniqueColumns rows) :=
  decidable_of_iff _ uniqueColumns_iff.symm

structure Database where
  rows : List User
  unique : UniqueColumns rows

/-- The row of a new profile. -/
def CreateUserInput.row (input : CreateUserInput) (id : String) : User where
  id
  authUserId := input.authUserId
  name := input.name
  email := input.email
  address := input.address
  phone := input.phone

/-- Writes every column the input names. -/
def User.applyUpdate (user : User) (input : UpdateUserInput) : User :=
  { user with
    name := input.name.getD user.name
    email := input.email.getD user.email
    address := input.address.getD user.address
    phone := input.phone.getD user.phone }

namespace Database

theorem uniqueColumns_nil : UniqueColumns [] where
  ids := List.nodup_nil
  authUserIds := List.nodup_nil
  emails := List.nodup_nil

def empty : Database where
  rows := []
  unique := uniqueColumns_nil

/-- The column a table repeats a value in. -/
def repeated (rows : List User) : String :=
  if ¬ (rows.map (·.id)).Nodup then "id"
  else if ¬ (rows.map (·.authUserId)).Nodup then "authUserId"
  else "email"

/-- A write: the table with other rows and the reply, if its columns are still unique. -/
def write {α : Type} (db : Database) (rows : List User) (reply : α) :
    Except DatabaseError α × Database :=
  if unique : UniqueColumns rows then (.ok reply, { rows, unique })
  else (.error (.P2002 (repeated rows)), db)

def getUserById (db : Database) (id : String) : Option User := db.rows.find? (·.id = id)

def getUserByAuthUserId (db : Database) (authUserId : Nat) : Option User :=
  db.rows.find? (·.authUserId = authUserId)

def getUserByEmail (db : Database) (email : String) : Option User :=
  db.rows.find? (·.email = email)

end Database

/-- The account has a profile of this id. -/
def Database.Has (db : Database) (authUserId : Nat) (id : String) : Prop :=
  ∃ user ∈ db.rows, user.authUserId = authUserId ∧ user.id = id

/-- A call of the repository. -/
inductive Call
  | createUser (input : CreateUserInput)
  | getUserById (id : String)
  | getUserByAuthUserId (authUserId : Nat)
  | getUserByEmail (email : String)
  | updateUser (id : String) (input : UpdateUserInput)
  | deleteUser (id : String)
  deriving DecidableEq, Repr

namespace Call

def Result : Call → Type
  | createUser _ | updateUser _ _ => User
  | getUserById _ | getUserByAuthUserId _ | getUserByEmail _ => Option User
  | deleteUser _ => Unit

/-- A call made of the table, with the id a new row is given. -/
def run (uuid : String) : (call : Call) → Database → Except DatabaseError call.Result × Database
  | createUser input, db => db.write (db.rows ++ [input.row uuid]) (input.row uuid)
  | getUserById id, db => (.ok (db.getUserById id), db)
  | getUserByAuthUserId authUserId, db => (.ok (db.getUserByAuthUserId authUserId), db)
  | getUserByEmail email, db => (.ok (db.getUserByEmail email), db)
  | updateUser id input, db =>
    match db.getUserById id with
    | none => (.error .P2025, db)
    | some user =>
      db.write (db.rows.map fun row => if row.id = id then row.applyUpdate input else row)
        (user.applyUpdate input)
  | deleteUser id, db =>
    match db.getUserById id with
    | none => (.error .P2025, db)
    | some _ => db.write (db.rows.filter (·.id ≠ id)) ()

end Call

end PracticalMicroservice.Users
