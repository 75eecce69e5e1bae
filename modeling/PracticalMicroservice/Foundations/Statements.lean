import PracticalMicroservice.Foundations.Program

/-!
# Statements on a store of rows, and transactions of them

A store holds rows of one type, numbered as they are inserted. A statement reads the rows that match,
inserts one, or updates the ones that match; a transaction is a program of statements that throws
when one of them fails. `Store.atomically` runs it as one step and drops its writes when it throws.
-/

namespace PracticalMicroservice.Foundations

/-- Rows with unique indexes, which a new row must respect. -/
class Keyed (ρ : Type) where
  /-- The columns in which a new row repeats one that is there. -/
  clash : (new old : ρ) → Option String

inductive DatabaseError
  | P2002 (fields : String)
  | P2025
  | P1001
  | unexpected
  deriving DecidableEq, Repr

inductive Statement (ρ : Type) : Type
  | select (whose : ρ → Bool)
  | insert (row : Nat → ρ)
  | update (whose : ρ → Bool) (change : ρ → ρ)

/-- The rows read, inserted, or as the update left them. -/
abbrev Statement.Reply (ρ : Type) (_ : Statement ρ) : Type := Except DatabaseError (List ρ)

abbrev Transaction (ρ α : Type) : Type :=
  Fallible DatabaseError (Statement ρ) (Statement.Reply ρ) α

namespace Transaction

variable {ρ : Type}

def statement (st : Statement ρ) : Transaction ρ (List ρ) := do
  let reply : Except DatabaseError (List ρ) ← ExceptT.lift (Program.request st)
  ExceptT.mk (pure reply)

def findMany (whose : ρ → Bool) : Transaction ρ (List ρ) := statement (.select whose)

def create (row : Nat → ρ) : Transaction ρ ρ := do
  match ← statement (.insert row) with
  | row :: _ => return row
  | [] => throw .unexpected

/-- `update`: a `where` that matches nothing is an error. -/
def update (whose : ρ → Bool) (change : ρ → ρ) : Transaction ρ ρ := do
  match ← statement (.update whose change) with
  | row :: _ => return row
  | [] => throw .P2025

/-- `updateMany`: however many match. -/
def updateMany (whose : ρ → Bool) (change : ρ → ρ) : Transaction ρ Nat := do
  return (← statement (.update whose change)).length

end Transaction

/-- A program run at once, every command handled by `handle`. -/
def Program.exec {C : Type} {R : C → Type} {S α : Type} (handle : (command : C) → S → R command × S) :
    Program C R α → S → α × S
  | .done a, s => (a, s)
  | .perform command next, s =>
    let (reply, s') := handle command s
    (next reply).exec handle s'

/-- The same, where a command may not be possible. -/
def Program.tryExec {C : Type} {R : C → Type} {S α : Type}
    (handle : (command : C) → S → Option (R command × S)) : Program C R α → S → Option (α × S)
  | .done a, s => some (a, s)
  | .perform command next, s =>
    (handle command s).bind fun (reply, s') => (next reply).tryExec handle s'

structure Store (ρ : Type) where
  /-- In the order of their insertion. -/
  rows : List ρ
  nextKey : Nat

namespace Store

variable {ρ : Type} [Keyed ρ] {α : Type}

/-- The columns in which a row repeats another. -/
def clashes (rows : List ρ) (row : ρ) : Option String := rows.findSome? (Keyed.clash row)

def insert (s : Store ρ) (row : ρ) : Store ρ :=
  { rows := s.rows ++ [row], nextKey := s.nextKey + 1 }

def update (s : Store ρ) (whose : ρ → Bool) (change : ρ → ρ) : Store ρ :=
  { s with rows := s.rows.map fun row => if whose row then change row else row }

/-- A statement with nothing running beside it. -/
def exec (st : Statement ρ) (s : Store ρ) : Except DatabaseError (List ρ) × Store ρ :=
  match st with
  | .select whose => (.ok (s.rows.filter whose), s)
  | .insert row =>
    match clashes s.rows (row s.nextKey) with
    | some fields => (.error (.P2002 fields), s)
    | none => (.ok [row s.nextKey], s.insert (row s.nextKey))
  | .update whose change => (.ok ((s.rows.filter whose).map change), s.update whose change)

/-- The statements of a transaction in turn, whether or not it throws in the end. -/
def run (tx : Transaction ρ α) (s : Store ρ) : Except DatabaseError α × Store ρ :=
  ExceptT.run tx |>.exec exec s

/-- The store a finished transaction leaves: a failed one is taken back. -/
def settle (s : Store ρ) : Except DatabaseError α × Store ρ → Store ρ
  | (.ok _, s') => s'
  | (.error _, _) => s

/-- A transaction as one step. -/
def atomically (tx : Transaction ρ α) (s : Store ρ) : Except DatabaseError α × Store ρ :=
  ((s.run tx).1, s.settle (s.run tx))

end Store

/-! ## Running a transaction statement by statement -/

theorem Program.exec_bind {C : Type} {R : C → Type} {S α β : Type}
    {handle : (command : C) → S → R command × S} (p : Program C R α) (f : α → Program C R β)
    (s : S) : (p >>= f).exec handle s = (f (p.exec handle s).1).exec handle (p.exec handle s).2 := by
  show (p.bind f).exec handle s = _
  induction p generalizing s with
  | done a => rfl
  | perform command next ih => exact ih _ _

theorem Program.tryExec_bind {C : Type} {R : C → Type} {S α β : Type}
    {handle : (command : C) → S → Option (R command × S)} (p : Program C R α)
    (f : α → Program C R β) (s : S) :
    (p >>= f).tryExec handle s =
      (p.tryExec handle s).bind fun (a, s') => (f a).tryExec handle s' := by
  show (p.bind f).tryExec handle s = _
  induction p generalizing s with
  | done a => rfl
  | perform command next ih =>
    show (handle command s).bind (fun (reply, s') => ((next reply).bind f).tryExec handle s') =
      ((handle command s).bind fun (reply, s') => (next reply).tryExec handle s').bind _
    cases handle command s with
    | none => rfl
    | some r => exact ih r.1 r.2

theorem Program.tryExec_request {C : Type} {R : C → Type} {S : Type}
    {handle : (command : C) → S → Option (R command × S)} (command : C) (s : S) :
    (Program.request command).tryExec handle s = handle command s := by
  show (handle command s).bind (fun (reply, s') => some (reply, s')) = _
  cases handle command s <;> rfl

/-- A program that returned goes on to the next. -/
theorem Fallible.tryExec_bind_ok {C : Type} {R : C → Type} {S ε α β : Type}
    {handle : (command : C) → S → Option (R command × S)} {p : Fallible ε C R α}
    {f : α → Fallible ε C R β} {s s' : S} {a : α}
    (h : p.run.tryExec handle s = some (.ok a, s')) :
    (p >>= f).run.tryExec handle s = (f a).run.tryExec handle s' := by
  show (p.run >>= ExceptT.bindCont f).tryExec handle s = _
  rw [Program.tryExec_bind, h]
  rfl

namespace Store

variable {ρ : Type} [Keyed ρ] {α β : Type} {s : Store ρ}

@[simp] theorem run_pure (a : α) : s.run (pure a : Transaction ρ α) = (.ok a, s) := rfl

@[simp] theorem run_throw (e : DatabaseError) :
    s.run (throw e : Transaction ρ α) = (.error e, s) := rfl

theorem run_bind (tx : Transaction ρ α) (f : α → Transaction ρ β) :
    s.run (tx >>= f) =
      match s.run tx with
      | (.ok a, s') => s'.run (f a)
      | (.error e, s') => (.error e, s') := by
  have h : s.run (tx >>= f) = (tx.run >>= ExceptT.bindCont f).exec exec s := rfl
  rw [h, Program.exec_bind]
  show _ = match tx.run.exec exec s with
    | (.ok a, s') => s'.run (f a)
    | (.error e, s') => (.error e, s')
  cases tx.run.exec exec s with
  | mk r s' => cases r <;> rfl

theorem run_statement (st : Statement ρ) : s.run (Transaction.statement st) = exec st s := by
  have h : s.run (Transaction.statement st) = ((exec st s).1, (exec st s).2) := rfl
  rw [h]

@[simp] theorem run_findMany (whose : ρ → Bool) :
    s.run (Transaction.findMany whose) = (.ok (s.rows.filter whose), s) := run_statement _

theorem run_bind_ok {tx : Transaction ρ α} {f : α → Transaction ρ β} {a : α} {s' : Store ρ}
    (h : s.run tx = (.ok a, s')) : s.run (tx >>= f) = s'.run (f a) := by
  rw [run_bind, h]

theorem run_bind_error {tx : Transaction ρ α} {f : α → Transaction ρ β} {e : DatabaseError}
    {s' : Store ρ} (h : s.run tx = (.error e, s')) : s.run (tx >>= f) = (.error e, s') := by
  rw [run_bind, h]

theorem run_create {row : Nat → ρ} (h : clashes s.rows (row s.nextKey) = none) :
    s.run (Transaction.create row) = (.ok (row s.nextKey), s.insert (row s.nextKey)) := by
  unfold Transaction.create
  rw [run_bind, run_statement]
  dsimp only [exec]
  rw [h]
  rfl

theorem run_create_of_clash {row : Nat → ρ} {fields : String}
    (h : clashes s.rows (row s.nextKey) = some fields) :
    s.run (Transaction.create row) = (.error (.P2002 fields), s) := by
  unfold Transaction.create
  rw [run_bind, run_statement]
  dsimp only [exec]
  rw [h]

/-- What an `update` answers, from the row it leaves if it found one. -/
def foundOr : Option α → Except DatabaseError α
  | some a => .ok a
  | none => .error .P2025

theorem run_update (whose : ρ → Bool) (change : ρ → ρ) :
    s.run (Transaction.update whose change) =
      (foundOr ((s.rows.find? whose).map change), s.update whose change) := by
  unfold Transaction.update
  rw [run_bind, run_statement, ← List.head?_filter]
  dsimp only [exec]
  cases s.rows.filter whose <;> rfl

@[simp] theorem run_updateMany (whose : ρ → Bool) (change : ρ → ρ) :
    s.run (Transaction.updateMany whose change) =
      (.ok (s.rows.filter whose).length, s.update whose change) := by
  unfold Transaction.updateMany
  rw [run_bind, run_statement]
  dsimp only [exec]
  simp

theorem atomically_ok {tx : Transaction ρ α} {a : α} {s' : Store ρ} (h : s.run tx = (.ok a, s')) :
    s.atomically tx = (.ok a, s') := by
  unfold atomically
  rw [h]
  rfl

theorem atomically_error {tx : Transaction ρ α} {e : DatabaseError} {s' : Store ρ}
    (h : s.run tx = (.error e, s')) : s.atomically tx = (.error e, s) := by
  unfold atomically
  rw [h]
  rfl

end Store

end PracticalMicroservice.Foundations
