import PracticalMicroservice.Foundations.Doubles
import PracticalMicroservice.Inventory.Schema
import Mathlib.Data.List.Sort

/-!
# The cart's arithmetic (`cart.planner.ts`)

Cart lines, the diff of a request against what the cart holds, and the JavaScript maps both are
computed with. A map keeps its entries in insertion order, each key once.
-/

namespace PracticalMicroservice.Cart

open Foundations (double)

/-- `CartLine`, and `StockLine`, which has the same shape. -/
structure CartLine where
  productId : String
  quantity : Nat
  deriving DecidableEq, Repr

/-- The units some lines name of a product. -/
def quantityOf (lines : List CartLine) (productId : String) : Nat :=
  ((lines.filter (·.productId = productId)).map (·.quantity)).sum

/-! ## Maps -/

namespace Entries

variable {κ α : Type} [DecidableEq κ]

/-- `map.get(key)`. -/
def get (entries : List (κ × α)) (key : κ) : Option α :=
  (entries.find? (·.1 = key)).map (·.2)

/-- `map.set(key, value)`: in place when the key is there, else at the end. -/
def set (entries : List (κ × α)) (key : κ) (value : α) : List (κ × α) :=
  match entries with
  | [] => [(key, value)]
  | entry :: rest =>
    if entry.1 = key then (key, value) :: rest else entry :: set rest key value

/-- `map.delete(key)`. -/
def delete (entries : List (κ × α)) (key : κ) : List (κ × α) :=
  entries.filter (·.1 ≠ key)

/-- Each key once. -/
def Distinct (entries : List (κ × α)) : Prop := (entries.map Prod.fst).Nodup

instance (entries : List (κ × α)) : Decidable (Distinct entries) :=
  inferInstanceAs (Decidable (List.Nodup _))

theorem mem_keys_set {entries : List (κ × α)} {key k : κ} {value : α}
    (h : k ∈ (set entries key value).map Prod.fst) : k = key ∨ k ∈ entries.map Prod.fst := by
  induction entries with
  | nil => exact .inl (by simpa [set] using h)
  | cons entry rest ih =>
    rw [set] at h
    split at h
    · rcases List.mem_cons.mp h with h | h
      · exact .inl h
      · exact .inr (List.mem_cons_of_mem _ h)
    · rcases List.mem_cons.mp h with h | h
      · exact .inr (h ▸ List.mem_cons_self)
      · exact (ih h).imp_right (List.mem_cons_of_mem _)

theorem Distinct.set {entries : List (κ × α)} (h : Distinct entries) (key : κ) (value : α) :
    Distinct (set entries key value) := by
  induction entries with
  | nil => exact List.nodup_singleton _
  | cons entry rest ih =>
    obtain ⟨hn, hrest⟩ := List.nodup_cons.mp h
    unfold Distinct
    rw [Entries.set]
    split
    · rename_i he
      exact List.nodup_cons.mpr ⟨he ▸ hn, hrest⟩
    · rename_i he
      refine List.nodup_cons.mpr ⟨fun hm => ?_, ih hrest⟩
      rcases mem_keys_set hm with h | h
      · exact he h
      · exact hn h

theorem Distinct.delete {entries : List (κ × α)} (h : Distinct entries) (key : κ) :
    Distinct (delete entries key) :=
  h.sublist (List.filter_sublist.map _)

end Entries

/-- `Map<string, number>` from product to quantity. -/
abbrev Held := List (String × Nat)

/-- `heldQuantities`, over entries whose text `Number` has already read: anything that is not a
positive number of a named product is dropped. -/
def heldQuantities (entries : List (String × Int)) : Held :=
  entries.foldl
    (fun held entry =>
      if entry.1 ≠ "" ∧ entry.2 > 0 then Entries.set held entry.1 entry.2.toNat else held) []

/-- The units of a product in a record's fields. -/
def recorded (fields : List (String × Int)) (productId : String) : Nat :=
  (Entries.get (heldQuantities fields) productId).getD 0

/-- `toCartLines`, where `collates` is `localeCompare(a, b) <= 0` of the host's locale. -/
def toCartLines (collates : String → String → Bool) (held : Held) : List CartLine :=
  (held.map fun entry => { productId := entry.1, quantity := entry.2 : CartLine }).insertionSort
    fun a b => collates a.productId b.productId = true

/-! ## The diff -/

/-- `CartChanges`. -/
structure CartChanges where
  writes : List CartLine
  removals : List String
  reserve : List CartLine
  release : List CartLine
  size : Nat
  deriving DecidableEq, Repr

def isNoop (changes : CartChanges) : Bool :=
  changes.reserve.length == 0 && changes.release.length == 0

/-- One turn of the loop of `planChanges`, on the changes so far and the settled map. A difference
of two doubles is rounded to a double. -/
def planLine (state : CartChanges × Held) (line : CartLine) : CartChanges × Held :=
  let (changes, settled) := state
  let before := (Entries.get settled line.productId).getD 0
  if line.quantity = before then state
  else
    let (changes, settled) :=
      if line.quantity = 0 then
        ({ changes with removals := changes.removals ++ [line.productId] },
          Entries.delete settled line.productId)
      else
        ({ changes with writes := changes.writes ++ [line] },
          Entries.set settled line.productId line.quantity)
    if line.quantity > before then
      let delta := double (line.quantity - before)
      ({ changes with reserve := changes.reserve ++ [{ line with quantity := delta }] }, settled)
    else
      let delta := double (before - line.quantity)
      ({ changes with release := changes.release ++ [{ line with quantity := delta }] }, settled)

/-- `planChanges`. -/
def planChanges (held : Held) (requested : List CartLine) : CartChanges :=
  let (changes, settled) := requested.foldl planLine
    ({ writes := [], removals := [], reserve := [], release := [], size := 0 }, held)
  { changes with size := settled.length }

/-- `duplicateProductIds`, on the two sets of the source as lists. -/
def duplicateProductIds (items : List CartLine) : List String :=
  (items.foldl
    (fun (seen, duplicates) item =>
      (if item.productId ∈ seen then seen else seen ++ [item.productId],
        if item.productId ∈ seen ∧ item.productId ∉ duplicates then
          duplicates ++ [item.productId]
        else duplicates))
    (([], []) : List String × List String)).2

def MAX_BULK_LINES : Nat := 50

def exceedsBulkLimit (changes : CartChanges) : Bool :=
  changes.size > MAX_BULK_LINES

end PracticalMicroservice.Cart
