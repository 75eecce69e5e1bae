import PracticalMicroservice.Inventory.Service
import Mathlib.Data.List.Perm.Basic

/-!
# What one transaction does to the database

The effect of each statement and of the single-item repository calls, as equations on the
database before and after. Everything about whole operations is derived from these.
-/

namespace PracticalMicroservice.Inventory

/-! ## Running actions -/

theorem Action.bind_apply {α β : Type} (a : Action α) (f : α → Action β) (db : Database) :
    (a >>= f) db = match a db with
      | (.ok x, db') => f x db'
      | (.error e, db') => (.error e, db') := by
  show (ExceptT.bind a f) db = _
  simp only [ExceptT.bind, ExceptT.mk, bind, StateT.bind]
  rcases h : a db with ⟨r, db'⟩
  cases r <;> rfl

theorem Action.get_apply (db : Database) : (get : Action Database) db = (.ok db, db) := rfl

/-- Mapping the result of a call changes neither its outcome nor its effect. -/
theorem Action.map_apply {α β : Type} (a : Action α) (f : α → β) (db : Database) :
    (do let x ← a; return f x : Action β) db = ((a db).1.map f, (a db).2) := by
  rw [Action.bind_apply]
  rcases h : a db with ⟨r, db'⟩
  cases r <;> rfl

theorem commit_of_ok {α : Type} {tx : Transaction α} {db db' : Database} {a : α}
    (h : tx.run db = .ok (a, db')) : commit tx db = (.ok a, db') := by
  simp [commit, h]

theorem commit_of_error {α : Type} {tx : Transaction α} {db : Database} {e : Thrown}
    (h : tx.run db = .error e) : commit tx db = (.error e, db) := by
  simp [commit, h]

/-- A transaction whose callback throws leaves no trace. -/
theorem commit_rejected {α : Type} {tx : Transaction α} {db : Database} {e : Thrown}
    (h : (commit tx db).1 = .error e) : (commit tx db).2 = db := by
  cases hr : tx.run db with
  | ok p => simp [commit, hr] at h
  | error e' => simp [commit, hr]

/-! ## Statements -/

theorem Database.findById_mem {db : Database} {id : String} {item : InventoryItem}
    (h : db.findById id = some item) : item ∈ db.inventoryItems ∧ item.id = id := by
  refine ⟨List.mem_of_find?_eq_some h, ?_⟩
  simpa using List.find?_some h

theorem Database.findByProductId_mem {db : Database} {productId : String} {item : InventoryItem}
    (h : db.findByProductId productId = some item) :
    item ∈ db.inventoryItems ∧ item.productId = productId := by
  refine ⟨List.mem_of_find?_eq_some h, ?_⟩
  simpa using List.find?_some h

/-- Rows are equal as soon as one of their unique keys is. -/
theorem find?_of_nodup_map {α β : Type} [DecidableEq β] {f : α → β} {l : List α}
    (hn : (l.map f).Nodup) {a : α} (ha : a ∈ l) : l.find? (fun x => f x = f a) = some a := by
  induction l with
  | nil => cases ha
  | cons x l ih =>
    rw [List.map_cons, List.nodup_cons] at hn
    rcases List.mem_cons.mp ha with rfl | ha
    · simp
    · have hne : f x ≠ f a := fun e => hn.1 (e ▸ List.mem_map_of_mem ha)
      rw [List.find?_cons_of_neg (by simpa using hne)]
      exact ih hn.2 ha

theorem Database.findById_of_mem {db : Database} {item : InventoryItem}
    (h : item ∈ db.inventoryItems) : db.findById item.id = some item :=
  find?_of_nodup_map (f := InventoryItem.id) db.uniqueKeys.1 h

theorem Database.findByProductId_of_mem {db : Database} {item : InventoryItem}
    (h : item ∈ db.inventoryItems) : db.findByProductId item.productId = some item :=
  find?_of_nodup_map (f := InventoryItem.productId) db.uniqueKeys.2.2 h

def StockLevels.Fits (levels : StockLevels) : Prop :=
  fitsInt4 levels.quantity ∧ fitsInt4 levels.reserved

instance (levels : StockLevels) : Decidable levels.Fits := inferInstanceAs (Decidable (_ ∧ _))

theorem StockLevels.Sound.fits_of_le {levels : StockLevels} (h : levels.Sound) {quantity : Int}
    (hq : fitsInt4 quantity) (hle : levels.quantity ≤ quantity) : levels.Fits := by
  obtain ⟨h1, h2⟩ := h
  unfold fitsInt4 at hq
  exact ⟨⟨by omega, by omega⟩, ⟨by omega, by omega⟩⟩

/-- New levels for the rows `assign` names, leaving their keys alone. -/
def assignLevels (assign : String → Option StockLevels) (row : InventoryItem) : InventoryItem :=
  match assign row.id with
  | some next => row.setLevels next
  | none => row

@[simp] theorem assignLevels_id (assign : String → Option StockLevels) (row : InventoryItem) :
    (assignLevels assign row).id = row.id := by
  unfold assignLevels; split <;> rfl

@[simp] theorem assignLevels_sku (assign : String → Option StockLevels) (row : InventoryItem) :
    (assignLevels assign row).sku = row.sku := by
  unfold assignLevels; split <;> rfl

@[simp] theorem assignLevels_productId (assign : String → Option StockLevels)
    (row : InventoryItem) : (assignLevels assign row).productId = row.productId := by
  unfold assignLevels; split <;> rfl

theorem assignLevels_fits {assign : String → Option StockLevels} {row : InventoryItem}
    (hr : row.Fits) (ha : ∀ next, assign row.id = some next → next.Fits) :
    (assignLevels assign row).Fits := by
  unfold assignLevels
  split
  · rename_i next h
    exact ⟨(ha next h).1, (ha next h).2, hr.2.2⟩
  · exact hr

theorem uniqueKeys_map_assign {rows : List InventoryItem} (h : UniqueKeys rows)
    (assign : String → Option StockLevels) : UniqueKeys (rows.map (assignLevels assign)) := by
  have hid : (rows.map (assignLevels assign)).map (·.id) = rows.map (·.id) := by
    rw [List.map_map]; exact List.map_congr_left fun r _ => assignLevels_id assign r
  have hsku : (rows.map (assignLevels assign)).map (·.sku) = rows.map (·.sku) := by
    rw [List.map_map]; exact List.map_congr_left fun r _ => assignLevels_sku assign r
  have hp : (rows.map (assignLevels assign)).map (·.productId) = rows.map (·.productId) := by
    rw [List.map_map]; exact List.map_congr_left fun r _ => assignLevels_productId assign r
  unfold UniqueKeys
  rw [hid, hsku, hp]
  exact h

/-- The database after giving the rows `assign` names their new levels. -/
def Database.assign (db : Database) (assign : String → Option StockLevels)
    (h : ∀ id next, assign id = some next → next.Fits) : Database :=
  { db with
    inventoryItems := db.inventoryItems.map (assignLevels assign)
    uniqueKeys := uniqueKeys_map_assign db.uniqueKeys assign
    columnsFit := by
      intro item hi
      obtain ⟨row, hr, rfl⟩ := List.mem_map.mp hi
      exact assignLevels_fits (db.columnsFit row hr) fun next hn => h row.id next hn }

/-- New levels for one row only. -/
def assignOne (id : String) (next : StockLevels) (other : String) : Option StockLevels :=
  if other = id then some next else none

theorem assignOne_fits {id : String} {next : StockLevels} (h : next.Fits) :
    ∀ other levels, assignOne id next other = some levels → levels.Fits := by
  intro other levels he
  unfold assignOne at he
  split at he
  · cases he; exact h
  · cases he

/-- The rows `updateItem` writes for new levels. -/
theorem updateLevels_rows (rows : List InventoryItem) (id : String) (next : StockLevels) :
    (rows.map fun row => if row.id = id then row.setLevels next else row) =
      rows.map (assignLevels (assignOne id next)) := by
  refine List.map_congr_left fun row _ => ?_
  unfold assignLevels assignOne
  by_cases h : row.id = id <;> simp [h]

theorem writeItems_assign {db : Database} {assign : String → Option StockLevels}
    (h : ∀ id next, assign id = some next → next.Fits) :
    db.writeItems (db.inventoryItems.map (assignLevels assign)) = .ok (db.assign assign h) := by
  have hf : ∀ row ∈ db.inventoryItems.map (assignLevels assign), row.Fits :=
    (db.assign assign h).columnsFit
  unfold Database.writeItems
  rw [dif_pos (uniqueKeys_map_assign db.uniqueKeys assign), dif_pos hf]
  rfl

theorem updateLevels_run_of_fits {db : Database} {id : String} {item : InventoryItem}
    {next : StockLevels} (hfind : db.findById id = some item) (hfit : next.Fits) :
    (Tx.updateItem id (·.setLevels next)).run db =
      .ok (item.setLevels next, db.assign (assignOne id next) (assignOne_fits hfit)) := by
  simp only [Tx.updateItem, StateT.run_bind, StateT.run_get, pure_bind, hfind, Tx.writeItems,
    updateLevels_rows, writeItems_assign (assignOne_fits hfit), StateT.run_set, StateT.run_pure]
  rfl

theorem updateLevels_run_of_not_fits {db : Database} {id : String} {item : InventoryItem}
    {next : StockLevels} (hfind : db.findById id = some item) (hfit : ¬ next.Fits) :
    (Tx.updateItem id (·.setLevels next)).run db = .error (.database .valueOutOfRange) := by
  have hf : ¬ ∀ row ∈ db.inventoryItems.map (assignLevels (assignOne id next)), row.Fits := by
    intro h
    obtain ⟨hmem, hid⟩ := Database.findById_mem hfind
    have hr := h _ (List.mem_map_of_mem hmem)
    simp only [assignLevels, assignOne, hid, if_true] at hr
    exact hfit ⟨hr.1, hr.2.1⟩
  have hw : db.writeItems (db.inventoryItems.map (assignLevels (assignOne id next))) =
      .error .valueOutOfRange := by
    unfold Database.writeItems
    rw [dif_pos (uniqueKeys_map_assign db.uniqueKeys (assignOne id next)), dif_neg hf]
  simp only [Tx.updateItem, StateT.run_bind, StateT.run_get, pure_bind, hfind, Tx.writeItems,
    updateLevels_rows, hw]
  rfl

/-! ## A single stock change -/

/-- Appends ledger rows. -/
def Database.record (db : Database) (rows : List StockMovementHistory) : Database :=
  { db with stockMovements := db.stockMovements ++ rows }

theorem applyStockChange_missing {db : Database} {id : String}
    (plan : InventoryItem → Except AppError StockChangePlan) (h : db.findById id = none) :
    Repository.applyStockChange id plan db =
      (.error (.app (.NotFoundError s!"Inventory item '{id}' was not found")), db) := by
  apply commit_of_error
  simp only [Tx.findUnique, StateT.run_bind, StateT.run_get, pure_bind, StateT.run_pure, h]
  rfl

theorem applyStockChange_refused {db : Database} {id : String} {item : InventoryItem}
    {plan : InventoryItem → Except AppError StockChangePlan} {error : AppError}
    (h : db.findById id = some item) (hp : plan item = .error error) :
    Repository.applyStockChange id plan db = (.error (.app error), db) := by
  apply commit_of_error
  simp only [Tx.findUnique, StateT.run_bind, StateT.run_get, pure_bind, StateT.run_pure, h, hp,
    liftPlan]
  rfl

theorem applyStockChange_accepted {db : Database} {id : String} {item : InventoryItem}
    {plan : InventoryItem → Except AppError StockChangePlan} {next : StockChangePlan}
    (h : db.findById id = some item) (hp : plan item = .ok next) (hfit : next.levels.Fits) :
    Repository.applyStockChange id plan db =
      (.ok (item.setLevels next.levels),
        (db.assign (assignOne id next.levels) (assignOne_fits hfit)).record
          [next.movement.row item]) := by
  apply commit_of_ok
  simp only [Tx.findUnique, StateT.run_bind, StateT.run_get, pure_bind, StateT.run_pure, h, hp,
    liftPlan, updateLevels_run_of_fits h hfit, Tx.createMovements]
  rfl

theorem applyStockChange_out_of_range {db : Database} {id : String} {item : InventoryItem}
    {plan : InventoryItem → Except AppError StockChangePlan} {next : StockChangePlan}
    (h : db.findById id = some item) (hp : plan item = .ok next) (hfit : ¬ next.levels.Fits) :
    Repository.applyStockChange id plan db = (.error (.database .valueOutOfRange), db) := by
  apply commit_of_error
  simp only [Tx.findUnique, StateT.run_bind, StateT.run_get, pure_bind, StateT.run_pure, h, hp,
    liftPlan, updateLevels_run_of_not_fits h hfit]
  rfl

end PracticalMicroservice.Inventory
