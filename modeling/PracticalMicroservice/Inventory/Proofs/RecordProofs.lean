import PracticalMicroservice.Inventory.Proofs.BulkRefinementProofs
import PracticalMicroservice.Inventory.Proofs.PatchProofs
import Mathlib.Data.List.Find

/-!
# What an operation does to what is on record of one item

`Operation.turn` says everything an operation can do to one item and its rows: leave them alone,
open the item, move its stock, patch it, or take the item and its rows away.
-/

namespace PracticalMicroservice.Inventory

open Foundations (Ensures)

/-- What is on record of one item. -/
structure Record where
  item : Option InventoryItem
  movements : List StockMovementHistory
  audits : List InventoryAuditLog

def Database.recordOf (db : Database) (id : String) : Record where
  item := db.findById id
  movements := db.movementsOf id
  audits := db.auditLogs.filter (·.itemId = id)

/-- The movement a new item starts with. -/
def openingMovements (item : InventoryItem) : List StockMovementHistory :=
  if item.quantity > 0 then
    [{ itemId := item.id, type := .INBOUND, quantityChanged := item.quantity, lastQuantity := 0,
       reason := some "Initial stock", reference := none }]
  else []

/-- New levels for an item, with the row that says so. -/
structure MovedBy (db : Database) (op : Operation) (item : InventoryItem) (next : StockLevels)
    (row : StockMovementHistory) : Prop where
  changed : next ≠ item.levels
  before : row.lastQuantity = item.quantity
  directed : ¬ op.Lowers db → next.quantity = row.type.effect row.quantityChanged item.quantity
  lowered : op.Lowers db → row.type = .ADJUSTMENT ∧ 0 ≤ row.quantityChanged

/-- What one operation does to what is on record of one item. -/
inductive Turn (db : Database) (op : Operation) (id : String) : Record → Record → Prop
  | kept (r : Record) : Turn db op id r r
  | created (item : InventoryItem) : item.id = id → 0 ≤ item.quantity →
      uuidText item.productId = item.productId →
      Turn db op id ⟨none, [], []⟩ ⟨some item, openingMovements item, []⟩
  | moved (item : InventoryItem) (movements : List StockMovementHistory)
      (audits : List InventoryAuditLog) (next : StockLevels) (row : StockMovementHistory) :
      (∀ body actor, op ≠ .request (.update id body actor)) → MovedBy db op item next row →
      Turn db op id ⟨some item, movements, audits⟩
        ⟨some (item.setLevels next), movements ++ [row], audits⟩
  | patched (item : InventoryItem) (movements : List StockMovementHistory)
      (audits : List InventoryAuditLog) (body : UpdateInventoryItemInput)
      (actor : Option String) :
      op = .request (.update id body actor) → db.AdmitsPatch id body →
      db.findById id = some item →
      Turn db op id ⟨some item, movements, audits⟩
        ⟨some (item.applyPatch body),
          movements ++ patchMovements id actor item (item.applyPatch body),
          audits ++ patchLogs id actor (diffInventoryItem item body)⟩
  | removed (r : Record) : Turn db op id r ⟨none, [], []⟩

/-- An item that is not in the table has left no rows. -/
def Owned (db : Database) : Prop :=
  ∀ id, db.findById id = none → db.movementsOf id = [] ∧ db.auditLogs.filter (·.itemId = id) = []

/-! ## Reading the tables of one item -/

section Reading

variable {db db' : Database} {op : Operation} {id : String}

theorem movementsOf_append {rows : List StockMovementHistory}
    (h : db'.stockMovements = db.stockMovements ++ rows) (id : String) :
    db'.movementsOf id = db.movementsOf id ++ rows.filter (·.itemId = id) := by
  unfold Database.movementsOf
  rw [h, List.filter_append]

/-- A rewriting of rows that keeps their ids is read off row by row. -/
theorem findById_map {f : InventoryItem → InventoryItem}
    (h : db'.inventoryItems = db.inventoryItems.map f)
    (hid : ∀ row ∈ db.inventoryItems, (f row).id = row.id) (id : String) :
    db'.findById id = (db.findById id).map f := by
  unfold Database.findById
  rw [h, List.find?_map]
  congr 1
  refine List.find?_congr fun row hrow => ?_
  simp [hid row hrow]

theorem Database.recordOf_mk {item : Option InventoryItem} {movements : List StockMovementHistory}
    {audits : List InventoryAuditLog} (h1 : db.findById id = item)
    (h2 : db.movementsOf id = movements) (h3 : db.auditLogs.filter (·.itemId = id) = audits) :
    db.recordOf id = ⟨item, movements, audits⟩ := by
  unfold Database.recordOf
  rw [h1, h2, h3]

theorem Database.recordOf_eq (h1 : db'.findById id = db.findById id)
    (h2 : db'.movementsOf id = db.movementsOf id)
    (h3 : db'.auditLogs.filter (·.itemId = id) = db.auditLogs.filter (·.itemId = id)) :
    db'.recordOf id = db.recordOf id := by
  unfold Database.recordOf
  rw [h1, h2, h3]

/-- An operation that leaves the database alone leaves every record alone. -/
theorem Turn.of_same (h : db' = db) : Turn db op id (db.recordOf id) (db'.recordOf id) := by
  rw [h]
  exact .kept _

end Reading

/-! ## The single-item operations -/

section Change

variable {db : Database} {r : Request} {c : StockChange} {item : InventoryItem}
  {next : StockLevels}

/-- A movement that is none of the corrections, and moves what its type says. -/
theorem movedBy_of_directed {op : Operation} {row : StockMovementHistory}
    (hl : ¬ op.Lowers db) (hne : next ≠ item.levels) (hb : row.lastQuantity = item.quantity)
    (hd : next.quantity = row.type.effect row.quantityChanged item.quantity) :
    MovedBy db op item next row :=
  ⟨hne, hb, fun _ => hd, fun h => absurd h hl⟩

theorem planReservation_ok {quantity : Int} (h : planReservation item.levels quantity = .ok next) :
    next = { quantity := item.quantity, reserved := item.reserved + quantity } := by
  unfold planReservation at h
  simp only at h
  split at h
  · cases h
  · cases h
    rfl

theorem planRelease_ok {quantity : Int} (h : planRelease item.levels quantity = .ok next) :
    next = { quantity := item.quantity, reserved := item.reserved - quantity } := by
  unfold planRelease at h
  split at h
  · cases h
  · cases h
    rfl

theorem planFulfilment_ok {quantity : Int} (h : planFulfilment item.levels quantity = .ok next) :
    next = { quantity := item.quantity - quantity, reserved := item.reserved - quantity } := by
  unfold planFulfilment at h
  split at h
  · cases h
  · cases h
    rfl

theorem planSale_ok {quantity : Int} (h : planSale item.levels quantity = .ok next) :
    next = { quantity := item.quantity - quantity, reserved := item.reserved } := by
  unfold planSale at h
  simp only at h
  split at h
  · cases h
  · cases h
    rfl

theorem planReceipt_ok {quantity : Int} (h : planReceipt item.levels quantity = .ok next) :
    next = { quantity := item.quantity + quantity, reserved := item.reserved } := by
  cases h
  rfl

theorem planAdjustment_ok {delta : Int} (h : planAdjustment item.levels delta = .ok next) :
    item.reserved ≤ item.quantity + delta ∧
      next = { quantity := item.quantity + delta, reserved := item.reserved } := by
  unfold planAdjustment at h
  simp only at h
  split at h
  · cases h
  · rename_i hle
    cases h
    refine ⟨?_, rfl⟩
    simp only [InventoryItem.levels] at hle
    omega

/-- What the planners of the single-item operations plan, the row they write tells. -/
theorem change_movedBy (hc : r.change? = some c) (hf : db.findById c.id = some item)
    (hp : c.plan item.levels = .ok next) :
    MovedBy db (.request r) item next
      (MovementPlan.row ⟨c.type, c.quantity, c.reason, c.reference⟩ item) := by
  have hne : ∀ {a b : Int}, a ≠ item.quantity ∨ b ≠ item.reserved →
      (⟨a, b⟩ : StockLevels) ≠ item.levels := by
    intro a b h he
    cases he
    rcases h with h | h <;> exact h rfl
  cases r with
  | receive id body =>
    cases hc
    rw [planReceipt_ok hp]
    have := body.quantity.positive
    exact movedBy_of_directed (fun h => h.elim) (hne (.inl (by omega))) rfl rfl
  | acceptReturn id body =>
    cases hc
    rw [planReceipt_ok hp]
    have := body.quantity.positive
    exact movedBy_of_directed (fun h => h.elim) (hne (.inl (by omega))) rfl rfl
  | sell id body =>
    cases hc
    rw [planSale_ok hp]
    have := body.quantity.positive
    exact movedBy_of_directed (fun h => h.elim) (hne (.inl (by omega))) rfl rfl
  | adjust id body =>
    cases hc
    obtain ⟨hle, rfl⟩ := planAdjustment_ok hp
    have hdelta := body.delta.nonzero
    refine ⟨hne (.inl (by omega)), rfl, fun hl => ?_, fun _ => ⟨rfl, Int.natCast_nonneg _⟩⟩
    have hpos : 0 ≤ body.delta.value := by
      by_contra hneg
      exact hl ⟨by omega, item, hf, hle⟩
    show item.quantity + body.delta.value = item.quantity + (body.delta.value.natAbs : Int)
    omega
  | reserve id body =>
    cases hc
    rw [planReservation_ok hp]
    have := body.quantity.positive
    exact movedBy_of_directed (fun h => h.elim) (hne (.inr (by omega))) rfl rfl
  | release id body =>
    cases hc
    rw [planRelease_ok hp]
    have := body.quantity.positive
    exact movedBy_of_directed (fun h => h.elim) (hne (.inr (by omega))) rfl rfl
  | fulfil id body =>
    cases hc
    rw [planFulfilment_ok hp]
    have := body.quantity.positive
    exact movedBy_of_directed (fun h => h.elim) (hne (.inl (by omega))) rfl rfl
  | create id createdAt body => cases hc
  | update id body actor => cases hc
  | remove id => cases hc
  | reserveMany body => cases hc
  | releaseMany body => cases hc

theorem change_not_update (hc : r.change? = some c) (id : String)
    (body : UpdateInventoryItemInput) (actor : Option String) :
    Operation.request r ≠ .request (.update id body actor) := by
  intro he
  injection he with he
  rw [he] at hc
  cases hc

theorem StockChange.run_snd (c : StockChange) (db : Database) :
    (c.run db).2 = (Repository.applyStockChange c.id c.planned db).2 := by
  unfold StockChange.run Service.applyChange
  rw [Action.map_apply]
  rfl

theorem StockChange.run_accepted {next : StockChangePlan} (hf : db.findById c.id = some item)
    (hp : c.planned item = .ok next) (hfit : next.levels.Fits) :
    (c.run db).2.findById c.id = some (item.setLevels next.levels) := by
  rw [c.run_snd, applyStockChange_accepted hf hp hfit]
  have hfind : ((db.assign (assignOne c.id next.levels) (assignOne_fits hfit)).record
      [next.movement.row item]).findById c.id =
        (db.findById c.id).map (assignLevels (assignOne c.id next.levels)) :=
    findById_map rfl (fun row _ => assignLevels_id _ row) c.id
  rw [hfind, hf, Option.map_some]
  simp [assignLevels, assignOne, (Database.findById_mem hf).2]

/-- One item is moved, and no other is touched. -/
theorem change_turn (hc : r.change? = some c) (db : Database) (id : String) :
    Turn db (.request r) id (db.recordOf id) ((c.run db).2.recordOf id) := by
  rw [c.run_snd]
  cases hf : db.findById c.id with
  | none => exact .of_same (by rw [applyStockChange_missing _ hf])
  | some item =>
    cases hp : c.planned item with
    | error e => exact .of_same (by rw [applyStockChange_refused hf hp])
    | ok next =>
      by_cases hfit : next.levels.Fits
      · rw [applyStockChange_accepted hf hp hfit]
        obtain ⟨hplan, -, hmove⟩ := planChange_eq_ok.mp hp
        have hitem := (Database.findById_mem hf).2
        set db' := (db.assign (assignOne c.id next.levels) (assignOne_fits hfit)).record
          [next.movement.row item] with hdb'
        have hfind : db'.findById id =
            (db.findById id).map (assignLevels (assignOne c.id next.levels)) :=
          findById_map rfl (fun row _ => assignLevels_id _ row) id
        have hmoves : db'.movementsOf id = db.movementsOf id ++
            [next.movement.row item].filter (·.itemId = id) := movementsOf_append rfl id
        by_cases hid : c.id = id
        · subst hid
          have hlevels : assignLevels (assignOne c.id next.levels) item =
              item.setLevels next.levels := by
            simp [assignLevels, assignOne, hitem]
          have hone : [next.movement.row item].filter (·.itemId = c.id) =
              [next.movement.row item] := by
            simp [MovementPlan.row, hitem]
          rw [hf, Option.map_some, hlevels] at hfind
          rw [hone] at hmoves
          rw [Database.recordOf_mk hf rfl rfl, Database.recordOf_mk hfind hmoves rfl, hmove]
          exact .moved item _ _ next.levels _ (change_not_update hc c.id)
            (change_movedBy hc hf hplan)
        · have hnone : [next.movement.row item].filter (·.itemId = id) = [] := by
            simp [MovementPlan.row, hitem, hid]
          rw [hnone, List.append_nil] at hmoves
          have hsame : db'.findById id = db.findById id := by
            rw [hfind]
            cases hrow : db.findById id with
            | none => rfl
            | some row =>
              have hne : ¬ row.id = c.id := fun he => hid (he ▸ (Database.findById_mem hrow).2)
              simp [assignLevels, assignOne, hne]
          rw [Database.recordOf_eq hsame hmoves rfl]
          exact .kept _
      · exact .of_same (by rw [applyStockChange_out_of_range hf hp hfit])

end Change

/-! ## The bulk operations -/

section Bulk

variable {t : Transition} {db db' : Database} {input : BulkStockInput} {item : InventoryItem}

theorem eq_of_findById {row : InventoryItem} (hi : db.findById item.id = some item)
    (hr : db.findById row.id = some row) (h : row.id = item.id) : row = item := by
  rw [h, hi] at hr
  exact (Option.some.inj hr).symm

/-- The rows of a batch that are about one item: the row of its line, if it has one. -/
theorem bulkRows_filter (t : Transition) (input : BulkStockInput) (hitem : item ∈ db.inventoryItems) {lines : List BulkStockLine}
    (hn : (lines.map (·.productId)).Nodup) :
    (∀ line ∈ lines, line.productId = item.productId →
      (bulkRows t db input lines).filter (·.itemId = item.id) =
        [(acceptedPlan t input line item).movement.row item]) ∧
    (item.productId ∉ lines.map (·.productId) →
      (bulkRows t db input lines).filter (·.itemId = item.id) = []) := by
  induction lines with
  | nil =>
    refine ⟨fun line hl => ?_, fun _ => rfl⟩
    cases hl
  | cons line lines ih =>
    rw [List.map_cons, List.nodup_cons] at hn
    obtain ⟨ih1, ih2⟩ := ih hn.2
    have hcons : bulkRows t db input (line :: lines) =
        bulkRows t db input [line] ++ bulkRows t db input lines := by
      unfold bulkRows
      rw [← List.map_append, ← List.filterMap_append, List.singleton_append]
    have hother : line.productId ≠ item.productId →
        (bulkRows t db input [line]).filter (·.itemId = item.id) = [] := by
      intro hne
      cases hf : db.findByProductId line.productId with
      | none => simp [bulkRows, targetOf, hf]
      | some other =>
        obtain ⟨hm, hp⟩ := Database.findByProductId_mem hf
        have hid : ¬ other.id = item.id := fun he =>
          hne (hp ▸ congrArg _ (eq_of_findById (Database.findById_of_mem hitem)
            (Database.findById_of_mem hm) he))
        simp [bulkRows, targetOf, hf, MovementPlan.row, hid]
    have hown : line.productId = item.productId →
        (bulkRows t db input [line]).filter (·.itemId = item.id) =
          [(acceptedPlan t input line item).movement.row item] := by
      intro he
      have hf : db.findByProductId line.productId = some item :=
        he ▸ Database.findByProductId_of_mem hitem
      simp [bulkRows, targetOf, hf, MovementPlan.row]
    constructor
    · intro line' hl he
      rw [hcons, List.filter_append]
      rcases List.mem_cons.mp hl with rfl | hl
      · rw [hown he, ih2 (he ▸ hn.1), List.append_nil]
      · have hne : line.productId ≠ item.productId := fun heq =>
          hn.1 (List.mem_map.mpr ⟨line', hl, he.trans heq.symm⟩)
        rw [hother hne, ih1 line' hl he, List.nil_append]
    · intro hnot
      rw [List.map_cons, List.mem_cons, not_or] at hnot
      rw [hcons, List.filter_append, hother (fun he => hnot.1 he.symm), ih2 hnot.2,
        List.append_nil]

/-- Each item of the batch is moved by its line, and no other is touched. -/
theorem bulk_turn (op : Operation) (hl : ¬ op.Lowers db)
    (hu : ∀ id body actor, op ≠ .request (.update id body actor)) (t : Transition)
    (input : BulkStockInput) (key : Option IdempotencyKey) (id : String) :
    Turn db op id (db.recordOf id) ((t.bulk input key db).2.recordOf id) := by
  obtain ⟨views, db', hrun, heff, -, -⟩ | ⟨_, _, hrun, -⟩ | ⟨k, -, -, hrun⟩ :=
    bulk_cases t input key db
  · rw [hrun]
    obtain ⟨rows, hrows, hperm⟩ := heff.ledger
    have hfind := findById_map heff.items (fun _ _ => rfl) id
    have hmoves := movementsOf_append hrows id
    have haudits : db'.auditLogs.filter (·.itemId = id) = db.auditLogs.filter (·.itemId = id) := by
      rw [heff.audit]
    cases hf : db.findById id with
    | none =>
      have hnone : rows.filter (·.itemId = id) = [] := by
        rw [List.filter_eq_nil_iff]
        intro row hr he
        obtain ⟨target, ht, rfl⟩ := List.mem_map.mp (hperm.mem_iff.mp hr)
        obtain ⟨line, -, hfound, -⟩ := mem_targets ht
        have hmem := Database.findById_of_mem (Database.findByProductId_mem hfound).1
        have hid : target.2.id = id := of_decide_eq_true he
        rw [hid, hf] at hmem
        cases hmem
      rw [hf] at hfind
      rw [hnone, List.append_nil] at hmoves
      rw [Database.recordOf_eq (hfind.trans hf.symm) hmoves haudits]
      exact .kept _
    | some item =>
      obtain ⟨hmem, hid⟩ := Database.findById_mem hf
      subst hid
      obtain ⟨hline, hnot⟩ := bulkRows_filter t input hmem input.distinct
      rw [hf, Option.map_some] at hfind
      by_cases hp : item.productId ∈ input.items.map (·.productId)
      · obtain ⟨line, hlm, hpid⟩ := List.mem_map.mp hp
        have hone : rows.filter (·.itemId = item.id) =
            [(acceptedPlan t input line item).movement.row item] := by
          have hfilter := hperm.filter (·.itemId = item.id)
          rw [hline line hlm hpid] at hfilter
          exact List.perm_singleton.mp hfilter
        rw [hone] at hmoves
        rw [Database.recordOf_mk hf rfl rfl, Database.recordOf_mk hfind hmoves haudits]
        have hpos := line.quantity.positive
        have hq : lineQuantity input.items item.productId = line.quantity.value := by
          rw [← hpid]
          exact lineQuantity_of_mem input.distinct hlm
        refine .moved item _ _ _ _ (hu item.id) (movedBy_of_directed hl ?_ rfl ?_)
        · intro he
          have hr : item.reserved + t.shift * lineQuantity input.items item.productId =
              item.reserved := congrArg StockLevels.reserved he
          rw [hq] at hr
          cases t with
          | reserve => simp only [Transition.shift] at hr; omega
          | release => simp only [Transition.shift] at hr; omega
        · cases t <;> rfl
      · have hone : rows.filter (·.itemId = item.id) = [] := by
          have hfilter := hperm.filter (·.itemId = item.id)
          rw [hnot hp] at hfilter
          exact List.perm_nil.mp hfilter
        rw [hone, List.append_nil] at hmoves
        rw [shiftItem_of_not_mem hp] at hfind
        rw [Database.recordOf_eq (hfind.trans hf.symm) hmoves haudits]
        exact .kept _
  · exact .of_same (by rw [hrun])
  · exact .of_same (by rw [hrun])

end Bulk

/-! ## Patches, creations and removals -/

section Rows

variable {db db' : Database} {op : Operation}

theorem patchLogs_itemId {id : String} {actor : Option String} {changes : List FieldChange}
    {row : InventoryAuditLog} (h : row ∈ patchLogs id actor changes) : row.itemId = id := by
  obtain ⟨change, -, rfl⟩ := List.mem_map.mp h
  rfl

theorem patchMovements_itemId {id : String} {actor : Option String}
    {current updated : InventoryItem} {row : StockMovementHistory}
    (h : row ∈ patchMovements id actor current updated) : row.itemId = id := by
  unfold patchMovements at h
  split at h
  · rw [List.mem_singleton.mp h]
  · cases h

/-- The rows of the trail that are about one item only. -/
theorem filter_itemId {α : Type} {rows : List α} {itemId : α → String} {id : String}
    (h : ∀ row ∈ rows, itemId row = id) (other : String) :
    rows.filter (itemId · = other) = if id = other then rows else [] := by
  by_cases hid : id = other
  · rw [if_pos hid, List.filter_eq_self]
    exact fun row hr => decide_eq_true ((h row hr).trans hid)
  · rw [if_neg hid, List.filter_eq_nil_iff]
    exact fun row hr he => hid ((h row hr).symm.trans (of_decide_eq_true he))

theorem update_turn (id : String) (body : UpdateInventoryItemInput) (actor : Option String)
    (db : Database) (other : String) :
    Turn db (.request (.update id body actor)) other (db.recordOf other)
      ((updateCall id body actor db).2.recordOf other) := by
  obtain ⟨_, hrun, -⟩ | ⟨current, hf, -, ⟨-, hrun⟩ | ⟨-, hadm, db', hrun, heff⟩⟩ :=
    update_cases id body actor db
  · exact .of_same (by rw [hrun])
  · exact .of_same (by rw [hrun])
  · rw [hrun]
    have hfind := findById_map (f := fun row => if row.id = id then row.applyPatch body else row)
      heff.items (fun row _ => by split <;> rfl) other
    have hmoves := movementsOf_append heff.ledger other
    rw [filter_itemId (fun row => patchMovements_itemId)] at hmoves
    have haudits : db'.auditLogs.filter (·.itemId = other) =
        db.auditLogs.filter (·.itemId = other) ++
          if id = other then patchLogs id actor (diffInventoryItem current body) else [] := by
      rw [heff.logs, List.filter_append, filter_itemId (fun row => patchLogs_itemId)]
    by_cases hid : id = other
    · subst hid
      have hcurrent := (Database.findById_mem hf).2
      rw [hf, Option.map_some, if_pos hcurrent] at hfind
      rw [if_pos rfl] at hmoves haudits
      rw [Database.recordOf_mk hf rfl rfl, Database.recordOf_mk hfind hmoves haudits]
      exact .patched current _ _ body actor rfl hadm hf
    · rw [if_neg hid, List.append_nil] at hmoves haudits
      have hsame : db'.findById other = db.findById other := by
        rw [hfind]
        cases hrow : db.findById other with
        | none => rfl
        | some row =>
          have hne : ¬ row.id = id := fun he => hid (he ▸ (Database.findById_mem hrow).2)
          rw [Option.map_some, if_neg hne]
      rw [Database.recordOf_eq hsame hmoves haudits]
      exact .kept _

theorem Tx.writeItems_keeps {rows : List InventoryItem} :
    Ensures (Tx.writeItems rows) db fun _ db' => db'.inventoryItems = rows ∧
      db'.stockMovements = db.stockMovements ∧ db'.auditLogs = db.auditLogs := by
  refine Ensures.get_bind ?_
  unfold Database.writeItems
  by_cases hu : UniqueKeys rows
  · by_cases hf : ∀ item ∈ rows, item.Fits
    · rw [dif_pos hu, dif_pos hf]
      exact Ensures.set ⟨rfl, rfl, rfl⟩
    · rw [dif_pos hu, dif_neg hf]
      exact Ensures.throw _
  · rw [dif_neg hu]
    exact Ensures.throw _

/-- The row a creation writes. -/
def CreateInventoryItemInput.row (input : CreateInventoryItemInput) (id : String)
    (createdAt : Nat) : InventoryItem where
  id
  sku := input.sku
  productId := uuidText input.productId
  warehouse := input.warehouse
  quantity := input.quantity.value
  reserved := 0
  reorderLevel := input.reorderLevel.value
  createdAt

/-- A creation adds its row with an opening movement, or does nothing. -/
theorem create_cases (id : String) (createdAt : Nat) (input : CreateInventoryItemInput)
    (db : Database) :
    (Repository.create id createdAt input db).2 = db ∨
      ∃ db', (Repository.create id createdAt input db).2 = db' ∧
        db'.inventoryItems = db.inventoryItems ++ [input.row id createdAt] ∧
        db'.stockMovements = db.stockMovements ++ openingMovements (input.row id createdAt) ∧
        db'.auditLogs = db.auditLogs := by
  let item := input.row id createdAt
  have h : (Repository.create id createdAt input db).2 = db ∨
      (Repository.create id createdAt input db).2.inventoryItems = db.inventoryItems ++ [item] ∧
        (Repository.create id createdAt input db).2.stockMovements =
          db.stockMovements ++ openingMovements item ∧
        (Repository.create id createdAt input db).2.auditLogs = db.auditLogs := by
    refine commit_ensures (P := fun db' => db' = db ∨
      db'.inventoryItems = db.inventoryItems ++ [item] ∧
        db'.stockMovements = db.stockMovements ++ openingMovements item ∧
        db'.auditLogs = db.auditLogs) (.inl rfl) ?_
    refine Ensures.get_bind ?_
    refine Ensures.bind _ Tx.writeItems_keeps ?_
    rintro _ db' ⟨hitems, hmoves, haudits⟩
    show Ensures (if item.quantity > 0 then _ else _) db' _
    by_cases hq : item.quantity > 0
    · rw [if_pos hq]
      refine Ensures.bind (fun _ t => t.inventoryItems = db.inventoryItems ++ [item] ∧
        t.stockMovements = db.stockMovements ++ openingMovements item ∧
          t.auditLogs = db.auditLogs) (Ensures.modify ⟨hitems, ?_, haudits⟩)
          fun _ _ ht => Ensures.pure (.inr ht)
      rw [openingMovements, if_pos hq, ← hmoves]
      rfl
    · rw [if_neg hq]
      refine Ensures.pure (.inr ⟨hitems, ?_, haudits⟩)
      rw [openingMovements, if_neg hq, List.append_nil, hmoves]
  rcases h with h | h
  · exact .inl h
  · exact .inr ⟨_, rfl, h⟩

theorem openingMovements_itemId {item : InventoryItem} {row : StockMovementHistory}
    (h : row ∈ openingMovements item) : row.itemId = item.id := by
  unfold openingMovements at h
  split at h
  · rw [List.mem_singleton.mp h]
  · cases h

theorem create_turn (ho : Owned db) (id : String) (createdAt : Nat)
    (input : CreateInventoryItemInput) (other : String) :
    Turn db op other (db.recordOf other)
      ((Repository.create id createdAt input db).2.recordOf other) := by
  obtain h | ⟨db', h, hitems, hmoves, haudits⟩ := create_cases id createdAt input db
  · exact .of_same h
  · rw [h]
    set item := input.row id createdAt with hitem
    have hmoves' := movementsOf_append hmoves other
    rw [filter_itemId (fun row => openingMovements_itemId)] at hmoves'
    have haudits' : db'.auditLogs.filter (·.itemId = other) =
        db.auditLogs.filter (·.itemId = other) := by
      rw [haudits]
    have hmem : item ∈ db'.inventoryItems := by
      rw [hitems]
      exact List.mem_append_right _ (List.mem_singleton.mpr rfl)
    by_cases hid : item.id = other
    · subst hid
      have hnone : db.findById item.id = none := by
        unfold Database.findById
        rw [List.find?_eq_none]
        intro row hrow he
        have hnodup := db'.uniqueKeys.1
        rw [hitems, List.map_append, List.nodup_append] at hnodup
        exact hnodup.2.2 _ (List.mem_map_of_mem hrow) _ (List.mem_singleton.mpr rfl)
          (of_decide_eq_true he)
      obtain ⟨hm, ha⟩ := ho _ hnone
      rw [if_pos rfl, hm, List.nil_append] at hmoves'
      rw [ha] at haudits'
      rw [Database.recordOf_mk hnone hm ha,
        Database.recordOf_mk (Database.findById_of_mem hmem) hmoves' haudits']
      exact .created item rfl input.quantity.nonnegative (uuidText_uuidText _)
    · rw [if_neg hid, List.append_nil] at hmoves'
      have hsame : db'.findById other = db.findById other := by
        unfold Database.findById
        rw [hitems, List.find?_append, List.find?_singleton, if_neg (by simpa using hid),
          Option.or_none]
      rw [Database.recordOf_eq hsame hmoves' haudits']
      exact .kept _

/-- A deletion takes an item away with its rows, or does nothing. -/
theorem delete_cases (id : String) (db : Database) :
    (Repository.delete id db).2 = db ∨
      ∃ db', (Repository.delete id db).2 = db' ∧
        db'.inventoryItems = db.inventoryItems.filter (·.id ≠ id) ∧
        db'.stockMovements = db.stockMovements.filter (·.itemId ≠ id) ∧
        db'.auditLogs = db.auditLogs.filter (·.itemId ≠ id) := by
  have h : (Repository.delete id db).2 = db ∨
      (Repository.delete id db).2.inventoryItems = db.inventoryItems.filter (·.id ≠ id) ∧
        (Repository.delete id db).2.stockMovements =
          db.stockMovements.filter (·.itemId ≠ id) ∧
        (Repository.delete id db).2.auditLogs = db.auditLogs.filter (·.itemId ≠ id) := by
    refine commit_ensures (P := fun db' => db' = db ∨
      db'.inventoryItems = db.inventoryItems.filter (·.id ≠ id) ∧
        db'.stockMovements = db.stockMovements.filter (·.itemId ≠ id) ∧
        db'.auditLogs = db.auditLogs.filter (·.itemId ≠ id)) (.inl rfl) ?_
    refine Ensures.get_bind ?_
    cases db.findById id with
    | none => exact Ensures.throw _
    | some item =>
      refine Ensures.get_bind ?_
      refine Ensures.bind _ Tx.writeItems_keeps fun _ db' hw => ?_
      obtain ⟨hitems, hmoves, haudits⟩ := hw
      refine Ensures.modify (.inr ⟨hitems, ?_, ?_⟩)
      · rw [hmoves]
      · rw [haudits]
  rcases h with h | h
  · exact .inl h
  · exact .inr ⟨_, rfl, h⟩

theorem filter_other {α : Type} (rows : List α) (itemId : α → String) (id other : String) :
    (rows.filter (itemId · ≠ id)).filter (itemId · = other) =
      if id = other then [] else rows.filter (itemId · = other) := by
  rw [List.filter_filter]
  by_cases hid : id = other
  · rw [if_pos hid, List.filter_eq_nil_iff]
    intro row _ he
    simp [hid] at he
  · rw [if_neg hid]
    refine List.filter_congr fun row _ => ?_
    by_cases h : itemId row = other
    · have hne : ¬ other = id := fun e => hid e.symm
      simp [h, hne]
    · simp [h]

theorem delete_turn (id : String) (db : Database) (other : String) :
    Turn db op other (db.recordOf other) ((Repository.delete id db).2.recordOf other) := by
  obtain h | ⟨db', h, hitems, hmoves, haudits⟩ := delete_cases id db
  · exact .of_same h
  · rw [h]
    have hmoves' : db'.movementsOf other = _ := congrArg (·.filter (·.itemId = other)) hmoves
    have haudits' : db'.auditLogs.filter (·.itemId = other) = _ :=
      congrArg (·.filter (·.itemId = other)) haudits
    rw [filter_other] at haudits'
    have hm := filter_other db.stockMovements (·.itemId) id other
    rw [show (db.stockMovements.filter (·.itemId ≠ id)).filter (·.itemId = other) = _ from hm]
      at hmoves'
    by_cases hid : id = other
    · subst hid
      rw [if_pos rfl] at hmoves' haudits'
      have hnone : db'.findById id = none := by
        unfold Database.findById
        rw [hitems, List.find?_eq_none]
        intro row hrow he
        exact of_decide_eq_true (List.mem_filter.mp hrow).2 (of_decide_eq_true he)
      rw [Database.recordOf_mk hnone hmoves' haudits']
      exact .removed _
    · rw [if_neg hid] at hmoves' haudits'
      have hsame : db'.findById other = db.findById other := by
        unfold Database.findById
        rw [hitems, List.find?_filter]
        congr 1
        funext row
        by_cases hrow : row.id = other
        · have hne : ¬ other = id := fun e => hid e.symm
          simp [hrow, hne]
        · simp [hrow]
      rw [Database.recordOf_eq hsame hmoves' haudits']
      exact .kept _

theorem Turn.map {α β : Type} {action : Action α} {id : String}
    (h : Turn db op id (db.recordOf id) ((action db).2.recordOf id)) (f : α → β) :
    Turn db op id (db.recordOf id)
      (((do let x ← action; return f x : Action β) db).2.recordOf id) := by
  rw [Action.map_apply]
  exact h

theorem serviceCreate_turn (ho : Owned db) (id : String) (createdAt : Nat)
    (input : CreateInventoryItemInput) (other : String) :
    Turn db op other (db.recordOf other)
      ((Service.create id createdAt input db).2.recordOf other) := by
  obtain ⟨error, h⟩ | h := serviceCreate_cases id createdAt input db
  · rw [h]
    exact .of_same rfl
  · rw [h]
    exact create_turn ho id createdAt input other

theorem remove_turn (id : String) (db : Database) (other : String) :
    Turn db op other (db.recordOf other) ((Service.remove id db).2.recordOf other) := by
  rw [remove_apply]
  cases db.findById id with
  | none => exact .of_same rfl
  | some item =>
    simp only [removeChecked]
    by_cases hr : (toInventoryItemView item).reserved > 0
    · rw [if_pos hr]
      exact .of_same rfl
    · rw [if_neg hr]
      exact delete_turn id db other

end Rows

/-- A patch is answered as the repository answers it. -/
theorem update_run (id : String) (body : UpdateInventoryItemInput) (actor : Option String)
    (db : Database) :
    (Operation.request (.update id body actor)).run db =
      ((updateCall id body actor db).1.map fun _ => (), (updateCall id body actor db).2) := by
  show (do let _ ← Service.update id body actor : Action Unit) db = _
  rw [Action.map_apply]
  unfold Service.update
  rw [Action.map_apply]
  cases (updateCall id body actor db).1 <;> rfl

/-- Everything an operation can do to what is on record of one item. -/
theorem Operation.turn {db : Database} (ho : Owned db) (op : Operation) (id : String) :
    Turn db op id (db.recordOf id) ((op.run db).2.recordOf id) := by
  cases op with
  | message payload key =>
    exact (bulk_turn (.message payload key) (fun h => h.elim) (fun _ _ _ he => nomatch he)
      .release payload (some key) id).map _
  | request r =>
    cases hc : r.change? with
    | some c =>
      show Turn db (.request r) id _ ((r.run db).2.recordOf id)
      rw [Request.run_of_change? hc]
      exact (change_turn hc db id).map _
    | none =>
      cases r with
      | create itemId createdAt body => exact (serviceCreate_turn ho itemId createdAt body id).map _
      | remove itemId => exact remove_turn itemId db id
      | update itemId body actor => exact ((update_turn itemId body actor db id).map _).map _
      | reserveMany body =>
        exact (bulk_turn (.request (.reserveMany body)) (fun h => h.elim)
          (fun _ _ _ he => nomatch he) .reserve body none id).map _
      | releaseMany body =>
        exact (bulk_turn (.request (.releaseMany body)) (fun h => h.elim)
          (fun _ _ _ he => nomatch he) .release body none id).map _
      | receive itemId body => cases hc
      | acceptReturn itemId body => cases hc
      | sell itemId body => cases hc
      | adjust itemId body => cases hc
      | reserve itemId body => cases hc
      | release itemId body => cases hc
      | fulfil itemId body => cases hc

/-! ## What is kept of every item -/

theorem Operation.keepsOwned (op : Operation) : Keeps Owned op.run := by
  intro db ho id hnone
  have hturn := op.turn ho id
  generalize hr : db.recordOf id = r at hturn
  generalize hr' : (op.run db).2.recordOf id = r' at hturn
  have hitem : r'.item = none := by
    rw [← hr']
    exact hnone
  have hgoal : r'.movements = [] ∧ r'.audits = [] := by
    cases hturn with
    | kept =>
      rw [← hr] at hitem ⊢
      exact ho id hitem
    | created item _ _ _ => cases hitem
    | moved item _ _ next row _ _ => cases hitem
    | patched item _ _ body actor _ _ _ => cases hitem
    | removed _ => exact ⟨rfl, rfl⟩
  rw [← hr'] at hgoal
  exact hgoal

theorem empty_owned : Owned Database.empty := fun _ _ => ⟨rfl, rfl⟩

theorem runAll_owned (operations : List Operation) : Owned (runAll Database.empty operations) :=
  runAll_keeps Operation.keepsOwned empty_owned operations

end PracticalMicroservice.Inventory
