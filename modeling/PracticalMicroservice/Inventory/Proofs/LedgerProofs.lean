import PracticalMicroservice.Inventory.Ledger
import PracticalMicroservice.Inventory.Proofs.BulkRefinementProofs
import Mathlib.Algebra.BigOperators.Group.List.Basic

/-!
# What a bulk request does to the counters and to the ledger

`bulkRoute_cases` says everything a request to a bulk route can do to the two numbers the cart
depends on: the reserved count of a product, and the units the ledger shows under a reference.
-/

namespace PracticalMicroservice.Inventory

/-! ## The parsed body -/

/-- A parsed line as it arrived. -/
def BulkStockLine.raw (line : BulkStockLine) : StockLine where
  productId := line.productId
  quantity := line.quantity.value

theorem parseBulkLine_raw {raw : StockLine} {line : BulkStockLine}
    (h : parseBulkLine raw = some line) : line.raw = raw := by
  unfold parseBulkLine parsePositiveQuantity at h
  split at h
  · split at h
    · cases h
      rfl
    · cases h
  · cases h

theorem mapM_parseBulkLine_raw {raws : List StockLine} {lines : List BulkStockLine}
    (h : raws.mapM parseBulkLine = some lines) : lines.map BulkStockLine.raw = raws := by
  induction raws generalizing lines with
  | nil =>
    cases h
    rfl
  | cons raw raws ih =>
    rw [List.mapM_cons] at h
    obtain ⟨line, hl, h⟩ := Option.bind_eq_some_iff.mp h
    obtain ⟨rest, hr, h⟩ := Option.bind_eq_some_iff.mp h
    cases h
    rw [List.map_cons, parseBulkLine_raw hl, ih hr]

theorem boundedText_eq {max : Nat} {s text : String} (h : boundedText max s = some text) :
    text = trim s := by
  unfold boundedText at h
  simp only at h
  split at h
  · exact (Option.some.inj h).symm
  · cases h

theorem optionalText_eq {max : Nat} {s text : Option String}
    (h : optionalText max s = some text) : text = s.map trim := by
  cases s with
  | none =>
    cases h
    rfl
  | some s =>
    obtain ⟨text', ht, rfl⟩ := Option.map_eq_some_iff.mp h
    rw [boundedText_eq ht]
    rfl

/-- What a body the schema accepts is read as. -/
theorem parseBulk_some {body : BulkBody} {input : BulkStockInput}
    (h : parseBulk body = some input) :
    input.items.map BulkStockLine.raw = body.items ∧ input.reference = trim body.reference ∧
      input.reason = body.reason.map trim := by
  unfold parseBulk at h
  split at h
  · rename_i items reference reason hitems hreference hreason
    split at h
    · cases h
      exact ⟨mapM_parseBulkLine_raw hitems, boundedText_eq hreference, optionalText_eq hreason⟩
    · cases h
  · cases h

theorem units_cons (line : StockLine) (lines : List StockLine) (productId : String) :
    units (line :: lines) productId =
      (if line.productId = productId then line.quantity else 0) + units lines productId := by
  unfold units
  by_cases h : line.productId = productId
  · simp [h]
  · simp [h]

theorem units_of_not_mem {lines : List StockLine} {productId : String}
    (h : productId ∉ lines.map (·.productId)) : units lines productId = 0 := by
  unfold units
  have hnil : lines.filter (·.productId = productId) = [] := by
    rw [List.filter_eq_nil_iff]
    intro line hl he
    exact h (List.mem_map.mpr ⟨line, hl, by simpa using he⟩)
  rw [hnil]
  rfl

theorem units_raw {lines : List BulkStockLine} (hn : (lines.map (·.productId)).Nodup)
    (productId : String) :
    units (lines.map BulkStockLine.raw) productId = lineQuantity lines productId := by
  induction lines with
  | nil => rfl
  | cons line lines ih =>
    rw [List.map_cons, List.nodup_cons] at hn
    rw [List.map_cons, units_cons, ih hn.2]
    by_cases h : line.productId = productId
    · have hrest : productId ∉ lines.map (·.productId) := h ▸ hn.1
      rw [if_pos (show line.raw.productId = productId from h), lineQuantity_of_not_mem hrest]
      simp [lineQuantity, h, BulkStockLine.raw]
    · rw [if_neg (show ¬ line.raw.productId = productId from h)]
      simp [lineQuantity, h]

theorem units_of_parseBulk {body : BulkBody} {input : BulkStockInput}
    (h : parseBulk body = some input) (productId : String) :
    units body.items productId = lineQuantity input.items productId := by
  rw [← (parseBulk_some h).1]
  exact units_raw input.distinct productId

/-! ## The counters and the ledger under an accepted batch -/

section Effect

variable {t : Transition} {key : Option IdempotencyKey} {input : BulkStockInput}
  {db db' : Database}

theorem BulkEffect.findByProductId (h : BulkEffect t key input db db') (productId : String) :
    db'.findByProductId productId =
      (db.findByProductId productId).map (shiftItem t input.items) :=
  findByProductId_shift h.items productId

/-- A product without an item is on no accepted line. -/
theorem lineQuantity_of_absent {productId : String} {lines : List BulkStockLine}
    (hacc : ∀ line ∈ lines, Accepts t db line) (h : db.findByProductId productId = none) :
    lineQuantity lines productId = 0 := by
  refine lineQuantity_of_not_mem fun hm => ?_
  obtain ⟨line, hl, rfl⟩ := List.mem_map.mp hm
  obtain ⟨item, hi, -⟩ := hacc line hl
  rw [h] at hi
  cases hi

theorem BulkEffect.reservedOf (h : BulkEffect t key input db db')
    (hacc : ∀ line ∈ input.items, Accepts t db line) (productId : String) :
    Inventory.reservedOf db' productId = Inventory.reservedOf db productId +
      t.shift * lineQuantity input.items productId := by
  unfold Inventory.reservedOf
  rw [h.findByProductId]
  cases hf : db.findByProductId productId with
  | none =>
    rw [lineQuantity_of_absent hacc hf]
    simp
  | some item =>
    have hp := (Database.findByProductId_mem hf).2
    simp [shiftItem, InventoryItem.setLevels, Transition.next, InventoryItem.levels, hp]

theorem rowUnits_append (keep : MovementKind → Bool) (rows rows' : List StockMovementHistory)
    (itemId : String) :
    rowUnits keep (rows ++ rows') itemId = rowUnits keep rows itemId + rowUnits keep rows' itemId
    := by
  unfold rowUnits
  rw [List.filter_append, List.map_append, List.sum_append]

theorem rowUnits_perm (keep : MovementKind → Bool) {rows rows' : List StockMovementHistory}
    (h : rows.Perm rows') (itemId : String) :
    rowUnits keep rows itemId = rowUnits keep rows' itemId :=
  ((h.filter _).map _).sum_eq

/-- The rows of a batch that are about the item of a product. -/
theorem rowUnits_bulkRows (keep : MovementKind → Bool) {item : InventoryItem}
    (hitem : db.findByProductId productId = some item) {lines : List BulkStockLine}
    (hn : (lines.map (·.productId)).Nodup) :
    rowUnits keep (bulkRows t db input lines) item.id =
      if keep ⟨t.type, input.reason, some input.reference⟩ then lineQuantity lines productId
      else 0 := by
  induction lines with
  | nil =>
    simp [bulkRows, rowUnits, lineQuantity]
  | cons line lines ih =>
    rw [List.map_cons, List.nodup_cons] at hn
    have hcons : bulkRows t db input (line :: lines) =
        bulkRows t db input [line] ++ bulkRows t db input lines := by
      unfold bulkRows
      rw [← List.map_append, ← List.filterMap_append, List.singleton_append]
    rw [hcons, rowUnits_append, ih hn.2]
    by_cases h : line.productId = productId
    · have hrest : lineQuantity lines productId = 0 := lineQuantity_of_not_mem (h ▸ hn.1)
      have hone : lineQuantity (line :: lines) productId = line.quantity.value := by
        simp [lineQuantity, h]
      have htarget : targetOf t db input line = some (acceptedPlan t input line item, item) := by
        simp [targetOf, h, hitem]
      rw [hrest, hone]
      by_cases hk : keep ⟨t.type, input.reason, some input.reference⟩ = true
      · simp [bulkRows, htarget, rowUnits, MovementPlan.row, StockMovementHistory.kind,
          acceptedPlan, hk]
      · simp [bulkRows, htarget, rowUnits, MovementPlan.row, StockMovementHistory.kind,
          acceptedPlan, hk]
    · have hone : lineQuantity (line :: lines) productId = lineQuantity lines productId := by
        simp [lineQuantity, h]
      have hzero : rowUnits keep (bulkRows t db input [line]) item.id = 0 := by
        cases hf : db.findByProductId line.productId with
        | none => simp [bulkRows, targetOf, hf, rowUnits]
        | some other =>
          have hne : ¬ other.id = item.id := by
            intro he
            have hm := (Database.findByProductId_mem hf)
            have hm' := (Database.findByProductId_mem hitem)
            have heq : other = item := by
              have hfound := Database.findById_of_mem hm.1
              rw [he, Database.findById_of_mem hm'.1] at hfound
              exact (Option.some.inj hfound).symm
            exact h (hm.2.symm.trans ((congrArg _ heq).trans hm'.2))
          simp [bulkRows, targetOf, hf, rowUnits, MovementPlan.row, hne]
      rw [hone, hzero]
      exact Int.zero_add _

theorem BulkEffect.ledgerUnits (h : BulkEffect t key input db db')
    (hacc : ∀ line ∈ input.items, Accepts t db line) (keep : MovementKind → Bool)
    (productId : String) :
    Inventory.ledgerUnits db' keep productId = Inventory.ledgerUnits db keep productId +
      if keep ⟨t.type, input.reason, some input.reference⟩ then
        lineQuantity input.items productId
      else 0 := by
  unfold Inventory.ledgerUnits
  rw [h.findByProductId]
  cases hf : db.findByProductId productId with
  | none =>
    rw [lineQuantity_of_absent hacc hf]
    simp
  | some item =>
    obtain ⟨rows, hrows, hperm⟩ := h.ledger
    show rowUnits keep db'.stockMovements item.id = rowUnits keep db.stockMovements item.id + _
    rw [hrows, rowUnits_append, rowUnits_perm keep hperm, rowUnits_bulkRows keep hf input.distinct]

end Effect

/-! ## A request to a bulk route -/

/-- The schema accepts the body and inventory accepts each of its lines. -/
def BulkBody.Accepted (t : Transition) (body : BulkBody) (db : Database) : Prop :=
  ∃ input, parseBulk body = some input ∧ ∀ line ∈ input.items, Accepts t db line

instance (t : Transition) (body : BulkBody) (db : Database) :
    Decidable (BulkBody.Accepted t body db) :=
  match h : parseBulk body with
  | none => .isFalse fun ⟨input, hi, _⟩ => by rw [h] at hi; cases hi
  | some input =>
    if ha : ∀ line ∈ input.items, Accepts t db line then .isTrue ⟨input, h, ha⟩
    else .isFalse fun ⟨input', hi, ha'⟩ => ha (by
      rw [h] at hi; cases hi; exact ha')

/-- What an accepted body does to the numbers the cart depends on. -/
structure Moved (t : Transition) (body : BulkBody) (db db' : Database) : Prop where
  reserved : ∀ productId, reservedOf db' productId =
    reservedOf db productId + t.shift * units body.items productId
  ledger : ∀ keep productId, ledgerUnits db' keep productId =
    ledgerUnits db keep productId + if keep (body.kind t) then units body.items productId else 0

section Route

variable {t : Transition} {body : BulkBody} {db : Database}

theorem BulkEffect.moved {key : Option IdempotencyKey} {input : BulkStockInput} {db' : Database}
    (h : BulkEffect t key input db db') (hacc : ∀ line ∈ input.items, Accepts t db line)
    (hparse : parseBulk body = some input) : Moved t body db db' := by
  obtain ⟨-, href, hreason⟩ := parseBulk_some hparse
  refine ⟨fun p => ?_, fun keep p => ?_⟩
  · rw [h.reservedOf hacc, units_of_parseBulk hparse]
  · rw [h.ledgerUnits hacc, units_of_parseBulk hparse, href, hreason]
    rfl

theorem BulkBody.Accepted.units_nonneg (h : body.Accepted t db) (productId : String) :
    0 ≤ units body.items productId := by
  obtain ⟨input, hparse, -⟩ := h
  rw [units_of_parseBulk hparse]
  exact lineQuantity_nonneg _ _

theorem BulkBody.Accepted.units_pos (h : body.Accepted t db) {line : StockLine}
    (hl : line ∈ body.items) : 0 < units body.items line.productId := by
  obtain ⟨input, hparse, -⟩ := h
  rw [units_of_parseBulk hparse]
  rw [← (parseBulk_some hparse).1] at hl
  obtain ⟨parsed, hp, rfl⟩ := List.mem_map.mp hl
  show 0 < lineQuantity input.items parsed.productId
  rw [lineQuantity_of_mem input.distinct hp]
  exact parsed.quantity.positive

/-- The schema lets no line name more. -/
theorem BulkBody.Accepted.units_le (h : body.Accepted t db) (productId : String) :
    units body.items productId ≤ 1000000000 := by
  obtain ⟨input, hparse, -⟩ := h
  rw [units_of_parseBulk hparse]
  by_cases hm : productId ∈ input.items.map (·.productId)
  · obtain ⟨line, hl, rfl⟩ := List.mem_map.mp hm
    rw [lineQuantity_of_mem input.distinct hl]
    exact line.quantity.bounded
  · rw [lineQuantity_of_not_mem hm]
    omega

/-- Everything a request to a bulk route can do. -/
theorem bulkRoute_cases (t : Transition) (body : BulkBody) (db : Database) :
    (body.Accepted t db ∧ (bulkRoute t body db).1.isOk = true ∧
      Moved t body db (bulkRoute t body db).2) ∨
    (¬ body.Accepted t db ∧ (bulkRoute t body db).1.isOk = false ∧
      (bulkRoute t body db).2 = db ∧
      (bulkRoute t body db).1.status = if (parseBulk body).isSome then 409 else 422) := by
  cases hparse : parseBulk body with
  | none =>
    right
    have hroute : bulkRoute t body db =
        ({ status := 422, message := "Request validation failed" }, db) := by
      simp [bulkRoute, hparse]
    rw [hroute]
    refine ⟨?_, rfl, rfl, rfl⟩
    rintro ⟨input, hi, -⟩
    rw [hparse] at hi
    cases hi
  | some input =>
    obtain ⟨views, db', hrun, heff, hacc, -⟩ | ⟨message, failures, hrun, -, hrej, -⟩ | ⟨k, hk, -⟩ :=
      bulk_cases t input none db
    · left
      have hroute : bulkRoute t body db = ({ status := 200 }, db') := by
        simp [bulkRoute, hparse, hrun]
      rw [hroute]
      exact ⟨⟨input, hparse, hacc⟩, rfl, heff.moved hacc hparse⟩
    · right
      have hroute : bulkRoute t body db =
          ({ status := 409, message, details := failures }, db) := by
        simp [bulkRoute, hparse, hrun, Thrown.statusCode, AppError.statusCode, Thrown.message,
          AppError.message, Thrown.details, AppError.details]
      rw [hroute]
      refine ⟨?_, rfl, rfl, rfl⟩
      rintro ⟨input', hi, hacc⟩
      rw [hparse] at hi
      cases hi
      obtain ⟨line, hl, hn⟩ := hrej
      exact hn (hacc line hl)
    · cases hk

theorem bulkRoute_refused (h : ¬ body.Accepted t db) : (bulkRoute t body db).2 = db := by
  obtain ⟨ha, -⟩ | ⟨-, -, hdb, -⟩ := bulkRoute_cases t body db
  · exact absurd ha h
  · exact hdb

/-- The hold of a reference moves with the requests made under it, and with no others. -/
theorem Moved.heldFor {db' : Database} (h : Moved t body db db') (reference productId : String) :
    Inventory.heldFor db' reference productId = Inventory.heldFor db reference productId +
      if reference = trim body.reference then t.shift * units body.items productId else 0 := by
  unfold Inventory.heldFor reservedFor releasedFor
  rw [h.ledger, h.ledger]
  by_cases href : reference = trim body.reference
  · cases t with
    | reserve =>
      simp [under, BulkBody.kind, Transition.type, Transition.shift, href]
      omega
    | release =>
      simp [under, BulkBody.kind, Transition.type, Transition.shift, href]
      omega
  · have hne : ¬ trim body.reference = reference := fun e => href e.symm
    simp [under, BulkBody.kind, href, hne]

end Route

end PracticalMicroservice.Inventory
