import PracticalMicroservice.Inventory.Proofs.BulkProofs

/-!
# The effect of a bulk transition on the database

`bulk_accepted`, `bulk_rejected` and `bulk_duplicate` together say everything a bulk transition can
do; whatever is proved about reservations and releases in bulk is proved from them.
-/

namespace PracticalMicroservice.Inventory

/-! ## The idempotency claim -/

/-- No earlier message took the key. -/
def Fresh (db : Database) (key : IdempotencyKey) : Prop :=
  key.messageId ∉ db.processedMessages.map (·.messageId)

instance (db : Database) (key : IdempotencyKey) : Decidable (Fresh db key) :=
  inferInstanceAs (Decidable (¬ _))

def IdempotencyKey.row (key : IdempotencyKey) : ProcessedMessage where
  messageId := key.messageId
  type := key.type
  reference := key.reference

theorem Fresh.nodup {db : Database} {key : IdempotencyKey} (h : Fresh db key) :
    ((db.processedMessages ++ [key.row]).map (·.messageId)).Nodup := by
  rw [List.map_append, List.nodup_append]
  refine ⟨db.uniqueMessages, List.nodup_singleton _, ?_⟩
  intro a ha b hb e
  rw [List.map_singleton, List.mem_singleton] at hb
  rw [e, hb] at ha
  exact h ha

/-- The database once the claim row is in. -/
def Database.claim (db : Database) (key : IdempotencyKey) (h : Fresh db key) : Database :=
  { db with processedMessages := db.processedMessages ++ [key.row], uniqueMessages := h.nodup }

theorem claimMessage_run_fresh {db : Database} {key : IdempotencyKey} (h : Fresh db key) :
    (Repository.claimMessage key).run db = .ok ((), db.claim key h) := by
  have hc : (Tx.createProcessedMessage key.row).run db = .ok ((), db.claim key h) := by
    simp only [Tx.createProcessedMessage, StateT.run_bind, StateT.run_get, pure_bind,
      dif_pos h.nodup]
    rfl
  show Except.tryCatch ((Tx.createProcessedMessage key.row).run db) _ = _
  rw [hc]
  rfl

theorem claimMessage_run_taken {db : Database} {key : IdempotencyKey} (h : ¬ Fresh db key) :
    (Repository.claimMessage key).run db =
      .error (.app (.DuplicateOperationError key.messageId)) := by
  have hn : ¬ ((db.processedMessages ++ [key.row]).map (·.messageId)).Nodup := by
    intro hn
    rw [List.map_append, List.nodup_append] at hn
    exact h fun hm => hn.2.2 _ hm _ (by simp [IdempotencyKey.row]) rfl
  have hc : (Tx.createProcessedMessage key.row).run db =
      .error (.database .uniqueViolation) := by
    simp only [Tx.createProcessedMessage, StateT.run_bind, StateT.run_get, pure_bind,
      dif_neg hn]
    rfl
  show Except.tryCatch ((Tx.createProcessedMessage key.row).run db) _ = _
  rw [hc]
  rfl

/-- The state the batch is planned on: with the claim, when there is a key. -/
def Database.claimed (db : Database) : (key : Option IdempotencyKey) →
    (∀ k ∈ key, Fresh db k) → Database
  | none, _ => db
  | some k, h => db.claim k (h k rfl)

@[simp] theorem Database.claimed_inventoryItems (db : Database) (key : Option IdempotencyKey)
    (h : ∀ k ∈ key, Fresh db k) : (db.claimed key h).inventoryItems = db.inventoryItems := by
  cases key <;> rfl

@[simp] theorem Database.claimed_stockMovements (db : Database) (key : Option IdempotencyKey)
    (h : ∀ k ∈ key, Fresh db k) : (db.claimed key h).stockMovements = db.stockMovements := by
  cases key <;> rfl

@[simp] theorem Database.claimed_auditLogs (db : Database) (key : Option IdempotencyKey)
    (h : ∀ k ∈ key, Fresh db k) : (db.claimed key h).auditLogs = db.auditLogs := by
  cases key <;> rfl

theorem Database.claimed_processedMessages (db : Database) (key : Option IdempotencyKey)
    (h : ∀ k ∈ key, Fresh db k) : (db.claimed key h).processedMessages =
      db.processedMessages ++ (key.map IdempotencyKey.row).toList := by
  cases key with
  | none => exact (List.append_nil _).symm
  | some k => rfl

@[simp] theorem Database.claimed_findByProductId (db : Database) (key : Option IdempotencyKey)
    (h : ∀ k ∈ key, Fresh db k) (productId : String) :
    (db.claimed key h).findByProductId productId = db.findByProductId productId := by
  cases key <;> rfl

@[simp] theorem Database.claimed_findById (db : Database) (key : Option IdempotencyKey)
    (h : ∀ k ∈ key, Fresh db k) (id : String) :
    (db.claimed key h).findById id = db.findById id := by
  cases key <;> rfl

/-! ## The whole operation -/

/-- What an accepted batch does to one row. -/
def shiftItem (t : Transition) (lines : List BulkStockLine) (row : InventoryItem) :
    InventoryItem :=
  row.setLevels (t.next row.levels (lineQuantity lines row.productId))

/-- The ledger rows of accepted lines, in their order. -/
def bulkRows (t : Transition) (db : Database) (input : BulkStockInput)
    (lines : List BulkStockLine) : List StockMovementHistory :=
  (lines.filterMap (targetOf t db input)).map fun target => target.1.movement.row target.2

/-- Everything an accepted batch changes. -/
structure BulkEffect (t : Transition) (key : Option IdempotencyKey) (input : BulkStockInput)
    (db db' : Database) : Prop where
  items : db'.inventoryItems = db.inventoryItems.map (shiftItem t input.items)
  ledger : ∃ rows, db'.stockMovements = db.stockMovements ++ rows ∧
    rows.Perm (bulkRows t db input input.items)
  audit : db'.auditLogs = db.auditLogs
  processed : db'.processedMessages =
    db.processedMessages ++ (key.map IdempotencyKey.row).toList

section Targets

variable {t : Transition} {db : Database} {input : BulkStockInput}

theorem mem_targets {target : BulkStockChangePlan × InventoryItem}
    (h : target ∈ input.items.filterMap (targetOf t db input)) :
    ∃ line ∈ input.items, db.findByProductId line.productId = some target.2 ∧
      target.1 = acceptedPlan t input line target.2 := by
  obtain ⟨line, hl, ht⟩ := List.mem_filterMap.mp h
  unfold targetOf at ht
  obtain ⟨item, hi, rfl⟩ := Option.map_eq_some_iff.mp ht
  exact ⟨line, hl, hi, rfl⟩

theorem targets_fit (h : ∀ line ∈ input.items, Accepts t db line)
    {target : BulkStockChangePlan × InventoryItem}
    (ht : target ∈ input.items.filterMap (targetOf t db input)) : target.1.levels.Fits := by
  obtain ⟨line, hl, hi, hp⟩ := mem_targets ht
  obtain ⟨item, hi', ha⟩ := h line hl
  rw [hi] at hi'
  cases hi'
  rw [hp]
  have hfit := db.columnsFit _ (Database.findByProductId_mem hi).1
  exact ha.2.fits_of_le hfit.1 (le_refl _)

variable (t db input) in
/-- Distinct products have distinct rows. -/
theorem targets_nodup :
    ((input.items.filterMap (targetOf t db input)).map (·.2.id)).Nodup := by
  have key : ∀ lines : List BulkStockLine, (lines.map (·.productId)).Nodup →
      ((lines.filterMap (targetOf t db input)).map (·.2.id)).Nodup := by
    intro lines
    induction lines with
    | nil => intro _; exact List.nodup_nil
    | cons line lines ih =>
      intro hn
      rw [List.map_cons, List.nodup_cons] at hn
      cases hi : db.findByProductId line.productId with
      | none =>
        rw [List.filterMap_cons_none (by simp [targetOf, hi])]
        exact ih hn.2
      | some item =>
        have ht : targetOf t db input line = some (acceptedPlan t input line item, item) := by
          simp [targetOf, hi]
        rw [List.filterMap_cons_some ht, List.map_cons, List.nodup_cons]
        refine ⟨fun hm => ?_, ih hn.2⟩
        obtain ⟨target, hmem, hid⟩ := List.mem_map.mp hm
        obtain ⟨line', hl', ht'⟩ := List.mem_filterMap.mp hmem
        obtain ⟨item', hi', rfl⟩ := Option.map_eq_some_iff.mp ht'
        -- the same row answers both lookups, so the two lines name one product
        obtain ⟨hm1, hp1⟩ := Database.findByProductId_mem hi
        obtain ⟨hm2, hp2⟩ := Database.findByProductId_mem hi'
        have hrow := (Database.findById_of_mem hm2).symm.trans
          ((congrArg db.findById hid).trans (Database.findById_of_mem hm1))
        injection hrow with hrow
        refine hn.1 (List.mem_map.mpr ⟨line', hl', ?_⟩)
        rw [← hp1, ← hp2, hrow]
  exact key input.items input.distinct

/-- The first target of a row in a list without repeated rows does not depend on the order. -/
theorem assignTargets_perm {l l' : List (BulkStockChangePlan × InventoryItem)} (hp : l.Perm l')
    (hn : (l.map (·.2.id)).Nodup) : assignTargets l = assignTargets l' := by
  funext id
  have hn' : (l'.map (·.2.id)).Nodup := (hp.map _).nodup_iff.mp hn
  unfold assignTargets
  congr 1
  by_cases h : ∃ target ∈ l, target.2.id = id
  · obtain ⟨target, hm, rfl⟩ := h
    rw [find?_of_nodup_map (f := fun x : BulkStockChangePlan × InventoryItem => x.2.id) hn hm,
      find?_of_nodup_map (f := fun x : BulkStockChangePlan × InventoryItem => x.2.id) hn'
        (hp.mem_iff.mp hm)]
  · have hl : l.find? (·.2.id = id) = none := by
      rw [List.find?_eq_none]
      exact fun target hm he => h ⟨target, hm, by simpa using he⟩
    have hl' : l'.find? (·.2.id = id) = none := by
      rw [List.find?_eq_none]
      exact fun target hm he => h ⟨target, hp.mem_iff.mpr hm, by simpa using he⟩
    rw [hl, hl']

/-- The updates of an accepted batch shift every row by its line. -/
theorem assignTargets_shift {row : InventoryItem}
    (hr : row ∈ db.inventoryItems) :
    assignLevels (assignTargets (input.items.filterMap (targetOf t db input))) row =
      shiftItem t input.items row := by
  unfold assignLevels shiftItem
  by_cases hl : row.productId ∈ input.items.map (·.productId)
  · obtain ⟨line, hm, hp⟩ := List.mem_map.mp hl
    have hi : db.findByProductId line.productId = some row := by
      rw [hp]; exact Database.findByProductId_of_mem hr
    have ht : (acceptedPlan t input line row, row) ∈
        input.items.filterMap (targetOf t db input) :=
      List.mem_filterMap.mpr ⟨line, hm, by simp [targetOf, hi]⟩
    have hfind := find?_of_nodup_map
      (f := fun x : BulkStockChangePlan × InventoryItem => x.2.id)
      (targets_nodup t db input) ht
    simp only [assignTargets, hfind, Option.map_some, acceptedPlan]
    rw [← hp, lineQuantity_of_mem input.distinct hm]
  · have hnone : assignTargets (input.items.filterMap (targetOf t db input)) row.id = none := by
      unfold assignTargets
      rw [Option.map_eq_none_iff, List.find?_eq_none]
      intro target hm he
      obtain ⟨line, hlm, hi, -⟩ := mem_targets hm
      obtain ⟨hmem, hp⟩ := Database.findByProductId_mem hi
      have hid : target.2.id = row.id := by simpa using he
      have hrow := (Database.findById_of_mem hmem).symm.trans
        ((congrArg db.findById hid).trans (Database.findById_of_mem hr))
      injection hrow with hrow
      exact hl (List.mem_map.mpr ⟨line, hlm, by rw [← hp, hrow]⟩)
    rw [hnone, lineQuantity_of_not_mem hl]
    simp [Transition.next, InventoryItem.setLevels, InventoryItem.levels]

end Targets

section Effect

variable {t : Transition} {db : Database} {input : BulkStockInput} {key : Option IdempotencyKey}

theorem claim_run_fresh (hk : ∀ k ∈ key, Fresh db k) :
    (Repository.claim key).run db = .ok ((), db.claimed key hk) := by
  cases key with
  | none => rfl
  | some k => exact claimMessage_run_fresh (hk k rfl)

/-- The lookup the callback builds from the rows it reads. -/
def readRows (db : Database) (input : BulkStockInput) (productId : String) :
    Option InventoryItem :=
  (db.inventoryItems.filter fun row =>
    ((input.items.map (·.productId)).map uuidText).contains (uuidText row.productId)).find?
      (·.productId = productId)

variable (input) in
theorem readRows_eq {db' : Database} (h : db'.inventoryItems = db.inventoryItems) :
    ∀ line ∈ input.items, readRows db' input line.productId =
      db.findByProductId line.productId := by
  intro line hl
  unfold readRows
  rw [h]
  exact find?_filter_mem (List.mem_map_of_mem hl)

theorem bulk_apply :
    t.bulk input key db =
      ((Repository.applyBulkStockChange (input.items.map (·.productId))
          (Service.planBatch t.type t.action t.plan input) key db).1.map
          (·.map toInventoryItemView),
        (Repository.applyBulkStockChange (input.items.map (·.productId))
          (Service.planBatch t.type t.action t.plan input) key db).2) :=
  Action.map_apply _ _ db

theorem bulk_accepted (h : ∀ line ∈ input.items, Accepts t db line)
    (hk : ∀ k ∈ key, Fresh db k) :
    ∃ views db', t.bulk input key db = (.ok views, db') ∧ BulkEffect t key input db db' := by
  set targets := input.items.filterMap (targetOf t db input) with htargets
  set sorted := targets.insertionSort Repository.byItemId with hsorted
  have hperm : sorted.Perm targets := List.perm_insertionSort _ _
  have hfit : ∀ target ∈ sorted, target.1.levels.Fits := fun target ht =>
    targets_fit h (hperm.mem_iff.mp ht)
  have hnodup : (sorted.map (·.2.id)).Nodup :=
    (hperm.map _).nodup_iff.mpr (targets_nodup t db input)
  have hfind : ∀ target ∈ sorted, (db.claimed key hk).findById target.2.id = some target.2 := by
    intro target ht
    obtain ⟨line, -, hi, -⟩ := mem_targets (hperm.mem_iff.mp ht)
    rw [Database.claimed_findById]
    exact Database.findById_of_mem (Database.findByProductId_mem hi).1
  have hread := readRows_eq input (Database.claimed_inventoryItems db key hk)
  have hplan : Service.planBatch t.type t.action t.plan input (readRows (db.claimed key hk) input) =
      .ok (targets.map (·.1)) := planBatch_accepts hread h
  have hresolve : (Repository.resolveTargets (readRows (db.claimed key hk) input)
      (targets.map (·.1))).run (db.claimed key hk) = .ok (targets, db.claimed key hk) :=
    resolveTargets_run hread (db.claimed key hk)
  have hupdate := updateTargets_run hfind hfit hnodup
  have hrun : Repository.applyBulkStockChange (input.items.map (·.productId))
      (Service.planBatch t.type t.action t.plan input) key db =
      (.ok (sorted.map fun target => target.2.setLevels target.1.levels),
        ((db.claimed key hk).assign (assignTargets sorted) (assignTargets_fits hfit)).record
          (sorted.map fun target => target.1.movement.row target.2)) := by
    apply commit_of_ok
    simp only [StateT.run_bind, claim_run_fresh hk, Tx.findMany, StateT.run_get]
    show (liftPlan (Service.planBatch t.type t.action t.plan input
      (readRows (db.claimed key hk) input))).run (db.claimed key hk) >>= _ = _
    rw [hplan]
    show (Repository.resolveTargets (readRows (db.claimed key hk) input)
      (targets.map (·.1))).run (db.claimed key hk) >>= _ = _
    rw [hresolve]
    show (Repository.updateTargets sorted).run (db.claimed key hk) >>= _ = _
    rw [hupdate]
    rfl
  refine ⟨(sorted.map fun target => target.2.setLevels target.1.levels).map toInventoryItemView,
    ((db.claimed key hk).assign (assignTargets sorted) (assignTargets_fits hfit)).record
      (sorted.map fun target => target.1.movement.row target.2), ?_, ?_⟩
  · rw [bulk_apply, hrun]
    rfl
  · refine ⟨?_, ⟨_, ?_, hperm.map fun target => target.1.movement.row target.2⟩, ?_, ?_⟩
    · show (db.claimed key hk).inventoryItems.map _ = _
      rw [Database.claimed_inventoryItems, assignTargets_perm hperm hnodup]
      exact List.map_congr_left fun row hr => assignTargets_shift hr
    · show (db.claimed key hk).stockMovements ++ _ = _
      rw [Database.claimed_stockMovements]
    · exact Database.claimed_auditLogs db key hk
    · exact Database.claimed_processedMessages db key hk

/-- One line that is not accepted refuses the whole batch, and nothing is left of the claim. -/
theorem bulk_rejected (h : ∃ line ∈ input.items, ¬ Accepts t db line)
    (hk : ∀ k ∈ key, Fresh db k) :
    ∃ message failures,
      t.bulk input key db = (.error (.app (.ConflictError message failures)), db) ∧
      failures.map (·.productId) = (rejectedLines t db input.items).map (·.productId) := by
  have hread := readRows_eq input (Database.claimed_inventoryItems db key hk)
  obtain ⟨message, failures, hplan, hids⟩ := planBatch_rejects hread h
  refine ⟨message, failures, ?_, hids⟩
  have hrun : Repository.applyBulkStockChange (input.items.map (·.productId))
      (Service.planBatch t.type t.action t.plan input) key db =
      (.error (.app (.ConflictError message failures)), db) := by
    apply commit_of_error
    simp only [StateT.run_bind, claim_run_fresh hk, Tx.findMany, StateT.run_get]
    show (liftPlan (Service.planBatch t.type t.action t.plan input
      (readRows (db.claimed key hk) input))).run (db.claimed key hk) >>= _ = _
    rw [hplan]
    rfl
  rw [bulk_apply, hrun]
  rfl

/-- A message that was applied before is refused before a row is read. -/
theorem bulk_duplicate {k : IdempotencyKey} (hk : ¬ Fresh db k) :
    t.bulk input (some k) db =
      (.error (.app (.DuplicateOperationError k.messageId)), db) := by
  have hrun : Repository.applyBulkStockChange (input.items.map (·.productId))
      (Service.planBatch t.type t.action t.plan input) (some k) db =
      (.error (.app (.DuplicateOperationError k.messageId)), db) := by
    apply commit_of_error
    simp only [StateT.run_bind, Repository.claim, claimMessage_run_taken hk]
    rfl
  rw [bulk_apply, hrun]
  rfl

/-- Everything a bulk transition can do. -/
theorem bulk_cases (t : Transition) (input : BulkStockInput) (key : Option IdempotencyKey)
    (db : Database) :
    (∃ views db', t.bulk input key db = (.ok views, db') ∧ BulkEffect t key input db db' ∧
      (∀ line ∈ input.items, Accepts t db line) ∧ ∀ k ∈ key, Fresh db k) ∨
    (∃ message failures,
      t.bulk input key db = (.error (.app (.ConflictError message failures)), db) ∧
      failures.map (·.productId) = (rejectedLines t db input.items).map (·.productId) ∧
      (∃ line ∈ input.items, ¬ Accepts t db line) ∧ ∀ k ∈ key, Fresh db k) ∨
    (∃ k, key = some k ∧ ¬ Fresh db k ∧
      t.bulk input key db = (.error (.app (.DuplicateOperationError k.messageId)), db)) := by
  by_cases hk : ∀ k ∈ key, Fresh db k
  · by_cases h : ∀ line ∈ input.items, Accepts t db line
    · obtain ⟨views, db', hrun, heff⟩ := bulk_accepted h hk
      exact .inl ⟨views, db', hrun, heff, h, hk⟩
    · have h' : ∃ line ∈ input.items, ¬ Accepts t db line := by
        by_contra hc
        exact h fun line hl => by_contra fun hn => hc ⟨line, hl, hn⟩
      obtain ⟨message, failures, hrun, hids⟩ := bulk_rejected h' hk
      exact .inr (.inl ⟨message, failures, hrun, hids, h', hk⟩)
  · cases key with
    | none => exact absurd (fun k hm => by cases hm) hk
    | some k =>
      have hf : ¬ Fresh db k := fun hf => hk fun k' hm => by cases hm; exact hf
      exact .inr (.inr ⟨k, rfl, hf, bulk_duplicate hf⟩)

/-- A bulk transition that does not succeed changes nothing. -/
theorem bulk_unchanged {error : Thrown}
    (h : (t.bulk input key db).1 = .error error) : (t.bulk input key db).2 = db := by
  obtain ⟨views, db', hrun, -⟩ | ⟨message, failures, hrun, -⟩ | ⟨k, -, -, hrun⟩ :=
    bulk_cases t input key db
  · rw [hrun] at h
    cases h
  · rw [hrun]
  · rw [hrun]

end Effect

end PracticalMicroservice.Inventory
