import PracticalMicroservice.Inventory.Trail
import PracticalMicroservice.Inventory.Proofs.StockInvariantProofs

/-!
# What a patch does to the database

`update_cases` says everything a `PATCH` can do: it is refused and leaves no trace, it names no
value that is new, or it rewrites its row and leaves the rows of the trail.
-/

namespace PracticalMicroservice.Inventory

/-! ## The values of a column -/

theorem toLower_toLower (c : Char) : c.toLower.toLower = c.toLower := by
  have h : ¬ (c.toLower.val ≥ 'A'.val ∧ c.toLower.val ≤ 'Z'.val) := by
    delta Char.toLower
    split <;> grind [UInt32.toNat_add, Char.toNat_val]
  exact dif_neg h

/-- What a `uuid` column keeps, it keeps as it is. -/
theorem uuidText_uuidText (s : String) : uuidText (uuidText s) = uuidText s := by
  unfold uuidText
  rw [String.toList_ofList, List.map_map]
  congr 1
  exact List.map_congr_left fun c _ => toLower_toLower c

/-- Every product id of the table is as the column keeps it. -/
def Canonical (db : Database) : Prop :=
  ∀ item ∈ db.inventoryItems, uuidText item.productId = item.productId

section FieldChange

variable {α : Type} [DecidableEq α] {field : String} {text : α → String} {current : α}
  {next : Option α}

theorem fieldChange_eq_nil :
    fieldChange field text current next = [] ↔ next.getD current = current := by
  cases next with
  | none => simp [fieldChange]
  | some value =>
    by_cases h : value = current
    · simp [fieldChange, h]
    · simp [fieldChange, h]

/-- A field whose value differs gives one row, any other none. -/
theorem fieldChange_eq :
    fieldChange field text current next =
      if current = next.getD current then []
      else [{ field, oldValue := text current, newValue := text (next.getD current) }] := by
  cases next with
  | none => simp [fieldChange]
  | some value =>
    by_cases h : value = current
    · simp [fieldChange, h]
    · have h' : ¬ current = value := fun e => h e.symm
      simp [fieldChange, h, h']

end FieldChange

/-- A product id that is not the one on record is diffed as it is spelled. -/
theorem mem_diff_productId {current : InventoryItem} {patch : UpdateInventoryItemInput}
    {productId : String} (hp : patch.productId = some productId)
    (hne : productId ≠ current.productId) :
    { field := "productId", oldValue := current.productId, newValue := productId } ∈
      diffInventoryItem current patch := by
  have hone : fieldChange "productId" id current.productId patch.productId =
      [{ field := "productId", oldValue := current.productId, newValue := productId }] := by
    simp [fieldChange, hp, hne]
  unfold diffInventoryItem
  rw [hone]
  simp

/-! ## The rows of the trail -/

/-- The audit rows of a patch. -/
def patchLogs (id : String) (actor : Option String) (changes : List FieldChange) :
    List InventoryAuditLog :=
  changes.map fun change =>
    { itemId := id, field := change.field, oldValue := change.oldValue,
      newValue := change.newValue, actor }

/-- The movement of a patch, if it changes what is on hand. -/
def patchMovements (id : String) (actor : Option String) (current updated : InventoryItem) :
    List StockMovementHistory :=
  if updated.quantity ≠ current.quantity then
    let writer := actor.getD "unknown"
    [{ itemId := id, type := .ADJUSTMENT,
       quantityChanged := (updated.quantity - current.quantity).natAbs,
       lastQuantity := current.quantity, reason := some s!"Patched by {writer}", reference := none }]
  else []

theorem patchLogs_append (id : String) (actor : Option String) (changes changes' : List FieldChange) :
    patchLogs id actor (changes ++ changes') =
      patchLogs id actor changes ++ patchLogs id actor changes' :=
  List.map_append

/-- The row of one column, if it holds different values. -/
def auditRow (actor : Option String) (before after : InventoryItem) (field : AuditedField) :
    List InventoryAuditLog :=
  if field.Differs before after then
    [{ itemId := before.id, field := field.name, oldValue := field.text before,
       newValue := field.text after, actor }]
  else []

theorem auditRows_eq (actor : Option String) (before after : InventoryItem) :
    auditRows actor before after = AUDITED_FIELDS.flatMap (auditRow actor before after) := by
  unfold auditRows
  induction AUDITED_FIELDS with
  | nil => rfl
  | cons field fields ih =>
    rw [List.flatMap_cons, ← ih]
    by_cases h : field.Differs before after
    · simp [auditRow, h]
    · simp [auditRow, h]

/-- Where the product id is written as a column keeps it, a patch has a row for exactly the columns
that differ afterwards. -/
theorem diff_eq_auditRows {input : UpdateInventoryItemInput} (actor : Option String)
    (current : InventoryItem) (hid : ∀ productId ∈ input.productId, uuidText productId = productId) :
    patchLogs current.id actor (diffInventoryItem current input) =
      auditRows actor current (current.applyPatch input) := by
  have hproduct : (input.productId.map uuidText).getD current.productId =
      input.productId.getD current.productId := by
    cases hp : input.productId with
    | none => rfl
    | some productId => exact hid productId hp
  have hone : ∀ {α : Type} [DecidableEq α] (field : AuditedField) (text : α → String) (old : α)
      (next : Option α), (field.Differs current (current.applyPatch input) ↔ old ≠ next.getD old) →
      field.text current = text old →
      field.text (current.applyPatch input) = text (next.getD old) →
      patchLogs current.id actor (fieldChange field.name text old next) =
        auditRow actor current (current.applyPatch input) field := by
    intro α _ field text old next hdiffers hold hnew
    rw [fieldChange_eq, auditRow]
    by_cases h : old = next.getD old
    · rw [if_pos h, if_neg (fun hd => hdiffers.mp hd h)]
      rfl
    · rw [if_neg h, if_pos (hdiffers.mpr h), hold, hnew]
      rfl
  unfold diffInventoryItem
  rw [auditRows_eq]
  simp only [patchLogs_append]
  rw [show "sku" = AuditedField.sku.name from rfl,
    show "productId" = AuditedField.productId.name from rfl,
    show "warehouse" = AuditedField.warehouse.name from rfl,
    show "quantity" = AuditedField.quantity.name from rfl,
    show "reorderLevel" = AuditedField.reorderLevel.name from rfl,
    hone .sku id _ _ Iff.rfl rfl rfl,
    hone .productId id current.productId input.productId
      (by rw [← hproduct]; exact Iff.rfl) rfl hproduct,
    hone .warehouse id _ _ Iff.rfl rfl rfl, hone .quantity toString _ _ Iff.rfl rfl rfl,
    hone .reorderLevel toString _ _ Iff.rfl rfl rfl]
  simp [AUDITED_FIELDS]

/-- Everything a patch that names a new value changes. -/
structure PatchEffect (id : String) (input : UpdateInventoryItemInput) (actor : Option String)
    (current : InventoryItem) (db db' : Database) : Prop where
  items : db'.inventoryItems = db.patched id input
  logs : db'.auditLogs =
    db.auditLogs ++ patchLogs id actor (diffInventoryItem current input)
  ledger : db'.stockMovements = db.stockMovements ++
    patchMovements id actor current (current.applyPatch input)
  processed : db'.processedMessages = db.processedMessages

section Update

variable {id : String} {input : UpdateInventoryItemInput} {actor : Option String}
  {db : Database} {current : InventoryItem}

theorem patched_fits (db : Database) (id : String) (input : UpdateInventoryItemInput) :
    ∀ item ∈ db.patched id input, item.Fits := by
  have hquantity : ∀ (value : Option FieldQuantity) (n : Int), fitsInt4 n →
      fitsInt4 ((value.map (·.value)).getD n) := by
    intro value n hn
    cases value with
    | none => exact hn
    | some value =>
      have h1 := value.nonnegative
      have h2 := value.bounded
      show -2147483648 ≤ value.value ∧ value.value ≤ 2147483647
      constructor <;> omega
  intro item hi
  obtain ⟨row, hr, rfl⟩ := List.mem_map.mp hi
  have hfit := db.columnsFit row hr
  by_cases hid : row.id = id
  · rw [if_pos hid]
    exact ⟨hquantity _ _ hfit.1, hfit.2.1, hquantity _ _ hfit.2.2⟩
  · rw [if_neg hid]
    exact hfit

/-- The database with the row of the patch rewritten. -/
def rewritePatched (db : Database) (id : String) (input : UpdateInventoryItemInput)
    (hu : UniqueKeys (db.patched id input)) : Database :=
  { db with inventoryItems := db.patched id input, uniqueKeys := hu,
            columnsFit := patched_fits db id input }

theorem updatePatch_run (hf : db.findById id = some current)
    (hu : UniqueKeys (db.patched id input)) :
    (Tx.updateItem id (·.applyPatch input)).run db =
      .ok (current.applyPatch input, rewritePatched db id input hu) := by
  have hw : db.writeItems (db.patched id input) = .ok (rewritePatched db id input hu) := by
    unfold Database.writeItems
    rw [dif_pos hu, dif_pos (patched_fits db id input)]
    rfl
  unfold Database.patched at hw
  simp only [Tx.updateItem, StateT.run_bind, StateT.run_get, pure_bind, hf, Tx.writeItems, hw,
    StateT.run_set, StateT.run_pure]
  rfl

theorem updatePatch_run_clash (hf : db.findById id = some current)
    (hu : ¬ UniqueKeys (db.patched id input)) :
    (Tx.updateItem id (·.applyPatch input)).run db = .error (.database .uniqueViolation) := by
  have hw : db.writeItems (db.patched id input) = .error .uniqueViolation := by
    unfold Database.writeItems
    rw [dif_neg hu]
  unfold Database.patched at hw
  simp only [Tx.updateItem, StateT.run_bind, StateT.run_get, pure_bind, hf, Tx.writeItems, hw]
  rfl

/-- `update`, as the service calls it. -/
abbrev updateCall (id : String) (input : UpdateInventoryItemInput) (actor : Option String) :
    Action InventoryItem :=
  Repository.update id input { actor, validate := Service.validatePatch input }

theorem update_missing (h : db.findById id = none) :
    updateCall id input actor db =
      (.error (.app (.NotFoundError s!"Inventory item '{id}' was not found")), db) := by
  apply commit_of_error
  simp only [Tx.findUnique, StateT.run_bind, StateT.run_get, pure_bind, StateT.run_pure, h]
  rfl

theorem update_refused {error : AppError} (h : db.findById id = some current)
    (hv : Service.validatePatch input current = .error error) :
    updateCall id input actor db = (.error (.app error), db) := by
  apply commit_of_error
  simp only [Tx.findUnique, StateT.run_bind, StateT.run_get, pure_bind, StateT.run_pure, h, hv,
    liftPlan]
  rfl

theorem update_same (h : db.findById id = some current)
    (hv : Service.validatePatch input current = .ok ())
    (hd : diffInventoryItem current input = []) :
    updateCall id input actor db = (.ok current, db) := by
  apply commit_of_ok
  simp only [Tx.findUnique, StateT.run_bind, StateT.run_get, pure_bind, StateT.run_pure, h, hv,
    liftPlan, hd]
  rfl

theorem isEmpty_diff (hd : diffInventoryItem current input ≠ []) :
    (diffInventoryItem current input).isEmpty = false := by
  cases hc : diffInventoryItem current input with
  | nil => exact absurd hc hd
  | cons change changes => rfl

theorem update_clash (h : db.findById id = some current)
    (hv : Service.validatePatch input current = .ok ())
    (hd : diffInventoryItem current input ≠ []) (hu : ¬ UniqueKeys (db.patched id input)) :
    updateCall id input actor db = (.error (.database .uniqueViolation), db) := by
  apply commit_of_error
  simp only [Tx.findUnique, StateT.run_bind, StateT.run_get, pure_bind, StateT.run_pure, h, hv,
    liftPlan, isEmpty_diff hd, Bool.false_eq_true, if_false, updatePatch_run_clash h hu]
  rfl

variable (actor) in
theorem update_accepted (h : db.findById id = some current)
    (hv : Service.validatePatch input current = .ok ())
    (hd : diffInventoryItem current input ≠ []) (hu : UniqueKeys (db.patched id input)) :
    ∃ db', updateCall id input actor db = (.ok (current.applyPatch input), db') ∧
      PatchEffect id input actor current db db' := by
  refine ⟨{ rewritePatched db id input hu with
    auditLogs := db.auditLogs ++ patchLogs id actor (diffInventoryItem current input)
    stockMovements := db.stockMovements ++
      patchMovements id actor current (current.applyPatch input) }, ?_, ⟨rfl, rfl, rfl, rfl⟩⟩
  apply commit_of_ok
  simp only [Tx.findUnique, StateT.run_bind, StateT.run_get, pure_bind, StateT.run_pure, h, hv,
    liftPlan, isEmpty_diff hd, Bool.false_eq_true, if_false, updatePatch_run h hu,
    Tx.createAuditLogs]
  show StateT.run (if ¬ (current.applyPatch input).quantity = current.quantity then _ else _) _ = _
  by_cases hq : (current.applyPatch input).quantity = current.quantity
  · rw [if_neg (not_not.mpr hq)]
    simp only [patchMovements, if_neg (not_not.mpr hq), List.append_nil]
    rfl
  · rw [if_pos hq]
    simp only [patchMovements, if_pos hq]
    rfl

/-- Everything a patch can do. -/
theorem update_cases (id : String) (input : UpdateInventoryItemInput) (actor : Option String)
    (db : Database) :
    (∃ error, updateCall id input actor db = (.error error, db) ∧
      error ≠ .database .valueOutOfRange ∧ ¬ (db.AdmitsPatch id input ∧ ∃ current ∈ db.findById id,
        diffInventoryItem current input ≠ [])) ∨
    ∃ current, db.findById id = some current ∧
      Service.validatePatch input current = .ok () ∧
      ((diffInventoryItem current input = [] ∧
          updateCall id input actor db = (.ok current, db)) ∨
        (diffInventoryItem current input ≠ [] ∧ db.AdmitsPatch id input ∧
          ∃ db', updateCall id input actor db = (.ok (current.applyPatch input), db') ∧
            PatchEffect id input actor current db db')) := by
  cases hf : db.findById id with
  | none =>
    refine .inl ⟨_, update_missing hf, (fun he => nomatch he), ?_⟩
    rintro ⟨-, current, hc, -⟩
    cases hc
  | some current =>
    cases hv : Service.validatePatch input current with
    | error error =>
      refine .inl ⟨_, update_refused hf hv, (fun he => nomatch he), ?_⟩
      rintro ⟨⟨⟨item, hi, hok⟩, -⟩, -⟩
      rw [hf] at hi
      cases hi
      rw [hv] at hok
      cases hok
    | ok u =>
      by_cases hd : diffInventoryItem current input = []
      · exact .inr ⟨current, rfl, hv, .inl ⟨hd, update_same hf hv hd⟩⟩
      by_cases hu : UniqueKeys (db.patched id input)
      · obtain ⟨db', hrun, heff⟩ := update_accepted actor hf hv hd hu
        exact .inr ⟨current, rfl, hv, .inr ⟨hd, ⟨⟨current, hf, hv⟩, hu⟩, db', hrun, heff⟩⟩
      · exact .inl ⟨_, update_clash hf hv hd hu, (fun he => nomatch he),
          fun ⟨hadm, _⟩ => hu hadm.2⟩

end Update

end PracticalMicroservice.Inventory
