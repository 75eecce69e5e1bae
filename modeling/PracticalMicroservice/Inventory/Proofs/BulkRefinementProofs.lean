import PracticalMicroservice.Inventory.Proofs.PatchProofs

/-!
# When a bulk transition is the all-or-nothing composition of single ones

The specification is the sequential run of the lines' single operations. The bulk path reads all
rows at once and plans them together, and looks each line's row up by the text of its product id,
where the single path asks the `uuid` column: the two agree on lines that spell the id as the column
keeps it.
-/

namespace PracticalMicroservice.Inventory

/-! ## The specification -/

/-- The single operation of one line, on the item its product names. -/
def singleOfLine (t : Transition) (input : BulkStockInput) (line : BulkStockLine) :
    Action InventoryItemView := do
  match ← Service.getByProductId line.productId with
  | none => throw (.app (.NotFoundError
      s!"No inventory item exists for product '{line.productId}'"))
  | some item =>
    t.single item.id
      { quantity := line.quantity, reason := input.reason, reference := some input.reference }

/-- The single operations of the lines one after the other, until one is refused. -/
def runSingles (t : Transition) (input : BulkStockInput) : List BulkStockLine → Action Unit
  | [] => pure ()
  | line :: rest => do
    let _ ← singleOfLine t input line
    runSingles t input rest

/-- The outcome of a bulk transition as a client sees it: whether it succeeded, and the products it
reports otherwise. -/
def reported : Except Thrown (List InventoryItemView) → Option (List String)
  | .ok _ => none
  | .error (.app error) => some (error.details.map (·.productId))
  | .error (.database _) => some []

/-- A bulk transition is the all-or-nothing composition of its lines' single ones. -/
structure BulkRefines (t : Transition) (db : Database) (input : BulkStockInput)
    (key : Option IdempotencyKey) : Prop where
  /-- It succeeds exactly when each single operation would. -/
  succeeds : (t.bulk input key db).1.isOk = true ↔
    ∀ line ∈ input.items, (singleOfLine t input line db).1.isOk = true
  /-- Then it leaves what the singles leave, in whatever order they run. -/
  effect : (t.bulk input key db).1.isOk = true → ∀ order, order.Perm input.items →
    (runSingles t input order db).1 = .ok () ∧
    (runSingles t input order db).2.inventoryItems = (t.bulk input key db).2.inventoryItems ∧
    (runSingles t input order db).2.stockMovements.Perm (t.bulk input key db).2.stockMovements
  /-- Otherwise it reports the lines whose single operation is refused and changes nothing. -/
  refusal : (t.bulk input key db).1.isOk = false →
    reported (t.bulk input key db).1 = some
      ((input.items.filter fun line => !(singleOfLine t input line db).1.isOk).map
        (·.productId)) ∧
    (t.bulk input key db).2 = db
  /-- Permuting the lines changes neither the outcome, nor the report, nor the effect. -/
  permuted : ∀ permuted : BulkStockInput, permuted.items.Perm input.items →
    permuted.reason = input.reason → permuted.reference = input.reference →
    (t.bulk permuted key db).1.isOk = (t.bulk input key db).1.isOk ∧
    (∀ ids, reported (t.bulk input key db).1 = some ids →
      ∃ ids', reported (t.bulk permuted key db).1 = some ids' ∧ ids'.Perm ids) ∧
    (t.bulk permuted key db).2.inventoryItems = (t.bulk input key db).2.inventoryItems ∧
    (t.bulk permuted key db).2.stockMovements.Perm (t.bulk input key db).2.stockMovements
  /-- Releasing the lines of a reservation that succeeded restores every level. -/
  restores : (Service.reserveMany input db).1.isOk = true →
    ∀ released : BulkStockInput, released.items.Perm input.items →
      (Service.releaseMany released none (Service.reserveMany input db).2).1.isOk = true ∧
      (Service.releaseMany released none (Service.reserveMany input db).2).2.inventoryItems =
        db.inventoryItems

/-! ## One line -/

/-- The line with its product id as the `uuid` column keeps it. -/
def BulkStockLine.kept (line : BulkStockLine) : BulkStockLine :=
  { line with productId := uuidText line.productId }

/-- The line spells its product id as the column keeps it. -/
def BulkStockLine.Spelled (line : BulkStockLine) : Prop := uuidText line.productId = line.productId

instance (line : BulkStockLine) : Decidable line.Spelled := inferInstanceAs (Decidable (_ = _))

theorem BulkStockLine.Spelled.kept_eq {line : BulkStockLine} (h : line.Spelled) :
    line.kept = line := by
  cases line
  exact congrArg (BulkStockLine.mk · _) h

/-- In a table that keeps its ids as the column does, an accepted line spells its own so. -/
theorem Accepts.spelled {t : Transition} {db : Database} {line : BulkStockLine}
    (hc : Canonical db) (h : Accepts t db line) : line.Spelled := by
  obtain ⟨item, hf, -⟩ := h
  obtain ⟨hmem, hp⟩ := Database.findByProductId_mem hf
  have hkept := hc item hmem
  rw [hp] at hkept
  exact hkept

section Single

variable {t : Transition} {db : Database} {input : BulkStockInput} {line : BulkStockLine}

theorem planChange_eq (reason : Option String) (reference : Option String)
    (item : InventoryItem) (quantity : Int) :
    Service.planChange t.type quantity reason reference (t.plan · quantity) item =
      (Service.planLevels t.plan item quantity).map fun next =>
        { levels := next, movement := { type := t.type, quantity, reason, reference } } := by
  show (t.plan item.levels quantity >>= fun next => assertInvariants next >>= fun _ => _) =
    Except.map _ (t.plan item.levels quantity >>= fun next => assertInvariants next >>= fun _ => _)
  cases t.plan item.levels quantity with
  | error e => rfl
  | ok next =>
    show (assertInvariants next >>= fun _ => _) = Except.map _ (assertInvariants next >>= fun _ => _)
    cases assertInvariants next <;> rfl

theorem single_eq (id : String) (body : ReserveStockInput) :
    t.single id body = Service.applyChange id t.type body.quantity.value body.reason
      body.reference (t.plan · body.quantity.value) := by
  cases t <;> rfl

theorem singleOfLine_apply :
    singleOfLine t input line db = match db.findByProductId (uuidText line.productId) with
      | none => (.error (.app (.NotFoundError
          s!"No inventory item exists for product '{line.productId}'")), db)
      | some item => t.single item.id
          { quantity := line.quantity, reason := input.reason,
            reference := some input.reference } db := by
  unfold singleOfLine
  rw [Action.bind_apply]
  show (match (db.findByProductId (uuidText line.productId)).map toInventoryItemView with
    | none => _ | some item => _ : Action _) db = _
  cases db.findByProductId (uuidText line.productId) <;> rfl

variable (t input) in
theorem singleOfLine_run {item : InventoryItem}
    (hf : db.findByProductId (uuidText line.productId) = some item) :
    singleOfLine t input line db =
      ((Repository.applyStockChange item.id (Service.planChange t.type line.quantity.value
          input.reason (some input.reference) (t.plan · line.quantity.value)) db).1.map
          toInventoryItemView,
        (Repository.applyStockChange item.id (Service.planChange t.type line.quantity.value
          input.reason (some input.reference) (t.plan · line.quantity.value)) db).2) := by
  rw [singleOfLine_apply, hf]
  show t.single item.id _ db = _
  rw [single_eq]
  exact Action.map_apply _ _ db

/-- What an accepted single operation changes. -/
structure SingleEffect (t : Transition) (input : BulkStockInput) (line : BulkStockLine)
    (db db' : Database) : Prop where
  items : db'.inventoryItems = db.inventoryItems.map (shiftItem t [line])
  ledger : db'.stockMovements = db.stockMovements ++ bulkRows t db input [line]

variable (input) in
/-- The single operation finds the row whatever the case of the id's letters. -/
theorem singleOfLine_accepted (h : Accepts t db line.kept) :
    ∃ view db', singleOfLine t input line db = (.ok view, db') ∧
      SingleEffect t input line.kept db db' := by
  obtain ⟨item, hf, hadmits⟩ := h
  have ha : t.Admits item.levels line.quantity.value := hadmits
  have hmem := (Database.findByProductId_mem hf).1
  have hid : db.findById item.id = some item := Database.findById_of_mem hmem
  have hfit : (t.next item.levels line.quantity.value).Fits :=
    ha.2.fits_of_le (db.columnsFit _ hmem).1 (le_refl _)
  have hplan := planChange_eq (t := t) input.reason (some input.reference) item line.quantity.value
  rw [planLevels_of_admits ha] at hplan
  have hrun := singleOfLine_run t input hf
  rw [applyStockChange_accepted hid hplan hfit] at hrun
  refine ⟨_, _, hrun, ?_, ?_⟩
  · refine List.map_congr_left fun row hr => ?_
    unfold assignLevels assignOne shiftItem
    by_cases he : row.id = item.id
    · have hrow : db.findById row.id = some row := Database.findById_of_mem hr
      rw [he, hid] at hrow
      cases hrow
      have hq : lineQuantity [line.kept] item.productId = line.quantity.value := by
        rw [(Database.findByProductId_mem hf).2]
        simp [lineQuantity, BulkStockLine.kept]
      simp [hq]
    · have hne : row.productId ∉ [line.kept].map (·.productId) := by
        intro hm
        have hp : row.productId = line.kept.productId := by simpa using hm
        have hrow := Database.findByProductId_of_mem hr
        rw [hp, hf] at hrow
        cases hrow
        exact he rfl
      rw [lineQuantity_of_not_mem hne]
      simp [he, Transition.next, InventoryItem.setLevels, InventoryItem.levels]
  · have htarget : targetOf t db input line.kept =
        some (acceptedPlan t input line.kept item, item) := by
      simp [targetOf, hf]
    show db.stockMovements ++ _ = db.stockMovements ++ _
    unfold bulkRows
    rw [List.filterMap_cons_some htarget]
    rfl

variable (input) in
theorem singleOfLine_refused (h : ¬ Accepts t db line.kept) :
    ∃ error, singleOfLine t input line db = (.error error, db) := by
  cases hf : db.findByProductId (uuidText line.productId) with
  | none =>
    rw [singleOfLine_apply, hf]
    exact ⟨_, rfl⟩
  | some item =>
    have hid : db.findById item.id = some item :=
      Database.findById_of_mem (Database.findByProductId_mem hf).1
    have hno : ¬ t.Admits item.levels line.quantity.value := fun ha => h ⟨item, hf, ha⟩
    obtain ⟨error, he⟩ := planLevels_of_not_admits hno
    have hplan := planChange_eq (t := t) input.reason (some input.reference) item
      line.quantity.value
    rw [he] at hplan
    rw [singleOfLine_run t input hf, applyStockChange_refused hid hplan]
    exact ⟨_, rfl⟩

theorem singleOfLine_isOk :
    (singleOfLine t input line db).1.isOk = true ↔ Accepts t db line.kept := by
  by_cases h : Accepts t db line.kept
  · obtain ⟨view, db', hrun, -⟩ := singleOfLine_accepted input h
    rw [hrun]
    exact ⟨fun _ => h, fun _ => rfl⟩
  · obtain ⟨error, hrun⟩ := singleOfLine_refused input h
    rw [hrun]
    exact ⟨fun hok => (Bool.false_ne_true hok).elim, fun ha => absurd ha h⟩

end Single

/-! ## The lines one after the other -/

section Sequence

variable {t : Transition} {db db' : Database} {input : BulkStockInput}

theorem findByProductId_shift {lines : List BulkStockLine}
    (h : db'.inventoryItems = db.inventoryItems.map (shiftItem t lines)) (productId : String) :
    db'.findByProductId productId = (db.findByProductId productId).map (shiftItem t lines) := by
  unfold Database.findByProductId
  rw [h, List.find?_map]
  rfl

/-- Lines of other products leave a row as it is. -/
theorem shiftItem_of_not_mem {lines : List BulkStockLine} {row : InventoryItem}
    (h : row.productId ∉ lines.map (·.productId)) : shiftItem t lines row = row := by
  unfold shiftItem
  rw [lineQuantity_of_not_mem h]
  simp [Transition.next, InventoryItem.setLevels, InventoryItem.levels]

theorem shiftItem_cons {line : BulkStockLine} {rest : List BulkStockLine}
    (hn : line.productId ∉ rest.map (·.productId)) (row : InventoryItem) :
    shiftItem t rest (shiftItem t [line] row) = shiftItem t (line :: rest) row := by
  by_cases h : row.productId = line.productId
  · have hrest : (shiftItem t [line] row).productId ∉ rest.map (·.productId) := by
      show row.productId ∉ _
      rw [h]
      exact hn
    rw [shiftItem_of_not_mem hrest]
    simp [shiftItem, lineQuantity, h]
  · have hone : row.productId ∉ [line].map (·.productId) := by simpa using h
    rw [shiftItem_of_not_mem hone]
    have hne : ¬ line.productId = row.productId := fun e => h e.symm
    simp [shiftItem, lineQuantity, hne]

/-- A shift of the reserved counts changes neither a row's key nor what a movement copies of it. -/
theorem bulkRows_shift {first : List BulkStockLine}
    (h : db'.inventoryItems = db.inventoryItems.map (shiftItem t first))
    (lines : List BulkStockLine) : bulkRows t db' input lines = bulkRows t db input lines := by
  unfold bulkRows
  induction lines with
  | nil => rfl
  | cons line rest ih =>
    cases hf : db.findByProductId line.productId with
    | none =>
      have hf' : db'.findByProductId line.productId = none := by
        rw [findByProductId_shift h, hf]; rfl
      have ht : targetOf t db input line = none := by simp [targetOf, hf]
      have ht' : targetOf t db' input line = none := by simp [targetOf, hf']
      rw [List.filterMap_cons_none ht, List.filterMap_cons_none ht']
      exact ih
    | some item =>
      have hf' : db'.findByProductId line.productId = some (shiftItem t first item) := by
        rw [findByProductId_shift h, hf]; rfl
      have ht : targetOf t db input line = some (acceptedPlan t input line item, item) := by
        simp [targetOf, hf]
      have ht' : targetOf t db' input line =
          some (acceptedPlan t input line (shiftItem t first item), shiftItem t first item) := by
        simp [targetOf, hf']
      rw [List.filterMap_cons_some ht, List.filterMap_cons_some ht', List.map_cons,
        List.map_cons, ih]
      rfl

theorem accepts_shift {first : List BulkStockLine} {line : BulkStockLine}
    (h : db'.inventoryItems = db.inventoryItems.map (shiftItem t first))
    (hn : line.productId ∉ first.map (·.productId)) (ha : Accepts t db line) :
    Accepts t db' line := by
  obtain ⟨item, hf, hadm⟩ := ha
  refine ⟨item, ?_, hadm⟩
  have hp : item.productId ∉ first.map (·.productId) := by
    rw [(Database.findByProductId_mem hf).2]
    exact hn
  rw [findByProductId_shift h, hf, Option.map_some, shiftItem_of_not_mem hp]

variable (input) in
theorem runSingles_accepted {lines : List BulkStockLine}
    (hn : (lines.map (·.productId)).Nodup) (hs : ∀ line ∈ lines, line.Spelled)
    (h : ∀ line ∈ lines, Accepts t db line) :
    ∃ db', runSingles t input lines db = (.ok (), db') ∧
      db'.inventoryItems = db.inventoryItems.map (shiftItem t lines) ∧
      db'.stockMovements = db.stockMovements ++ bulkRows t db input lines := by
  induction lines generalizing db with
  | nil =>
    refine ⟨db, rfl, ?_, ?_⟩
    · have hsame : ∀ row ∈ db.inventoryItems, shiftItem t [] row = id row := fun row _ =>
        shiftItem_of_not_mem List.not_mem_nil
      rw [List.map_congr_left hsame, List.map_id]
    · simp [bulkRows]
  | cons line rest ih =>
    rw [List.map_cons, List.nodup_cons] at hn
    have hline : line.kept = line := (hs line List.mem_cons_self).kept_eq
    have haccepts : Accepts t db line.kept := by
      rw [hline]
      exact h line List.mem_cons_self
    obtain ⟨view, db1, hrun, heff⟩ := singleOfLine_accepted input haccepts
    rw [hline] at heff
    have hrest : ∀ l ∈ rest, Accepts t db1 l := by
      intro l hl
      have hne : l.productId ∉ [line].map (·.productId) := by
        intro hm
        have he : l.productId = line.productId := by simpa using hm
        exact hn.1 (he ▸ List.mem_map_of_mem hl)
      exact accepts_shift heff.items hne (h l (List.mem_cons_of_mem _ hl))
    obtain ⟨db2, hrun2, hitems, hledger⟩ :=
      ih hn.2 (fun l hl => hs l (List.mem_cons_of_mem _ hl)) hrest
    refine ⟨db2, ?_, ?_, ?_⟩
    · unfold runSingles
      rw [Action.bind_apply, hrun]
      exact hrun2
    · rw [hitems, heff.items, List.map_map]
      exact List.map_congr_left fun row _ => shiftItem_cons hn.1 row
    · rw [hledger, heff.ledger, bulkRows_shift heff.items, List.append_assoc]
      congr 1
      unfold bulkRows
      rw [← List.map_append, ← List.filterMap_append]
      rfl

theorem lineQuantity_perm {l l' : List BulkStockLine} (hp : l.Perm l')
    (hn : (l.map (·.productId)).Nodup) : lineQuantity l = lineQuantity l' := by
  funext productId
  have hn' : (l'.map (·.productId)).Nodup := (hp.map _).nodup_iff.mp hn
  by_cases h : productId ∈ l.map (·.productId)
  · obtain ⟨line, hm, rfl⟩ := List.mem_map.mp h
    rw [lineQuantity_of_mem hn hm, lineQuantity_of_mem hn' (hp.mem_iff.mp hm)]
  · have h' : productId ∉ l'.map (·.productId) := fun hm => h ((hp.map _).mem_iff.mpr hm)
    rw [lineQuantity_of_not_mem h, lineQuantity_of_not_mem h']

theorem shiftItem_perm {l l' : List BulkStockLine} (hp : l.Perm l')
    (hn : (l.map (·.productId)).Nodup) : shiftItem t l = shiftItem t l' := by
  funext row
  unfold shiftItem
  rw [lineQuantity_perm hp hn]

theorem bulkRows_perm {l l' : List BulkStockLine} (hp : l.Perm l') :
    (bulkRows t db input l).Perm (bulkRows t db input l') :=
  (hp.filterMap _).map _

end Sequence

/-! ## Reserving and releasing the same lines -/

section Restore

variable {db db' : Database} {reserved released : BulkStockInput}

theorem accepts_release_of_reserved (hs : ItemsSound db)
    (h : ∀ line ∈ reserved.items, Accepts .reserve db line)
    (hitems : db'.inventoryItems = db.inventoryItems.map (shiftItem .reserve reserved.items))
    {line : BulkStockLine} (hl : line ∈ reserved.items) : Accepts .release db' line := by
  obtain ⟨item, hf, -⟩ := h line hl
  obtain ⟨hmem, hp⟩ := Database.findByProductId_mem hf
  obtain ⟨h1, h2⟩ := hs item hmem
  have hq := line.quantity.positive
  refine ⟨shiftItem .reserve reserved.items item, ?_, ?_⟩
  · rw [findByProductId_shift hitems, hf]
    rfl
  · show Transition.release.Admits (Transition.next .reserve item.levels
      (lineQuantity reserved.items item.productId)) _
    rw [hp, lineQuantity_of_mem reserved.distinct hl]
    refine ⟨?_, ?_⟩
    · show line.quantity.value ≤ item.levels.reserved + 1 * line.quantity.value
      omega
    · show 0 ≤ item.levels.reserved + 1 * line.quantity.value + -1 * line.quantity.value ∧
        item.levels.reserved + 1 * line.quantity.value + -1 * line.quantity.value ≤
          item.levels.quantity
      omega

theorem shiftItem_release_reserve (lines : List BulkStockLine) (row : InventoryItem) :
    shiftItem .release lines (shiftItem .reserve lines row) = row := by
  have hr : row.reserved + lineQuantity lines row.productId +
      -lineQuantity lines row.productId = row.reserved := by omega
  simp [shiftItem, Transition.next, Transition.shift, InventoryItem.setLevels,
    InventoryItem.levels, hr]

end Restore

/-! ## The refinement -/

section Refinement

variable {t : Transition} {db : Database} {input : BulkStockInput} {key : Option IdempotencyKey}

variable (t input) in
theorem bulk_isOk (hk : ∀ k ∈ key, Fresh db k) :
    (t.bulk input key db).1.isOk = true ↔ ∀ line ∈ input.items, Accepts t db line := by
  by_cases h : ∀ line ∈ input.items, Accepts t db line
  · obtain ⟨views, db', hrun, -⟩ := bulk_accepted h hk
    rw [hrun]
    exact ⟨fun _ => h, fun _ => rfl⟩
  · have h' : ∃ line ∈ input.items, ¬ Accepts t db line := by
      by_contra hc
      exact h fun line hl => by_contra fun hn => hc ⟨line, hl, hn⟩
    obtain ⟨message, failures, hrun, -⟩ := bulk_rejected h' hk
    rw [hrun]
    exact ⟨fun hok => (Bool.false_ne_true hok).elim, fun ha => absurd ha h⟩

theorem bulk_effect_of_isOk (hok : (t.bulk input key db).1.isOk = true) :
    BulkEffect t key input db (t.bulk input key db).2 ∧
      ∀ line ∈ input.items, Accepts t db line := by
  obtain ⟨views, db', hrun, heff, hacc, -⟩ | ⟨_, _, hrun, -⟩ | ⟨k, -, -, hrun⟩ :=
    bulk_cases t input key db
  · rw [hrun]
    exact ⟨heff, hacc⟩
  · rw [hrun] at hok
    cases hok
  · rw [hrun] at hok
    cases hok

/-- Every line the single operation would accept spells its product id as the column keeps it. -/
def SpelledWhereAdmitted (t : Transition) (db : Database) (input : BulkStockInput) : Prop :=
  ∀ line ∈ input.items, ∀ item ∈ db.findByProductId (uuidText line.productId),
    t.Admits item.levels line.quantity.value → line.Spelled

/-- Then the bulk path accepts a line just when the single one does. -/
theorem accepts_kept_iff (hc : Canonical db) (hs : SpelledWhereAdmitted t db input)
    {line : BulkStockLine} (hl : line ∈ input.items) :
    Accepts t db line.kept ↔ Accepts t db line := by
  refine ⟨fun h => ?_, fun h => ?_⟩
  · obtain ⟨item, hf, ha⟩ := id h
    have hspelled : line.Spelled := hs line hl item hf ha
    rw [hspelled.kept_eq] at h
    exact h
  · rw [(h.spelled hc).kept_eq]
    exact h

/-- The lines whose single operation is refused are the rejected ones. -/
theorem refusedLines_eq (hc : Canonical db) (hs : SpelledWhereAdmitted t db input) :
    input.items.filter (fun line => !(singleOfLine t input line db).1.isOk) =
      rejectedLines t db input.items := by
  refine List.filter_congr fun line hl => ?_
  by_cases h : Accepts t db line
  · have hok : (singleOfLine t input line db).1.isOk = true :=
      singleOfLine_isOk.mpr ((accepts_kept_iff hc hs hl).mpr h)
    rw [hok, decide_eq_true h]
  · have hno : (singleOfLine t input line db).1.isOk = false := by
      rw [Bool.eq_false_iff]
      exact fun hok => h ((accepts_kept_iff hc hs hl).mp (singleOfLine_isOk.mp hok))
    rw [hno, decide_eq_false h]

theorem runSingles_of_isOk (hc : Canonical db) (hok : (t.bulk input key db).1.isOk = true)
    {order : List BulkStockLine} (hp : order.Perm input.items) :
    (runSingles t input order db).1 = .ok () ∧
    (runSingles t input order db).2.inventoryItems = (t.bulk input key db).2.inventoryItems ∧
    (runSingles t input order db).2.stockMovements.Perm
      (t.bulk input key db).2.stockMovements := by
  obtain ⟨heff, hacc⟩ := bulk_effect_of_isOk hok
  have hn : (order.map (·.productId)).Nodup := (hp.map _).nodup_iff.mpr input.distinct
  have horder : ∀ line ∈ order, Accepts t db line := fun line hl => hacc line (hp.mem_iff.mp hl)
  obtain ⟨db', hrun, hitems, hledger⟩ :=
    runSingles_accepted input hn (fun line hl => (horder line hl).spelled hc) horder
  obtain ⟨rows, hrows, hperm⟩ := heff.ledger
  rw [hrun]
  refine ⟨rfl, ?_, ?_⟩
  · rw [hitems, heff.items, shiftItem_perm hp hn]
  · rw [hledger, hrows]
    exact ((bulkRows_perm hp).trans hperm.symm).append_left _

theorem bulk_refused (hk : ∀ k ∈ key, Fresh db k)
    (hno : (t.bulk input key db).1.isOk = false) :
    ∃ message details,
      t.bulk input key db = (.error (.app (.ConflictError message details)), db) ∧
      details.map (·.productId) = (rejectedLines t db input.items).map (·.productId) := by
  have h : ∃ line ∈ input.items, ¬ Accepts t db line := by
    by_contra hc
    have hok := (bulk_isOk t input hk).mpr fun line hl => by_contra fun hn => hc ⟨line, hl, hn⟩
    rw [hno] at hok
    cases hok
  exact bulk_rejected h hk

/-- What the two inputs share decides the rows they record. -/
theorem bulkRows_congr {permuted : BulkStockInput} (hreason : permuted.reason = input.reason)
    (href : permuted.reference = input.reference) (lines : List BulkStockLine) :
    bulkRows t db permuted lines = bulkRows t db input lines := by
  have htarget : targetOf t db permuted = targetOf t db input := by
    funext line
    unfold targetOf acceptedPlan
    rw [hreason, href]
  unfold bulkRows
  rw [htarget]

theorem reported_rejected (hk : ∀ k ∈ key, Fresh db k)
    (hno : (t.bulk input key db).1.isOk = false) :
    reported (t.bulk input key db).1 =
      some ((rejectedLines t db input.items).map (·.productId)) := by
  obtain ⟨message, details, hrun, hids⟩ := bulk_refused hk hno
  rw [hrun]
  show some (details.map (·.productId)) = _
  rw [hids]

theorem bulk_permuted (hk : ∀ k ∈ key, Fresh db k) {permuted : BulkStockInput}
    (hp : permuted.items.Perm input.items) (hreason : permuted.reason = input.reason)
    (href : permuted.reference = input.reference) :
    (t.bulk permuted key db).1.isOk = (t.bulk input key db).1.isOk ∧
    (∀ ids, reported (t.bulk input key db).1 = some ids →
      ∃ ids', reported (t.bulk permuted key db).1 = some ids' ∧ ids'.Perm ids) ∧
    (t.bulk permuted key db).2.inventoryItems = (t.bulk input key db).2.inventoryItems ∧
    (t.bulk permuted key db).2.stockMovements.Perm (t.bulk input key db).2.stockMovements := by
  have hiff : (t.bulk permuted key db).1.isOk = true ↔ (t.bulk input key db).1.isOk = true := by
    rw [bulk_isOk t permuted hk, bulk_isOk t input hk]
    exact ⟨fun h line hl => h line (hp.mem_iff.mpr hl), fun h line hl => h line (hp.mem_iff.mp hl)⟩
  have hsame : (t.bulk permuted key db).1.isOk = (t.bulk input key db).1.isOk :=
    Bool.eq_iff_iff.mpr hiff
  refine ⟨hsame, ?_⟩
  cases hok : (t.bulk input key db).1.isOk with
  | true =>
    obtain ⟨heff, -⟩ := bulk_effect_of_isOk hok
    obtain ⟨heff', -⟩ := bulk_effect_of_isOk (hsame.trans hok)
    obtain ⟨rows, hrows, hperm⟩ := heff.ledger
    obtain ⟨rows', hrows', hperm'⟩ := heff'.ledger
    refine ⟨fun ids hids => ?_, ?_, ?_⟩
    · cases hr : (t.bulk input key db).1 with
      | ok views => rw [hr] at hids; cases hids
      | error e => rw [hr] at hok; cases hok
    · rw [heff.items, heff'.items, shiftItem_perm hp permuted.distinct]
    · rw [hrows, hrows']
      rw [bulkRows_congr hreason href] at hperm'
      exact ((hperm'.trans (bulkRows_perm hp)).trans hperm.symm).append_left _
  | false =>
    have hno := hsame.trans hok
    obtain ⟨_, _, hrun, -⟩ := bulk_refused hk hok
    obtain ⟨_, _, hrun', -⟩ := bulk_refused hk hno
    refine ⟨fun ids hids => ?_, ?_, ?_⟩
    · rw [reported_rejected hk hok] at hids
      cases hids
      exact ⟨_, reported_rejected hk hno, (hp.filter _).map _⟩
    · rw [hrun, hrun']
    · rw [hrun, hrun']

/-- Handing back the lines of a reservation restores every level. -/
theorem release_restores (hs : ItemsSound db)
    (hok : (Service.reserveMany input db).1.isOk = true) {released : BulkStockInput}
    (hp : released.items.Perm input.items) :
    (Service.releaseMany released none (Service.reserveMany input db).2).1.isOk = true ∧
    (Service.releaseMany released none (Service.reserveMany input db).2).2.inventoryItems =
      db.inventoryItems := by
  rw [reserveMany_eq_bulk] at hok ⊢
  rw [releaseMany_eq_bulk]
  obtain ⟨heff, hacc⟩ := bulk_effect_of_isOk hok
  have hnone : ∀ k ∈ (none : Option IdempotencyKey), Fresh (Transition.reserve.bulk input none db).2 k :=
    fun k hm => by cases hm
  have hok' := (bulk_isOk .release released hnone).mpr fun line hl =>
    accepts_release_of_reserved hs hacc heff.items (hp.mem_iff.mp hl)
  refine ⟨hok', ?_⟩
  obtain ⟨heff', -⟩ := bulk_effect_of_isOk hok'
  rw [heff'.items, heff.items, shiftItem_perm hp released.distinct, List.map_map]
  exact (List.map_congr_left fun row _ => shiftItem_release_reserve input.items row).trans
    (List.map_id _)

theorem bulkRefines_of_spelled (hs : ItemsSound db) (hc : Canonical db)
    (hk : ∀ k ∈ key, Fresh db k) (hspelled : SpelledWhereAdmitted t db input) :
    BulkRefines t db input key where
  succeeds := by
    rw [bulk_isOk t input hk]
    refine ⟨fun h line hl => ?_, fun h line hl => ?_⟩
    · exact singleOfLine_isOk.mpr ((accepts_kept_iff hc hspelled hl).mpr (h line hl))
    · exact (accepts_kept_iff hc hspelled hl).mp (singleOfLine_isOk.mp (h line hl))
  effect hok _ hp := runSingles_of_isOk hc hok hp
  refusal hno := by
    obtain ⟨_, _, hrun, -⟩ := bulk_refused hk hno
    rw [reported_rejected hk hno, refusedLines_eq hc hspelled, hrun]
    exact ⟨rfl, rfl⟩
  permuted _ hp hreason href := bulk_permuted hk hp hreason href
  restores hok _ hp := release_restores hs hok hp

/-- A line only the single path accepts is among the rejected ones, so it is reported. -/
theorem BulkRefines.spelled (hc : Canonical db) (hk : ∀ k ∈ key, Fresh db k)
    (h : BulkRefines t db input key) : SpelledWhereAdmitted t db input := by
  intro line hl item hf ha
  by_contra hspelled
  have hsingle : (singleOfLine t input line db).1.isOk = true :=
    singleOfLine_isOk.mpr ⟨item, hf, ha⟩
  have hrejected : ¬ Accepts t db line := fun hacc => hspelled (hacc.spelled hc)
  cases hok : (t.bulk input key db).1.isOk with
  | true => exact hrejected ((bulk_isOk t input hk).mp hok line hl)
  | false =>
    have hids := (h.refusal hok).1
    rw [reported_rejected hk hok, Option.some.injEq] at hids
    have hmem : line.productId ∈ (rejectedLines t db input.items).map (·.productId) :=
      List.mem_map_of_mem (mem_rejectedLines.mpr ⟨hl, hrejected⟩)
    rw [hids] at hmem
    obtain ⟨other, hother, hid⟩ := List.mem_map.mp hmem
    obtain ⟨ho, hno⟩ := List.mem_filter.mp hother
    have hsame : other = line := List.inj_on_of_nodup_map input.distinct ho hl hid
    rw [hsame, hsingle] at hno
    cases hno

end Refinement

/-- The bulk path agrees with the single one on a batch just when every line the single one would
accept spells its product id as the `uuid` column keeps it. -/
theorem bulk_refines_singles_iff (t : Transition) (db : Database) (hs : ItemsSound db)
    (hc : Canonical db) (input : BulkStockInput) (key : Option IdempotencyKey)
    (hk : ∀ k ∈ key, Fresh db k) :
    BulkRefines t db input key ↔ SpelledWhereAdmitted t db input :=
  ⟨fun h => h.spelled hc hk, fun h => bulkRefines_of_spelled hs hc hk h⟩

/-! A warehouse with two products, for concrete runs. -/

def lampId : String := "11111111-1111-4111-8111-111111111111"
def chairId : String := "22222222-2222-4222-8222-222222222222"

def stockItem (id productId : String) (quantity reserved : Int) : InventoryItem where
  id := id
  sku := id
  productId := productId
  warehouse := "MAIN"
  quantity := quantity
  reserved := reserved
  reorderLevel := 0
  createdAt := 0

/-- Lamps and chairs, with the given levels of each. -/
def warehouse (lamps chairs : StockLevels) (hl : lamps.Fits := by decide)
    (hc : chairs.Fits := by decide) : Database where
  inventoryItems := [stockItem "lamp" lampId lamps.quantity lamps.reserved,
    stockItem "chair" chairId chairs.quantity chairs.reserved]
  stockMovements := []
  auditLogs := []
  processedMessages := []
  uniqueKeys := by simp [UniqueKeys, stockItem, lampId, chairId]
  columnsFit := by
    intro item hi
    rcases List.mem_cons.mp hi with rfl | hi
    · exact ⟨hl.1, hl.2, show fitsInt4 0 by decide⟩
    · rw [List.mem_singleton.mp hi]
      exact ⟨hc.1, hc.2, show fitsInt4 0 by decide⟩
  uniqueMessages := List.nodup_nil

def oneLampTwoChairs : BulkStockInput where
  items := [⟨lampId, ⟨1, by decide, by decide⟩⟩, ⟨chairId, ⟨2, by decide, by decide⟩⟩]
  reference := "order-1"
  nonempty := by decide
  bounded := by decide
  distinct := by decide

/-- With one chair on hand the batch of one lamp and two chairs agrees with its lines' singles, and
reports the chairs. -/
theorem bulk_refines_singles_short :
    BulkRefines .reserve (warehouse ⟨5, 0⟩ ⟨1, 0⟩) oneLampTwoChairs none ∧
      reported (Transition.reserve.bulk oneLampTwoChairs none
        (warehouse ⟨5, 0⟩ ⟨1, 0⟩)).1 = some [chairId] := by
  have hs : ItemsSound (warehouse ⟨5, 0⟩ ⟨1, 0⟩) := by decide
  have hc : Canonical (warehouse ⟨5, 0⟩ ⟨1, 0⟩) := by
    unfold Canonical
    decide +kernel
  have hspelled : SpelledWhereAdmitted .reserve (warehouse ⟨5, 0⟩ ⟨1, 0⟩) oneLampTwoChairs := by
    have hall : ∀ line ∈ oneLampTwoChairs.items, line.Spelled := by decide +kernel
    exact fun line hl _ _ _ => hall line hl
  exact ⟨(bulk_refines_singles_iff .reserve (warehouse ⟨5, 0⟩ ⟨1, 0⟩) hs hc oneLampTwoChairs none
    (fun k hk => by cases hk)).mpr hspelled, by decide⟩

def deskId : String := "dddddddd-dddd-4ddd-8ddd-dddddddddddd"

/-- Five desks, under a product id with letters in it. -/
def deskWarehouse : Database where
  inventoryItems := [stockItem "desk" deskId 5 0]
  stockMovements := []
  auditLogs := []
  processedMessages := []
  uniqueKeys := by simp [UniqueKeys]
  columnsFit := by decide
  uniqueMessages := List.nodup_nil

/-- One desk, its product id in capitals. -/
def oneDeskInCapitals : BulkStockInput where
  items := [⟨"DDDDDDDD-DDDD-4DDD-8DDD-DDDDDDDDDDDD", ⟨1, by decide, by decide⟩⟩]
  reference := "order-1"
  nonempty := by decide
  bounded := by decide
  distinct := by decide

/-- The single operation reserves the desk that the batch does not find. -/
theorem bulk_misses_capitals :
    (ItemsSound deskWarehouse ∧ Canonical deskWarehouse) ∧
    (∀ line ∈ oneDeskInCapitals.items,
      (singleOfLine .reserve oneDeskInCapitals line deskWarehouse).1.isOk = true) ∧
    reported (Transition.reserve.bulk oneDeskInCapitals none deskWarehouse).1 =
      some ["DDDDDDDD-DDDD-4DDD-8DDD-DDDDDDDDDDDD"] ∧
    ¬ BulkRefines .reserve deskWarehouse oneDeskInCapitals none := by
  have hsingles : ∀ line ∈ oneDeskInCapitals.items,
      (singleOfLine .reserve oneDeskInCapitals line deskWarehouse).1.isOk = true := by
    decide +kernel
  have hbulk : (Transition.reserve.bulk oneDeskInCapitals none deskWarehouse).1.isOk = false := by
    decide +kernel
  refine ⟨⟨by decide, by unfold Canonical; decide +kernel⟩, hsingles, by decide +kernel, ?_⟩
  intro h
  have hok := h.succeeds.mpr hsingles
  rw [hbulk] at hok
  cases hok

end PracticalMicroservice.Inventory
