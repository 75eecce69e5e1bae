import PracticalMicroservice.Inventory.Range
import PracticalMicroservice.Inventory.Proofs.RecordProofs

/-!
# The range of the stock columns over whole runs

Only a receipt and a correction upwards raise an on-hand count, and a reserved count stays below it;
so the columns' range is left exactly where one of these goes beyond it.
-/

namespace PracticalMicroservice.Inventory

variable {db : Database} {op : Operation} {r : Request} {c : StockChange}

/-! ## What the planners want -/

theorem max_fits : fitsInt4 2147483647 := by decide

theorem fits_of_sound {levels : StockLevels} (hs : levels.Sound)
    (h : levels.quantity ≤ 2147483647) : levels.Fits :=
  hs.fits_of_le max_fits h

/-- The planned levels of a single-item operation, when it has any. -/
theorem mem_changePlans {levels : StockLevels} :
    levels ∈ c.plans db ↔ ∃ item next, db.findById c.id = some item ∧
      c.planned item = .ok next ∧ next.levels = levels := by
  unfold StockChange.plans
  constructor
  · intro h
    obtain ⟨next, hn, rfl⟩ := List.mem_map.mp h
    obtain ⟨item, hf, hp⟩ := Option.bind_eq_some_iff.mp (Option.mem_toList.mp hn)
    cases hplanned : c.planned item with
    | error e =>
      rw [hplanned] at hp
      cases hp
    | ok planned =>
      rw [hplanned] at hp
      cases hp
      exact ⟨item, next, hf, hplanned, rfl⟩
  · rintro ⟨item, next, hf, hp, rfl⟩
    refine List.mem_map.mpr ⟨next, ?_, rfl⟩
    rw [Option.mem_toList, hf, Option.bind_some, hp]
    rfl

theorem plans_of_change? (hc : r.change? = some c) :
    Operation.plans db (.request r) = c.plans db := by
  cases r <;> cases hc <;> rfl

/-- An operation that does not overflow plans no more on hand than the column holds. -/
theorem change_quantity_le (hc : r.change? = some c) (ho : ¬ (Operation.request r).Overflows db)
    {item : InventoryItem} {next : StockLevels} (hf : db.findById c.id = some item)
    (hp : c.plan item.levels = .ok next) : next.quantity ≤ 2147483647 := by
  have hmax : item.quantity ≤ 2147483647 := (db.columnsFit item (Database.findById_mem hf).1).1.2
  have hroom : ∀ amount : Int, ¬ db.Exceeds c.id amount → item.quantity + amount ≤ 2147483647 := by
    intro amount hnot
    by_contra hgt
    exact hnot ⟨item, hf, by omega⟩
  cases r with
  | receive id body =>
    cases hc
    rw [planReceipt_ok hp]
    exact hroom _ ho
  | acceptReturn id body =>
    cases hc
    rw [planReceipt_ok hp]
    exact hroom _ ho
  | adjust id body =>
    cases hc
    obtain ⟨-, rfl⟩ := planAdjustment_ok hp
    exact hroom _ ho
  | sell id body =>
    cases hc
    rw [planSale_ok hp]
    have := body.quantity.positive
    show item.quantity - body.quantity.value ≤ 2147483647
    omega
  | fulfil id body =>
    cases hc
    rw [planFulfilment_ok hp]
    have := body.quantity.positive
    show item.quantity - body.quantity.value ≤ 2147483647
    omega
  | reserve id body =>
    cases hc
    rw [planReservation_ok hp]
    exact hmax
  | release id body =>
    cases hc
    rw [planRelease_ok hp]
    exact hmax
  | create id createdAt body => cases hc
  | update id body actor => cases hc
  | remove id => cases hc
  | reserveMany body => cases hc
  | releaseMany body => cases hc

theorem change_fits (hc : r.change? = some c) (ho : ¬ (Operation.request r).Overflows db) :
    ∀ levels ∈ c.plans db, levels.Fits := by
  intro levels hl
  obtain ⟨item, next, hf, hp, rfl⟩ := mem_changePlans.mp hl
  obtain ⟨hplan, hs, -⟩ := planChange_eq_ok.mp hp
  exact fits_of_sound hs (change_quantity_le hc ho hf hplan)

/-- A batch plans what it accepts: no more reserved than there is on hand. -/
theorem bulk_fits (t : Transition) (input : BulkStockInput) (db : Database) :
    ∀ levels ∈ bulkPlans t input db, levels.Fits := by
  have hread : ∀ line ∈ input.items, readRows db input line.productId =
      db.findByProductId line.productId := readRows_eq input rfl
  intro levels hl
  change levels ∈ ((Service.planBatch t.type t.action t.plan input
    (readRows db input)).toOption.getD []).map BulkStockChangePlan.levels at hl
  by_cases hacc : ∀ line ∈ input.items, Accepts t db line
  · rw [planBatch_accepts hread hacc] at hl
    obtain ⟨plan, hp, rfl⟩ := List.mem_map.mp hl
    obtain ⟨target, ht, rfl⟩ := List.mem_map.mp hp
    exact targets_fit hacc ht
  · have hrej : ∃ line ∈ input.items, ¬ Accepts t db line := by
      by_contra hc
      exact hacc fun line hl => by_contra fun hn => hc ⟨line, hl, hn⟩
    obtain ⟨message, failures, hplan, -⟩ := planBatch_rejects hread hrej
    rw [hplan] at hl
    cases hl

theorem patch_fits (id : String) (body : UpdateInventoryItemInput) (db : Database) :
    ∀ levels ∈ patchPlans id body db, levels.Fits := by
  intro levels hl
  unfold patchPlans at hl
  obtain ⟨item, hi, rfl⟩ := List.mem_map.mp hl
  have hf := (Option.filter_eq_some_iff.mp (Option.mem_toList.mp hi)).1
  obtain ⟨hmem, hid⟩ := Database.findById_mem hf
  have hfit := patched_fits db id body (item.applyPatch body) (by
    refine List.mem_map.mpr ⟨item, hmem, ?_⟩
    rw [if_pos hid])
  exact ⟨hfit.1, hfit.2.1⟩

/-! ## What the database refuses -/

section Refusal

variable {α β : Type}

/-- The call does not end in a value the columns do not hold. -/
def InRange (action : Action α) (db : Database) : Prop :=
  (action db).1 ≠ .error (.database .valueOutOfRange)

theorem InRange.map {action : Action α} (h : InRange action db) (f : α → β) :
    InRange (do let x ← action; return f x) db := by
  unfold InRange
  rw [Action.map_apply]
  cases hr : (action db).1 with
  | ok a => exact fun he => nomatch he
  | error e =>
    intro he
    have he' : e = .database .valueOutOfRange := Except.error.inj he
    exact h (hr.trans (congrArg _ he'))

theorem change_in_range (hfit : ∀ levels ∈ c.plans db, levels.Fits) : InRange c.run db := by
  refine InRange.map ?_ _
  show (Repository.applyStockChange c.id c.planned db).1 ≠ _
  cases hf : db.findById c.id with
  | none =>
    rw [applyStockChange_missing _ hf]
    exact fun he => nomatch he
  | some item =>
    cases hp : c.planned item with
    | error e =>
      rw [applyStockChange_refused hf hp]
      exact fun he => nomatch he
    | ok next =>
      rw [applyStockChange_accepted hf hp (hfit _ (mem_changePlans.mpr ⟨item, next, hf, hp, rfl⟩))]
      exact fun he => nomatch he

theorem bulk_in_range (t : Transition) (input : BulkStockInput) (key : Option IdempotencyKey)
    (db : Database) : InRange (t.bulk input key) db := by
  unfold InRange
  obtain ⟨views, db', hrun, -⟩ | ⟨_, _, hrun, -⟩ | ⟨k, -, -, hrun⟩ := bulk_cases t input key db
  · rw [hrun]
    exact fun he => nomatch he
  · rw [hrun]
    exact fun he => nomatch he
  · rw [hrun]
    exact fun he => nomatch he

theorem update_in_range (id : String) (body : UpdateInventoryItemInput) (actor : Option String)
    (db : Database) : InRange (updateCall id body actor) db := by
  unfold InRange
  obtain ⟨error, hrun, hne, -⟩ | ⟨current, -, -, ⟨-, hrun⟩ | ⟨-, -, db', hrun, -⟩⟩ :=
    update_cases id body actor db
  · rw [hrun]
    exact fun he => hne (Except.error.inj he)
  · rw [hrun]
    exact fun he => nomatch he
  · rw [hrun]
    exact fun he => nomatch he

theorem commit_error {tx : Transaction α} {error : Thrown}
    (h : (commit tx db).1 = .error error) : tx.run db = .error error := by
  cases hr : tx.run db with
  | ok p =>
    rw [commit_of_ok hr] at h
    cases h
  | error e =>
    rw [commit_of_error hr] at h
    exact congrArg _ (Except.error.inj h)

/-- A sequence that throws throws in its first part or in its second. -/
theorem bind_error {tx : Transaction α} {next : α → Transaction β} {error : Thrown}
    (h : (tx >>= next).run db = .error error) :
    tx.run db = .error error ∨
      ∃ a db', tx.run db = .ok (a, db') ∧ (next a).run db' = .error error := by
  rw [StateT.run_bind] at h
  cases hr : tx.run db with
  | error e =>
    rw [hr] at h
    cases h
    exact .inl rfl
  | ok p =>
    rw [hr] at h
    exact .inr ⟨p.1, p.2, rfl, h⟩

theorem Tx.writeItems_in_range {rows : List InventoryItem} (h : ∀ item ∈ rows, item.Fits)
    {error : Thrown} (he : (Tx.writeItems rows).run db = .error error) :
    error = .database .uniqueViolation := by
  by_cases hu : UniqueKeys rows
  · have hw : db.writeItems rows = .ok
        { db with inventoryItems := rows, uniqueKeys := hu, columnsFit := h } := by
      unfold Database.writeItems
      rw [dif_pos hu, dif_pos h]
    simp only [Tx.writeItems, StateT.run_bind, StateT.run_get, pure_bind, hw] at he
    cases he
  · have hw : db.writeItems rows = .error .uniqueViolation := dif_neg hu
    simp only [Tx.writeItems, StateT.run_bind, StateT.run_get, pure_bind, hw] at he
    cases he
    rfl

theorem zero_fits : fitsInt4 0 := by decide

theorem create_in_range (id : String) (createdAt : Nat) (input : CreateInventoryItemInput)
    (db : Database) : InRange (Repository.create id createdAt input) db := by
  have hfits : ∀ item ∈ db.inventoryItems ++ [input.row id createdAt], item.Fits := by
    intro item hi
    rcases List.mem_append.mp hi with hi | hi
    · exact db.columnsFit item hi
    · rw [List.mem_singleton.mp hi]
      have h1 := input.quantity.nonnegative
      have h2 := input.quantity.bounded
      have h3 := input.reorderLevel.nonnegative
      have h4 := input.reorderLevel.bounded
      refine ⟨⟨?_, ?_⟩, zero_fits, ⟨?_, ?_⟩⟩
      · show -2147483648 ≤ input.quantity.value
        omega
      · show input.quantity.value ≤ 2147483647
        omega
      · show -2147483648 ≤ input.reorderLevel.value
        omega
      · show input.reorderLevel.value ≤ 2147483647
        omega
  intro he
  obtain he | ⟨x, db', hget, he⟩ := bind_error (commit_error he)
  · cases he
  cases hget
  obtain he | ⟨_, t, -, he⟩ := bind_error he
  · cases Tx.writeItems_in_range hfits he
  change StateT.run (if _ then _ else _) t = _ at he
  split at he
  · cases he
  · cases he

theorem delete_in_range (id : String) (db : Database) : InRange (Repository.delete id) db := by
  intro he
  obtain he | ⟨x, db', hget, he⟩ := bind_error (commit_error he)
  · cases he
  cases hget
  cases hf : db.findById id with
  | none =>
    rw [hf] at he
    cases he
  | some item =>
    rw [hf] at he
    obtain he | ⟨_, _, hget, he⟩ := bind_error he
    · cases he
    cases hget
    obtain he | ⟨_, t, -, he⟩ := bind_error he
    · cases Tx.writeItems_in_range
        (fun item hi => db.columnsFit item (List.mem_filter.mp hi).1) he
    cases he

theorem serviceCreate_in_range (id : String) (createdAt : Nat) (input : CreateInventoryItemInput)
    (db : Database) : InRange (Service.create id createdAt input) db := by
  have hcreate := (create_in_range id createdAt input db).map toInventoryItemView
  unfold InRange at hcreate ⊢
  rw [Action.map_apply] at hcreate
  obtain ⟨error, h⟩ | h := serviceCreate_cases id createdAt input db
  · rw [h]
    exact fun he => nomatch he
  · rw [h]
    exact hcreate

theorem remove_in_range (id : String) (db : Database) : InRange (Service.remove id) db := by
  unfold InRange
  rw [remove_apply]
  cases db.findById id with
  | none =>
    intro he
    cases he
  | some item =>
    simp only [removeChecked]
    by_cases hr : (toInventoryItemView item).reserved > 0
    · rw [if_pos hr]
      intro he
      cases he
    · rw [if_neg hr]
      exact delete_in_range id db

end Refusal

/-! ## Whole runs -/

/-- An operation that overflows is planned, and it is the database that refuses it. -/
theorem Operation.Overflows.plan (hs : ItemsSound db) (h : op.Overflows db) :
    ∃ levels ∈ op.plans db, ¬ levels.Fits := by
  have hreceipt : ∀ (id : String) (type : StockMovementType) (quantity : Int)
      (reason reference : Option String) (plan : StockLevels → Except AppError StockLevels)
      (amount : Int), db.Exceeds id amount →
      (∀ item ∈ db.findById id, plan item.levels =
        .ok { quantity := item.quantity + amount, reserved := item.reserved }) →
      ∃ levels ∈ StockChange.plans ⟨id, type, quantity, reason, reference, plan⟩ db,
        ¬ levels.Fits := by
    intro id type quantity reason reference plan amount ⟨item, hf, hgt⟩ hplan
    have hmem := (Database.findById_mem hf).1
    have hsound := hs item hmem
    have hmax : item.quantity ≤ 2147483647 := (db.columnsFit item hmem).1.2
    refine ⟨_, mem_changePlans.mpr ⟨item, ⟨_, _⟩, hf,
      planChange_eq_ok.mpr ⟨hplan item hf, ⟨hsound.1, ?_⟩, rfl⟩, rfl⟩, ?_⟩
    · have hle : item.reserved ≤ item.quantity := hsound.2
      show item.reserved ≤ item.quantity + amount
      omega
    · intro hfit
      have hle : item.quantity + amount ≤ 2147483647 := hfit.1.2
      omega
  cases op with
  | message payload key => exact h.elim
  | request r =>
    cases r with
    | receive id body => exact hreceipt id _ _ _ _ _ _ h fun item _ => rfl
    | acceptReturn id body => exact hreceipt id _ _ _ _ _ _ h fun item _ => rfl
    | adjust id body =>
      refine hreceipt id _ _ _ _ _ _ h fun item hf => ?_
      obtain ⟨item', hf', hgt⟩ := h
      have hsame : item' = item := Option.some.inj (hf'.symm.trans hf)
      subst hsame
      have hmem := (Database.findById_mem hf').1
      have hle : item'.reserved ≤ item'.quantity := (hs item' hmem).2
      have hmax : item'.quantity ≤ 2147483647 := (db.columnsFit item' hmem).1.2
      show planAdjustment item'.levels body.delta.value = _
      unfold planAdjustment
      refine if_neg (not_lt.mpr ?_)
      show item'.reserved ≤ item'.quantity + body.delta.value
      omega
    | create id createdAt body => exact h.elim
    | sell id body => exact h.elim
    | reserve id body => exact h.elim
    | release id body => exact h.elim
    | fulfil id body => exact h.elim
    | update id body actor => exact h.elim
    | remove id => exact h.elim
    | reserveMany body => exact h.elim
    | releaseMany body => exact h.elim

theorem rangeKept_of_not_overflows (ho : ¬ op.Overflows db) : RangeKept db op := by
  cases op with
  | message payload key =>
    exact ⟨bulk_fits .release payload db,
      InRange.map (bulk_in_range .release payload (some key) db) _⟩
  | request r =>
    cases hc : r.change? with
    | some c =>
      have hfit := change_fits hc ho
      refine ⟨?_, ?_⟩
      · rw [plans_of_change? hc]
        exact hfit
      · show (r.run db).1 ≠ _
        rw [Request.run_of_change? hc]
        exact (change_in_range hfit).map _
    | none =>
      cases r with
      | create id createdAt body =>
        refine ⟨fun levels hl => ?_, (serviceCreate_in_range id createdAt body db).map _⟩
        rw [List.mem_singleton.mp hl]
        have h := body.quantity.bounded
        refine fits_of_sound ⟨le_refl _, body.quantity.nonnegative⟩ ?_
        show body.quantity.value ≤ 2147483647
        omega
      | update id body actor =>
        exact ⟨patch_fits id body db, ((update_in_range id body actor db).map _).map _⟩
      | remove id =>
        exact ⟨fun levels hl => absurd hl List.not_mem_nil, remove_in_range id db⟩
      | reserveMany body =>
        exact ⟨bulk_fits .reserve body db, (bulk_in_range .reserve body none db).map _⟩
      | releaseMany body =>
        exact ⟨bulk_fits .release body db, (bulk_in_range .release body none db).map _⟩
      | receive id body => cases hc
      | acceptReturn id body => cases hc
      | sell id body => cases hc
      | adjust id body => cases hc
      | reserve id body => cases hc
      | release id body => cases hc
      | fulfil id body => cases hc

/-- The columns' range is kept through a whole run exactly if no receipt and no correction in it
goes beyond it. -/
theorem range_kept_iff (operations : List Operation) :
    (∀ past op, past ++ [op] <+: operations → RangeKept (runAll Database.empty past) op) ↔
    ∀ past op, past ++ [op] <+: operations → ¬ op.Overflows (runAll Database.empty past) := by
  constructor
  · intro h past op hpre hover
    obtain ⟨levels, hl, hfit⟩ := hover.plan (runAll_sound empty_sound past)
    exact hfit ((h past op hpre).plans levels hl)
  · intro h past op hpre
    exact rangeKept_of_not_overflows (h past op hpre)

theorem billion_field : (0 : Int) ≤ 1000000000 ∧ (1000000000 : Int) ≤ 1000000000 := by decide

theorem billion_positive : (0 : Int) < 1000000000 := by decide

/-- A delivery of as many units as a request may name. -/
def billionUnits : Operation :=
  .request (.receive "1" { quantity := ⟨1000000000, billion_positive, billion_field.2⟩ })

def billionLamps : Operation :=
  .request (.create "1" 0
    { sku := "LAMP", productId := "0b8f3c5e-2d4a-4f6b-8c1d-9e0f1a2b3c4d", warehouse := "main",
      quantity := ⟨1000000000, billion_field.1, billion_field.2⟩,
      reorderLevel := ⟨1000000000, billion_field.1, billion_field.2⟩ })

/-- The second delivery of a billion units ends in an error of the database. -/
theorem receipt_out_of_range :
    (billionUnits.run (runAll Database.empty [billionLamps, billionUnits])).1 =
        .error (.database .valueOutOfRange) ∧
      ¬ ∀ operations past op, past ++ [op] <+: operations →
        RangeKept (runAll Database.empty past) op := by
  have hrun : (billionUnits.run (runAll Database.empty [billionLamps, billionUnits])).1 =
      .error (.database .valueOutOfRange) := by
    decide +kernel
  exact ⟨hrun, fun h => (h _ _ billionUnits (List.prefix_refl _)).refusal hrun⟩

end PracticalMicroservice.Inventory
