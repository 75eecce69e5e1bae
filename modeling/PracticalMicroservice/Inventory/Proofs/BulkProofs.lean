import PracticalMicroservice.Inventory.Proofs.TransactionProofs

/-!
# What a bulk transition does

A batch is accepted exactly when the planner accepts each of its lines, and then shifts the
reserved count of each line's item and appends one ledger row a line; otherwise it reports the
rejected lines and changes nothing.
-/

namespace PracticalMicroservice.Inventory

/-! ## What one line asks -/

namespace Transition

/-- The sign with which a line's quantity enters the reserved count. -/
def shift : Transition → Int
  | reserve => 1
  | release => -1

/-- The levels a line would leave. -/
def next (t : Transition) (levels : StockLevels) (quantity : Int) : StockLevels :=
  { quantity := levels.quantity, reserved := levels.reserved + t.shift * quantity }

/-- The planner and the invariant check both let the line pass. -/
def Admits (t : Transition) (levels : StockLevels) (quantity : Int) : Prop :=
  (match t with
    | reserve => quantity ≤ availableStock levels
    | release => quantity ≤ levels.reserved) ∧ (t.next levels quantity).Sound

instance (t : Transition) (levels : StockLevels) (quantity : Int) :
    Decidable (t.Admits levels quantity) := by
  cases t <;> exact inferInstanceAs (Decidable (_ ∧ _))

end Transition

theorem assertInvariants_error {next : StockLevels} (h : ¬ next.Sound) :
    ∃ error, assertInvariants next = .error error := by
  cases he : assertInvariants next with
  | ok u => exact absurd (assertInvariants_ok.mp he) h
  | error error => exact ⟨error, rfl⟩

theorem plan_eq {t : Transition} {levels : StockLevels} {quantity : Int}
    (h : match t with
      | .reserve => quantity ≤ availableStock levels
      | .release => quantity ≤ levels.reserved) :
    t.plan levels quantity = .ok (t.next levels quantity) := by
  cases t with
  | reserve =>
    have h' : ¬ quantity > availableStock levels := by simpa using h
    simp [Transition.plan, planReservation, if_neg h', Transition.next, Transition.shift]
  | release =>
    have h' : ¬ quantity > levels.reserved := by simpa using h
    simp only [Transition.plan, planRelease, if_neg h', Transition.next, Transition.shift]
    congr 2
    omega

theorem plan_refuses {t : Transition} {levels : StockLevels} {quantity : Int}
    (h : ¬ match t with
      | .reserve => quantity ≤ availableStock levels
      | .release => quantity ≤ levels.reserved) :
    ∃ error, t.plan levels quantity = .error error := by
  cases t with
  | reserve =>
    have h' : quantity > availableStock levels := by simpa using h
    exact ⟨_, by simp only [Transition.plan, planReservation, if_pos h']; rfl⟩
  | release =>
    have h' : quantity > levels.reserved := by simpa using h
    exact ⟨_, by simp only [Transition.plan, planRelease, if_pos h']; rfl⟩

theorem planLevels_of_admits {t : Transition} {item : InventoryItem} {quantity : Int}
    (h : t.Admits item.levels quantity) :
    Service.planLevels t.plan item quantity = .ok (t.next item.levels quantity) := by
  unfold Service.planLevels
  rw [plan_eq h.1]
  show (assertInvariants (t.next item.levels quantity) >>= fun _ => _) = _
  rw [assertInvariants_ok.mpr h.2]
  rfl

theorem planLevels_of_not_admits {t : Transition} {item : InventoryItem} {quantity : Int}
    (h : ¬ t.Admits item.levels quantity) :
    ∃ error, Service.planLevels t.plan item quantity = .error error := by
  unfold Service.planLevels
  by_cases hp : match t with
      | .reserve => quantity ≤ availableStock item.levels
      | .release => quantity ≤ item.levels.reserved
  · rw [plan_eq hp]
    obtain ⟨error, he⟩ := assertInvariants_error fun hs => h ⟨hp, hs⟩
    refine ⟨error, ?_⟩
    show (assertInvariants (t.next item.levels quantity) >>= fun _ => _) = _
    rw [he]
    rfl
  · obtain ⟨error, he⟩ := plan_refuses hp
    exact ⟨error, by rw [he]; rfl⟩

/-- The line's product has a row, and the row admits the line. -/
def Accepts (t : Transition) (db : Database) (line : BulkStockLine) : Prop :=
  ∃ item, db.findByProductId line.productId = some item ∧
    t.Admits item.levels line.quantity.value

instance (t : Transition) (db : Database) (line : BulkStockLine) :
    Decidable (Accepts t db line) :=
  match h : db.findByProductId line.productId with
  | none => .isFalse fun ⟨item, hi, _⟩ => by rw [h] at hi; cases hi
  | some item =>
    if ha : t.Admits item.levels line.quantity.value then .isTrue ⟨item, h, ha⟩
    else .isFalse fun ⟨item', hi, ha'⟩ => ha (by
      rw [h] at hi; cases hi; exact ha')

/-- What a line's product is given or loses, zero for a product no line names. -/
def lineQuantity (lines : List BulkStockLine) (productId : String) : Int :=
  match lines.find? (·.productId = productId) with
  | some line => line.quantity.value
  | none => 0

theorem lineQuantity_of_mem {lines : List BulkStockLine}
    (hn : (lines.map (·.productId)).Nodup) {line : BulkStockLine} (h : line ∈ lines) :
    lineQuantity lines line.productId = line.quantity.value := by
  unfold lineQuantity
  rw [find?_of_nodup_map (f := BulkStockLine.productId) hn h]

theorem lineQuantity_of_not_mem {lines : List BulkStockLine} {productId : String}
    (h : productId ∉ lines.map (·.productId)) : lineQuantity lines productId = 0 := by
  unfold lineQuantity
  have : lines.find? (·.productId = productId) = none := by
    rw [List.find?_eq_none]
    intro line hl he
    exact h (List.mem_map.mpr ⟨line, hl, by simpa using he⟩)
  rw [this]

theorem lineQuantity_nonneg (lines : List BulkStockLine) (productId : String) :
    0 ≤ lineQuantity lines productId := by
  unfold lineQuantity
  split
  · rename_i line _; exact line.quantity.positive.le
  · exact le_refl 0

/-! ## The planner of a batch -/

/-- The rows `findMany` reads answer the lookups of the batch's own products. -/
theorem find?_filter_mem {rows : List InventoryItem} {productIds : List String} {p : String}
    (hp : p ∈ productIds) :
    (rows.filter fun row => (productIds.map uuidText).contains (uuidText row.productId)).find?
        (·.productId = p) =
      rows.find? (·.productId = p) := by
  have hread : (productIds.map uuidText).contains (uuidText p) = true :=
    List.contains_iff_mem.mpr (List.mem_map_of_mem hp)
  rw [List.find?_filter]
  congr 1
  funext row
  by_cases h : row.productId = p
  · rw [h, hread]
    simp
  · simp [h]

/-- The plan of an accepted line. -/
def acceptedPlan (t : Transition) (input : BulkStockInput) (line : BulkStockLine)
    (item : InventoryItem) : BulkStockChangePlan where
  productId := line.productId
  levels := t.next item.levels line.quantity.value
  movement :=
    { type := t.type, quantity := line.quantity.value, reason := input.reason,
      reference := some input.reference }

theorem planLine_of_admits {t : Transition} {input : BulkStockInput} {line : BulkStockLine}
    {find : String → Option InventoryItem} {item : InventoryItem}
    (hf : find line.productId = some item) (ha : t.Admits item.levels line.quantity.value) :
    Service.planLine t.type t.plan input.reason input.reference find line =
      .ok (acceptedPlan t input line item) := by
  unfold Service.planLine
  rw [hf]
  simp only [planLevels_of_admits ha]
  rfl

/-- A line that is not accepted is reported under its own product. -/
theorem planLine_of_not_accepts {t : Transition} {db : Database} (input : BulkStockInput)
    {line : BulkStockLine} {find : String → Option InventoryItem}
    (hf : find line.productId = db.findByProductId line.productId) (h : ¬ Accepts t db line) :
    ∃ failure, Service.planLine t.type t.plan input.reason input.reference find line =
      .error failure ∧ failure.productId = line.productId := by
  unfold Service.planLine
  rw [hf]
  cases hi : db.findByProductId line.productId with
  | none => exact ⟨_, rfl, rfl⟩
  | some item =>
    obtain ⟨error, he⟩ := planLevels_of_not_admits fun ha => h ⟨item, hi, ha⟩
    simp only [he]
    exact ⟨_, rfl, rfl⟩

/-- The lines of a batch that are not accepted, in the batch's order. -/
def rejectedLines (t : Transition) (db : Database) (lines : List BulkStockLine) :
    List BulkStockLine :=
  lines.filter fun line => !decide (Accepts t db line)

theorem mem_rejectedLines {t : Transition} {db : Database} {lines : List BulkStockLine}
    {line : BulkStockLine} :
    line ∈ rejectedLines t db lines ↔ line ∈ lines ∧ ¬ Accepts t db line := by
  simp [rejectedLines]

section Batch

variable {t : Transition} {db : Database} {input : BulkStockInput}
  {find : String → Option InventoryItem}

variable (input) in
/-- The failures of a list of lines are those of its rejected lines, in order. -/
theorem failures_productIds {lines : List BulkStockLine}
    (hf : ∀ line ∈ lines, find line.productId = db.findByProductId line.productId) :
    ((lines.map (Service.planLine t.type t.plan input.reason input.reference find)).filterMap
        Service.failed?).map (·.productId) =
      (rejectedLines t db lines).map (·.productId) := by
  induction lines with
  | nil => rfl
  | cons line lines ih =>
    have ih' := ih fun l hl => hf l (List.mem_cons_of_mem _ hl)
    have hl := hf line List.mem_cons_self
    unfold rejectedLines at ih' ⊢
    rw [List.map_cons]
    by_cases h : Accepts t db line
    · obtain ⟨item, hi, ha⟩ := id h
      have hp : Service.planLine t.type t.plan input.reason input.reference find line =
          .ok (acceptedPlan t input line item) := planLine_of_admits (hl.trans hi) ha
      rw [hp, List.filterMap_cons_none rfl, List.filter_cons_of_neg (by simpa using h), ih']
    · obtain ⟨failure, hp, hid⟩ := planLine_of_not_accepts input hl h
      have hsome : Service.failed? (.error failure) = some failure := rfl
      rw [hp, List.filterMap_cons_some hsome, List.filter_cons_of_pos (by simpa using h),
        List.map_cons, List.map_cons, hid, ih']

theorem planBatch_rejects
    (hf : ∀ line ∈ input.items, find line.productId = db.findByProductId line.productId)
    (h : ∃ line ∈ input.items, ¬ Accepts t db line) :
    ∃ message failures,
      Service.planBatch t.type t.action t.plan input find =
        .error (.ConflictError message failures) ∧
      failures.map (·.productId) = (rejectedLines t db input.items).map (·.productId) := by
  have hids := failures_productIds (t := t) input hf
  obtain ⟨line, hl, hn⟩ := h
  have hmem : line.productId ∈ (rejectedLines t db input.items).map (·.productId) :=
    List.mem_map_of_mem (mem_rejectedLines.mpr ⟨hl, hn⟩)
  rw [← hids] at hmem
  unfold Service.planBatch
  set failures := (input.items.map
    (Service.planLine t.type t.plan input.reason input.reference find)).filterMap Service.failed?
    with hfs
  have hpos : failures.length > 0 := by
    refine List.length_pos_iff.mpr fun he => ?_
    rw [he] at hmem
    cases hmem
  exact ⟨_, failures, if_pos hpos, hids⟩

/-- The row a line is about, for lines that have one. -/
def targetOf (t : Transition) (db : Database) (input : BulkStockInput) (line : BulkStockLine) :
    Option (BulkStockChangePlan × InventoryItem) :=
  (db.findByProductId line.productId).map fun item => (acceptedPlan t input line item, item)

variable (input) in
/-- The plans of a batch all of whose lines are accepted. -/
theorem planned_of_accepts {lines : List BulkStockLine}
    (hf : ∀ line ∈ lines, find line.productId = db.findByProductId line.productId)
    (h : ∀ line ∈ lines, Accepts t db line) :
    (lines.map (Service.planLine t.type t.plan input.reason input.reference find)).filterMap
        Service.failed? = [] ∧
    (lines.map (Service.planLine t.type t.plan input.reason input.reference find)).filterMap
        Service.planned? = (lines.filterMap (targetOf t db input)).map (·.1) := by
  induction lines with
  | nil => exact ⟨rfl, rfl⟩
  | cons line lines ih =>
    obtain ⟨ih1, ih2⟩ := ih (fun l hl => hf l (List.mem_cons_of_mem _ hl))
      fun l hl => h l (List.mem_cons_of_mem _ hl)
    have hl := hf line List.mem_cons_self
    obtain ⟨item, hi, ha⟩ := h line List.mem_cons_self
    have hp : Service.planLine t.type t.plan input.reason input.reference find line =
        .ok (acceptedPlan t input line item) := planLine_of_admits (hl.trans hi) ha
    have ht : targetOf t db input line = some (acceptedPlan t input line item, item) := by
      simp [targetOf, hi]
    rw [List.map_cons, hp]
    refine ⟨?_, ?_⟩
    · rw [List.filterMap_cons_none rfl, ih1]
    · have hsome : Service.planned? (.ok (acceptedPlan t input line item)) =
          some (acceptedPlan t input line item) := rfl
      rw [List.filterMap_cons_some hsome, List.filterMap_cons_some ht, List.map_cons, ih2]

theorem planBatch_accepts
    (hf : ∀ line ∈ input.items, find line.productId = db.findByProductId line.productId)
    (h : ∀ line ∈ input.items, Accepts t db line) :
    Service.planBatch t.type t.action t.plan input find =
      .ok ((input.items.filterMap (targetOf t db input)).map (·.1)) := by
  obtain ⟨h1, h2⟩ := planned_of_accepts input hf h
  unfold Service.planBatch
  simp only [h1, h2, List.length_nil, gt_iff_lt, lt_self_iff_false, if_false]

/-- Resolving the plans of an accepted batch finds their rows again. -/
theorem resolveTargets_run {lines : List BulkStockLine}
    (hf : ∀ line ∈ lines, find line.productId = db.findByProductId line.productId)
    (db' : Database) :
    (Repository.resolveTargets find ((lines.filterMap (targetOf t db input)).map (·.1))).run db' =
      .ok (lines.filterMap (targetOf t db input), db') := by
  induction lines with
  | nil => rfl
  | cons line lines ih =>
    have ih' := ih fun l hl => hf l (List.mem_cons_of_mem _ hl)
    have hl := hf line List.mem_cons_self
    cases hi : db.findByProductId line.productId with
    | none =>
      rw [List.filterMap_cons_none (by simp [targetOf, hi])]
      exact ih'
    | some item =>
      have ht : targetOf t db input line = some (acceptedPlan t input line item, item) := by
        simp [targetOf, hi]
      rw [List.filterMap_cons_some ht, List.map_cons]
      have hfind : find (acceptedPlan t input line item).productId = some item := hl.trans hi
      simp only [Repository.resolveTargets, hfind, StateT.run_bind, ih', StateT.run_pure]
      rfl

end Batch

/-! ## The update loop -/

/-- The levels the first target with the row's id asks for. -/
def assignTargets (targets : List (BulkStockChangePlan × InventoryItem)) (id : String) :
    Option StockLevels :=
  (targets.find? (·.2.id = id)).map (·.1.levels)

theorem assignTargets_fits {targets : List (BulkStockChangePlan × InventoryItem)}
    (h : ∀ target ∈ targets, target.1.levels.Fits) :
    ∀ id next, assignTargets targets id = some next → next.Fits := by
  intro id next he
  unfold assignTargets at he
  obtain ⟨target, ht, rfl⟩ := Option.map_eq_some_iff.mp he
  exact h target (List.mem_of_find?_eq_some ht)

theorem Database.findById_assign {db : Database} {assign : String → Option StockLevels}
    (h : ∀ id next, assign id = some next → next.Fits) (id : String) :
    (db.assign assign h).findById id = (db.findById id).map (assignLevels assign) := by
  unfold Database.findById Database.assign
  simp only [List.find?_map, Function.comp_def, assignLevels_id]

/-- Updating one row and then others with different ids is one assignment. -/
theorem assign_assign {db : Database} {target : BulkStockChangePlan × InventoryItem}
    {rest : List (BulkStockChangePlan × InventoryItem)}
    (hfit : ∀ x ∈ target :: rest, x.1.levels.Fits) (hn : target.2.id ∉ rest.map (·.2.id)) :
    (db.assign (assignOne target.2.id target.1.levels)
        (assignOne_fits (hfit target List.mem_cons_self))).assign (assignTargets rest)
        (assignTargets_fits fun x hx => hfit x (List.mem_cons_of_mem _ hx)) =
      db.assign (assignTargets (target :: rest)) (assignTargets_fits hfit) := by
  apply Database.ext
  · show (db.inventoryItems.map _).map _ = db.inventoryItems.map _
    rw [List.map_map]
    refine List.map_congr_left fun row _ => ?_
    by_cases h : row.id = target.2.id
    · have hnone : assignTargets rest row.id = none := by
        unfold assignTargets
        rw [Option.map_eq_none_iff, List.find?_eq_none]
        intro x hx he
        exact hn (List.mem_map.mpr ⟨x, hx, by rw [← h]; simpa using he⟩)
      have hsome : assignTargets (target :: rest) row.id = some target.1.levels := by
        unfold assignTargets
        rw [List.find?_cons_of_pos (by simp [h])]
        rfl
      simp only [Function.comp_apply, assignLevels, assignOne, h, if_true,
        InventoryItem.setLevels_id]
      rw [h] at hnone hsome
      rw [hnone, hsome]
    · have hsame : assignTargets (target :: rest) row.id = assignTargets rest row.id := by
        unfold assignTargets
        rw [List.find?_cons_of_neg (by simpa using fun e => h e.symm)]
      simp only [Function.comp_apply, assignLevels, assignOne, h, if_false, hsame]
  · rfl
  · rfl
  · rfl

theorem updateTargets_run {db : Database} {targets : List (BulkStockChangePlan × InventoryItem)}
    (hfind : ∀ target ∈ targets, db.findById target.2.id = some target.2)
    (hfit : ∀ target ∈ targets, target.1.levels.Fits)
    (hn : (targets.map (·.2.id)).Nodup) :
    (Repository.updateTargets targets).run db =
      .ok (targets.map fun target => target.2.setLevels target.1.levels,
        db.assign (assignTargets targets) (assignTargets_fits hfit)) := by
  induction targets generalizing db with
  | nil =>
    have hid : db.assign (assignTargets []) (assignTargets_fits hfit) = db := by
      apply Database.ext <;> try rfl
      exact (List.map_congr_left fun _ _ => rfl).trans (List.map_id _)
    rw [hid]
    rfl
  | cons target rest ih =>
    rw [List.map_cons, List.nodup_cons] at hn
    have hfit1 := hfit target List.mem_cons_self
    have hstep := updateLevels_run_of_fits (hfind target List.mem_cons_self) hfit1
    have hrest : ∀ x ∈ rest,
        (db.assign (assignOne target.2.id target.1.levels) (assignOne_fits hfit1)).findById
          x.2.id = some x.2 := by
      intro x hx
      have hne : x.2.id ≠ target.2.id := fun e =>
        hn.1 (List.mem_map.mpr ⟨x, hx, e⟩)
      rw [Database.findById_assign, hfind x (List.mem_cons_of_mem _ hx), Option.map_some]
      simp [assignLevels, assignOne, hne]
    have hih := ih hrest (fun x hx => hfit x (List.mem_cons_of_mem _ hx)) hn.2
    rw [← assign_assign hfit hn.1]
    simp only [Repository.updateTargets, StateT.run_bind, hstep]
    show (Repository.updateTargets rest).run _ >>= _ = _
    rw [hih]
    rfl

end PracticalMicroservice.Inventory
