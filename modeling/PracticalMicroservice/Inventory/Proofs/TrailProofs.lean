import PracticalMicroservice.Inventory.Proofs.RecordProofs
import Mathlib.Data.List.Induction

/-!
# The ledger and the audit trail over whole runs

A row of the ledger says the type and the amount of a movement, and no sign: a correction upwards
and one downwards leave the same row. A row of the audit trail says what a patch asked for, which
the column need not hold as it was spelled.
-/

namespace PracticalMicroservice.Inventory

variable {db db' : Database} {op : Operation} {id : String} {r r' : Record}

/-! ## The movements -/

theorem replay_append (effect : StockMovementType → Int → Int → Int)
    (rows : List StockMovementHistory) (row : StockMovementHistory) :
    replay effect (rows ++ [row]) = effect row.type row.quantityChanged (replay effect rows) := by
  unfold replay
  rw [List.foldl_append]
  rfl

theorem patchMovements_of_eq {actor : Option String} {current updated : InventoryItem}
    (h : updated.quantity = current.quantity) : patchMovements id actor current updated = [] := by
  rw [patchMovements, if_neg (not_not.mpr h)]

theorem patchMovements_of_ne (id : String) (actor : Option String) {current updated : InventoryItem}
    (h : updated.quantity ≠ current.quantity) :
    ∃ row, patchMovements id actor current updated = [row] ∧ row.itemId = id ∧
      row.type = .ADJUSTMENT ∧ row.lastQuantity = current.quantity ∧
        row.quantityChanged = ((updated.quantity - current.quantity).natAbs : Int) := by
  rw [patchMovements, if_pos h]
  exact ⟨_, rfl, rfl, rfl, rfl, rfl⟩

/-- A patch leaves the reserved units alone. -/
theorem applyPatch_levels {item : InventoryItem} {body : UpdateInventoryItemInput} :
    (item.applyPatch body).levels = item.levels ↔
      (item.applyPatch body).quantity = item.quantity := by
  constructor
  · intro h
    exact congrArg StockLevels.quantity h
  · intro h
    show (⟨_, _⟩ : StockLevels) = ⟨_, _⟩
    rw [h]
    rfl

theorem openingMovements_of_zero {item : InventoryItem} (h : item.quantity = 0) :
    openingMovements item = [] := by
  rw [openingMovements, if_neg (by omega)]

theorem openingMovements_of_pos (item : InventoryItem) (h : 0 < item.quantity) :
    ∃ row, openingMovements item = [row] ∧ row.lastQuantity = 0 ∧ row.type = .INBOUND ∧
      row.quantityChanged = item.quantity := by
  rw [openingMovements, if_pos h]
  exact ⟨_, rfl, rfl, rfl, rfl⟩

/-- Each change of an item's levels leaves one row, and nothing else does. -/
theorem movement_recorded (ho : Owned db) (op : Operation) (id : String) :
    db.MovementRecorded (op.run db).2 id := by
  have hturn := op.turn ho id
  have hitem : (db.recordOf id).item = db.findById id := rfl
  have hitem' : ((op.run db).2.recordOf id).item = (op.run db).2.findById id := rfl
  have hmoves : (db.recordOf id).movements = db.movementsOf id := rfl
  have hmoves' : ((op.run db).2.recordOf id).movements = (op.run db).2.movementsOf id := rfl
  generalize db.recordOf id = r at hturn hitem hmoves
  generalize (op.run db).2.recordOf id = r' at hturn hitem' hmoves'
  constructor
  · intro hnone item hi hq
    rw [← hitem] at hnone
    rw [← hitem'] at hi
    rw [← hmoves']
    cases hturn with
    | kept => rw [hnone] at hi; cases hi
    | created created _ hpos _ =>
      cases hi
      obtain ⟨row, hrow, hlast, -⟩ := openingMovements_of_pos item (by omega)
      exact ⟨row, hrow, hlast⟩
    | moved _ _ _ _ _ _ _ => cases hnone
    | patched _ _ _ _ _ _ _ _ => cases hnone
    | removed _ => cases hi
  · intro hnone item hi hq
    rw [← hitem] at hnone
    rw [← hitem'] at hi
    rw [← hmoves']
    cases hturn with
    | kept => rw [hnone] at hi; cases hi
    | created created _ _ _ =>
      cases hi
      exact openingMovements_of_zero hq
    | moved _ _ _ _ _ _ _ => cases hnone
    | patched _ _ _ _ _ _ _ _ => cases hnone
    | removed _ => cases hi
  · intro item hi item' hi' hne
    rw [← hitem] at hi
    rw [← hitem'] at hi'
    rw [← hmoves, ← hmoves']
    cases hturn with
    | kept =>
      rw [hi] at hi'
      cases hi'
      exact absurd rfl hne
    | created _ _ _ _ => cases hi
    | moved current movements audits next row _ hmoved =>
      cases hi
      exact ⟨row, rfl, hmoved.before⟩
    | patched current movements audits body actor _ _ _ =>
      cases hi
      cases hi'
      obtain ⟨row, hrow, -, -, hlast, -⟩ := patchMovements_of_ne id actor
        (fun h => hne (applyPatch_levels.mpr h))
      exact ⟨row, by rw [hrow], hlast⟩
    | removed _ => cases hi'
  · intro item hi item' hi' heq
    rw [← hitem] at hi
    rw [← hitem'] at hi'
    rw [← hmoves, ← hmoves']
    cases hturn with
    | kept => rfl
    | created _ _ _ _ => cases hi
    | moved current movements audits next row _ hmoved =>
      cases hi
      cases hi'
      exact absurd heq hmoved.changed
    | patched current movements audits body actor _ _ _ =>
      cases hi
      cases hi'
      show movements ++ _ = movements
      rw [patchMovements_of_eq (applyPatch_levels.mp heq), List.append_nil]
    | removed _ => cases hi'

/-- The rows of an item replay to what is on hand. -/
def Record.Replays (r : Record) : Prop :=
  ∀ item ∈ r.item, replay StockMovementType.effect r.movements = item.quantity

/-- An operation that lowers nothing by a correction keeps the rows replaying. -/
theorem Turn.replays (h : Turn db op id r r') (hr : r.Replays) (hl : ¬ op.Lowers db) :
    r'.Replays := by
  intro item hi
  cases h with
  | kept => exact hr item hi
  | created _ _ hpos _ =>
    cases hi
    by_cases hzero : item.quantity = 0
    · show replay _ (openingMovements item) = _
      rw [openingMovements_of_zero hzero, hzero]
      rfl
    · obtain ⟨row, hrow, -, htype, hchanged⟩ := openingMovements_of_pos item (by omega)
      show replay _ (openingMovements item) = _
      rw [hrow, ← List.nil_append [row], replay_append, htype, hchanged]
      exact Int.zero_add _
  | moved current movements audits next row _ hmoved =>
    cases hi
    show replay _ (movements ++ [row]) = next.quantity
    rw [replay_append, hr current rfl]
    exact (hmoved.directed hl).symm
  | patched current movements audits body actor hop hadm hf =>
    cases hi
    by_cases hq : (current.applyPatch body).quantity = current.quantity
    · show replay _ (movements ++ _) = _
      rw [patchMovements_of_eq hq, List.append_nil, hq]
      exact hr current rfl
    · obtain ⟨row, hrow, -, htype, -, hchanged⟩ := patchMovements_of_ne id actor hq
      show replay _ (movements ++ patchMovements id actor current _) = _
      rw [hrow, replay_append, hr current rfl, htype, hchanged]
      have hup : current.quantity < (current.applyPatch body).quantity := by
        by_contra hnot
        refine hl ?_
        rw [hop]
        refine ⟨⟨current, hf, ?_⟩, hadm⟩
        cases hquantity : body.quantity with
        | none =>
          exact absurd (by simp [InventoryItem.applyPatch, hquantity]) hq
        | some quantity =>
          have heq : (current.applyPatch body).quantity = quantity.value := by
            simp [InventoryItem.applyPatch, hquantity]
          exact ⟨quantity, rfl, by omega⟩
      show current.quantity + ((current.applyPatch body).quantity - current.quantity).natAbs = _
      omega
  | removed _ => cases hi

/-- A correction downwards leaves a row that counts upwards. -/
theorem Turn.overcounts (h : Turn db op id r r') (hr : r.Replays) (hl : op.Lowers db)
    {item item' : InventoryItem} (hi : r.item = some item) (hi' : r'.item = some item')
    (hlt : item'.quantity < item.quantity) : ¬ r'.Replays := by
  intro hr'
  have hold := hr item hi
  have hnew := hr' item' hi'
  cases h with
  | kept =>
    rw [hi] at hi'
    cases hi'
    exact absurd hlt (lt_irrefl _)
  | created _ _ _ _ => cases hi
  | moved current movements audits next row _ hmoved =>
    obtain ⟨htype, hpos⟩ := hmoved.lowered hl
    have hnew' : replay StockMovementType.effect (movements ++ [row]) = item'.quantity := hnew
    have hold' : replay StockMovementType.effect movements = item.quantity := hold
    rw [replay_append, hold', htype] at hnew'
    simp only [StockMovementType.effect] at hnew'
    omega
  | patched current movements audits body actor hop hadm hf =>
    cases hi
    cases hi'
    obtain ⟨row, hrow, -, htype, -, hchanged⟩ := patchMovements_of_ne id actor
      (ne_of_lt hlt)
    have hnew' : replay StockMovementType.effect
        (movements ++ patchMovements id actor item (item.applyPatch body)) =
          (item.applyPatch body).quantity := hnew
    have hold' : replay StockMovementType.effect movements = item.quantity := hold
    rw [hrow, replay_append, hold', htype, hchanged] at hnew'
    simp only [StockMovementType.effect] at hnew'
    omega
  | removed _ => cases hi'

/-- An operation that lowers a count by a correction does so for an item that stays. -/
theorem Operation.Lowers.target (hs : ItemsSound db) (hl : op.Lowers db) :
    ∃ id item item', db.findById id = some item ∧ (op.run db).2.findById id = some item' ∧
      item'.quantity < item.quantity := by
  cases op with
  | message payload key => exact hl.elim
  | request r =>
    cases r with
    | adjust id body =>
      obtain ⟨hneg, item, hf, hle⟩ := hl
      obtain ⟨hmem, hid⟩ := Database.findById_mem hf
      have hsound := hs item hmem
      let change : StockChange := ⟨id, .ADJUSTMENT, body.delta.value.natAbs, some body.reason,
        body.reference, (planAdjustment · body.delta.value)⟩
      let next : StockChangePlan := ⟨⟨item.quantity + body.delta.value, item.reserved⟩,
        ⟨.ADJUSTMENT, body.delta.value.natAbs, some body.reason, body.reference⟩⟩
      have hplanned : change.planned item = .ok next := by
        refine planChange_eq_ok.mpr ⟨?_, ⟨hsound.1, hle⟩, rfl⟩
        show planAdjustment item.levels body.delta.value = _
        unfold planAdjustment
        exact if_neg (not_lt.mpr hle)
      have hfit : next.levels.Fits :=
        StockLevels.Sound.fits_of_le ⟨hsound.1, hle⟩ (db.columnsFit item hmem).1
          (show item.quantity + body.delta.value ≤ item.quantity by omega)
      have hrun : ((Operation.request (.adjust id body)).run db).2 = (change.run db).2 := by
        show ((do let _ ← change.run : Action Unit) db).2 = _
        rw [Action.map_apply]
      refine ⟨id, item, item.setLevels next.levels, hf, ?_, ?_⟩
      · rw [hrun]
        exact change.run_accepted hf hplanned hfit
      · show item.quantity + body.delta.value < item.quantity
        omega
    | update id body actor =>
      obtain ⟨⟨item, hf, quantity, hq, hlt⟩, hadm⟩ := hl
      have hpatched : (item.applyPatch body).quantity = quantity.value := by
        have hq' : body.quantity = some quantity := hq
        simp [InventoryItem.applyPatch, hq']
      have hdiff : diffInventoryItem item body ≠ [] := by
        intro hnil
        have hq' : body.quantity = some quantity := hq
        simp only [diffInventoryItem, List.append_eq_nil_iff] at hnil
        have hsame := fieldChange_eq_nil.mp hnil.1.2
        rw [hq'] at hsame
        exact absurd hlt (by rw [show quantity.value = item.quantity from hsame]; exact lt_irrefl _)
      rw [update_run]
      obtain ⟨_, -, -, hnot⟩ | ⟨current, hf', -, ⟨hnil, -⟩ | ⟨-, -, db', hrun, heff⟩⟩ :=
        update_cases id body actor db
      · exact absurd ⟨hadm, item, hf, hdiff⟩ hnot
      · rw [hf] at hf'
        cases hf'
        exact absurd hnil hdiff
      · have hfind := findById_map
          (f := fun row => if row.id = id then row.applyPatch body else row)
          heff.items (fun row _ => by split <;> rfl) id
        rw [hf, Option.map_some, if_pos (Database.findById_mem hf).2] at hfind
        exact ⟨id, item, item.applyPatch body, hf, by rw [hrun]; exact hfind, by omega⟩
    | create id createdAt body => exact hl.elim
    | receive id body => exact hl.elim
    | acceptReturn id body => exact hl.elim
    | sell id body => exact hl.elim
    | reserve id body => exact hl.elim
    | release id body => exact hl.elim
    | fulfil id body => exact hl.elim
    | remove id => exact hl.elim
    | reserveMany body => exact hl.elim
    | releaseMany body => exact hl.elim

/-- The rows of every item replay to what is on hand. -/
def Replaying (db : Database) : Prop :=
  ∀ item ∈ db.inventoryItems, replay StockMovementType.effect (db.movementsOf item.id) =
    item.quantity

theorem empty_replaying : Replaying Database.empty := by
  intro item hi
  cases hi

theorem replaying_iff : Replaying db ↔ ∀ id, (db.recordOf id).Replays := by
  constructor
  · intro h id item hi
    obtain ⟨hmem, hid⟩ := Database.findById_mem hi
    subst hid
    exact h item hmem
  · intro h item hmem
    exact h item.id item (Database.findById_of_mem hmem)

theorem replaying_step (ho : Owned db) (hr : Replaying db) (hl : ¬ op.Lowers db) :
    Replaying (op.run db).2 := by
  rw [replaying_iff] at hr ⊢
  exact fun id => (op.turn ho id).replays (hr id) hl

theorem not_replaying_step (hs : ItemsSound db) (ho : Owned db) (hr : Replaying db)
    (hl : op.Lowers db) : ¬ Replaying (op.run db).2 := by
  intro hr'
  rw [replaying_iff] at hr hr'
  obtain ⟨id, item, item', hf, hf', hlt⟩ := hl.target hs
  exact (op.turn ho id).overcounts (hr id) hl hf hf' hlt (hr' id)

/-- The ledger is kept through a whole run exactly if no correction in it takes units away. -/
theorem ledger_kept_iff (operations : List Operation) :
    (∀ past op, past ++ [op] <+: operations →
      (runAll Database.empty past).LedgerKept StockMovementType.effect
        (runAll Database.empty (past ++ [op]))) ↔
    ∀ past op, past ++ [op] <+: operations → ¬ op.Lowers (runAll Database.empty past) := by
  constructor
  · intro h past op hpre hl
    have hr : Replaying (runAll Database.empty past) := by
      rcases List.eq_nil_or_concat past with rfl | ⟨earlier, last, rfl⟩
      · exact empty_replaying
      · rw [List.concat_eq_append] at hpre ⊢
        exact (h earlier last ((List.prefix_append _ _).trans hpre)).replays
    have hr' := (h past op hpre).replays
    rw [runAll_append] at hr'
    exact not_replaying_step (runAll_sound empty_sound past) (runAll_owned past) hr hl hr'
  · intro h past op hpre
    have hr : ∀ past, past <+: operations → Replaying (runAll Database.empty past) := by
      intro past
      induction past using List.reverseRecOn with
      | nil => exact fun _ => empty_replaying
      | append_singleton past op ih =>
        intro hpre
        rw [runAll_append]
        exact replaying_step (runAll_owned past)
          (ih ((List.prefix_append _ _).trans hpre)) (h past op hpre)
    refine ⟨fun id => ?_, hr _ hpre⟩
    rw [runAll_append]
    exact movement_recorded (runAll_owned past) op id

theorem five_field : (0 : Int) ≤ 5 ∧ (5 : Int) ≤ 1000000000 := by decide

def fiveUnits : FieldQuantity := ⟨5, five_field.1, five_field.2⟩

/-- Five lamps on hand. -/
def fiveLamps : Operation :=
  .request (.create "1" 0
    { sku := "LAMP", productId := "0b8f3c5e-2d4a-4f6b-8c1d-9e0f1a2b3c4d", warehouse := "main",
      quantity := fiveUnits, reorderLevel := fiveUnits })

theorem three_counted : (3 : Int) ≠ 0 ∧ (-1000000000 : Int) ≤ 3 ∧ (3 : Int) ≤ 1000000000 := by
  decide

theorem minus_three_counted :
    (-3 : Int) ≠ 0 ∧ (-1000000000 : Int) ≤ -3 ∧ (-3 : Int) ≤ 1000000000 := by
  decide

/-- A stock count that found units too many or too few. -/
def stockCount (delta : Int) (h : delta ≠ 0 ∧ -1000000000 ≤ delta ∧ delta ≤ 1000000000) :
    Operation :=
  .request (.adjust "1" { delta := ⟨delta, h.1, h.2.1, h.2.2⟩, reason := "stock count" })

/-- What a replay reads of the rows. -/
def typesAndAmounts (rows : List StockMovementHistory) : List (StockMovementType × Int) :=
  rows.map fun row => (row.type, row.quantityChanged)

theorem replay_congr (effect : StockMovementType → Int → Int → Int)
    {rows rows' : List StockMovementHistory} (h : typesAndAmounts rows = typesAndAmounts rows') :
    replay effect rows = replay effect rows' := by
  have hread : ∀ rows : List StockMovementHistory, replay effect rows =
      (typesAndAmounts rows).foldl (fun onHand row => effect row.1 row.2 onHand) 0 := by
    intro rows
    rw [typesAndAmounts, List.foldl_map]
    rfl
  rw [hread, hread, h]

theorem threeFound_onHand :
    ((runAll Database.empty [fiveLamps, stockCount 3 three_counted]).findById "1").map
      (·.quantity) = some 8 := by
  decide +kernel

theorem threeLost_onHand :
    ((runAll Database.empty [fiveLamps, stockCount (-3) minus_three_counted]).findById "1").map
      (·.quantity) = some 2 := by
  decide +kernel

/-- Three units found and three units lost leave the same rows, so no reading of a row by its type
and its amount tells what is on hand. -/
theorem ledger_not_replayable :
    ¬ ∃ effect : StockMovementType → Int → Int → Int, ∀ operations past op,
      past ++ [op] <+: operations → (runAll Database.empty past).LedgerKept effect
        (runAll Database.empty (past ++ [op])) := by
  rintro ⟨effect, h⟩
  obtain ⟨found, hfound, hup⟩ := Option.map_eq_some_iff.mp threeFound_onHand
  obtain ⟨lost, hlost, hdown⟩ := Option.map_eq_some_iff.mp threeLost_onHand
  obtain ⟨hmem, hid⟩ := Database.findById_mem hfound
  obtain ⟨hmem', hid'⟩ := Database.findById_mem hlost
  have hreplay := (h _ [fiveLamps] (stockCount 3 three_counted)
    (List.prefix_refl _)).replays found hmem
  have hreplay' := (h _ [fiveLamps] (stockCount (-3) minus_three_counted)
    (List.prefix_refl _)).replays lost hmem'
  have hsame : typesAndAmounts
        ((runAll Database.empty [fiveLamps, stockCount 3 three_counted]).movementsOf "1") =
      typesAndAmounts
        ((runAll Database.empty [fiveLamps, stockCount (-3) minus_three_counted]).movementsOf
          "1") := by
    decide +kernel
  rw [hid, hup] at hreplay
  rw [hid', hdown] at hreplay'
  have heq := replay_congr effect hsame
  have h8 : replay effect ((runAll Database.empty
    [fiveLamps, stockCount 3 three_counted]).movementsOf "1") = 8 := hreplay
  have h2 : replay effect ((runAll Database.empty
    [fiveLamps, stockCount (-3) minus_three_counted]).movementsOf "1") = 2 := hreplay'
  rw [h8, h2] at heq
  cases heq

/-! ## The audit trail -/

/-- The product ids on record stay as the column keeps them. -/
theorem Turn.canonical (h : Turn db op id r r')
    (hr : ∀ item ∈ r.item, uuidText item.productId = item.productId) :
    ∀ item ∈ r'.item, uuidText item.productId = item.productId := by
  intro item hi
  cases h with
  | kept => exact hr item hi
  | created _ _ _ hc =>
    cases hi
    exact hc
  | moved current _ _ next row _ _ =>
    cases hi
    exact hr current rfl
  | patched current _ _ body actor _ _ _ =>
    cases hi
    cases hp : body.productId with
    | none => simpa [InventoryItem.applyPatch, hp] using hr current rfl
    | some productId => simp [InventoryItem.applyPatch, hp, uuidText_uuidText]
  | removed _ => cases hi

theorem runAll_canonical (operations : List Operation) :
    Canonical (runAll Database.empty operations) := by
  have h : Owned (runAll Database.empty operations) ∧
      Canonical (runAll Database.empty operations) := by
    refine runAll_keeps (P := fun db => Owned db ∧ Canonical db) ?_
      ⟨empty_owned, fun item hi => absurd hi List.not_mem_nil⟩ operations
    rintro op db ⟨ho, hc⟩
    refine ⟨op.keepsOwned db ho, fun item hmem => ?_⟩
    refine (op.turn ho item.id).canonical (fun current hcurrent => ?_) item
      (Database.findById_of_mem hmem)
    exact hc current (Database.findById_mem hcurrent).1
  exact h.2

/-- The rows of one field. -/
def Record.auditsOf (r : Record) (field : AuditedField) : List InventoryAuditLog :=
  r.audits.filter (·.field = field.name)

theorem Database.auditsOf_eq (db : Database) (id : String) (field : AuditedField) :
    db.auditsOf id field = (db.recordOf id).auditsOf field := by
  show db.auditLogs.filter _ = (db.auditLogs.filter _).filter _
  rw [List.filter_filter]
  refine List.filter_congr fun row _ => ?_
  by_cases h1 : row.itemId = id <;> by_cases h2 : row.field = field.name <;> simp [h1, h2]

theorem linked_append {value current : String} {rows rows' : List InventoryAuditLog}
    (h : Linked value rows current) {last : String} (h' : Linked current rows' last) :
    Linked value (rows ++ rows') last := by
  induction rows generalizing value with
  | nil =>
    have he : value = current := h
    rw [he]
    exact h'
  | cons row rows ih => exact ⟨h.1, ih h.2⟩

theorem AuditedField.name_injective {a b : AuditedField} (h : a.name = b.name) : a = b := by
  cases a <;> cases b <;> simp_all [AuditedField.name]

/-- Columns that do not differ read alike. -/
theorem AuditedField.text_of_not_differs {before after : InventoryItem} {field : AuditedField}
    (h : ¬ field.Differs before after) : field.text after = field.text before := by
  cases field <;> simp_all [AuditedField.Differs, AuditedField.text]

/-- The rows of a field among those of a patch. -/
theorem filter_auditRows (actor : Option String) (before after : InventoryItem)
    (field : AuditedField) :
    (auditRows actor before after).filter (·.field = field.name) =
      auditRow actor before after field := by
  have hone : ∀ other : AuditedField,
      (auditRow actor before after other).filter (·.field = field.name) =
        if other = field then auditRow actor before after field else [] := by
    intro other
    unfold auditRow
    by_cases hd : other.Differs before after
    · rw [if_pos hd]
      by_cases he : other = field
      · subst he
        simp [hd]
      · have hne : ¬ other.name = field.name := fun h => he (AuditedField.name_injective h)
        simp [he, hne]
    · rw [if_neg hd]
      by_cases he : other = field
      · subst he
        simp [hd]
      · simp [he]
  rw [auditRows_eq, List.filter_flatMap]
  simp only [hone]
  cases field <;> simp [AUDITED_FIELDS]

/-- A patch continues the chain of every field. -/
theorem linked_auditRow (actor : Option String) (before after : InventoryItem)
    (field : AuditedField) :
    Linked (field.text before) (auditRow actor before after field) (field.text after) := by
  unfold auditRow
  by_cases hd : field.Differs before after
  · rw [if_pos hd]
    exact ⟨rfl, rfl⟩
  · rw [if_neg hd]
    exact (AuditedField.text_of_not_differs hd).symm

/-- The trail of an item leads from the row it was created with to the row it has. -/
def Record.Chained (first : Option InventoryItem) (r : Record) : Prop :=
  ∀ item ∈ r.item, ∀ field ≠ AuditedField.quantity, ∃ row ∈ first,
    Linked (field.text row) (r.auditsOf field) (field.text item)

/-- Any operation but a patch that respells a product id continues the trail. -/
theorem Turn.chained (h : Turn db op id r r') (ho : ¬ op.Respells db)
    (hid : ∀ item ∈ r.item, item.id = id) {first : Option InventoryItem} (hr : r.Chained first) :
    r'.Chained (openedAs first r.item r'.item) := by
  intro item hi field hfield
  cases h with
  | kept =>
    have hi' : r.item = some item := hi
    rw [hi']
    exact hr item hi' field hfield
  | created _ _ _ _ =>
    cases hi
    exact ⟨item, rfl, rfl⟩
  | moved current movements audits next row _ _ =>
    cases hi
    obtain ⟨row', hrow, hlinked⟩ := hr current rfl field hfield
    refine ⟨row', hrow, ?_⟩
    cases field with
    | quantity => exact absurd rfl hfield
    | sku => exact hlinked
    | productId => exact hlinked
    | warehouse => exact hlinked
    | reorderLevel => exact hlinked
  | patched current movements audits body actor hop hadm hf =>
    cases hi
    obtain ⟨row', hrow, hlinked⟩ := hr current rfl field hfield
    refine ⟨row', hrow, ?_⟩
    have hspelled : ∀ productId ∈ body.productId, uuidText productId = productId := by
      intro productId hp
      by_contra hne
      refine ho ?_
      rw [hop]
      exact ⟨⟨productId, hp, hne⟩, hadm⟩
    have hlogs := diff_eq_auditRows actor current hspelled
    rw [hid current rfl] at hlogs
    show Linked _ ((audits ++ patchLogs id actor _).filter _) _
    rw [hlogs, List.filter_append, filter_auditRows]
    exact linked_append hlinked (linked_auditRow actor current _ field)
  | removed _ => cases hi

theorem createdAs_append (id : String) (past : List Operation) (op : Operation) :
    createdAs id (past ++ [op]) = openedAs (createdAs id past)
      ((runAll Database.empty past).findById id)
      ((runAll Database.empty (past ++ [op])).findById id) := by
  have hdb : ∀ operations : List Operation,
      (operations.foldl (createdStep id) (Database.empty, none)).1 =
        runAll Database.empty operations := by
    intro operations
    induction operations using List.reverseRecOn with
    | nil => rfl
    | append_singleton earlier last ih =>
      rw [List.foldl_append, runAll_append, ← ih]
      rfl
  unfold createdAs
  rw [List.foldl_append, runAll_append, ← hdb past]
  rfl

/-- In a run without respelled product ids every item's trail is whole. -/
theorem runAll_chained {past : List Operation}
    (h : ∀ earlier op, earlier ++ [op] <+: past → ¬ op.Respells (runAll Database.empty earlier))
    (id : String) : ((runAll Database.empty past).recordOf id).Chained (createdAs id past) := by
  induction past using List.reverseRecOn with
  | nil =>
    intro item hi
    cases hi
  | append_singleton earlier op ih =>
    have hbefore := ih fun earlier' op' hpre => h earlier' op' (hpre.trans (List.prefix_append _ _))
    have hturn := op.turn (runAll_owned earlier) id
    rw [createdAs_append, runAll_append]
    exact hturn.chained (h earlier op (List.prefix_refl _))
      (fun item hi => (Database.findById_mem hi).2) hbefore

/-- An accepted patch is on record, if it spells the product id as the column does. -/
theorem patch_recorded {body : UpdateInventoryItemInput} {actor : Option String}
    (ho : ¬ (Operation.request (.update id body actor)).Respells db)
    (hok : ((Operation.request (.update id body actor)).run db).1 = .ok ()) :
    ∃ before after,
      db.PatchRecorded ((Operation.request (.update id body actor)).run db).2 id actor before
        after := by
  rw [update_run] at hok ⊢
  obtain ⟨error, hrun, -⟩ | ⟨current, hf, hv, ⟨hnil, hrun⟩ | ⟨hdiff, hadm, db', hrun, heff⟩⟩ :=
    update_cases id body actor db
  · rw [hrun] at hok
    cases hok
  · rw [hrun]
    refine ⟨current, current, hf, hf, ?_, fun _ => rfl, fun hne => absurd rfl hne⟩
    have hnone : auditRows actor current current = [] := by
      rw [auditRows_eq]
      simp [AUDITED_FIELDS, auditRow, AuditedField.Differs]
    rw [hnone, List.append_nil]
  · rw [hrun]
    have hspelled : ∀ productId ∈ body.productId, uuidText productId = productId := by
      intro productId hp
      by_contra hne
      exact ho ⟨⟨productId, hp, hne⟩, hadm⟩
    have hid := (Database.findById_mem hf).2
    have hlogs := diff_eq_auditRows actor current hspelled
    rw [hid] at hlogs
    have hfind := findById_map
      (f := fun row => if row.id = id then row.applyPatch body else row)
      heff.items (fun row _ => by split <;> rfl) id
    rw [hf, Option.map_some, if_pos hid] at hfind
    refine ⟨current, current.applyPatch body, hf, hfind, heff.logs.trans (by rw [hlogs]), ?_, ?_⟩
    · intro hq
      rw [heff.ledger, patchMovements_of_eq hq.symm, List.append_nil]
    · intro hq
      obtain ⟨row, hrow, hitem, -, hlast, hchanged⟩ := patchMovements_of_ne id actor
        (fun h => hq h.symm)
      exact ⟨row, by rw [heff.ledger, hrow], hitem, hlast, hchanged⟩

/-- A patch that respells a product id logs a value that is stored nowhere. -/
theorem respelled_not_recorded {body : UpdateInventoryItemInput} (actor : Option String)
    (hc : Canonical db) (ho : (Operation.request (.update id body actor)).Respells db) :
    ((Operation.request (.update id body actor)).run db).1 = .ok () ∧
      ∀ before after, ¬ db.PatchRecorded
        ((Operation.request (.update id body actor)).run db).2 id actor before after := by
  obtain ⟨⟨productId, hp, hne⟩, hadm⟩ := ho
  have hmem : ∀ current : InventoryItem, db.findById id = some current →
      { field := "productId", oldValue := current.productId, newValue := productId } ∈
        diffInventoryItem current body := by
    intro current hf
    refine mem_diff_productId hp fun he => hne ?_
    rw [he]
    exact hc current (Database.findById_mem hf).1
  obtain ⟨current, hf, hv⟩ := hadm.1
  have hdiff : diffInventoryItem current body ≠ [] := List.ne_nil_of_mem (hmem current hf)
  rw [update_run]
  obtain ⟨db', hrun, heff⟩ := update_accepted actor hf hv hdiff hadm.2
  rw [hrun]
  refine ⟨rfl, fun before after hrecorded => ?_⟩
  have hbefore : before = current := Option.some.inj (hrecorded.found.symm.trans hf)
  subst hbefore
  have hfind := findById_map
    (f := fun row => if row.id = id then row.applyPatch body else row)
    heff.items (fun row _ => by split <;> rfl) id
  rw [hf, Option.map_some, if_pos (Database.findById_mem hf).2] at hfind
  have hafter : after = before.applyPatch body :=
    Option.some.inj (hrecorded.left.symm.trans hfind)
  subst hafter
  -- the row of the product id is written as it was sent, and should be as the column keeps it
  have hlogs := List.append_cancel_left (heff.logs.symm.trans hrecorded.audits)
  have hrow : (⟨id, "productId", before.productId, productId, actor⟩ : InventoryAuditLog) ∈
        (auditRows actor before (before.applyPatch body)).filter
          (·.field = AuditedField.productId.name) := by
    rw [← hlogs]
    exact List.mem_filter.mpr ⟨List.mem_map.mpr ⟨_, hmem before hf, rfl⟩, decide_eq_true rfl⟩
  rw [filter_auditRows] at hrow
  unfold auditRow at hrow
  split at hrow
  · have hvalue := congrArg InventoryAuditLog.newValue (List.mem_singleton.mp hrow)
    have hstored : (before.applyPatch body).productId = uuidText productId := by
      have hp' : body.productId = some productId := hp
      simp [InventoryItem.applyPatch, hp']
    exact hne (hstored.symm.trans hvalue.symm)
  · cases hrow

/-- Every operation but a patch leaves the trail of the items that stay as it is, and so does a
patch that is refused. -/
theorem audits_untouched (ho : Owned db)
    (h : (∀ id body actor, op ≠ .request (.update id body actor)) ∨ (op.run db).1 ≠ .ok ())
    {item : InventoryItem} (hmem : item ∈ (op.run db).2.inventoryItems) (field : AuditedField) :
    (op.run db).2.auditsOf item.id field = db.auditsOf item.id field := by
  rcases h with h | h
  · have hturn := op.turn ho item.id
    have hitem : ((op.run db).2.recordOf item.id).item = some item :=
      Database.findById_of_mem hmem
    rw [Database.auditsOf_eq, Database.auditsOf_eq]
    generalize db.recordOf item.id = r at hturn
    generalize (op.run db).2.recordOf item.id = r' at hturn hitem
    cases hturn with
    | kept => rfl
    | created _ _ _ _ => rfl
    | moved _ _ _ _ _ _ _ => rfl
    | patched _ _ _ body actor hop _ _ => exact absurd hop (h item.id body actor)
    | removed _ => cases hitem
  · cases hrun : (op.run db).1 with
    | ok u => exact absurd hrun h
    | error e => rw [op.atomic db e hrun]

/-- The audit trail is kept through a whole run exactly if no patch in it spells a product id other
than a column keeps it. -/
theorem trail_kept_iff (operations : List Operation) :
    (∀ past op, past ++ [op] <+: operations →
      TrailKept past op (runAll Database.empty past)
        (runAll Database.empty (past ++ [op]))) ↔
    ∀ past op, past ++ [op] <+: operations → ¬ op.Respells (runAll Database.empty past) := by
  constructor
  · intro h past op hpre hspell
    cases op with
    | message payload key => exact hspell
    | request r =>
      cases r with
      | update id body actor =>
        obtain ⟨hok, hnot⟩ := respelled_not_recorded actor (runAll_canonical past) hspell
        obtain ⟨before, after, hrecorded⟩ := (h past _ hpre).patched id body actor rfl hok
        rw [runAll_append] at hrecorded
        exact hnot before after hrecorded
      | create id createdAt body => exact hspell
      | receive id body => exact hspell
      | acceptReturn id body => exact hspell
      | sell id body => exact hspell
      | adjust id body => exact hspell
      | reserve id body => exact hspell
      | release id body => exact hspell
      | fulfil id body => exact hspell
      | remove id => exact hspell
      | reserveMany body => exact hspell
      | releaseMany body => exact hspell
  · intro h past op hpre
    have howned := runAll_owned past
    have hstep : runAll Database.empty (past ++ [op]) = (op.run (runAll Database.empty past)).2 :=
      runAll_append _ past op
    constructor
    · intro id body actor hop hok
      subst hop
      rw [hstep]
      exact patch_recorded (h past _ hpre) hok
    · intro hother item hmem field
      rw [hstep] at hmem ⊢
      exact audits_untouched howned hother hmem field
    · intro item hmem field hfield
      rw [Database.auditsOf_eq]
      exact runAll_chained (fun earlier op' hpre' => h earlier op' (hpre'.trans hpre)) item.id item
        (Database.findById_of_mem hmem) field hfield
    · intro id item hf item' hf' hne
      rw [hstep] at hf' ⊢
      exact (movement_recorded howned op id).changed item hf item' hf'
        fun he => hne (congrArg StockLevels.quantity he)

/-- The product id of the lamps, in capitals. -/
def capitals : UpdateInventoryItemInput where
  productId := some "0B8F3C5E-2D4A-4F6B-8C1D-9E0F1A2B3C4D"
  named := rfl

theorem capitals_respelled :
    (Operation.request (.update "1" capitals none)).Respells
      (runAll Database.empty [fiveLamps]) :=
  ⟨⟨_, rfl, by decide +kernel⟩, by decide +kernel⟩

/-- A patch that names the product an item already has leaves a row that says it was changed. -/
theorem respelled_patch_logged :
    (∀ productId ∈ capitals.productId, isUuid productId = true) ∧
      ¬ ∀ operations past op, past ++ [op] <+: operations →
        TrailKept past op (runAll Database.empty past) (runAll Database.empty (past ++ [op])) := by
  constructor
  · decide +kernel
  · intro h
    obtain ⟨hok, hnot⟩ := respelled_not_recorded none (runAll_canonical [fiveLamps]) capitals_respelled
    obtain ⟨before, after, hrecorded⟩ := (h _ [fiveLamps]
      (.request (.update "1" capitals none)) (List.prefix_refl _)).patched "1" capitals none rfl hok
    rw [runAll_append] at hrecorded
    exact hnot before after hrecorded

end PracticalMicroservice.Inventory
