import PracticalMicroservice.Foundations.Transactional
import PracticalMicroservice.Inventory.Requests
import PracticalMicroservice.Inventory.Proofs.BulkEffectProofs

/-!
# The stock-level invariant

`0 ≤ reserved ≤ quantity` holds of every item of every reachable database, and an operation that
is rejected leaves the database as it was.
-/

namespace PracticalMicroservice.Inventory

open Foundations (Ensures)

/-! ## What each repository call does to the items -/

/-- Every item satisfies the stock invariant. -/
def ItemsSound (db : Database) : Prop :=
  ∀ item ∈ db.inventoryItems, item.levels.Sound

instance (db : Database) : Decidable (ItemsSound db) :=
  inferInstanceAs (Decidable (∀ item ∈ db.inventoryItems, item.levels.Sound))

theorem Database.assign_sound {db : Database} {assign : String → Option StockLevels}
    {h : ∀ id next, assign id = some next → next.Fits} (hs : ItemsSound db)
    (ha : ∀ id next, assign id = some next → next.Sound) : ItemsSound (db.assign assign h) := by
  intro item hi
  obtain ⟨row, hr, rfl⟩ := List.mem_map.mp hi
  unfold assignLevels
  split
  · rename_i next hn
    exact ha row.id next hn
  · exact hs row hr

/-- What the planner of `applyChange` accepts: what its own planner has planned, once re-checked. -/
theorem planChange_eq_ok {type : StockMovementType} {quantity : Int}
    {reason reference : Option String} {plan : StockLevels → Except AppError StockLevels}
    {item : InventoryItem} {next : StockChangePlan} :
    Service.planChange type quantity reason reference plan item = .ok next ↔
      plan item.levels = .ok next.levels ∧ next.levels.Sound ∧
        next.movement = { type, quantity, reason, reference } := by
  unfold Service.planChange
  cases hp : plan item.levels with
  | error e =>
    constructor
    · intro h
      cases h
    · rintro ⟨h, -⟩
      cases h
  | ok levels =>
    show (assertInvariants levels >>= fun _ => _) = Except.ok next ↔ _
    cases ha : assertInvariants levels with
    | error e =>
      constructor
      · intro h
        cases h
      · rintro ⟨h, hs, -⟩
        cases h
        rw [assertInvariants_ok.mpr hs] at ha
        cases ha
    | ok u =>
      constructor
      · intro h
        cases h
        exact ⟨rfl, assertInvariants_ok.mp ha, rfl⟩
      · rintro ⟨h, -, hm⟩
        obtain ⟨levels', movement⟩ := next
        cases h
        cases hm
        rfl

/-- The planner of `applyChange` only ever proposes sound levels. -/
theorem planChange_sound {type : StockMovementType} {quantity : Int}
    {reason reference : Option String} {plan : StockLevels → Except AppError StockLevels}
    {item : InventoryItem} {next : StockChangePlan}
    (h : Service.planChange type quantity reason reference plan item = .ok next) :
    next.levels.Sound :=
  (planChange_eq_ok.mp h).2.1

theorem applyStockChange_sound {id : String} {type : StockMovementType} {quantity : Int}
    {reason reference : Option String} {plan : StockLevels → Except AppError StockLevels}
    {db : Database} (hs : ItemsSound db) :
    ItemsSound (Repository.applyStockChange id
      (Service.planChange type quantity reason reference plan) db).2 := by
  cases hf : db.findById id with
  | none => rw [applyStockChange_missing _ hf]; exact hs
  | some item =>
    cases hp : Service.planChange type quantity reason reference plan item with
    | error e => rw [applyStockChange_refused hf hp]; exact hs
    | ok next =>
      by_cases hfit : next.levels.Fits
      · rw [applyStockChange_accepted hf hp hfit]
        refine Database.assign_sound (h := assignOne_fits hfit) hs fun other levels he => ?_
        unfold assignOne at he
        split at he
        · cases he; exact planChange_sound hp
        · cases he
      · rw [applyStockChange_out_of_range hf hp hfit]; exact hs

/-- A commit keeps whatever its callback establishes and the state before it satisfied. -/
theorem commit_ensures {α : Type} {tx : Transaction α} {db : Database} {P : Database → Prop}
    (h0 : P db) (h : Ensures tx db fun _ db' => P db') : P (commit tx db).2 := by
  cases hr : tx.run db with
  | ok p => rw [commit_of_ok hr]; exact h p.1 p.2 hr
  | error e => rw [commit_of_error hr]; exact h0

theorem Tx.writeItems_ensures {rows : List InventoryItem} {db : Database} :
    Ensures (Tx.writeItems rows) db fun _ db' =>
      db'.inventoryItems = rows ∧ db'.processedMessages = db.processedMessages := by
  refine Ensures.get_bind ?_
  unfold Database.writeItems
  by_cases hu : UniqueKeys rows
  · by_cases hf : ∀ item ∈ rows, item.Fits
    · rw [dif_pos hu, dif_pos hf]
      exact Ensures.set ⟨rfl, rfl⟩
    · rw [dif_pos hu, dif_neg hf]
      exact Ensures.throw _
  · rw [dif_neg hu]
    exact Ensures.throw _

/-- The rows after an update of one of them. -/
def updatedRows (rows : List InventoryItem) (id : String) (data : InventoryItem → InventoryItem) :
    List InventoryItem :=
  rows.map fun row => if row.id = id then data row else row

theorem Tx.updateItem_ensures {id : String} {data : InventoryItem → InventoryItem}
    {db : Database} :
    Ensures (Tx.updateItem id data) db fun _ db' =>
      db'.inventoryItems = updatedRows db.inventoryItems id data ∧
      db'.processedMessages = db.processedMessages := by
  refine Ensures.get_bind ?_
  cases db.findById id with
  | none => exact Ensures.throw _
  | some item =>
    refine Ensures.get_bind ?_
    exact Ensures.bind _ Tx.writeItems_ensures fun _ db' hw => Ensures.pure hw

theorem create_sound {id : String} {createdAt : Nat} {input : CreateInventoryItemInput}
    {db : Database} (hs : ItemsSound db) :
    ItemsSound (Repository.create id createdAt input db).2 := by
  refine commit_ensures hs ?_
  refine Ensures.get_bind ?_
  refine Ensures.bind _ Tx.writeItems_ensures ?_
  rintro _ db' ⟨hw, -⟩
  have hsound : ItemsSound db' := by
    intro item hi
    rw [hw] at hi
    rcases List.mem_append.mp hi with hi | hi
    · exact hs item hi
    · rw [List.mem_singleton.mp hi]
      exact ⟨le_refl _, input.quantity.nonnegative⟩
  split
  · exact Ensures.bind (fun _ t => ItemsSound t) (Ensures.modify hsound)
      fun _ _ ht => Ensures.pure ht
  · exact Ensures.pure hsound

/-- A patch that passes `validatePatch` leaves its row sound. -/
theorem applyPatch_sound {input : UpdateInventoryItemInput} {item : InventoryItem}
    (hs : item.levels.Sound) (hv : Service.validatePatch input item = .ok ()) :
    (item.applyPatch input).levels.Sound := by
  unfold Service.validatePatch at hv
  cases hq : input.quantity with
  | none =>
    simp only [InventoryItem.applyPatch, InventoryItem.levels, hq, Option.map_none,
      Option.getD_none]
    exact hs
  | some quantity =>
    rw [hq] at hv
    simp only [InventoryItem.applyPatch, InventoryItem.levels, hq, Option.map_some,
      Option.getD_some]
    exact assertInvariants_ok.mp hv

theorem patchedRows_sound {db db' : Database} {id : String} {input : UpdateInventoryItemInput}
    {current : InventoryItem} (hs : ItemsSound db) (hf : db.findById id = some current)
    (hv : Service.validatePatch input current = .ok ())
    (hw : db'.inventoryItems = updatedRows db.inventoryItems id (·.applyPatch input)) :
    ItemsSound db' := by
  intro item hi
  rw [hw] at hi
  obtain ⟨row, hr, rfl⟩ := List.mem_map.mp hi
  by_cases hid : row.id = id
  · have hrow : db.findById row.id = some row := Database.findById_of_mem hr
    rw [hid, hf] at hrow
    cases hrow
    simp only [hid, if_true]
    exact applyPatch_sound (hs _ hr) hv
  · simp only [hid, if_false]
    exact hs _ hr

theorem update_sound {id : String} {input : UpdateInventoryItemInput} {actor : Option String}
    {db : Database} (hs : ItemsSound db) :
    ItemsSound (Repository.update id input { actor, validate := Service.validatePatch input }
      db).2 := by
  refine commit_ensures hs ?_
  refine Ensures.get_bind ?_
  cases hf : db.findById id with
  | none => exact Ensures.throw _
  | some current =>
    show Ensures (liftPlan (Service.validatePatch input current) >>= _) db _
    cases hv : Service.validatePatch input current with
    | error e => exact Ensures.bind (fun _ _ => False) (Ensures.throw _) fun _ _ h => h.elim
    | ok u =>
      refine Ensures.bind (fun _ t => t = db) (Ensures.pure rfl) ?_
      rintro - t rfl
      show Ensures (if _ then _ else _) t _
      split
      · exact Ensures.pure hs
      refine Ensures.bind _ Tx.updateItem_ensures fun updated t' hw => ?_
      have hsound : ItemsSound t' := patchedRows_sound hs hf hv hw.1
      refine Ensures.bind (fun _ r => ItemsSound r) (Ensures.modify hsound) ?_
      intro _ r hr
      split
      · exact Ensures.bind (fun _ t => ItemsSound t) (Ensures.modify hr)
          fun _ _ ht => Ensures.pure ht
      · exact Ensures.pure hr

theorem delete_sound {id : String} {db : Database} (hs : ItemsSound db) :
    ItemsSound (Repository.delete id db).2 := by
  refine commit_ensures hs ?_
  refine Ensures.get_bind ?_
  cases db.findById id with
  | none => exact Ensures.throw _
  | some item =>
    refine Ensures.get_bind ?_
    refine Ensures.bind _ Tx.writeItems_ensures fun _ db' hw => ?_
    refine Ensures.modify fun row hr => ?_
    have hr' : row ∈ db'.inventoryItems := hr
    rw [hw.1] at hr'
    exact hs row (List.mem_filter.mp hr').1

theorem bulk_sound {t : Transition} {input : BulkStockInput} {key : Option IdempotencyKey}
    {db : Database} (hs : ItemsSound db) : ItemsSound (t.bulk input key db).2 := by
  obtain ⟨views, db', hrun, heff, hacc, -⟩ | ⟨_, _, hrun, -⟩ | ⟨k, -, -, hrun⟩ :=
    bulk_cases t input key db
  · rw [hrun]
    intro item hi
    rw [heff.items] at hi
    obtain ⟨row, hr, rfl⟩ := List.mem_map.mp hi
    by_cases hl : row.productId ∈ input.items.map (·.productId)
    · obtain ⟨line, hm, hp⟩ := List.mem_map.mp hl
      obtain ⟨item, hf, ha⟩ := hacc line hm
      rw [hp, Database.findByProductId_of_mem hr] at hf
      cases hf
      show (t.next row.levels (lineQuantity input.items row.productId)).Sound
      rw [← hp, lineQuantity_of_mem input.distinct hm]
      exact ha.2
    · show (t.next row.levels (lineQuantity input.items row.productId)).Sound
      rw [lineQuantity_of_not_mem hl]
      simpa [Transition.next] using hs row hr
  · rw [hrun]; exact hs
  · rw [hrun]; exact hs

/-! ## Actions that change the database only when they return -/

section Actions

variable {α β : Type}

/-- A rejected call leaves no trace. -/
def Atomic (action : Action α) : Prop :=
  ∀ db error, (action db).1 = .error error → (action db).2 = db

/-- Whatever the call answers, `P` still holds after it. -/
def Keeps (P : Database → Prop) (action : Action α) : Prop :=
  ∀ db, P db → P (action db).2

theorem Atomic.commit (tx : Transaction α) : Atomic (commit tx) :=
  fun _ _ h => commit_rejected h

theorem Atomic.throw (e : Thrown) : Atomic (throw e : Action α) := fun _ _ _ => rfl

theorem Atomic.map {action : Action α} (h : Atomic action) (f : α → β) :
    Atomic (do let x ← action; return f x) := by
  intro db error he
  rw [Action.map_apply] at he ⊢
  refine h db error ?_
  cases hr : (action db).1 with
  | ok a => rw [hr] at he; cases he
  | error e => rw [hr] at he; cases he; rfl

theorem Atomic.get_bind {next : Database → Action α} (h : ∀ db, Atomic (next db)) :
    Atomic (get >>= next) := by
  intro db error he
  rw [Action.bind_apply] at he ⊢
  exact h db db error he

variable {P : Database → Prop}

theorem Keeps.throw (e : Thrown) : Keeps P (throw e : Action α) := fun _ h => h

theorem Keeps.map {action : Action α} (h : Keeps P action) (f : α → β) :
    Keeps P (do let x ← action; return f x) := by
  intro db hs
  rw [Action.map_apply]
  exact h db hs

theorem Keeps.get_bind {next : Database → Action α} (h : ∀ db, Keeps P (next db)) :
    Keeps P (get >>= next) := by
  intro db hs
  rw [Action.bind_apply]
  exact h db db hs

end Actions

/-! ## Every operation -/

theorem applyChange_atomic (id : String) (type : StockMovementType) (quantity : Int)
    (reason reference : Option String) (plan : StockLevels → Except AppError StockLevels) :
    Atomic (Service.applyChange id type quantity reason reference plan) :=
  (Atomic.commit _).map _

theorem bulk_atomic (t : Transition) (input : BulkStockInput) (key : Option IdempotencyKey) :
    Atomic (t.bulk input key) := fun _ _ h => bulk_unchanged h

/-- A creation is refused before it writes, or it is the repository's. -/
theorem serviceCreate_cases (id : String) (createdAt : Nat) (input : CreateInventoryItemInput)
    (db : Database) :
    (∃ error : AppError, Service.create id createdAt input db = (.error (.app error), db)) ∨
      Service.create id createdAt input db = ((Repository.create id createdAt input db).1.map
        toInventoryItemView, (Repository.create id createdAt input db).2) := by
  unfold Service.create
  rw [Action.bind_apply, Action.get_apply]
  cases hsku : db.findBySku input.sku with
  | some _ =>
    simp only [hsku]
    exact .inl ⟨_, rfl⟩
  | none =>
    simp only [hsku]
    rw [Action.bind_apply, Action.get_apply]
    cases hproduct : db.findByProductId (uuidText input.productId) with
    | some _ =>
      simp only [hproduct]
      exact .inl ⟨_, rfl⟩
    | none =>
      simp only [hproduct]
      exact .inr (Action.map_apply _ _ db)

/-- What `create` and `remove` do before they commit is only to read and to refuse. -/
theorem serviceCreate_atomic (id : String) (createdAt : Nat) (input : CreateInventoryItemInput) :
    Atomic (Service.create id createdAt input) := by
  refine Atomic.get_bind fun db => ?_
  cases db.findBySku input.sku with
  | some _ => exact Atomic.throw _
  | none =>
    refine Atomic.get_bind fun db => ?_
    cases db.findByProductId (uuidText input.productId) with
    | some _ => exact Atomic.throw _
    | none => exact (Atomic.commit _).map _

theorem getById_apply (id : String) (db : Database) :
    Service.getById id db = match db.findById id with
      | none => (.error (.app (.NotFoundError s!"Inventory item '{id}' was not found")), db)
      | some item => (.ok (toInventoryItemView item), db) := by
  unfold Service.getById
  rw [Action.bind_apply, Action.get_apply]
  show (match db.findById id with | none => _ | some item => _ : Action _) db = _
  cases db.findById id <;> rfl

/-- `remove` after its check of the reserved units. -/
def removeChecked (id : String) (item : InventoryItemView) : Action Unit :=
  if item.reserved > 0 then
    throw (.app (.ConflictError
      s!"Cannot delete inventory with {item.reserved} reserved units outstanding" []))
  else Repository.delete id

theorem remove_apply (id : String) (db : Database) :
    Service.remove id db = match db.findById id with
      | none => (.error (.app (.NotFoundError s!"Inventory item '{id}' was not found")), db)
      | some item => removeChecked id (toInventoryItemView item) db := by
  unfold Service.remove
  rw [Action.bind_apply, getById_apply]
  cases db.findById id with
  | none => rfl
  | some item =>
    show (if _ then _ else _ : Action Unit) db = removeChecked id _ db
    unfold removeChecked
    split <;> rfl

theorem remove_atomic (id : String) : Atomic (Service.remove id) := by
  intro db error h
  rw [remove_apply] at h ⊢
  cases hf : db.findById id with
  | none => rfl
  | some item =>
    rw [hf] at h
    simp only [removeChecked] at h ⊢
    split at h
    · rename_i hr; rw [if_pos hr]; rfl
    · rename_i hr; rw [if_neg hr]; exact commit_rejected h

theorem Request.atomic (r : Request) : Atomic r.run := by
  cases r with
  | create id createdAt body => exact (serviceCreate_atomic id createdAt body).map _
  | update id body actor => exact ((Atomic.commit _).map _).map _
  | remove id => exact remove_atomic id
  | reserveMany body => exact (bulk_atomic .reserve body none).map _
  | releaseMany body => exact (bulk_atomic .release body none).map _
  | receive id body => exact (applyChange_atomic id _ _ _ _ _).map _
  | acceptReturn id body => exact (applyChange_atomic id _ _ _ _ _).map _
  | sell id body => exact (applyChange_atomic id _ _ _ _ _).map _
  | adjust id body => exact (applyChange_atomic id _ _ _ _ _).map _
  | reserve id body => exact (applyChange_atomic id _ _ _ _ _).map _
  | release id body => exact (applyChange_atomic id _ _ _ _ _).map _
  | fulfil id body => exact (applyChange_atomic id _ _ _ _ _).map _

/-- What each write path of the repository preserves. -/
structure RepositoryKeeps (P : Database → Prop) : Prop where
  create : ∀ id createdAt input, Keeps P (Repository.create id createdAt input)
  update : ∀ id input actor, Keeps P
    (Repository.update id input { actor, validate := Service.validatePatch input })
  delete : ∀ id, Keeps P (Repository.delete id)
  change : ∀ id type quantity reason reference plan, Keeps P (Repository.applyStockChange id
    (Service.planChange type quantity reason reference plan))
  bulk : ∀ (t : Transition) input, Keeps P (t.bulk input none)

section Keeping

variable {P : Database → Prop} (h : RepositoryKeeps P)
include h

theorem RepositoryKeeps.serviceCreate (id : String) (createdAt : Nat)
    (input : CreateInventoryItemInput) : Keeps P (Service.create id createdAt input) := by
  refine Keeps.get_bind fun db => ?_
  cases db.findBySku input.sku with
  | some _ => exact Keeps.throw _
  | none =>
    refine Keeps.get_bind fun db => ?_
    cases db.findByProductId (uuidText input.productId) with
    | some _ => exact Keeps.throw _
    | none => exact (h.create id createdAt input).map _

theorem RepositoryKeeps.applyChange (id : String) (type : StockMovementType) (quantity : Int)
    (reason reference : Option String) (plan : StockLevels → Except AppError StockLevels) :
    Keeps P (Service.applyChange id type quantity reason reference plan) :=
  (h.change id type quantity reason reference plan).map _

theorem RepositoryKeeps.remove (id : String) : Keeps P (Service.remove id) := by
  intro db hs
  rw [remove_apply]
  cases db.findById id with
  | none => exact hs
  | some item =>
    simp only [removeChecked]
    split
    · exact hs
    · exact h.delete id db hs

/-- What the repository preserves, every request preserves. -/
theorem RepositoryKeeps.request (r : Request) : Keeps P r.run := by
  cases r with
  | create id createdAt body => exact (h.serviceCreate id createdAt body).map _
  | update id body actor => exact ((h.update id body actor).map _).map _
  | remove id => exact h.remove id
  | reserveMany body => exact (h.bulk .reserve body).map _
  | releaseMany body => exact (h.bulk .release body).map _
  | receive id body => exact (h.applyChange id _ _ _ _ _).map _
  | acceptReturn id body => exact (h.applyChange id _ _ _ _ _).map _
  | sell id body => exact (h.applyChange id _ _ _ _ _).map _
  | adjust id body => exact (h.applyChange id _ _ _ _ _).map _
  | reserve id body => exact (h.applyChange id _ _ _ _ _).map _
  | release id body => exact (h.applyChange id _ _ _ _ _).map _
  | fulfil id body => exact (h.applyChange id _ _ _ _ _).map _

end Keeping

theorem sound_kept : RepositoryKeeps ItemsSound where
  create _ _ _ := fun _ hs => create_sound hs
  update _ _ _ := fun _ hs => update_sound hs
  delete _ := fun _ hs => delete_sound hs
  change _ _ _ _ _ _ := fun _ hs => applyStockChange_sound hs
  bulk _ _ := fun _ hs => bulk_sound hs

theorem Operation.atomic (op : Operation) : Atomic op.run := by
  cases op with
  | request r => exact r.atomic
  | message payload key => exact (bulk_atomic .release payload (some key)).map _

theorem Operation.keepsSound (op : Operation) : Keeps ItemsSound op.run := by
  cases op with
  | request r => exact sound_kept.request r
  | message payload key =>
    exact Keeps.map (fun db hs => bulk_sound (t := .release) hs) _

/-- What every operation preserves, every sequence of operations preserves. -/
theorem runAll_keeps {P : Database → Prop} (h : ∀ op : Operation, Keeps P op.run) {db : Database}
    (h0 : P db) (operations : List Operation) : P (runAll db operations) := by
  induction operations generalizing db with
  | nil => exact h0
  | cons op rest ih => exact ih (h op db h0)

theorem runAll_append (db : Database) (past : List Operation) (op : Operation) :
    runAll db (past ++ [op]) = (op.run (runAll db past)).2 := by
  unfold runAll
  rw [List.foldl_append]
  rfl

theorem runAll_sound {db : Database} (hs : ItemsSound db) (operations : List Operation) :
    ItemsSound (runAll db operations) :=
  runAll_keeps Operation.keepsSound hs operations

theorem empty_sound : ItemsSound Database.empty := by
  intro item hi
  cases hi

/-- From an empty warehouse on, whatever is asked and in whatever order, no item ever has a
negative reserved count or more reserved than on hand; and a rejected operation changes nothing. -/
theorem stock_levels_invariant (operations : List Operation) :
    (∀ item ∈ (runAll Database.empty operations).inventoryItems,
      0 ≤ item.reserved ∧ item.reserved ≤ item.quantity) ∧
    ∀ (op : Operation) (error : Thrown), (op.run (runAll Database.empty operations)).1 = .error error →
      (op.run (runAll Database.empty operations)).2 = runAll Database.empty operations :=
  ⟨fun item hi => runAll_sound empty_sound operations item hi,
    fun op error h => op.atomic _ error h⟩

end PracticalMicroservice.Inventory
