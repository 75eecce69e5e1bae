import PracticalMicroservice.Foundations.Statements
import PracticalMicroservice.Inventory.Removals
import PracticalMicroservice.Inventory.Proofs.BulkRefinementProofs
import PracticalMicroservice.Inventory.Proofs.StockInvariantProofs

/-!
# What a removal finds

A single call rewrites the rows in place, and only a reservation raises a reserved count; so where
no item is reserved between a removal's check and its deletion, the deletion finds what the check
has found.
-/

namespace PracticalMicroservice.Inventory

open Foundations (AllSteps Called Ensures Meets Pool Recounted Tells pastOf recounting runs
  tells_bind tells_pure tells_request tells_result tells_throw)

/-! ## What a single call does to the rows -/

/-- Every row keeps its id, and only a row that is raised gets more reserved. -/
def Rewritten (raised : String → Prop) (db db' : Database) : Prop :=
  ∃ f : InventoryItem → InventoryItem, db'.inventoryItems = db.inventoryItems.map f ∧
    ∀ row ∈ db.inventoryItems,
      (f row).id = row.id ∧ ((f row).reserved ≤ row.reserved ∨ raised row.id)

section Rewritten

variable {raised : String → Prop} {db db' : Database} {id : String}

theorem Rewritten.refl (raised : String → Prop) (db : Database) : Rewritten raised db db :=
  ⟨fun row => row, (List.map_id' _).symm, fun _ _ => ⟨rfl, .inl (le_refl _)⟩⟩

/-- One row changed, and the others left alone. -/
theorem rewritten_one (data : InventoryItem → InventoryItem)
    (hrows : db'.inventoryItems = updatedRows db.inventoryItems id data)
    (hdata : ∀ row ∈ db.findById id,
      (data row).id = row.id ∧ ((data row).reserved ≤ row.reserved ∨ raised id)) :
    Rewritten raised db db' := by
  refine ⟨fun row => if row.id = id then data row else row, hrows, fun row hrow => ?_⟩
  dsimp only
  by_cases hid : row.id = id
  · subst hid
    rw [if_pos rfl]
    exact hdata row (Database.findById_of_mem hrow)
  · rw [if_neg hid]
    exact ⟨rfl, .inl (le_refl _)⟩

/-- What the planner of `applyChange` accepts, its own planner has planned. -/
theorem planChange_ok {type : StockMovementType} {quantity : Int}
    {reason reference : Option String} {plan : StockLevels → Except AppError StockLevels}
    {item : InventoryItem} {next : StockChangePlan}
    (h : Service.planChange type quantity reason reference plan item = .ok next) :
    plan item.levels = .ok next.levels :=
  (planChange_eq_ok.mp h).1

/-- A change of one item comes to nothing, or gives it the levels that were planned. -/
theorem applyChange_items (id : String) (type : StockMovementType) (quantity : Int)
    (reason reference : Option String) (plan : StockLevels → Except AppError StockLevels)
    (db : Database) :
    (Service.applyChange id type quantity reason reference plan db).2.inventoryItems =
        db.inventoryItems ∨
      ∃ item next, db.findById id = some item ∧ plan item.levels = .ok next ∧ next.Sound ∧
        (Service.applyChange id type quantity reason reference plan db).2.inventoryItems =
          updatedRows db.inventoryItems id (·.setLevels next) := by
  have hsnd : (Service.applyChange id type quantity reason reference plan db).2 =
      (Repository.applyStockChange id
        (Service.planChange type quantity reason reference plan) db).2 := by
    unfold Service.applyChange
    rw [Action.map_apply]
  rw [hsnd]
  cases hf : db.findById id with
  | none =>
    rw [applyStockChange_missing _ hf]
    exact .inl rfl
  | some item =>
    cases hp : Service.planChange type quantity reason reference plan item with
    | error e =>
      rw [applyStockChange_refused hf hp]
      exact .inl rfl
    | ok next =>
      by_cases hfit : next.levels.Fits
      · rw [applyStockChange_accepted hf hp hfit]
        exact .inr ⟨item, next.levels, rfl, planChange_ok hp, planChange_sound hp,
          (updateLevels_rows db.inventoryItems id next.levels).symm⟩
      · rw [applyStockChange_out_of_range hf hp hfit]
        exact .inl rfl

theorem applyChange_rewritten {type : StockMovementType} {quantity : Int}
    {reason reference : Option String} {plan : StockLevels → Except AppError StockLevels}
    (hplan : ∀ item ∈ db.findById id, ∀ next : StockLevels, plan item.levels = .ok next →
      next.Sound → next.reserved ≤ item.reserved ∨ raised id) :
    Rewritten raised db (Service.applyChange id type quantity reason reference plan db).2 := by
  rcases applyChange_items id type quantity reason reference plan db with hrows |
    ⟨item, next, hf, hp, hs, hrows⟩
  · exact ⟨fun row => row, hrows.trans (List.map_id' _).symm, fun _ _ => ⟨rfl, .inl (le_refl _)⟩⟩
  · refine rewritten_one (·.setLevels next) hrows fun row hrow => ?_
    obtain rfl : item = row := Option.some.inj (hf.symm.trans hrow)
    exact ⟨rfl, hplan item hf next hp hs⟩

theorem update_rewritten {input : UpdateInventoryItemInput} {context : UpdateContext} :
    Rewritten raised db (Repository.update id input context db).2 := by
  refine commit_ensures (.refl _ db) ?_
  refine Ensures.get_bind ?_
  cases hf : db.findById id with
  | none => exact Ensures.throw _
  | some current =>
    show Ensures (liftPlan (context.validate current) >>= _) db _
    cases context.validate current with
    | error e => exact Ensures.bind (fun _ _ => False) (Ensures.throw _) fun _ _ h => h.elim
    | ok u =>
      refine Ensures.bind (fun _ t => t = db) (Ensures.pure rfl) ?_
      rintro - t rfl
      show Ensures (if _ then _ else _) t _
      split
      · exact Ensures.pure (.refl _ t)
      refine Ensures.bind _ Tx.updateItem_ensures fun updated t' hw => ?_
      have hrewritten : Rewritten raised t t' :=
        rewritten_one _ hw.1 fun row _ => ⟨rfl, .inl (le_refl _)⟩
      refine Ensures.bind (fun _ r => Rewritten raised t r) (Ensures.modify hrewritten) ?_
      intro _ r hr
      split
      · exact Ensures.bind (fun _ r' => Rewritten raised t r') (Ensures.modify hr)
          fun _ _ ht => Ensures.pure ht
      · exact Ensures.pure hr

theorem bulk_rewritten {t : Transition} {input : BulkStockInput} (key : Option IdempotencyKey)
    (ht : t = .reserve → ∀ row ∈ db.inventoryItems, (∀ line ∈ input.items, Accepts t db line) →
      row.productId ∈ input.items.map (·.productId) → raised row.id) :
    Rewritten raised db (t.bulk input key db).2 := by
  obtain ⟨views, db', hrun, heff, hacc, -⟩ | ⟨_, _, hrun, -⟩ | ⟨k, -, -, hrun⟩ :=
    bulk_cases t input key db
  · rw [hrun]
    refine ⟨_, heff.items, fun row hrow => ⟨rfl, ?_⟩⟩
    show row.reserved + t.shift * lineQuantity input.items row.productId ≤ row.reserved ∨ _
    have hq := lineQuantity_nonneg input.items row.productId
    cases t with
    | reserve =>
      by_cases hl : row.productId ∈ input.items.map (·.productId)
      · exact .inr (ht rfl row hrow hacc hl)
      · rw [lineQuantity_of_not_mem hl]
        exact .inl (by omega)
    | release =>
      refine .inl ?_
      simp only [Transition.shift]
      omega
  · rw [hrun]
    exact .refl _ db
  · rw [hrun]
    exact .refl _ db

end Rewritten

/-! ## The planners that leave the reserved count, and the ones that lower it -/

section Plans

variable {levels next : StockLevels} {quantity : Int}

theorem planReservation_admits (h : planReservation levels quantity = .ok next)
    (hs : next.Sound) : Transition.reserve.Admits levels quantity := by
  unfold planReservation at h
  dsimp only at h
  split at h
  · cases h
  · rename_i hle
    cases h
    refine ⟨Int.not_lt.mp hle, ?_⟩
    simpa [Transition.next, Transition.shift] using hs

theorem planRelease_lowers (h : planRelease levels quantity = .ok next) (hq : 0 < quantity) :
    next.reserved ≤ levels.reserved := by
  unfold planRelease at h
  split at h
  · cases h
  · cases h
    dsimp only
    omega

theorem planFulfilment_lowers (h : planFulfilment levels quantity = .ok next) (hq : 0 < quantity) :
    next.reserved ≤ levels.reserved := by
  unfold planFulfilment at h
  split at h
  · cases h
  · cases h
    dsimp only
    omega

theorem planSale_lowers (h : planSale levels quantity = .ok next) :
    next.reserved ≤ levels.reserved := by
  unfold planSale at h
  dsimp only at h
  split at h
  · cases h
  · cases h
    exact le_refl _

theorem planReceipt_lowers (h : planReceipt levels quantity = .ok next) :
    next.reserved ≤ levels.reserved := by
  cases h
  exact le_refl _

theorem planAdjustment_lowers (h : planAdjustment levels quantity = .ok next) :
    next.reserved ≤ levels.reserved := by
  unfold planAdjustment at h
  dsimp only at h
  split at h
  · cases h
  · cases h
    exact le_refl _

end Plans

theorem Rewritten.map {α β : Type} {raised : String → Prop} {db : Database} {action : Action α}
    (h : Rewritten raised db (action db).2) (f : α → β) :
    Rewritten raised db ((do let x ← action; return f x : Action β) db).2 := by
  rw [Action.map_apply]
  exact h

/-- Of the operations that are a single call, only a reservation raises a reserved count. -/
theorem Operation.rewritten (op : Operation) (h : op.single = true) (db : Database) :
    Rewritten (fun id => op.Reserves db id) db (op.run db).2 := by
  have hone : ∀ id type quantity reason reference plan,
      (∀ item ∈ db.findById id, ∀ next : StockLevels, plan item.levels = .ok next →
        next.Sound → next.reserved ≤ item.reserved ∨ op.Reserves db id) →
      Rewritten (fun id => op.Reserves db id) db
        (Service.applyChange id type quantity reason reference plan db).2 :=
    fun _ _ _ _ _ _ hplan => applyChange_rewritten hplan
  cases op with
  | message payload key =>
    exact (bulk_rewritten (t := .release) (some key) (fun ht => nomatch ht)).map _
  | request r =>
    cases r with
    | create id createdAt body => cases h
    | remove id => cases h
    | update id body actor => exact (update_rewritten.map _).map _
    | reserveMany body =>
      refine (bulk_rewritten (t := .reserve) none fun _ row hrow hacc hl => ?_).map _
      exact ⟨hacc, row, Database.findById_of_mem hrow, hl⟩
    | releaseMany body =>
      exact (bulk_rewritten (t := .release) none (fun ht => nomatch ht)).map _
    | reserve id body =>
      exact (hone id _ _ _ _ _ fun item hf next hp hs =>
        .inr ⟨rfl, item, hf, planReservation_admits hp hs⟩).map _
    | release id body =>
      exact (hone id _ _ _ _ _ fun item _ next hp _ =>
        .inl (planRelease_lowers hp body.quantity.positive)).map _
    | fulfil id body =>
      exact (hone id _ _ _ _ _ fun item _ next hp _ =>
        .inl (planFulfilment_lowers hp body.quantity.positive)).map _
    | sell id body =>
      exact (hone id _ _ _ _ _ fun item _ next hp _ => .inl (planSale_lowers hp)).map _
    | receive id body =>
      exact (hone id _ _ _ _ _ fun item _ next hp _ => .inl (planReceipt_lowers hp)).map _
    | acceptReturn id body =>
      exact (hone id _ _ _ _ _ fun item _ next hp _ => .inl (planReceipt_lowers hp)).map _
    | adjust id body =>
      exact (hone id _ _ _ _ _ fun item _ next hp _ => .inl (planAdjustment_lowers hp)).map _

theorem create_rows (id : String) (createdAt : Nat) (input : CreateInventoryItemInput)
    (db : Database) :
    (Repository.create id createdAt input db).2.inventoryItems = db.inventoryItems ∨
      ∃ item, item.reserved = 0 ∧ (Repository.create id createdAt input db).2.inventoryItems =
        db.inventoryItems ++ [item] := by
  refine commit_ensures (P := fun db' => db'.inventoryItems = db.inventoryItems ∨
    ∃ item, item.reserved = 0 ∧ db'.inventoryItems = db.inventoryItems ++ [item]) (.inl rfl) ?_
  refine Ensures.get_bind ?_
  refine Ensures.bind _ Tx.writeItems_ensures ?_
  rintro _ db' ⟨hw, -⟩
  have hone : ∃ item : InventoryItem, item.reserved = 0 ∧
      db'.inventoryItems = db.inventoryItems ++ [item] := ⟨_, rfl, hw⟩
  split
  · refine Ensures.bind (fun _ t => ∃ item : InventoryItem, item.reserved = 0 ∧
      t.inventoryItems = db.inventoryItems ++ [item]) (Ensures.modify hone) ?_
    exact fun _ _ ht => Ensures.pure (.inr ht)
  · exact Ensures.pure (.inr hone)

theorem delete_rows (id : String) (db : Database) :
    (Repository.delete id db).2.inventoryItems = db.inventoryItems ∨
      (Repository.delete id db).2.inventoryItems = db.inventoryItems.filter (·.id ≠ id) := by
  refine commit_ensures (P := fun db' => db'.inventoryItems = db.inventoryItems ∨
    db'.inventoryItems = db.inventoryItems.filter (·.id ≠ id)) (.inl rfl) ?_
  refine Ensures.get_bind ?_
  cases db.findById id with
  | none => exact Ensures.throw _
  | some item =>
    refine Ensures.get_bind ?_
    refine Ensures.bind _ Tx.writeItems_ensures fun _ db' hw => ?_
    exact Ensures.modify (.inr hw.1)

/-! ## What a call of a thread does -/

/-- Nothing is reserved of an item, if it exists. -/
def Unreserved (db : Database) (id : String) : Prop :=
  ∀ row ∈ db.inventoryItems, row.id = id → row.reserved ≤ 0

/-- A call that is one of an operation of a single call. -/
def Call.proper : Call → Prop
  | transact op => op.single = true
  | _ => True

theorem Call.perform_cases (fate : Fate) (call : Call) (db : Database) :
    (call.perform fate db).2 = db ∨
      fate.takesEffect = true ∧ (call.perform fate db).2 = (call.run db).2 := by
  cases fate with
  | answered => exact .inr ⟨rfl, rfl⟩
  | lost => exact .inr ⟨rfl, rfl⟩
  | failed => exact .inl rfl

theorem Call.run_sound {call : Call} {db : Database} (hs : ItemsSound db) :
    ItemsSound (call.run db).2 := by
  cases call with
  | findById id => exact hs
  | findBySku sku => exact hs
  | findByProductId productId => exact hs
  | create id createdAt input => exact create_sound hs
  | delete id => exact delete_sound hs
  | transact op => exact op.keepsSound db hs

/-- No call reserves units of an item unless it is a reservation of it. -/
theorem Call.run_unreserved {call : Call} {db : Database} {id : String} (hc : call.proper)
    (hfree : ∀ op, call = .transact op → ¬ op.Reserves db id) (h : Unreserved db id) :
    Unreserved (call.run db).2 id := by
  cases call with
  | findById id' => exact h
  | findBySku sku => exact h
  | findByProductId productId => exact h
  | create id' createdAt input =>
    intro row hrow hid
    rcases create_rows id' createdAt input db with hrows | ⟨item, hzero, hrows⟩
    · exact h row (hrows ▸ hrow) hid
    · rcases List.mem_append.mp (hrows ▸ hrow) with hrow | hrow
      · exact h row hrow hid
      · rw [List.mem_singleton.mp hrow, hzero]
  | delete id' =>
    intro row hrow hid
    rcases delete_rows id' db with hrows | hrows
    · exact h row (hrows ▸ hrow) hid
    · exact h row (List.mem_filter.mp (hrows ▸ hrow)).1 hid
  | transact op =>
    intro row hrow hid
    obtain ⟨f, hrows, hf⟩ := op.rewritten hc db
    obtain ⟨old, hold, rfl⟩ := List.mem_map.mp (hrows ▸ hrow)
    obtain ⟨hkey, hle | hraised⟩ := hf old hold
    · have := h old hold (hkey ▸ hid)
      omega
    · exact absurd (hid ▸ hkey ▸ hraised) (hfree op rfl)

/-- A row is only deleted by a deletion of it. -/
theorem Call.run_deletes {call : Call} {db : Database} {item : InventoryItem} (hc : call.proper)
    (hitem : item ∈ db.inventoryItems)
    (hgone : item.id ∉ (call.run db).2.inventoryItems.map (·.id)) : call = .delete item.id := by
  have hkept : ∀ {rows : List InventoryItem}, item ∈ rows → item.id ∈ rows.map (·.id) :=
    fun h => List.mem_map_of_mem h
  cases call with
  | findById id => exact absurd (hkept hitem) hgone
  | findBySku sku => exact absurd (hkept hitem) hgone
  | findByProductId productId => exact absurd (hkept hitem) hgone
  | create id createdAt input =>
    refine absurd (hkept ?_) hgone
    rcases create_rows id createdAt input db with hrows | ⟨new, -, hrows⟩
    · exact hrows ▸ hitem
    · exact hrows ▸ List.mem_append_left [new] hitem
  | delete id =>
    by_cases hid : item.id = id
    · rw [hid]
    · refine absurd (hkept ?_) hgone
      rcases delete_rows id db with hrows | hrows
      · exact hrows ▸ hitem
      · exact hrows ▸ List.mem_filter.mpr ⟨hitem, by simpa using hid⟩
  | transact op =>
    obtain ⟨f, hrows, hf⟩ := op.rewritten hc db
    refine absurd ?_ hgone
    rw [show (Call.run (.transact op) db).2.inventoryItems = _ from hrows, List.map_map]
    exact List.mem_map.mpr ⟨item, hitem, (hf item hitem).1⟩

/-! ## The methods, call by call -/

section Alone

variable {α β : Type} {db : Database}

/-- A method, run at once. -/
def Method.alone (p : Method α) (db : Database) : Except Thrown α × Database :=
  p.run.exec Call.run db

theorem alone_bind (p : Method α) (f : α → Method β) :
    (p >>= f).alone db =
      match p.alone db with
      | (.ok a, db') => (f a).alone db'
      | (.error e, db') => (.error e, db') := by
  have h : (p >>= f).alone db = (p.run >>= ExceptT.bindCont f).exec Call.run db := rfl
  rw [h, Foundations.Program.exec_bind]
  show _ = match p.run.exec Call.run db with
    | (.ok a, db') => (f a).alone db'
    | (.error e, db') => (.error e, db')
  cases p.run.exec Call.run db with
  | mk r db' => cases r <;> rfl

theorem alone_call (c : Call) : (Method.call c).alone db = c.run db := by
  have h : (Method.call c).alone db = ((c.run db).1, (c.run db).2) := rfl
  rw [h]

theorem getById_alone (id : String) :
    (Method.getById id).alone db = Service.getById id db := by
  unfold Method.getById
  rw [alone_bind, alone_call, getById_apply]
  simp only [Call.run]
  cases db.findById id with
  | none => rfl
  | some item => rfl

theorem remove_alone (id : String) : (Method.remove id).alone db = Service.remove id db := by
  unfold Method.remove
  rw [alone_bind, getById_alone, getById_apply, remove_apply]
  cases db.findById id with
  | none => rfl
  | some item =>
    simp only [removeChecked]
    show (if _ then _ else _ : Method Unit).alone db = _
    split
    · rfl
    · exact alone_call (.delete id)

theorem create_alone (id : String) (createdAt : Nat) (input : CreateInventoryItemInput) :
    (Method.create id createdAt input).alone db = Service.create id createdAt input db := by
  unfold Method.create Service.create
  rw [alone_bind, alone_call, Action.bind_apply, Action.get_apply]
  simp only [Call.run]
  cases db.findBySku input.sku with
  | some _ => rfl
  | none =>
    dsimp only
    rw [alone_bind, alone_call, Action.bind_apply, Action.get_apply]
    simp only [Call.run]
    cases db.findByProductId (uuidText input.productId) with
    | some _ => rfl
    | none =>
      dsimp only
      rw [alone_bind, alone_call, Action.map_apply]
      simp only [Call.run]
      rcases Repository.create id createdAt input db with ⟨r, db'⟩
      cases r <;> rfl

/-- With nothing running beside it, an operation does what it does as one step. -/
theorem Operation.method_alone (op : Operation) : op.method.alone db = op.run db := by
  cases op with
  | message payload key => exact alone_call _
  | request r =>
    cases r with
    | create id createdAt body =>
      show (do let _ ← Method.create id createdAt body : Method Unit).alone db =
        (do let _ ← Service.create id createdAt body : Action Unit) db
      rw [alone_bind, create_alone, Action.map_apply]
      rcases Service.create id createdAt body db with ⟨r, db'⟩
      cases r <;> rfl
    | remove id => exact remove_alone id
    | receive id body => exact alone_call _
    | acceptReturn id body => exact alone_call _
    | sell id body => exact alone_call _
    | adjust id body => exact alone_call _
    | reserve id body => exact alone_call _
    | release id body => exact alone_call _
    | fulfil id body => exact alone_call _
    | update id body actor => exact alone_call _
    | reserveMany body => exact alone_call _
    | releaseMany body => exact alone_call _

end Alone

/-- What an operation that has been told so much may do next: it deletes what it has just found
with nothing reserved. -/
def Grounded (_op : Operation) (past : Told) (c : Call) : Prop :=
  c.proper ∧ ∀ id, c = .delete id → ∃ item rest, item.reserved ≤ 0 ∧
    past = ⟨.findById id, .ok (some item)⟩ :: rest

section Grounded

variable {op : Operation} {past : Told} {α : Type}

/-- Every reply is possible. -/
abbrev Credible (c : Call) (_ : c.Reply) : Prop := True

theorem tells_call {c : Call} {ok : c.Result → Told → Prop} (hg : Grounded op past c)
    (hok : ∀ a, ok a (⟨c, .ok a⟩ :: past)) :
    Tells Grounded Credible op (Method.call c) ok (fun _ _ => True) past := by
  refine tells_bind (tells_request hg fun reply _ =>
    tells_result (fun a ha => ?_) fun _ _ => trivial)
  subst ha
  exact hok a

theorem grounded_of_proper {c : Call} (hc : c.proper) (hd : ∀ id, c ≠ .delete id) :
    Grounded op past c := ⟨hc, fun id he => absurd he (hd id)⟩

theorem tells_getById (id : String) :
    Tells Grounded Credible op (Method.getById id)
      (fun item past' => ∃ row, toInventoryItemView row = item ∧
        past' = ⟨.findById id, .ok (some row)⟩ :: past) (fun _ _ => True) past := by
  refine tells_bind (tells_call (grounded_of_proper trivial (by simp)) fun item => ?_)
  cases item with
  | none => exact tells_throw trivial
  | some row => exact tells_pure ⟨row, rfl, rfl⟩

theorem tells_remove (id : String) :
    Tells Grounded Credible op (Method.remove id) (fun _ _ => True) (fun _ _ => True) past := by
  refine tells_bind ((tells_getById id).mono ?_ fun _ _ h => h)
  rintro _ past' ⟨row, rfl, rfl⟩
  show Tells Grounded Credible op (if row.reserved > 0 then _ else _) _ _ _
  split
  · exact tells_bind (tells_throw trivial)
  · rename_i hzero
    refine tells_call ⟨trivial, fun id' he => ?_⟩ fun _ => trivial
    cases he
    exact ⟨row, past, Int.not_lt.mp hzero, rfl⟩

theorem tells_create (id : String) (createdAt : Nat) (input : CreateInventoryItemInput) :
    Tells Grounded Credible op (Method.create id createdAt input) (fun _ _ => True)
      (fun _ _ => True) past := by
  refine tells_bind (tells_call (grounded_of_proper trivial (by simp)) fun existing => ?_)
  cases existing with
  | some _ => exact tells_throw trivial
  | none =>
    refine tells_bind (tells_call (grounded_of_proper trivial (by simp)) fun forProduct => ?_)
    cases forProduct with
    | some _ => exact tells_throw trivial
    | none =>
      refine tells_bind (tells_call (grounded_of_proper trivial (by simp)) fun item => ?_)
      exact tells_pure trivial

theorem tells_single (h : op.single = true) :
    Tells Grounded Credible op (Method.call (.transact op)) (fun _ _ => True) (fun _ _ => True)
      past :=
  tells_call (grounded_of_proper h (by simp)) fun _ => trivial

theorem tells_method (op : Operation) :
    Tells Grounded Credible op op.method (fun _ _ => True) (fun _ _ => True) past := by
  cases op with
  | message payload key => exact tells_single rfl
  | request r =>
    cases r with
    | create id createdAt body => exact tells_bind ((tells_create id createdAt body).mono
        (fun _ _ _ => tells_pure trivial) fun _ _ h => h)
    | remove id => exact tells_remove id
    | receive id body => exact tells_single rfl
    | acceptReturn id body => exact tells_single rfl
    | sell id body => exact tells_single rfl
    | adjust id body => exact tells_single rfl
    | reserve id body => exact tells_single rfl
    | release id body => exact tells_single rfl
    | fulfil id body => exact tells_single rfl
    | update id body actor => exact tells_single rfl
    | reserveMany body => exact tells_single rfl
    | releaseMany body => exact tells_single rfl

theorem meets_method (op : Operation) :
    Meets (recounting Grounded Credible) op.method.run (fun _ _ => True) (op, []) :=
  Foundations.Ensured.meets (tells_method op) (fun _ _ _ => trivial) fun _ _ _ => trivial

end Grounded

/-! ## Every step and every run -/

/-- What the operations under way may rely on: a thread about to delete a row has nothing reserved
of it in front of it. -/
structure Guarded (s : System) : Prop where
  told : Recounted Grounded Credible (fun _ _ => True) s
  sound : ItemsSound s.world
  unreserved : ∀ i, ∀ id ∈ s.removing i, Unreserved s.world id
  spared : ∀ e ∈ s.trace, Spares e

theorem guarded_start {db : Database} (hs : ItemsSound db) : Guarded (Pool.start db) where
  told := Foundations.recounted_start
  sound := hs
  unreserved i id hi := by cases hi
  spared e he := by cases he

section Step

variable {s s' : System} {l : Label} {i : Nat} {id : String}

theorem removing_eq_some : s.removing i = some id ↔ s.nextCommand i = some (.delete id) := by
  unfold System.removing
  split
  · rename_i id' hn
    rw [hn]
    exact ⟨fun h => by rw [Option.some.inj h], fun h => by cases h; rfl⟩
  · rename_i hn
    exact ⟨fun h => (nomatch h), fun h => absurd h (hn id)⟩

/-- A thread about to delete a row has just found it, with nothing reserved. -/
theorem found_of_removing (h : Recounted Grounded Credible (fun _ _ => True) s)
    (hi : s.removing i = some id) : ∃ item rest, item.reserved ≤ 0 ∧
      pastOf i s.trace = ⟨.findById id, .ok (some item)⟩ :: rest := by
  obtain ⟨op, next, ht⟩ := Foundations.nextCommand_eq_some (removing_eq_some.mp hi)
  exact (h.allowed ht).2 id rfl

variable {fate : Fate} {op : Operation} {c : Call} {next : c.Reply → _} {reply : c.Reply}

theorem performed (hc : Called machine s s' i fate op c next reply) :
    c.perform fate s.world = (reply, s'.world) := Option.some.inj hc.perform

/-- A thread that has just found a row with nothing reserved still has that row in front of it. -/
theorem unreserved_of_found (hc : Called machine s s' i fate op c next reply)
    (htold : Recounted Grounded Credible (fun _ _ => True) s') (hi : s'.removing i = some id) :
    Unreserved s'.world id := by
  obtain ⟨item, rest, hzero, hpast⟩ := found_of_removing htold hi
  rw [hc.pastOf_self] at hpast
  obtain ⟨hhead, -⟩ := List.cons.inj hpast
  cases hhead
  have hp := performed hc
  cases fate with
  | lost => cases congrArg Prod.fst hp
  | failed => cases congrArg Prod.fst hp
  | answered =>
    have hworld : s.world = s'.world := congrArg Prod.snd hp
    have hfind : s.world.findById id = some item := Except.ok.inj (congrArg Prod.fst hp)
    intro row hrow hid
    subst hid
    rw [← hworld] at hrow
    obtain rfl : row = item :=
      Option.some.inj ((Database.findById_of_mem hrow).symm.trans hfind)
    exact hzero

/-- A deletion finds nothing reserved. -/
theorem Guarded.spares (h : Guarded s) (hc : Called machine s s' i fate op c next reply) :
    Spares ⟨i, c, reply, s.world, s'.world⟩ := by
  intro item hitem hgone
  have hworld : s'.world = (c.perform fate s.world).2 := by rw [performed hc]
  rcases c.perform_cases fate s.world with hsame | ⟨-, hrun⟩
  · refine absurd (List.mem_map_of_mem ?_) hgone
    show item ∈ s'.world.inventoryItems
    rw [hworld, hsame]
    exact hitem
  · have hdelete : c = .delete item.id := by
      refine Call.run_deletes (h.told.allowed hc.thread).1 hitem ?_
      rw [← hrun, ← hworld]
      exact hgone
    subst hdelete
    have hle : item.reserved ≤ 0 :=
      h.unreserved i item.id (removing_eq_some.mpr hc.nextCommand) item hitem rfl
    have hge : 0 ≤ item.reserved := (h.sound item hitem).1
    omega

/-- Where nothing is reserved of an item about to be deleted, it stays so. -/
theorem Guarded.step (h : Guarded s) (hok : Pool.calls System.Undisturbed s l)
    (hs : s.step l = some s') : Guarded s' := by
  have htold : Recounted Grounded Credible (fun _ _ => True) s' :=
    h.told.step meets_method (fun _ _ _ _ _ _ _ => trivial) hs
  rcases Foundations.pool_step_cases hs with ⟨op, -, rfl⟩ |
    ⟨i, fate, op, c, next, reply, rfl, hc⟩ | ⟨move, -, -, -, -⟩
  · refine ⟨htold, h.sound, fun j id hj => ?_, h.spared⟩
    obtain ⟨item, rest, -, hpast⟩ := found_of_removing htold hj
    by_cases hlt : j < s.threads.length
    · refine h.unreserved j id ?_
      rw [Option.mem_def, removing_eq_some] at hj ⊢
      unfold Pool.nextCommand at hj ⊢
      rwa [List.getElem?_append_left hlt] at hj
    · have hnil := h.told.unborn j (Nat.le_of_not_lt hlt)
      exact nomatch hnil.symm.trans hpast
  · have hworld : s'.world = (c.perform fate s.world).2 := by rw [performed hc]
    refine ⟨htold, ?_, fun j id hj => ?_, fun e he => ?_⟩
    · rw [hworld]
      rcases c.perform_cases fate s.world with hsame | ⟨-, hrun⟩
      · rw [hsame]
        exact h.sound
      · rw [hrun]
        exact Call.run_sound h.sound
    · by_cases hji : j = i
      · subst hji
        exact unreserved_of_found hc htold hj
      · have hj' : s.removing j = some id := by
          rw [Option.mem_def, removing_eq_some] at hj
          rw [removing_eq_some]
          unfold Pool.nextCommand at hj ⊢
          rwa [hc.getElem?, if_neg hji] at hj
        have hfree := h.unreserved j id hj'
        rw [hworld]
        rcases c.perform_cases fate s.world with hsame | ⟨heffect, hrun⟩
        · rw [hsame]
          exact hfree
        · rw [hrun]
          refine Call.run_unreserved (h.told.allowed hc.thread).1 ?_ hfree
          rintro op' rfl
          obtain ⟨t, n, hthread⟩ := Foundations.nextCommand_eq_some (removing_eq_some.mp hj')
          exact hok _ hc.nextCommand heffect j (List.getElem?_eq_some_iff.mp hthread).1 id hj'
    · rw [hc.trace] at he
      rcases List.mem_cons.mp he with rfl | he
      · exact h.spares hc
      · exact h.spared e he
  · exact nomatch move

end Step

/-- Where no item is reserved while a removal stands between its check and its deletion, no row is
deleted but with nothing reserved. -/
theorem removed_unreserved {db : Database} (hs : ItemsSound db) {ls : List Label} {s : System}
    (hok : AllSteps System.step (Pool.calls System.Undisturbed) (Pool.start db) ls)
    (hrun : runs System.step (Pool.start db) ls = some s) :
    ∀ e ∈ s.trace, ∀ item ∈ e.before.inventoryItems,
      item.id ∉ e.after.inventoryItems.map (·.id) → item.reserved = 0 :=
  (Foundations.invariant_of_allSteps (fun _ _ _ hok hs h => Guarded.step h hok hs) hok hrun
    (guarded_start hs)).spared

theorem two_positive : (0 : Int) < 2 := by decide

theorem two_bounded : (2 : Int) ≤ 1000000000 := by decide

theorem five_fit : (⟨5, 0⟩ : StockLevels).Fits := by decide

def twoUnits : ReserveStockInput where
  quantity := ⟨2, two_positive, two_bounded⟩

/-- Lamps and chairs, with none reserved. -/
def fullWarehouse : Database := warehouse ⟨5, 0⟩ ⟨5, 0⟩ five_fit five_fit

/-- While the lamps are being removed, two units of an item are reserved. -/
def removing (id : String) : List Label :=
  [.spawn (.request (.remove "lamp")), .spawn (.request (.reserve id twoUnits)),
    .call 0 .answered, .call 1 .answered, .call 0 .answered]

theorem removed_unreserved_lamps :
    ∃ s, runs System.step (Pool.start fullWarehouse) (removing "chair") = some s ∧
      s.world.inventoryItems.map (fun item => (item.id, item.reserved)) = [("chair", 2)] ∧
      ∀ e ∈ s.trace, ∀ item ∈ e.before.inventoryItems,
        item.id ∉ e.after.inventoryItems.map (·.id) → item.reserved = 0 := by
  have hrun : (runs System.step (Pool.start fullWarehouse) (removing "chair")).any (fun s =>
      s.world.inventoryItems.map (fun item => (item.id, item.reserved)) = [("chair", 2)]) =
      true := by
    decide +kernel
  obtain ⟨s, hs, hrows⟩ := (Option.any_eq_true _ _).mp hrun
  exact ⟨s, hs, of_decide_eq_true hrows,
    removed_unreserved (by decide +kernel) (by decide +kernel) hs⟩

/-- Two lamps are reserved between the check and the deletion, and go with the row. -/
theorem reserved_item_removed :
    ItemsSound fullWarehouse ∧
    ∃ s, runs System.step (Pool.start fullWarehouse) (removing "lamp") = some s ∧
      ∃ e ∈ s.trace, ∃ item ∈ e.before.inventoryItems,
        item.id ∉ e.after.inventoryItems.map (·.id) ∧ item.reserved = 2 := by
  have hrun : (runs System.step (Pool.start fullWarehouse) (removing "lamp")).any (fun s =>
      ∃ e ∈ s.trace, ∃ item ∈ e.before.inventoryItems,
        item.id ∉ e.after.inventoryItems.map (·.id) ∧ item.reserved = 2) = true := by
    decide +kernel
  obtain ⟨s, hs, hdeleted⟩ := (Option.any_eq_true _ _).mp hrun
  exact ⟨by decide +kernel, s, hs, of_decide_eq_true hdeleted⟩

end PracticalMicroservice.Inventory
