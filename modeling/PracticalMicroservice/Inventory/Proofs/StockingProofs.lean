import PracticalMicroservice.Inventory.Requests
import PracticalMicroservice.Inventory.Proofs.RemovalProofs

/-!
# What leaves an item without units

An operation that moves stock leaves every row its keys. The levels it gives a row cover what is
reserved, so a row without units has none afterwards unless units were added to it.
-/

namespace PracticalMicroservice.Inventory

/-- Every row keeps its keys, and one without units gets some only where they are delivered. -/
def Restocked (delivered : String → Prop) (db db' : Database) : Prop :=
  ∃ f : InventoryItem → StockLevels,
    db'.inventoryItems = db.inventoryItems.map (fun row => row.setLevels (f row)) ∧
      ∀ row ∈ db.inventoryItems, row.levels.Empty → (f row).Empty ∨ delivered row.id

section Restocked

variable {delivered : String → Prop} {db db' : Database} {id : String}

theorem Restocked.refl (delivered : String → Prop) (db : Database) : Restocked delivered db db :=
  ⟨fun row => row.levels, (List.map_id' _).symm, fun _ _ h => .inl h⟩

theorem Restocked.map {α β : Type} {action : Action α} (h : Restocked delivered db (action db).2)
    (f : α → β) :
    Restocked delivered db ((do let x ← action; return f x : Action β) db).2 := by
  rw [Action.map_apply]
  exact h

/-- Levels that cover what is reserved, of no more units than none, are empty. -/
theorem empty_of_sound {levels next : StockLevels} (h : levels.Empty) (hs : next.Sound)
    (hle : next.quantity ≤ levels.quantity) : next.Empty := by
  obtain ⟨hquantity, -⟩ := h
  obtain ⟨hreserved, hcovered⟩ := hs
  constructor
  · omega
  · omega

theorem applyChange_restocked {type : StockMovementType} {quantity : Int}
    {reason reference : Option String} {plan : StockLevels → Except AppError StockLevels}
    (hplan : ∀ item ∈ db.findById id, ∀ next : StockLevels, plan item.levels = .ok next →
      next.quantity ≤ item.quantity ∨ delivered id) :
    Restocked delivered db (Service.applyChange id type quantity reason reference plan db).2 := by
  rcases applyChange_items id type quantity reason reference plan db with hrows |
    ⟨item, next, hf, hp, hs, hrows⟩
  · exact ⟨fun row => row.levels, hrows.trans (List.map_id' _).symm, fun _ _ h => .inl h⟩
  · refine ⟨fun row => if row.id = id then next else row.levels, ?_, fun row hrow he => ?_⟩
    · rw [hrows]
      refine List.map_congr_left fun row _ => ?_
      dsimp only
      by_cases hid : row.id = id
      · rw [if_pos hid, if_pos hid]
      · rw [if_neg hid, if_neg hid]
        rfl
    · dsimp only
      by_cases hid : row.id = id
      · subst hid
        obtain rfl : item = row := Option.some.inj (hf.symm.trans (Database.findById_of_mem hrow))
        rw [if_pos rfl]
        exact (hplan item hf next hp).imp_left (empty_of_sound he hs)
      · rw [if_neg hid]
        exact .inl he

/-- A batch leaves the quantities alone, and what it leaves reserved is covered. -/
theorem bulk_restocked (t : Transition) (input : BulkStockInput) (key : Option IdempotencyKey) :
    Restocked delivered db (t.bulk input key db).2 := by
  obtain ⟨views, db', hrun, heff, hacc, -⟩ | ⟨_, _, hrun, -⟩ | ⟨k, -, -, hrun⟩ :=
    bulk_cases t input key db
  · rw [hrun]
    refine ⟨fun row => t.next row.levels (lineQuantity input.items row.productId), heff.items,
      fun row hrow he => .inl ?_⟩
    dsimp only
    by_cases hl : row.productId ∈ input.items.map (·.productId)
    · obtain ⟨line, hline, hid⟩ := List.mem_map.mp hl
      obtain ⟨item, hitem, hadmits⟩ := hacc line hline
      obtain rfl : item = row := by
        have hrow' := Database.findByProductId_of_mem hrow
        rw [← hid] at hrow'
        exact Option.some.inj (hitem.symm.trans hrow')
      rw [← hid, lineQuantity_of_mem input.distinct hline]
      exact empty_of_sound he hadmits.2 (le_refl _)
    · rw [lineQuantity_of_not_mem hl]
      have hsame : t.next row.levels 0 = row.levels := by
        unfold Transition.next
        rw [Int.mul_zero, Int.add_zero]
      rw [hsame]
      exact he
  · rw [hrun]
    exact .refl _ db
  · rw [hrun]
    exact .refl _ db

end Restocked

/-! ## The planners that add no units -/

section Plans

variable {levels next : StockLevels} {quantity : Int}

theorem planReservation_quantity (h : planReservation levels quantity = .ok next) :
    next.quantity = levels.quantity := by
  unfold planReservation at h
  dsimp only at h
  split at h
  · cases h
  · cases h
    rfl

theorem planRelease_quantity (h : planRelease levels quantity = .ok next) :
    next.quantity = levels.quantity := by
  unfold planRelease at h
  split at h
  · cases h
  · cases h
    rfl

theorem planFulfilment_quantity (h : planFulfilment levels quantity = .ok next) :
    next.quantity = levels.quantity - quantity := by
  unfold planFulfilment at h
  split at h
  · cases h
  · cases h
    rfl

theorem planSale_quantity (h : planSale levels quantity = .ok next) :
    next.quantity = levels.quantity - quantity := by
  unfold planSale at h
  dsimp only at h
  split at h
  · cases h
  · cases h
    rfl

theorem planAdjustment_quantity (h : planAdjustment levels quantity = .ok next) :
    next.quantity = levels.quantity + quantity := by
  unfold planAdjustment at h
  dsimp only at h
  split at h
  · cases h
  · cases h
    rfl

end Plans

/-- An operation that moves stock gives units to a row that has none only by delivering them. -/
theorem Operation.restocked (op : Operation) (h : op.movesStock = true) (db : Database) :
    Restocked (fun id => op.Delivers db id) db (op.run db).2 := by
  have hone : ∀ id type quantity reason reference plan,
      (∀ item ∈ db.findById id, ∀ next : StockLevels, plan item.levels = .ok next →
        next.quantity ≤ item.quantity ∨ op.Delivers db id) →
      Restocked (fun id => op.Delivers db id) db
        (Service.applyChange id type quantity reason reference plan db).2 :=
    fun _ _ _ _ _ _ hplan => applyChange_restocked hplan
  have hfound : ∀ {id : String} {item : InventoryItem}, item ∈ db.findById id →
      (db.findById id).isSome = true := fun hf => Option.isSome_of_mem hf
  cases op with
  | message payload key => exact (bulk_restocked .release payload (some key)).map _
  | request r =>
    cases r with
    | create id createdAt body => cases h
    | update id body actor => cases h
    | remove id => cases h
    | reserveMany body => exact (bulk_restocked .reserve body none).map _
    | releaseMany body => exact (bulk_restocked .release body none).map _
    | receive id body =>
      refine (hone id _ _ _ _ _ fun item hf next hp => .inr ?_).map _
      exact ⟨rfl, hfound hf⟩
    | acceptReturn id body =>
      refine (hone id _ _ _ _ _ fun item hf next hp => .inr ?_).map _
      exact ⟨rfl, hfound hf⟩
    | adjust id body =>
      refine (hone id _ _ _ _ _ fun item hf next hp => ?_).map _
      have hnext : next.quantity = item.quantity + body.delta.value := planAdjustment_quantity hp
      rcases Int.lt_or_le 0 body.delta.value with hup | hdown
      · exact .inr ⟨rfl, hfound hf, hup⟩
      · exact .inl (by omega)
    | reserve id body =>
      refine (hone id _ _ _ _ _ fun item hf next hp => .inl ?_).map _
      exact (planReservation_quantity hp).le
    | release id body =>
      refine (hone id _ _ _ _ _ fun item hf next hp => .inl ?_).map _
      exact (planRelease_quantity hp).le
    | fulfil id body =>
      refine (hone id _ _ _ _ _ fun item hf next hp => .inl ?_).map _
      have hnext : next.quantity = item.quantity - body.quantity.value := planFulfilment_quantity hp
      have hpositive := body.quantity.positive
      omega
    | sell id body =>
      refine (hone id _ _ _ _ _ fun item hf next hp => .inl ?_).map _
      have hnext : next.quantity = item.quantity - body.quantity.value := planSale_quantity hp
      have hpositive := body.quantity.positive
      omega

end PracticalMicroservice.Inventory
