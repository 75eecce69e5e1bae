import PracticalMicroservice.Products.Sagas
import PracticalMicroservice.Products.Proofs.StoreProofs

/-!
# What an update leaves of a SKU

The calls of an update in turn. Where the SKU does not change, nothing can come between the stores;
where it does, they agree when the change comes to nothing, and the view is the one taken before it.
-/

namespace PracticalMicroservice.Products

open Foundations (Program)
open Inventory (Fate InventoryItem InventoryItemView toInventoryItemView uuidText)

/-! ## Methods, call by call -/

section Exec

variable {α β : Type} {fates : Nat → Fate} {s : Nat × World}

theorem exec_pure (a : α) : (pure a : Method α).exec fates s = (.ok a, s) := rfl

theorem exec_throw (e : Thrown) : (throw e : Method α).exec fates s = (.error e, s) := rfl

theorem exec_call {c : Call} {n : Nat} {w w' : World} {reply : c.Reply}
    (h : c.perform (fates n) w = (reply, w')) :
    (Method.call c).exec fates (n, w) = (reply, (n + 1, w')) := by
  have hdef : (Method.call c).exec fates (n, w) = deal fates c (n, w) := rfl
  rw [hdef]
  unfold deal
  rw [h]

theorem exec_bind_ok {p : Method β} {f : β → Method α} {b : β} {s' : Nat × World}
    (h : p.exec fates s = (.ok b, s')) : (p >>= f).exec fates s = (f b).exec fates s' := by
  have hdef : (p >>= f).exec fates s =
      (p.run >>= ExceptT.bindCont f).exec (deal fates) s := rfl
  rw [hdef, Program.exec_bind]
  unfold Method.exec at h
  rw [h]
  rfl

theorem exec_bind_error {p : Method β} {f : β → Method α} {e : Thrown} {s' : Nat × World}
    (h : p.exec fates s = (.error e, s')) : (p >>= f).exec fates s = (.error e, s') := by
  have hdef : (p >>= f).exec fates s =
      (p.run >>= ExceptT.bindCont f).exec (deal fates) s := rfl
  rw [hdef, Program.exec_bind]
  unfold Method.exec at h
  rw [h]
  rfl

theorem exec_tryCatch_ok {p : Method α} {handler : Thrown → Method α} {a : α} {s' : Nat × World}
    (h : p.exec fates s = (.ok a, s')) :
    (tryCatch p handler).exec fates s = (.ok a, s') := by
  show Program.exec (deal fates) (p.run >>= _) s = _
  rw [Program.exec_bind]
  unfold Method.exec at h
  rw [h]
  rfl

theorem exec_tryCatch_error {p : Method α} {handler : Thrown → Method α} {e : Thrown}
    {s' : Nat × World} (h : p.exec fates s = (.error e, s')) :
    (tryCatch p handler).exec fates s = (handler e).exec fates s' := by
  show Program.exec (deal fates) (p.run >>= _) s = _
  rw [Program.exec_bind]
  unfold Method.exec at h
  rw [h]
  rfl

end Exec

/-! ## The reads -/

section Reads

variable {fates : Nat → Fate} {n : Nat} {w : World} {id : String} {product : Product}
  {item : InventoryItem}

theorem exec_getProduct (hp : w.products.findById id = some product) (hf : fates n = .answered) :
    (Method.getProduct id).exec fates (n, w) = (.ok product, (n + 1, w)) := by
  have hperform : (Call.repository (.findById id)).perform (fates n) w = (.ok (some product), w) := by
    rw [hf, ← hp]
    rfl
  unfold Method.getProduct
  rw [exec_bind_ok (exec_call hperform), exec_pure]

/-- A statement that goes unanswered throws, whether or not it has changed the table. -/
theorem exec_unanswered {c : RepositoryCall} (hf : fates n ≠ .answered) :
    ∃ e w', (Method.call (.repository c)).exec fates (n, w) = (.error e, (n + 1, w')) ∧
      (w' = w ∨ fates n = .lost ∧ w' = (c.run w).2) := by
  cases hfate : fates n with
  | answered => exact absurd hfate hf
  | lost =>
    refine ⟨.database .unavailable, (c.run w).2, exec_call ?_, .inr ⟨rfl, rfl⟩⟩
    rw [hfate]
    rfl
  | failed =>
    refine ⟨.database .unavailable, w, exec_call ?_, .inl rfl⟩
    rw [hfate]
    rfl

theorem exec_getProduct_unanswered (id : String) (hf : fates n ≠ .answered) :
    ∃ e, (Method.getProduct id).exec fates (n, w) = (.error e, (n + 1, w)) := by
  obtain ⟨e, w', hcall, hw⟩ := exec_unanswered (c := .findById id) (w := w) hf
  have hsame : w' = w := by
    rcases hw with hw | ⟨-, hw⟩
    · exact hw
    · exact hw
  rw [hsame] at hcall
  exact ⟨e, exec_bind_error hcall⟩

/-- The lookup of a record that is there. -/
theorem exec_readStock (hi : w.inventory.findByProductId product.id = some item)
    (hu : uuidText product.id = product.id) (hf : fates n = .answered) :
    (Method.readStock product).exec fates (n, w) =
      (.ok (some (toInventoryItemView item)), (n + 1, w)) := by
  have hperform : (Call.inventory (.findByProductId product.id)).perform (fates n) w =
      (.ok (some (toInventoryItemView item)), w) := by
    rw [hf, perform_findByProductId, hu, hi]
    rfl
  have hlook : (Method.lookUpStock product).exec fates (n, w) =
      (.ok (some (toInventoryItemView item), true), (n + 1, w)) := by
    unfold Method.lookUpStock
    refine exec_tryCatch_ok ?_
    rw [exec_bind_ok (exec_call hperform), exec_pure]
  unfold Method.readStock
  rw [exec_bind_ok hlook, exec_pure]

/-- A lookup that fails finds nothing. -/
theorem exec_readStock_unanswered (hf : fates n ≠ .answered) :
    (Method.readStock product).exec fates (n, w) = (.ok none, (n + 1, w)) := by
  have hperform : (Call.inventory (.findByProductId product.id)).perform (fates n) w =
      (.error HttpInventoryClient.unreachable, w) := by
    cases hfate : fates n with
    | answered => exact absurd hfate hf
    | lost => rfl
    | failed => rfl
  have hlook : (Method.lookUpStock product).exec fates (n, w) = (.ok (none, false), (n + 1, w)) := by
    unfold Method.lookUpStock
    rw [exec_tryCatch_error (exec_bind_error (exec_call hperform)), exec_pure]
  unfold Method.readStock
  rw [exec_bind_ok hlook, exec_pure]

end Reads

/-! ## The item is renamed -/

/-- The world with an item renamed. -/
structure Renamed (w w' : World) (item : InventoryItem) (sku : String) : Prop where
  products : w'.products = w.products
  items : w'.inventory.inventoryItems = w.inventory.patched item.id (skuPatch sku)

section Rename

variable {fates : Nat → Fate} {n : Nat} {w w' : World} {id sku : String} {item : InventoryItem}

theorem Renamed.mem (h : Renamed w w' item sku) (hmem : item ∈ w.inventory.inventoryItems) :
    { item with sku } ∈ w'.inventory.inventoryItems := by
  rw [h.items]
  exact mem_patched hmem

/-- The other items stay. -/
theorem Renamed.other (h : Renamed w w' item sku) (hmem : item ∈ w.inventory.inventoryItems)
    {row : InventoryItem} (hrow : row ∈ w'.inventory.inventoryItems)
    (hne : row ≠ { item with sku }) : row ∈ w.inventory.inventoryItems := by
  rw [h.items] at hrow
  obtain ⟨old, hold, rfl⟩ := List.mem_map.mp hrow
  by_cases hid : old.id = item.id
  · rw [if_pos hid, eq_of_itemId hold hmem hid, applyPatch_skuPatch] at hne
    exact absurd rfl hne
  · rw [if_neg hid]
    exact hold

/-- What becomes of the renaming of an item to a SKU no other item has. -/
theorem rename_perform (hmem : item ∈ w.inventory.inventoryItems) (hne : sku ≠ item.sku)
    (hfree : ∀ row ∈ w.inventory.inventoryItems, row ≠ item → row.sku ≠ sku) :
    ∃ w', Renamed w w' item sku ∧
      (Call.inventory (.update item.id (skuPatch sku))).perform .answered w =
        (.ok (toInventoryItemView { item with sku }), w') ∧
      (Call.inventory (.update item.id (skuPatch sku))).perform .lost w =
        (.error HttpInventoryClient.unreachable, w') := by
  obtain ⟨db', hrun, hitems⟩ := rename_accepted hmem hne hfree
  refine ⟨{ w with inventory := db' }, ⟨rfl, hitems⟩, ?_, ?_⟩
  · show w.respond (HttpInventoryClient.request .answered none _ w.inventory) = _
    rw [request_answered hrun]
    rfl
  · show w.respond (HttpInventoryClient.request .lost none _ w.inventory) = _
    rw [request_lost, hrun]
    rfl

/-- The renaming of an item to a SKU another item has throws and changes nothing. -/
theorem rename_perform_refused (hmem : item ∈ w.inventory.inventoryItems) (hne : sku ≠ item.sku)
    {other : InventoryItem} (hother : other ∈ w.inventory.inventoryItems) (hsku : other.sku = sku)
    (fate : Fate) :
    ∃ e, (Call.inventory (.update item.id (skuPatch sku))).perform fate w = (.error e, w) := by
  obtain ⟨thrown, hrun⟩ := rename_refused hmem hne hother hsku
  obtain ⟨e, he⟩ := request_refused fate hrun
  refine ⟨e, ?_⟩
  show w.respond (HttpInventoryClient.request fate none _ w.inventory) = _
  rw [he]
  rfl

/-- The check of the new SKU, when it goes unanswered. -/
theorem exec_checkSku_unanswered (id sku : String) (hf : fates n ≠ .answered) :
    ∃ e, (Method.checkSku id sku).exec fates (n, w) = (.error e, (n + 1, w)) := by
  obtain ⟨e, w', hcall, hw⟩ := exec_unanswered (c := .findBySku sku) (w := w) hf
  have hsame : w' = w := by
    rcases hw with hw | ⟨-, hw⟩
    · exact hw
    · exact hw
  rw [hsame] at hcall
  exact ⟨e, exec_bind_error hcall⟩

/-- The check finds another product that has the SKU. -/
theorem exec_checkSku_conflict (hf : fates n = .answered) {other : Product}
    (hother : w.products.findBySku sku = some other) (hid : other.id ≠ id) :
    ∃ e, (Method.checkSku id sku).exec fates (n, w) = (.error e, (n + 1, w)) := by
  have hperform : (Call.repository (.findBySku sku)).perform (fates n) w = (.ok (some other), w) := by
    rw [hf, ← hother]
    rfl
  refine ⟨.app (.ConflictError s!"A product with SKU '{sku}' already exists"), ?_⟩
  unfold Method.checkSku
  rw [exec_bind_ok (exec_call hperform)]
  dsimp only
  rw [if_pos hid, exec_throw]

theorem exec_checkSku_free (hf : fates n = .answered)
    (hfree : w.products.findBySku sku = none) :
    (Method.checkSku id sku).exec fates (n, w) = (.ok (), (n + 1, w)) := by
  have hperform : (Call.repository (.findBySku sku)).perform (fates n) w = (.ok none, w) := by
    rw [hf, ← hfree]
    rfl
  unfold Method.checkSku
  rw [exec_bind_ok (exec_call hperform)]
  rfl

theorem exec_renameItem_none : (Method.renameItem none sku).exec fates (n, w) = (.ok (), (n, w)) :=
  rfl

theorem exec_renameItem (view : InventoryItemView) {reply : Except Thrown InventoryItemView}
    (hperform : (Call.inventory (.update view.id (skuPatch sku))).perform (fates n) w =
      (reply, w')) :
    (Method.renameItem (some view) sku).exec fates (n, w) =
      (reply.map fun _ => (), (n + 1, w')) := by
  unfold Method.renameItem
  cases reply with
  | ok renamed =>
    rw [exec_bind_ok (exec_call hperform)]
    rfl
  | error e =>
    rw [exec_bind_error (exec_call hperform)]
    rfl

end Rename

/-! ## The product is written -/

/-- The world with a product updated. -/
structure Written (w w' : World) (id : String) (input : UpdateProductInput) : Prop where
  rows : w'.products.rows = w.products.updated id input
  inventory : w'.inventory = w.inventory

section Write

variable {fates : Nat → Fate} {n : Nat} {w w' w'' : World} {id : String} {product : Product}
  {input : UpdateProductInput}

theorem write_perform (hp : w.products.findById id = some product)
    (hfree : ∀ row ∈ w.products.rows, row ≠ product →
      row.sku ≠ (product.applyUpdate input).sku) :
    ∃ w', Written w w' id input ∧
      (Call.repository (.update id input)).perform .answered w =
        (.ok (product.applyUpdate input), w') ∧
      (Call.repository (.update id input)).perform .lost w =
        (.error (.database .unavailable), w') := by
  obtain ⟨db', hrun, hrows⟩ := Repository.update_accepted hp hfree
  have hstatement : (RepositoryCall.update id input).run w =
      (.ok (product.applyUpdate input), { w with products := db' }) := by
    show w.statement (Repository.update id input w.products) = _
    rw [hrun]
    rfl
  refine ⟨{ w with products := db' }, ⟨hrows, rfl⟩, hstatement, ?_⟩
  show (Except.error (Thrown.database .unavailable), ((RepositoryCall.update id input).run w).2) = _
  rw [hstatement]

/-- The product is written, and the item was found before. -/
theorem exec_writeProduct_item {view : InventoryItemView} {updated : Product}
    (hperform : (Call.repository (.update id input)).perform (fates n) w = (.ok updated, w')) :
    (Method.writeProduct id input product (some view)).exec fates (n, w) =
      (.ok (toProductView updated (some view)), (n + 1, w')) := by
  unfold Method.writeProduct
  refine exec_tryCatch_ok ?_
  rw [exec_bind_ok (exec_call hperform), exec_pure]

/-- The product is written, and the record is read for the view. -/
theorem exec_writeProduct_bare {updated : Product} {item : Option InventoryItemView}
    (hperform : (Call.repository (.update id input)).perform (fates n) w = (.ok updated, w'))
    (hread : (Method.readStock updated).exec fates (n + 1, w') = (.ok item, (n + 2, w'))) :
    (Method.writeProduct id input product none).exec fates (n, w) =
      (.ok (toProductView updated item), (n + 2, w')) := by
  unfold Method.writeProduct
  refine exec_tryCatch_ok ?_
  rw [exec_bind_ok (exec_call hperform)]
  show (Method.readStock updated >>= fun item => pure (toProductView updated item)).exec fates _ = _
  rw [exec_bind_ok hread, exec_pure]

/-- Writing the product fails, and there is nothing to take back. -/
theorem exec_writeProduct_bare_error {e : Thrown}
    (hperform : (Call.repository (.update id input)).perform (fates n) w = (.error e, w')) :
    (Method.writeProduct id input product none).exec fates (n, w) = (.error e, (n + 1, w')) := by
  unfold Method.writeProduct
  rw [exec_tryCatch_error (exec_bind_error (exec_call hperform))]
  rfl

/-- Writing the product fails, and the item gets its SKU back. -/
theorem exec_writeProduct_item_error (view : InventoryItemView) {e : Thrown}
    (hperform : (Call.repository (.update id input)).perform (fates n) w = (.error e, w'))
    {reply : Except Thrown InventoryItemView}
    (hback : (Call.inventory (.update view.id (skuPatch product.sku))).perform (fates (n + 1)) w' =
      (reply, w'')) :
    (Method.writeProduct id input product (some view)).exec fates (n, w) =
      (.error e, (n + 2, w'')) := by
  have hcompensate : (Method.compensate (Method.renameItem (some view) product.sku)).exec fates
      (n + 1, w') = (.ok (), (n + 2, w'')) := by
    have hrename := exec_renameItem view hback
    unfold Method.compensate
    cases reply with
    | ok renamed => exact exec_tryCatch_ok hrename
    | error e' => exact exec_tryCatch_error hrename
  unfold Method.writeProduct
  rw [exec_tryCatch_error (exec_bind_error (exec_call hperform))]
  show (Method.compensate (Method.renameItem (some view) product.sku) >>= fun _ => throw e).exec
    fates (n + 1, w') = _
  rw [exec_bind_ok hcompensate, exec_throw]

end Write

/-! ## What the stores carry -/

section Carry

variable {w w' : World} {product : Product} {item : InventoryItem} {sku : String}

theorem not_carry_of_product {row : Product} (hrow : row ∈ w.products.rows)
    (hid : row.id = product.id) (hsku : row.sku ≠ sku) : ¬ Carry w product item sku := by
  rintro ⟨⟨row', hrow', hid', hsku'⟩, -⟩
  obtain rfl := w.products.eq_of_id hrow hrow' (hid.trans hid'.symm)
  exact hsku hsku'

theorem not_carry_of_item {row : InventoryItem} (hrow : row ∈ w.inventory.inventoryItems)
    (hid : row.id = item.id) (hsku : row.sku ≠ sku) : ¬ Carry w product item sku := by
  rintro ⟨-, row', hrow', hid', hsku'⟩
  obtain rfl := eq_of_itemId hrow hrow' (hid.trans hid'.symm)
  exact hsku hsku'

/-- The product of a written world. -/
theorem Written.mem {id : String} {input : UpdateProductInput} (h : Written w w' id input)
    (hp : w.products.findById id = some product) :
    product.applyUpdate input ∈ w'.products.rows := by
  rw [h.rows]
  exact Database.mem_updated hp

end Carry

/-! ## How an update ends -/

/-- A new SKU is another than the product's, and the one an update writes. -/
theorem newSku_some {input : UpdateProductInput} {product : Product} {sku : String}
    (h : Method.newSku input product = some sku) :
    sku ≠ product.sku ∧ (product.applyUpdate input).sku = sku := by
  obtain ⟨hsome, htrue⟩ := Option.filter_eq_some_iff.mp h
  simp only [Bool.and_eq_true, decide_eq_true_eq] at htrue
  refine ⟨htrue.2, ?_⟩
  unfold Product.applyUpdate
  dsimp only
  rw [hsome]
  rfl

/-- A SKU the schema lets through is not empty. -/
theorem Sku.text_ne_empty (sku : Sku) : sku.text ≠ "" := by
  intro he
  have hlong := sku.long
  rw [he] at hlong
  simp at hlong

/-- Without a new SKU an update leaves the one there is. -/
theorem newSku_none {input : UpdateProductInput} {product : Product}
    (h : Method.newSku input product = none) : (product.applyUpdate input).sku = product.sku := by
  unfold Product.applyUpdate
  dsimp only
  cases hsku : input.sku with
  | none => rfl
  | some sku =>
    unfold Method.newSku at h
    rw [hsku, Option.map_some, Option.filter_eq_none_iff] at h
    have hne := sku.text_ne_empty
    have hsame := h sku.text rfl
    simp only [Bool.and_eq_true, decide_eq_true_eq, not_and, not_not] at hsame
    exact hsame hne

/-- How an update ends, in the number of calls it made and the world it leaves. -/
inductive Outcome (fates : Nat → Fate) (w : World) (input : UpdateProductInput) (product : Product)
    (item : InventoryItem) : Except Thrown ProductView × (Nat × World) → Prop
  /-- The SKU is not changed. -/
  | kept {r : Except Thrown ProductView} {n : Nat} {w' : World}
    (hsku : Method.newSku input product = none) (hcarry : Carry w' product item product.sku)
    (hview : ∀ view, r = .ok view → view.Shows product.sku) :
    Outcome fates w input product item (r, (n, w'))
  | calledOff {e : Thrown} {sku : String} {n : Nat} {w' : World}
    (hsku : Method.newSku input product = some sku) (hoff : CalledOff fates w sku)
    (hcarry : Carry w' product item product.sku) :
    Outcome fates w input product item (.error e, (n, w'))
  | through {view : ProductView} {sku : String} {n : Nat} {w' : World}
    (hsku : Method.newSku input product = some sku) (hon : ¬ CalledOff fates w sku)
    (hall : WentThrough fates) (hcarry : Carry w' product item sku) (hview : view.sku = sku)
    (hstale : ∃ stock ∈ view.stock, stock.sku ≠ sku) :
    Outcome fates w input product item (.ok view, (n, w'))
  /-- The update returns, with the product renamed alone. -/
  | half {view : ProductView} {sku : String} {n : Nat} {w' : World}
    (hsku : Method.newSku input product = some sku) (hon : ¬ CalledOff fates w sku)
    (hnot : ¬ WentThrough fates) (hcarry : ¬ Carry w' product item sku) :
    Outcome fates w input product item (.ok view, (n, w'))
  /-- The update throws, with one of the two renamed. -/
  | torn {e : Thrown} {sku : String} {n : Nat} {w' : World}
    (hsku : Method.newSku input product = some sku) (hon : ¬ CalledOff fates w sku)
    (hnot : ¬ WentThrough fates) (hcarry : ¬ Carry w' product item product.sku) :
    Outcome fates w input product item (.error e, (n, w'))

section Cases

variable {fates : Nat → Fate} {w : World} {id : String} {product : Product} {item : InventoryItem}
  {input : UpdateProductInput} {sku : String}

theorem Paired.uuid (h : Paired w id product item) : uuidText product.id = product.id :=
  w.products.uuids product (Database.findById_some h.found).1

theorem Paired.mem (h : Paired w id product item) : item ∈ w.inventory.inventoryItems :=
  (Inventory.Database.findByProductId_mem h.stocked).1

theorem Paired.carry (h : Paired w id product item) : Carry w product item product.sku :=
  ⟨⟨product, (Database.findById_some h.found).1, rfl, rfl⟩, ⟨item, h.mem, rfl, h.sameSku⟩⟩

/-- The product can be written, unless another has the SKU. -/
theorem Paired.writable (h : Paired w id product item)
    (hfree : ∀ row ∈ w.products.rows, row.sku ≠ (product.applyUpdate input).sku ∨ row = product) :
    ∃ w', Written w w' id input ∧
      (Call.repository (.update id input)).perform .answered w =
        (.ok (product.applyUpdate input), w') ∧
      (Call.repository (.update id input)).perform .lost w =
        (.error (.database .unavailable), w') :=
  write_perform h.found fun row hrow hne => (hfree row hrow).resolve_right hne

/-- The record still has the old SKU when the product alone is written. -/
theorem Paired.written (h : Paired w id product item) {w' : World} (hw : Written w w' id input) :
    item ∈ w'.inventory.inventoryItems ∧ product.applyUpdate input ∈ w'.products.rows := by
  refine ⟨?_, hw.mem h.found⟩
  rw [hw.inventory]
  exact h.mem

/-- The update does not get past reading the product. -/
theorem outcome_unread (h : Paired w id product item) (hf : fates 0 ≠ .answered) :
    Outcome fates w input product item ((Method.update id input).exec fates (0, w)) := by
  obtain ⟨e, hread⟩ := exec_getProduct_unanswered (w := w) id hf
  have hrun : (Method.update id input).exec fates (0, w) = (.error e, (1, w)) :=
    exec_bind_error hread
  rw [hrun]
  cases hsku : Method.newSku input product with
  | none => exact .kept hsku h.carry fun view he => nomatch he
  | some sku => exact .calledOff hsku (.inl hf) h.carry

/-- The rest of an update, once the product has been read. -/
theorem exec_update (h : Paired w id product item) (hf : fates 0 = .answered) :
    (Method.update id input).exec fates (0, w) =
      (Method.mirrorSku id input product >>= Method.writeProduct id input product).exec fates
        (1, w) := by
  have hread := exec_getProduct h.found hf
  have hrun : (Method.update id input).exec fates (0, w) = _ := exec_bind_ok hread
  rw [hrun]

/-- The SKU is not changed. -/
theorem outcome_kept (h : Paired w id product item) (hf : fates 0 = .answered)
    (hsku : Method.newSku input product = none) :
    Outcome fates w input product item ((Method.update id input).exec fates (0, w)) := by
  have hmirror : (Method.mirrorSku id input product).exec fates (1, w) = (.ok none, (1, w)) := by
    unfold Method.mirrorSku
    rw [hsku]
    rfl
  rw [exec_update h hf, exec_bind_ok hmirror]
  have hold := newSku_none hsku
  have hfree : ∀ row ∈ w.products.rows,
      row.sku ≠ (product.applyUpdate input).sku ∨ row = product := by
    intro row hrow
    rw [hold]
    by_cases he : row.sku = product.sku
    · exact .inr (w.products.eq_of_sku hrow (Database.findById_some h.found).1 he)
    · exact .inl he
  obtain ⟨w', hw, hanswered, hlost⟩ := h.writable hfree
  obtain ⟨hitem, hproduct⟩ := h.written hw
  have hcarry : Carry w' product item product.sku :=
    ⟨⟨_, hproduct, rfl, hold⟩, ⟨item, hitem, rfl, h.sameSku⟩⟩
  cases hfate : fates 1 with
  | answered =>
    rw [← hfate] at hanswered
    have hread : ∃ seen, (Method.readStock (product.applyUpdate input)).exec fates (2, w') =
        (.ok seen, (3, w')) ∧ ∀ view ∈ seen, view.sku = product.sku := by
      by_cases hf2 : fates 2 = .answered
      · have hstocked : w'.inventory.findByProductId (product.applyUpdate input).id = some item := by
          rw [hw.inventory]
          exact h.stocked
        refine ⟨_, exec_readStock hstocked h.uuid hf2, fun view hview => ?_⟩
        obtain rfl := Option.some.inj hview
        exact h.sameSku
      · exact ⟨none, exec_readStock_unanswered hf2, fun _ hv => nomatch hv⟩
    obtain ⟨seen, hread, hseen⟩ := hread
    rw [exec_writeProduct_bare hanswered hread]
    refine .kept hsku hcarry fun view hview => ?_
    obtain rfl := Except.ok.inj hview
    refine ⟨hold, fun stock hstock => ?_⟩
    obtain ⟨view, hview, rfl⟩ := Option.map_eq_some_iff.mp hstock
    exact hseen view hview
  | lost =>
    rw [← hfate] at hlost
    rw [exec_writeProduct_bare_error hlost]
    exact .kept hsku hcarry fun view he => nomatch he
  | failed =>
    have hfailed : (Call.repository (.update id input)).perform (fates 1) w =
        (.error (.database .unavailable), w) := by
      rw [hfate]
      rfl
    rw [exec_writeProduct_bare_error hfailed]
    exact .kept hsku h.carry fun view he => nomatch he

/-! ### The SKU changes -/

/-- The parts of `mirrorSku`, when there is a new SKU. -/
theorem mirrorSku_eq (hsku : Method.newSku input product = some sku) :
    Method.mirrorSku id input product = (do
      let found ← Method.readStock product
      Method.checkSku id sku
      Method.renameItem found sku
      return found) := by
  unfold Method.mirrorSku
  rw [hsku]

/-- The lookup of the record: found when it is answered, and otherwise nothing. -/
theorem exec_lookup (h : Paired w id product item) :
    (Method.readStock product).exec fates (1, w) =
      (.ok (if fates 1 = .answered then some (toInventoryItemView item) else none), (2, w)) := by
  by_cases hf : fates 1 = .answered
  · rw [if_pos hf]
    exact exec_readStock h.stocked h.uuid hf
  · rw [if_neg hf]
    exact exec_readStock_unanswered hf

/-- The check of the SKU throws: nothing has happened. -/
theorem outcome_unchecked (h : Paired w id product item) (hf : fates 0 = .answered)
    (hsku : Method.newSku input product = some sku) {e : Thrown}
    (hcheck : (Method.checkSku id sku).exec fates (2, w) = (.error e, (3, w)))
    (hoff : CalledOff fates w sku) :
    Outcome fates w input product item ((Method.update id input).exec fates (0, w)) := by
  have hmirror : (Method.mirrorSku id input product).exec fates (1, w) = (.error e, (3, w)) := by
    rw [mirrorSku_eq hsku, exec_bind_ok (exec_lookup h)]
    exact exec_bind_error hcheck
  rw [exec_update h hf, exec_bind_error hmirror]
  exact .calledOff hsku hoff h.carry

/-- A product of another id has the SKU: the check refuses it. -/
theorem Paired.other_id (h : Paired w id product item) {other : Product}
    (hmem : other ∈ w.products.rows) (hne : other.sku ≠ product.sku) : other.id ≠ id := by
  intro he
  have hown := (Database.findById_some h.found)
  have hid : other.id = product.id := by
    rw [hown.2, ← he]
    exact (w.products.uuids other hmem).symm
  exact hne (by rw [w.products.eq_of_id hmem hown.1 hid])

/-- With no other product of the SKU, the product can be written. -/
theorem writable_of_free (hsku : Method.newSku input product = some sku)
    (hfree : w.products.findBySku sku = none) : ∀ row ∈ w.products.rows,
      row.sku ≠ (product.applyUpdate input).sku ∨ row = product := by
  intro row hrow
  rw [(newSku_some hsku).2]
  exact .inl (Database.findBySku_none hfree row hrow)

theorem mirrorSku_bare (h : Paired w id product item) (hf1 : fates 1 ≠ .answered)
    (hf2 : fates 2 = .answered) (hsku : Method.newSku input product = some sku)
    (hfree : w.products.findBySku sku = none) :
    (Method.mirrorSku id input product).exec fates (1, w) = (.ok none, (3, w)) := by
  rw [mirrorSku_eq hsku, exec_bind_ok (exec_lookup h), if_neg hf1,
    exec_bind_ok (exec_checkSku_free hf2 hfree), exec_bind_ok exec_renameItem_none, exec_pure]

/-- The record was not found: the product is renamed alone, or not at all. -/
theorem outcome_bare (h : Paired w id product item) (hf : fates 0 = .answered)
    (hf1 : fates 1 ≠ .answered) (hf2 : fates 2 = .answered)
    (hsku : Method.newSku input product = some sku) (hfree : w.products.findBySku sku = none) :
    Outcome fates w input product item ((Method.update id input).exec fates (0, w)) := by
  obtain ⟨hne, hnew⟩ := newSku_some hsku
  rw [exec_update h hf, exec_bind_ok (mirrorSku_bare h hf1 hf2 hsku hfree)]
  obtain ⟨w', hw, hanswered, hlost⟩ := h.writable (writable_of_free hsku hfree)
  obtain ⟨hitem, hproduct⟩ := h.written hw
  have hnot : ¬ WentThrough fates := fun hall => hf1 hall.1
  have hon : fates 3 ≠ .failed → ¬ CalledOff fates w sku := by
    rintro hf3 (hoff | hoff | ⟨other, hother, hoff⟩ | ⟨-, hoff⟩ | ⟨hoff, -⟩)
    · exact hoff hf
    · exact hoff hf2
    · exact Database.findBySku_none hfree other hother hoff
    · exact hf3 hoff
    · exact hf1 hoff
  cases hfate : fates 3 with
  | answered =>
    rw [← hfate] at hanswered
    have hread : ∃ seen, (Method.readStock (product.applyUpdate input)).exec fates (4, w') =
        (.ok seen, (5, w')) := by
      by_cases hf4 : fates 4 = .answered
      · have hstocked : w'.inventory.findByProductId (product.applyUpdate input).id = some item := by
          rw [hw.inventory]
          exact h.stocked
        exact ⟨_, exec_readStock hstocked h.uuid hf4⟩
      · exact ⟨none, exec_readStock_unanswered hf4⟩
    obtain ⟨seen, hread⟩ := hread
    rw [exec_writeProduct_bare hanswered hread]
    refine .half hsku (hon (by rw [hfate]; simp)) hnot (not_carry_of_item hitem rfl ?_)
    rw [h.sameSku]
    exact hne.symm
  | lost =>
    rw [← hfate] at hlost
    rw [exec_writeProduct_bare_error hlost]
    refine .torn hsku (hon (by rw [hfate]; simp)) hnot (not_carry_of_product hproduct rfl ?_)
    rw [hnew]
    exact hne
  | failed =>
    have hfailed : (Call.repository (.update id input)).perform (fates 3) w =
        (.error (.database .unavailable), w) := by
      rw [hfate]
      rfl
    rw [exec_writeProduct_bare_error hfailed]
    exact .calledOff hsku (.inr (.inr (.inr (.inl ⟨hf1, hfate⟩)))) h.carry

/-- The renaming of the record decides how `mirrorSku` ends. -/
theorem mirrorSku_item (h : Paired w id product item) (hf1 : fates 1 = .answered)
    (hf2 : fates 2 = .answered) (hsku : Method.newSku input product = some sku)
    (hfree : w.products.findBySku sku = none) {reply : Except Thrown InventoryItemView}
    {w' : World}
    (hrename : (Call.inventory (.update item.id (skuPatch sku))).perform (fates 3) w = (reply, w')) :
    (Method.mirrorSku id input product).exec fates (1, w) =
      (reply.map fun _ => some (toInventoryItemView item), (4, w')) := by
  have hitem := exec_renameItem (toInventoryItemView item) hrename
  rw [mirrorSku_eq hsku, exec_bind_ok (exec_lookup h), if_pos hf1,
    exec_bind_ok (exec_checkSku_free hf2 hfree)]
  cases reply with
  | ok view => rw [exec_bind_ok hitem, exec_pure]; rfl
  | error e => exact exec_bind_error hitem

/-- The record could not be renamed: nothing has happened. -/
theorem outcome_unrenamed (h : Paired w id product item) (hf : fates 0 = .answered)
    (hf1 : fates 1 = .answered) (hf2 : fates 2 = .answered)
    (hsku : Method.newSku input product = some sku) (hfree : w.products.findBySku sku = none)
    {e : Thrown}
    (hrename : (Call.inventory (.update item.id (skuPatch sku))).perform (fates 3) w = (.error e, w))
    (hoff : CalledOff fates w sku) :
    Outcome fates w input product item ((Method.update id input).exec fates (0, w)) := by
  have hmirror := mirrorSku_item h hf1 hf2 hsku hfree hrename
  rw [exec_update h hf, exec_bind_error hmirror]
  exact .calledOff hsku hoff h.carry

/-- The item has its old SKU back. -/
theorem renamed_back {w₁ w₂ w₃ : World} (h : Paired w id product item)
    (hrenamed : Renamed w w₁ item sku) (hinventory : w₂.inventory = w₁.inventory)
    (hback : Renamed w₂ w₃ { item with sku } product.sku) :
    { item with sku := product.sku } ∈ w₃.inventory.inventoryItems := by
  have hmem : { item with sku } ∈ w₂.inventory.inventoryItems := by
    rw [hinventory]
    exact hrenamed.mem h.mem
  exact hback.mem hmem

/-- The old SKU is free when the item has lost it. -/
theorem back_free {w₁ w₂ : World} (h : Paired w id product item)
    (hrenamed : Renamed w w₁ item sku) (hinventory : w₂.inventory = w₁.inventory) :
    ∀ row ∈ w₂.inventory.inventoryItems, row ≠ { item with sku } → row.sku ≠ product.sku := by
  intro row hrow hother he
  rw [hinventory] at hrow
  have hold := hrenamed.other h.mem hrow hother
  have hitem : row = item := eq_of_itemSku hold h.mem (he.trans h.sameSku.symm)
  have hnew := hrenamed.mem h.mem
  have hid : row = { item with sku } := eq_of_itemId hrow hnew (by rw [hitem])
  exact hother hid

/-- The record is found and renamed. -/
theorem outcome_renamed (h : Paired w id product item) (hf : fates 0 = .answered)
    (hf1 : fates 1 = .answered) (hf2 : fates 2 = .answered)
    (hsku : Method.newSku input product = some sku) (hfree : w.products.findBySku sku = none)
    (hitems : ∀ other ∈ w.inventory.inventoryItems, other.sku ≠ sku)
    (hundo : fates 5 = .answered) :
    Outcome fates w input product item ((Method.update id input).exec fates (0, w)) := by
  obtain ⟨hne, hnew⟩ := newSku_some hsku
  have hnei : sku ≠ item.sku := by
    rw [h.sameSku]
    exact hne
  obtain ⟨w₁, hrenamed, hanswered, hlost⟩ :=
    rename_perform h.mem hnei fun row hrow _ => hitems row hrow
  have hon : fates 3 ≠ .failed → ¬ (fates 3 = .answered ∧ fates 4 = .failed) →
      ¬ CalledOff fates w sku := by
    rintro hf3 hf4 (hoff | hoff | ⟨other, hother, hoff⟩ | ⟨hoff, -⟩ | ⟨-, hoff | ⟨other, hother, hoff⟩ |
      hoff⟩)
    · exact hoff hf
    · exact hoff hf2
    · exact Database.findBySku_none hfree other hother hoff
    · exact hoff hf1
    · exact hf3 hoff
    · exact hitems other hother hoff
    · exact hf4 hoff
  cases hf3 : fates 3 with
  | failed =>
    refine outcome_unrenamed h hf hf1 hf2 hsku hfree (e := HttpInventoryClient.unreachable) ?_
      (.inr (.inr (.inr (.inr ⟨hf1, .inl hf3⟩))))
    rw [hf3]
    rfl
  | lost =>
    rw [← hf3] at hlost
    rw [exec_update h hf, exec_bind_error (mirrorSku_item h hf1 hf2 hsku hfree hlost)]
    refine .torn hsku (hon (by rw [hf3]; simp) (by rw [hf3]; simp)) ?_
      (not_carry_of_item (hrenamed.mem h.mem) rfl hne)
    rintro ⟨-, hf3', -⟩
    rw [hf3] at hf3'
    cases hf3'
  | answered =>
    rw [← hf3] at hanswered
    have hmirror := mirrorSku_item h hf1 hf2 hsku hfree hanswered
    have hfound : w₁.products.findById id = some product := by
      rw [hrenamed.products]
      exact h.found
    have hwritable : ∀ row ∈ w₁.products.rows, row ≠ product →
        row.sku ≠ (product.applyUpdate input).sku := by
      rw [hrenamed.products]
      exact fun row hrow hother => (writable_of_free hsku hfree row hrow).resolve_right hother
    obtain ⟨w₂, hwritten, hanswered', hlost'⟩ := write_perform hfound hwritable
    have hproduct := hwritten.mem hfound
    have hrow := hrenamed.mem h.mem
    -- The item gets its SKU back, from a world that has the inventory of `w₁`.
    have hback : ∀ w', w'.inventory = w₁.inventory → ∃ w'' reply,
        (Call.inventory (.update item.id (skuPatch product.sku))).perform (fates 5) w' =
          (reply, w'') ∧ w''.products = w'.products ∧
        { item with sku := product.sku } ∈ w''.inventory.inventoryItems := by
      intro w' hw'
      have hmem : { item with sku } ∈ w'.inventory.inventoryItems := by
        rw [hw']
        exact hrow
      obtain ⟨w'', hagain, hperform, -⟩ := rename_perform hmem hne.symm
        (back_free h hrenamed hw')
      rw [hundo]
      exact ⟨w'', _, hperform, hagain.products, renamed_back h hrenamed hw' hagain⟩
    rw [exec_update h hf, exec_bind_ok hmirror]
    cases hf4 : fates 4 with
    | answered =>
      rw [← hf4] at hanswered'
      rw [exec_writeProduct_item hanswered']
      refine .through hsku (hon (by rw [hf3]; simp) (by rw [hf4]; simp)) ⟨hf1, hf3, hf4⟩
        ⟨⟨_, hproduct, rfl, hnew⟩, ⟨{ item with sku }, ?_, rfl, rfl⟩⟩ hnew
        ⟨toProductStock (toInventoryItemView item), rfl, hnei.symm⟩
      rw [hwritten.inventory]
      exact hrow
    | lost =>
      rw [← hf4] at hlost'
      obtain ⟨w₃, reply, hperform, hsame, -⟩ := hback w₂ hwritten.inventory
      rw [exec_writeProduct_item_error (toInventoryItemView item) hlost' hperform]
      refine .torn hsku (hon (by rw [hf3]; simp) (by rw [hf4]; simp)) ?_ ?_
      · rintro ⟨-, -, hf4'⟩
        rw [hf4] at hf4'
        cases hf4'
      · rw [← hsame] at hproduct
        refine not_carry_of_product hproduct rfl ?_
        rw [hnew]
        exact hne
    | failed =>
      have hfailed : (Call.repository (.update id input)).perform (fates 4) w₁ =
          (.error (.database .unavailable), w₁) := by
        rw [hf4]
        rfl
      obtain ⟨w₃, reply, hperform, hsame, hitem⟩ := hback w₁ rfl
      rw [exec_writeProduct_item_error (toInventoryItemView item) hfailed hperform]
      refine .calledOff hsku (.inr (.inr (.inr (.inr ⟨hf1, .inr (.inr ⟨hf3, hf4⟩)⟩))))
        ⟨⟨product, ?_, rfl, rfl⟩, ⟨{ item with sku := product.sku }, hitem, rfl, rfl⟩⟩
      rw [hsame, hrenamed.products]
      exact (Database.findById_some h.found).1

/-- Every update ends in one of these ways, if its compensating call, the sixth, is answered. -/
theorem update_outcome (h : Paired w id product item) (input : UpdateProductInput)
    (hundo : fates 5 = .answered) :
    Outcome fates w input product item ((Method.update id input).exec fates (0, w)) := by
  by_cases hf : fates 0 = .answered
  · cases hsku : Method.newSku input product with
    | none => exact outcome_kept h hf hsku
    | some sku =>
      have hne := (newSku_some hsku).1
      by_cases hf2 : fates 2 = .answered
      · cases hfree : w.products.findBySku sku with
        | some other =>
          obtain ⟨hmem, hother⟩ := Database.findBySku_some hfree
          have hid := h.other_id hmem (by rw [hother]; exact hne)
          obtain ⟨e, hcheck⟩ := exec_checkSku_conflict hf2 hfree hid
          exact outcome_unchecked h hf hsku hcheck (.inr (.inr (.inl ⟨other, hmem, hother⟩)))
        | none =>
          by_cases hf1 : fates 1 = .answered
          · by_cases hitems : ∃ other ∈ w.inventory.inventoryItems, other.sku = sku
            · obtain ⟨other, hother, hsame⟩ := hitems
              have hnei : sku ≠ item.sku := by
                rw [h.sameSku]
                exact hne
              obtain ⟨e, hrename⟩ := rename_perform_refused h.mem hnei hother hsame (fates 3)
              exact outcome_unrenamed h hf hf1 hf2 hsku hfree hrename
                (.inr (.inr (.inr (.inr ⟨hf1, .inr (.inl ⟨other, hother, hsame⟩)⟩))))
            · refine outcome_renamed h hf hf1 hf2 hsku hfree (fun other hother he => ?_) hundo
              exact hitems ⟨other, hother, he⟩
          · exact outcome_bare h hf hf1 hf2 hsku hfree
      · obtain ⟨e, hcheck⟩ := exec_checkSku_unanswered (w := w) id sku hf2
        exact outcome_unchecked h hf hsku hcheck (.inr (.inl hf2))
  · exact outcome_unread h hf

end Cases

/-! ## When the stores agree -/

section Agreement

variable {fates : Nat → Fate} {w : World} {product : Product} {item : InventoryItem}
  {input : UpdateProductInput} {r : Except Thrown ProductView × (Nat × World)}

/-- With the stale record in the view, a change of the SKU that goes through is not shown. -/
theorem Outcome.agreed_iff (h : Outcome fates w input product item r) :
    Agreed ProductView.Shows product item (askedSku input product) r ↔
      ∀ sku ∈ Method.newSku input product, CalledOff fates w sku := by
  unfold askedSku
  cases h with
  | kept hsku hcarry hview =>
    rw [hsku]
    refine iff_of_true ?_ fun _ hm => nomatch hm
    rename_i reply _ _
    cases reply with
    | ok view => exact ⟨hcarry, hview view rfl⟩
    | error e => exact hcarry
  | calledOff hsku hoff hcarry =>
    rw [hsku]
    refine iff_of_true hcarry fun sku hm => ?_
    obtain rfl := Option.some.inj hm
    exact hoff
  | through hsku hon hall hcarry hview hstale =>
    rw [hsku]
    refine iff_of_false (fun ha => ?_) fun hoff => hon (hoff _ rfl)
    obtain ⟨stock, hstock, hne⟩ := hstale
    exact hne (ha.2.2 stock hstock)
  | half hsku hon hnot hcarry =>
    rw [hsku]
    exact iff_of_false (fun ha => hcarry ha.1) fun hoff => hon (hoff _ rfl)
  | torn hsku hon hnot hcarry =>
    rw [hsku]
    exact iff_of_false hcarry fun hoff => hon (hoff _ rfl)

/-- The stores alone agree after a change that goes through, too. -/
theorem Outcome.stores_iff (h : Outcome fates w input product item r) :
    Agreed (fun view sku => view.sku = sku) product item (askedSku input product) r ↔
      ∀ sku ∈ Method.newSku input product, CalledOff fates w sku ∨ WentThrough fates := by
  unfold askedSku
  cases h with
  | kept hsku hcarry hview =>
    rw [hsku]
    refine iff_of_true ?_ fun _ hm => nomatch hm
    rename_i reply _ _
    cases reply with
    | ok view => exact ⟨hcarry, (hview view rfl).1⟩
    | error e => exact hcarry
  | calledOff hsku hoff hcarry =>
    rw [hsku]
    refine iff_of_true hcarry fun sku hm => ?_
    obtain rfl := Option.some.inj hm
    exact .inl hoff
  | through hsku hon hall hcarry hview hstale =>
    rw [hsku]
    exact iff_of_true ⟨hcarry, hview⟩ fun _ _ => .inr hall
  | half hsku hon hnot hcarry =>
    rw [hsku]
    exact iff_of_false (fun ha => hcarry ha.1) fun hoff => (hoff _ rfl).elim hon hnot
  | torn hsku hon hnot hcarry =>
    rw [hsku]
    exact iff_of_false hcarry fun hoff => (hoff _ rfl).elim hon hnot

end Agreement

/-- After an update whose compensating call is answered, the two stores and the view agree about the
SKU exactly where no change of it is asked for or the change comes to nothing; the stores agree where
it goes through as well, but the view then shows the stock under its old SKU. -/
theorem update_agrees_iff {fates : Nat → Fate} {w : World} {id : String} {product : Product}
    {item : InventoryItem} (h : Paired w id product item) (input : UpdateProductInput)
    (hundo : fates 5 = .answered) :
    (Agreed ProductView.Shows product item (askedSku input product)
        ((Method.update id input).exec fates (0, w)) ↔
      ∀ sku ∈ Method.newSku input product, CalledOff fates w sku) ∧
    (Agreed (fun view sku => view.sku = sku) product item (askedSku input product)
        ((Method.update id input).exec fates (0, w)) ↔
      ∀ sku ∈ Method.newSku input product, CalledOff fates w sku ∨ WentThrough fates) := by
  have houtcome := update_outcome h input hundo
  exact ⟨houtcome.agreed_iff, houtcome.stores_iff⟩

/-! A desk, whose item inventory renames without being heard. -/

def desk : Product where
  id := "7"
  sku := "DESK-1"
  name := "Desk"
  description := none
  priceCents := 9999
  currency := "USD"
  status := .ACTIVE

def deskItem : InventoryItem where
  id := "8"
  sku := "DESK-1"
  productId := "7"
  warehouse := "default"
  quantity := 0
  reserved := 0
  reorderLevel := 0
  createdAt := 0

theorem desk_uuids : ∀ row ∈ [desk], uuidText row.id = row.id := by decide +kernel

theorem deskItem_unique : Inventory.UniqueKeys [deskItem] := by decide

theorem deskItem_fits : ∀ item ∈ [deskItem], item.Fits := by decide

def deskWorld : World where
  products :=
    { rows := [desk], uniqueIds := List.nodup_singleton _, uniqueSkus := List.nodup_singleton _,
      uuids := desk_uuids }
  inventory :=
    { inventoryItems := [deskItem], stockMovements := [], auditLogs := [], processedMessages := []
      uniqueKeys := deskItem_unique, columnsFit := deskItem_fits,
      uniqueMessages := List.nodup_nil }
  uuids n := toString (n + 9)
  minted := 0

theorem desk2_long : 3 ≤ "DESK-2".toList.length := by decide

theorem desk2_bounded : "DESK-2".toList.length ≤ 64 := by decide

theorem desk2_spelled : "DESK-2".toList.all isSkuChar = true := by decide

/-- The desk gets a new SKU. -/
def renameDesk : UpdateProductInput where
  sku := some ⟨"DESK-2", desk2_long, desk2_bounded, desk2_spelled⟩
  named := rfl

/-- Inventory renames the item, and its reply is lost. -/
def lostRename : Nat → Fate
  | 3 => .lost
  | _ => .answered

theorem deskWorld_paired : Paired deskWorld "7" desk deskItem := by
  have hfound : deskWorld.products.findById "7" = some desk := by decide +kernel
  have hstocked : deskWorld.inventory.findByProductId desk.id = some deskItem := by decide +kernel
  exact ⟨hfound, hstocked, rfl⟩

theorem renameDesk_newSku : Method.newSku renameDesk desk = some "DESK-2" := by decide +kernel

theorem lostRename_on : ¬ CalledOff lostRename deskWorld "DESK-2" := by decide +kernel

theorem lostRename_not_through : ¬ WentThrough lostRename := by
  rintro ⟨-, hlost, -⟩
  cases hlost

theorem update_agrees_iff_desk :
    ¬ Agreed ProductView.Shows desk deskItem (askedSku renameDesk desk)
        ((Method.update "7" renameDesk).exec lostRename (0, deskWorld)) ∧
      (lostRename 5 = .answered) := by
  have hundo : lostRename 5 = .answered := rfl
  have h := (update_agrees_iff deskWorld_paired renameDesk hundo).1
  refine ⟨fun ha => ?_, hundo⟩
  exact lostRename_on (h.mp ha "DESK-2" renameDesk_newSku)

/-- The two stores are left with different SKUs. -/
theorem update_tears : ¬ ∀ (fates : Nat → Fate) (w : World) (id : String) (product : Product)
    (item : InventoryItem) (input : UpdateProductInput), Paired w id product item →
      fates 5 = .answered →
      Agreed (fun view sku => view.sku = sku) product item (askedSku input product)
        ((Method.update id input).exec fates (0, w)) := by
  intro hall
  have hundo : lostRename 5 = .answered := rfl
  have houtcome := update_outcome deskWorld_paired renameDesk hundo
  have ha := hall lostRename deskWorld "7" desk deskItem renameDesk deskWorld_paired hundo
  have hor := houtcome.stores_iff.mp ha "DESK-2" renameDesk_newSku
  exact hor.elim lostRename_on lostRename_not_through

end PracticalMicroservice.Products
