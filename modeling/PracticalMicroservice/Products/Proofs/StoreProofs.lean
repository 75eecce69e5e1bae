import PracticalMicroservice.Foundations.Tables
import PracticalMicroservice.Inventory.Proofs.RecordProofs
import PracticalMicroservice.Products.World

/-!
# What a call does to the two stores

One lemma for each statement on the products and each request to inventory, when it is accepted and
when it is refused.
-/

namespace PracticalMicroservice.Products

open Foundations (nodup_change_one)
open Inventory (DatabaseError Fate InventoryItem InventoryItemView UpdateInventoryItemInput
  toInventoryItemView uuidText uuidText_uuidText)

/-! ## The products -/

section Rows

variable {db : Database} {id : String} {product : Product} {input : UpdateProductInput}

theorem Database.findById_some (h : db.findById id = some product) :
    product ∈ db.rows ∧ product.id = uuidText id := by
  unfold Database.findById at h
  exact ⟨List.mem_of_find?_eq_some h, by simpa using List.find?_some h⟩

/-- Rows of one id are one row. -/
theorem Database.eq_of_id {row row' : Product} (h : row ∈ db.rows) (h' : row' ∈ db.rows)
    (he : row.id = row'.id) : row = row' :=
  List.inj_on_of_nodup_map db.uniqueIds h h' he

theorem Database.eq_of_sku {row row' : Product} (h : row ∈ db.rows) (h' : row' ∈ db.rows)
    (he : row.sku = row'.sku) : row = row' :=
  List.inj_on_of_nodup_map db.uniqueSkus h h' he

theorem Database.findBySku_none {sku : String} (h : db.findBySku sku = none) :
    ∀ row ∈ db.rows, row.sku ≠ sku := by
  unfold Database.findBySku at h
  rw [List.find?_eq_none] at h
  exact fun row hrow he => h row hrow (decide_eq_true he)

theorem Database.findBySku_some {sku : String} {row : Product} (h : db.findBySku sku = some row) :
    row ∈ db.rows ∧ row.sku = sku := by
  unfold Database.findBySku at h
  exact ⟨List.mem_of_find?_eq_some h, by simpa using List.find?_some h⟩

theorem Database.write_ok {α : Type} {rows : List Product}
    {uuids : ∀ row ∈ rows, uuidText row.id = row.id} {reply : α}
    (hids : (rows.map (·.id)).Nodup) (hskus : (rows.map (·.sku)).Nodup) :
    ∃ db', db.write rows uuids reply = (.ok reply, db') ∧ db'.rows = rows := by
  unfold Database.write
  rw [dif_pos ⟨hids, hskus⟩]
  exact ⟨_, rfl, rfl⟩

/-- A write puts the rows down or changes nothing. -/
theorem Database.write_cases {α : Type} (db : Database) (rows : List Product)
    (uuids : ∀ row ∈ rows, uuidText row.id = row.id) (reply : α) :
    (∃ error, db.write rows uuids reply = (.error error, db)) ∨
      ∃ db', db.write rows uuids reply = (.ok reply, db') ∧ db'.rows = rows := by
  unfold Database.write
  split
  · exact .inr ⟨_, rfl, rfl⟩
  · exact .inl ⟨_, rfl⟩

/-- An update is accepted where no other product has the SKU it leaves. -/
theorem Repository.update_accepted (hp : db.findById id = some product)
    (hsku : ∀ row ∈ db.rows, row ≠ product → row.sku ≠ (product.applyUpdate input).sku) :
    ∃ db', Repository.update id input db = (.ok (product.applyUpdate input), db') ∧
      db'.rows = db.updated id input := by
  obtain ⟨hmem, hid⟩ := Database.findById_some hp
  have hchange : ∀ row ∈ db.rows, row ≠ product →
      (if row.id = uuidText id then row.applyUpdate input else row) = row := by
    intro row hrow hne
    rw [if_neg fun he => hne (db.eq_of_id hrow hmem (he.trans hid.symm))]
  have hthis : (if product.id = uuidText id then product.applyUpdate input else product) =
      product.applyUpdate input := if_pos hid
  have hids : ((db.updated id input).map (·.id)).Nodup := by
    refine nodup_change_one db.uniqueIds db.uniqueIds hchange fun row hrow hne he => ?_
    rw [hthis] at he
    exact hne (db.eq_of_id hrow hmem he)
  have hskus : ((db.updated id input).map (·.sku)).Nodup := by
    refine nodup_change_one db.uniqueIds db.uniqueSkus hchange fun row hrow hne => ?_
    rw [hthis]
    exact hsku row hrow hne
  unfold Repository.update
  rw [hp]
  exact Database.write_ok hids hskus

/-- The row of an updated product. -/
theorem Database.mem_updated (hp : db.findById id = some product) :
    product.applyUpdate input ∈ db.updated id input := by
  obtain ⟨hmem, hid⟩ := Database.findById_some hp
  refine List.mem_map.mpr ⟨product, hmem, ?_⟩
  rw [if_pos hid]

end Rows

/-! ## Requests to inventory -/

section Requests

variable {α : Type} {fate : Fate} {onMissing : Option α} {action : Inventory.Action α}
  {db db' : Inventory.Database}

theorem request_answered {a : α} (h : action db = (.ok a, db')) :
    HttpInventoryClient.request .answered onMissing action db = (.ok a, db') := by
  unfold HttpInventoryClient.request
  rw [h]

theorem request_lost : HttpInventoryClient.request .lost onMissing action db =
    (.error HttpInventoryClient.unreachable, (action db).2) := rfl

variable (fate) in
/-- A request that inventory refuses throws and changes nothing. -/
theorem request_refused {thrown : Inventory.Thrown} (h : action db = (.error thrown, db)) :
    ∃ e, HttpInventoryClient.request fate none action db = (.error e, db) := by
  unfold HttpInventoryClient.request
  cases fate with
  | answered => exact ⟨_, by rw [h]⟩
  | lost => exact ⟨_, by rw [h]⟩
  | failed => exact ⟨_, rfl⟩

end Requests

/-- A lookup finds what inventory has under the product id. -/
theorem perform_findByProductId (productId : String) (w : World) :
    (Call.inventory (.findByProductId productId)).perform .answered w =
      (.ok ((w.inventory.findByProductId (uuidText productId)).map toInventoryItemView), w) := rfl

/-! ## The patch of a SKU -/

section Patch

variable {db : Inventory.Database} {item : InventoryItem} {sku : String}

theorem applyPatch_skuPatch : item.applyPatch (skuPatch sku) = { item with sku } := rfl

theorem diff_skuPatch (hne : sku ≠ item.sku) :
    Inventory.diffInventoryItem item (skuPatch sku) ≠ [] := by
  have hone : Inventory.fieldChange "sku" id item.sku (some sku) =
      [{ field := "sku", oldValue := item.sku, newValue := sku }] := if_neg hne
  intro hnil
  unfold Inventory.diffInventoryItem at hnil
  have hcons : Inventory.fieldChange "sku" id item.sku (some sku) ++ [] ++ [] ++ [] ++ [] = [] := hnil
  rw [hone] at hcons
  cases hcons

/-- Items of one id are one item. -/
theorem eq_of_itemId {row row' : InventoryItem} (h : row ∈ db.inventoryItems)
    (h' : row' ∈ db.inventoryItems) (he : row.id = row'.id) : row = row' :=
  List.inj_on_of_nodup_map db.uniqueKeys.1 h h' he

theorem eq_of_itemSku {row row' : InventoryItem} (h : row ∈ db.inventoryItems)
    (h' : row' ∈ db.inventoryItems) (he : row.sku = row'.sku) : row = row' :=
  List.inj_on_of_nodup_map db.uniqueKeys.2.1 h h' he

/-- The rows after the patch of a SKU: every other row stays. -/
theorem patched_other (hmem : item ∈ db.inventoryItems) {row : InventoryItem}
    (hrow : row ∈ db.inventoryItems) (hne : row ≠ item) :
    (if row.id = item.id then row.applyPatch (skuPatch sku) else row) = row :=
  if_neg fun he => hne (eq_of_itemId hrow hmem he)

theorem mem_patched (hmem : item ∈ db.inventoryItems) :
    { item with sku } ∈ db.patched item.id (skuPatch sku) := by
  refine List.mem_map.mpr ⟨item, hmem, ?_⟩
  rw [if_pos rfl, applyPatch_skuPatch]

theorem patched_unique (hmem : item ∈ db.inventoryItems)
    (hfree : ∀ row ∈ db.inventoryItems, row ≠ item → row.sku ≠ sku) :
    Inventory.UniqueKeys (db.patched item.id (skuPatch sku)) := by
  have hids := db.uniqueKeys.1
  have hthis : (if item.id = item.id then item.applyPatch (skuPatch sku) else item) =
      { item with sku } := by rw [if_pos rfl, applyPatch_skuPatch]
  refine ⟨?_, ?_, ?_⟩
  · refine nodup_change_one hids hids (fun row hrow hne => patched_other hmem hrow hne)
      fun row hrow hne => ?_
    rw [hthis]
    exact fun he => hne (eq_of_itemId hrow hmem he)
  · refine nodup_change_one hids db.uniqueKeys.2.1
      (fun row hrow hne => patched_other hmem hrow hne) fun row hrow hne => ?_
    rw [hthis]
    exact hfree row hrow hne
  · refine nodup_change_one hids db.uniqueKeys.2.2
      (fun row hrow hne => patched_other hmem hrow hne) fun row hrow hne => ?_
    rw [hthis]
    exact fun he => hne (List.inj_on_of_nodup_map db.uniqueKeys.2.2 hrow hmem he)

theorem serviceUpdate_apply (id : String) (input : UpdateInventoryItemInput)
    (actor : Option String) (db : Inventory.Database) :
    Inventory.Service.update id input actor db =
      ((Inventory.updateCall id input actor db).1.map toInventoryItemView,
        (Inventory.updateCall id input actor db).2) := by
  unfold Inventory.Service.update
  rw [Inventory.Action.map_apply]

/-- Inventory renames an item to a SKU that no other item has. -/
theorem rename_accepted (hmem : item ∈ db.inventoryItems) (hne : sku ≠ item.sku)
    (hfree : ∀ row ∈ db.inventoryItems, row ≠ item → row.sku ≠ sku) :
    ∃ db', Inventory.Service.update item.id (skuPatch sku) none db =
        (.ok (toInventoryItemView { item with sku }), db') ∧
      db'.inventoryItems = db.patched item.id (skuPatch sku) := by
  obtain ⟨db', hrun, heff⟩ := Inventory.update_accepted none (Inventory.Database.findById_of_mem hmem)
    rfl (diff_skuPatch hne) (patched_unique hmem hfree)
  refine ⟨db', ?_, heff.items⟩
  rw [serviceUpdate_apply, hrun]
  rfl

/-- Inventory refuses a SKU that another item has. -/
theorem rename_refused (hmem : item ∈ db.inventoryItems) (hne : sku ≠ item.sku)
    {other : InventoryItem} (hother : other ∈ db.inventoryItems) (hsku : other.sku = sku) :
    ∃ thrown, Inventory.Service.update item.id (skuPatch sku) none db = (.error thrown, db) := by
  have hoi : other ≠ item := fun he => hne (by rw [← hsku, he])
  have hclash : ¬ Inventory.UniqueKeys (db.patched item.id (skuPatch sku)) := by
    intro hu
    have hstays : other ∈ db.patched item.id (skuPatch sku) :=
      List.mem_map.mpr ⟨other, hother, patched_other hmem hother hoi⟩
    have he := List.inj_on_of_nodup_map hu.2.1 hstays (mem_patched hmem) hsku
    have hid : other.id = item.id := by rw [he]
    exact hoi (eq_of_itemId hother hmem hid)
  refine ⟨.database .uniqueViolation, ?_⟩
  rw [serviceUpdate_apply,
    Inventory.update_clash (Inventory.Database.findById_of_mem hmem) rfl (diff_skuPatch hne) hclash]
  rfl

end Patch

end PracticalMicroservice.Products
