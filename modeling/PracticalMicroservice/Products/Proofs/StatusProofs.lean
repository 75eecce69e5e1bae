import PracticalMicroservice.Inventory.Proofs.ListingProofs
import PracticalMicroservice.Inventory.Proofs.TransactionProofs
import PracticalMicroservice.Products.Listing
import PracticalMicroservice.Products.Proofs.UpdateProofs

/-!
# Proofs: what a status says of inventory's answer

What a method has been told is read off its program. The view is then the one that the last answer
about the product makes, but for an update whose last lookup was not answered.
-/

namespace PracticalMicroservice.Products

open Foundations (Follows History follows_bind_ok follows_done follows_perform follows_throw
  follows_tryCatch)
open Inventory (Fate InventoryItem InventoryItemView PostgresText UpdateInventoryItemInput
  toInventoryItemView uuidText)

/-! ## The view an answer makes -/

/-- A view of a product with what inventory answered is truthful. -/
theorem truthful_toProductView (product : Product) (answer : Answer) :
    Truthful answer (toProductView product answer.item answer.reachable) := by
  cases answer with
  | unanswered => exact ⟨by simp [toProductView, toStockStatus, Answer.item, Answer.reachable],
      by simp [toProductView, toStockStatus, Answer.item, Answer.reachable], fun _ h => nomatch h⟩
  | answered record =>
    cases record with
    | none => exact ⟨by simp [toProductView, toStockStatus, Answer.item, Answer.reachable],
        by simp [toProductView, toStockStatus, Answer.item, Answer.reachable], fun _ h => nomatch h⟩
    | some record =>
      have hstatus : (toProductView product (some record) true).stockStatus = statusOf record := rfl
      have hnot : statusOf record ≠ .UNKNOWN ∧ statusOf record ≠ .UNPROVISIONED := by
        unfold statusOf
        split
        · simp
        · split <;> simp
      refine ⟨iff_of_false ?_ nofun, iff_of_false ?_ (by simp), ?_⟩
      · exact fun h => hnot.1 (hstatus.symm.trans h)
      · exact fun h => hnot.2 (hstatus.symm.trans h)
      · intro record' h
        cases h
        exact hstatus

/-- A view made without asking whether inventory answered is truthful only if it did. -/
theorem truthful_dropped (product : Product) (answer : Answer) :
    Truthful answer (toProductView product answer.item true) ↔ answer ≠ .unanswered := by
  cases answer with
  | unanswered =>
    constructor
    · intro h
      cases h.unknown.mpr rfl
    · intro h
      exact absurd rfl h
  | answered record =>
    refine iff_of_true ?_ nofun
    exact truthful_toProductView product (.answered record)

/-! ## What the methods have been told -/

section Told

variable {told told' : History Call Call.Reply} {id productId : String} {product : Product}
  {view : ProductView}

theorem answers_append : answers productId (told ++ told') =
    answers productId told ++ answers productId told' :=
  List.filterMap_append ..

/-- Nothing was asked of the record of any product. -/
def Silent (told : History Call Call.Reply) : Prop := ∀ productId, answers productId told = []

theorem Silent.append (h : Silent told) (h' : Silent told') : Silent (told ++ told') :=
  fun productId => by rw [answers_append, h, h', List.append_nil]

/-- The entry for a lookup. -/
abbrev looked (productId : String) (reply : Except Thrown (Option InventoryItemView)) :
    (c : Call) × c.Reply :=
  ⟨.inventory (.findByProductId productId), reply⟩

theorem answers_looked {reply : Except Thrown (Option InventoryItemView)} :
    answers productId [looked productId reply] = [.of reply] := by
  simp [answers, Call.answer]

theorem follows_lookUpStock {result : Except Thrown (Option InventoryItemView × Bool)}
    (h : Follows (Method.lookUpStock product).run told (.done result)) :
    ∃ reply, told = [looked product.id reply] ∧
      result = .ok ((Answer.of reply).item, (Answer.of reply).reachable) := by
  obtain ⟨reply, told, rfl, hrest⟩ := follows_perform h
  refine ⟨reply, ?_⟩
  cases reply with
  | ok record =>
    obtain ⟨rfl, hresult⟩ := follows_done hrest
    cases hresult
    exact ⟨rfl, rfl⟩
  | error e =>
    obtain ⟨rfl, hresult⟩ := follows_done hrest
    cases hresult
    exact ⟨rfl, rfl⟩

theorem follows_readStock {result : Except Thrown (Option InventoryItemView)}
    (h : Follows (Method.readStock product).run told (.done result)) :
    ∃ reply, told = [looked product.id reply] ∧ result = .ok (Answer.of reply).item := by
  obtain ⟨reply, told, rfl, hrest⟩ := follows_perform h
  refine ⟨reply, ?_⟩
  cases reply with
  | ok record =>
    obtain ⟨rfl, hresult⟩ := follows_done hrest
    cases hresult
    exact ⟨rfl, rfl⟩
  | error e =>
    obtain ⟨rfl, hresult⟩ := follows_done hrest
    cases hresult
    exact ⟨rfl, rfl⟩

theorem follows_getProduct (h : Follows (Method.getProduct id).run told (.done (.ok product))) :
    told = [⟨.repository (.findById id), .ok (some product)⟩] := by
  obtain ⟨reply, told, rfl, hrest⟩ := follows_perform h
  cases reply with
  | ok found =>
    cases found with
    | none => cases (follows_done hrest).2
    | some found =>
      obtain ⟨rfl, hresult⟩ := follows_done hrest
      cases hresult
      rfl
  | error e => cases (follows_done hrest).2

/-- Among the answers about a product the last one counts. -/
theorem lastAnswer_looked {reply : Except Thrown (Option InventoryItemView)} :
    lastAnswer productId (told ++ [looked productId reply]) = .of reply := by
  unfold lastAnswer
  rw [answers_append, answers_looked, List.getLast?_concat]
  rfl

theorem lastAnswer_append (h : Silent told') :
    lastAnswer productId (told ++ told') = lastAnswer productId told := by
  unfold lastAnswer
  rw [answers_append, h productId, List.append_nil]

/-- What was answered before does not count any more. -/
theorem lastAnswer_answered {record : Option InventoryItemView}
    (h : lastAnswer productId told' = .answered record) :
    lastAnswer productId (told ++ told') = .answered record := by
  unfold lastAnswer at h ⊢
  rw [answers_append]
  cases hlast : (answers productId told').getLast? with
  | none =>
    rw [hlast] at h
    cases h
  | some answer =>
    rw [hlast] at h
    rw [List.getLast?_append, hlast]
    exact h

/-- A call that returned was told its result. -/
theorem follows_call {c : Call} {a : c.Result}
    (h : Follows (Method.call c).run told (.done (.ok a))) : told = [⟨c, .ok a⟩] := by
  obtain ⟨reply, told, rfl, hrest⟩ := follows_perform h
  obtain ⟨rfl, hreply⟩ := follows_done hrest
  cases hreply
  rfl

/-! ## The methods -/

theorem follows_getById (h : Follows (Method.getById id).run told (.done (.ok view))) :
    ∃ product answer, view = toProductView product answer.item answer.reachable ∧
      lastAnswer product.id told = answer := by
  obtain ⟨product, told₁, told₂, rfl, -, hrest⟩ := follows_bind_ok h
  obtain ⟨⟨item, reachable⟩, told₂, told₃, rfl, hstock, hview⟩ := follows_bind_ok hrest
  obtain ⟨rfl, hview⟩ := follows_done hview
  obtain ⟨reply, rfl, hreply⟩ := follows_lookUpStock hstock
  cases hreply
  cases hview
  refine ⟨product, .of reply, rfl, ?_⟩
  rw [List.append_nil]
  exact lastAnswer_looked

/-- A creation that returned got the record from inventory: its handler throws at the end. -/
theorem follows_create {input : CreateProductInput}
    (h : Follows (Method.create input).run told (.done (.ok view))) :
    ∃ product record, view = toProductView product (some record) ∧
      lastAnswer product.id told = .answered (some record) := by
  obtain ⟨existing, told₁, told₂, rfl, hexisting, hnew⟩ := follows_bind_ok h
  cases existing with
  | some existing => cases (follows_throw hnew).2
  | none =>
    obtain ⟨product, told₂, told₃, rfl, hproduct, hstock⟩ := follows_bind_ok hnew
    rcases follows_tryCatch hstock with ⟨_, hview, hstock⟩ | ⟨e, told₃, told₄, rfl, -, hundo⟩
    · obtain ⟨record, told₃, told₄, rfl, hrecord, hview'⟩ := follows_bind_ok hstock
      obtain ⟨rfl, hview'⟩ := follows_done hview'
      cases hview
      cases hview'
      refine ⟨product, record, rfl, ?_⟩
      rw [follows_call hexisting, follows_call hproduct, follows_call hrecord]
      simp [lastAnswer, answers, Call.answer, Method.provisioning, Answer.of, Except.map]
    · obtain ⟨_, told₄, told₅, rfl, -, hundo⟩ := follows_bind_ok hundo
      obtain ⟨_, told₅, told₆, rfl, -, hthrow⟩ := follows_bind_ok hundo
      cases (follows_throw hthrow).2

theorem silent_repository {call : RepositoryCall} {reply : (Call.repository call).Reply} :
    Silent [⟨.repository call, reply⟩] := fun _ => rfl

theorem silent_rename {id : String} {input : UpdateInventoryItemInput}
    {reply : (Call.inventory (.update id input)).Reply} :
    Silent [⟨.inventory (.update id input), reply⟩] := fun _ => rfl

theorem follows_checkSku {sku : String}
    (h : Follows (Method.checkSku id sku).run told (.done (.ok ()))) : Silent told := by
  obtain ⟨conflicting, told₁, told₂, rfl, hfound, hrest⟩ := follows_bind_ok h
  rw [follows_call hfound]
  have hnothing : told₂ = [] := by
    cases conflicting with
    | none => exact (follows_done hrest).1
    | some conflicting =>
      dsimp only at hrest
      split at hrest
      · exact (follows_throw hrest).1
      · exact (follows_done hrest).1
  rw [hnothing]
  exact silent_repository

theorem follows_renameItem {item : Option InventoryItemView} {sku : String}
    (h : Follows (Method.renameItem item sku).run told (.done (.ok ()))) : Silent told := by
  cases item with
  | none =>
    rw [(follows_done h).1]
    exact fun _ => rfl
  | some item =>
    obtain ⟨renamed, told₁, told₂, rfl, hrenamed, hrest⟩ := follows_bind_ok h
    rw [follows_call hrenamed, (follows_done hrest).1]
    exact silent_rename

/-- The item that an update renames is what inventory had last answered. -/
theorem follows_mirrorSku {input : UpdateProductInput} {item : InventoryItemView}
    (h : Follows (Method.mirrorSku id input product).run told (.done (.ok (some item)))) :
    lastAnswer product.id told = .answered (some item) := by
  unfold Method.mirrorSku at h
  cases hsku : Method.newSku input product with
  | none =>
    rw [hsku] at h
    cases (follows_done h).2
  | some sku =>
    rw [hsku] at h
    obtain ⟨found, told₁, told₂, rfl, hfound, hrest⟩ := follows_bind_ok h
    obtain ⟨_, told₂, told₃, rfl, hchecked, hrest⟩ := follows_bind_ok hrest
    obtain ⟨_, told₃, told₄, rfl, hrenamed, hrest⟩ := follows_bind_ok hrest
    obtain ⟨rfl, hitem⟩ := follows_done hrest
    cases hitem
    obtain ⟨reply, rfl, hreply⟩ := follows_readStock hfound
    rw [lastAnswer_append ((follows_checkSku hchecked).append
      ((follows_renameItem hrenamed).append fun _ => rfl))]
    have hlast : lastAnswer product.id ([] ++ [looked product.id reply]) = .of reply :=
      lastAnswer_looked
    rw [List.nil_append] at hlast
    rw [hlast]
    cases reply with
    | error e => cases hreply
    | ok record =>
      cases hreply
      rfl

/-- An update that returned has the view of the product it wrote, with the item it renamed or what a
last lookup answered. -/
theorem follows_writeProduct {input : UpdateProductInput} {item : Option InventoryItemView}
    (h : Follows (Method.writeProduct id input product item).run told (.done (.ok view))) :
    ∃ written told', told = ⟨.repository (.update id input), .ok written⟩ :: told' ∧
      ((∃ record, item = some record ∧ told' = [] ∧ view = toProductView written (some record)) ∨
        ∃ reply, told' = [looked written.id reply] ∧
          view = toProductView written (Answer.of reply).item) := by
  rcases follows_tryCatch h with ⟨_, hview, hwrite⟩ | ⟨e, told₁, told₂, rfl, -, hundo⟩
  · cases hview
    obtain ⟨written, told₁, told₂, rfl, hwritten, hrest⟩ := follows_bind_ok hwrite
    refine ⟨written, told₂, by rw [follows_call hwritten]; rfl, ?_⟩
    cases item with
    | some record =>
      obtain ⟨rfl, hview⟩ := follows_done hrest
      cases hview
      exact .inl ⟨record, rfl, rfl, rfl⟩
    | none =>
      obtain ⟨found, told₂, told₃, rfl, hfound, hview⟩ := follows_bind_ok hrest
      obtain ⟨rfl, hview⟩ := follows_done hview
      cases hview
      obtain ⟨reply, rfl, hreply⟩ := follows_readStock hfound
      cases hreply
      exact .inr ⟨reply, List.append_nil _, rfl⟩
  · dsimp only at hundo
    split at hundo
    · obtain ⟨_, told₂, told₃, rfl, -, hthrow⟩ := follows_bind_ok hundo
      cases (follows_throw hthrow).2
    · cases (follows_throw hundo).2

/-- A row that an update wrote has the id it was written under. -/
theorem written_id {input : UpdateProductInput} {fate : Fate} {w : World}
    (h : ((Call.repository (.update id input)).perform fate w).1 = .ok product) :
    product.id = uuidText id := by
  cases fate with
  | lost => cases h
  | failed => cases h
  | answered =>
    change (Repository.update id input w.products).1.mapError _ = _ at h
    unfold Repository.update at h
    cases hfound : w.products.findById id with
    | none =>
      rw [hfound] at h
      cases h
    | some current =>
      rw [hfound] at h
      dsimp only at h
      rcases w.products.write_cases (w.products.updated id input)
        (w.products.updated_uuids id input) (current.applyUpdate input) with
        ⟨error, hwrite⟩ | ⟨db', hwrite, -⟩
      · rw [hwrite] at h
        cases h
      · rw [hwrite] at h
        cases h
        exact (Database.findById_some hfound).2

theorem found_id {fate : Fate} {w : World}
    (h : ((Call.repository (.findById id)).perform fate w).1 = .ok (some product)) :
    product.id = uuidText id := by
  cases fate with
  | lost => cases h
  | failed => cases h
  | answered =>
    have hfound : w.products.findById id = some product := Except.ok.inj h
    exact (Database.findById_some hfound).2

/-- The view of an update has what inventory last answered, and not whether it answered. -/
theorem follows_update {input : UpdateProductInput} (hc : Credible told)
    (h : Follows (Method.update id input).run told (.done (.ok view))) :
    ∃ product answer, view = toProductView product answer.item true ∧
      lastAnswer product.id told = answer := by
  obtain ⟨current, told₁, told₂, rfl, hcurrent, hrest⟩ := follows_bind_ok h
  obtain ⟨item, told₂, told₃, rfl, hmirrored, hwritten⟩ := follows_bind_ok hrest
  obtain ⟨written, told', rfl, hview⟩ := follows_writeProduct hwritten
  have hid : written.id = current.id := by
    obtain ⟨fate, w, hreply⟩ := hc ⟨.repository (.update id input), .ok written⟩ (by simp)
    obtain ⟨fate', w', hreply'⟩ := hc ⟨.repository (.findById id), .ok (some current)⟩
      (by simp [follows_getProduct hcurrent])
    exact (written_id hreply).trans (found_id hreply').symm
  refine ⟨written, lastAnswer written.id (told₁ ++ (told₂ ++
    ⟨.repository (.update id input), .ok written⟩ :: told')), ?_, rfl⟩
  rcases hview with ⟨record, rfl, rfl, rfl⟩ | ⟨reply, rfl, rfl⟩
  · have hlast : lastAnswer written.id (told₂ ++ [⟨.repository (.update id input), .ok written⟩]) =
        .answered (some record) := by
      rw [lastAnswer_append silent_repository, hid]
      exact follows_mirrorSku hmirrored
    rw [lastAnswer_answered hlast]
    rfl
  · have hlast : lastAnswer written.id ((told₁ ++ (told₂ ++
        [⟨.repository (.update id input), .ok written⟩])) ++ [looked written.id reply]) =
        .of reply := lastAnswer_looked
    rw [List.append_assoc, List.append_assoc, List.singleton_append] at hlast
    rw [hlast]

end Told

/-! ## The bulk lookup -/

section Bulk

open Inventory (find?_of_nodup_map mem_selected)
open Inventory.PrismaInventoryRepository (selected)
open Lister (Found MAX_BULK_IDS bulkQuery chunks)

variable {text : PostgresText} {db : Inventory.Database} {ids : List String} {productId : String}

/-- A page of products is looked up in one chunk. -/
theorem chunks_eq_singleton (hne : ids ≠ []) (hlen : ids.length ≤ MAX_BULK_IDS) :
    chunks ids = [ids] := by
  have hpos : 0 < ids.length := List.length_pos_iff.mpr hne
  have hone : (ids.length + (MAX_BULK_IDS - 1)) / MAX_BULK_IDS = 1 := by
    unfold MAX_BULK_IDS at hlen ⊢
    omega
  unfold chunks
  rw [hone, List.range_one, List.map_singleton, Foundations.page_zero, List.take_of_length_le hlen]

variable (text db) in
/-- The products of inventory's table are different, and so are those of what it lists. -/
theorem selected_products :
    ((selected text (bulkQuery ids) db.inventoryItems).map (·.productId)).Nodup := by
  have hperm := (List.perm_insertionSort (Inventory.PrismaInventoryRepository.orderBy text.le
    (bulkQuery ids).sortBy (bulkQuery ids).order) (db.inventoryItems.filter
      (Inventory.PrismaInventoryRepository.selects text (bulkQuery ids)))).map (·.productId)
  refine hperm.nodup_iff.mpr ?_
  exact (db.uniqueKeys.2.2).sublist (List.filter_sublist.map _)

theorem mem_selected_bulk {item : InventoryItem} :
    item ∈ selected text (bulkQuery ids) db.inventoryItems ↔
      item ∈ db.inventoryItems ∧ item.productId ∈ ids.map uuidText := by
  rw [mem_selected]
  simp [Inventory.PrismaInventoryRepository.selects, bulkQuery]

/-- The cap cuts nothing off a chunk. -/
theorem listed_bulk (hlen : ids.length ≤ MAX_BULK_IDS) :
    listed text db (bulkQuery ids) =
      (selected text (bulkQuery ids) db.inventoryItems).map toInventoryItemView := by
  have hsub : (selected text (bulkQuery ids) db.inventoryItems).map (·.productId) ⊆
      ids.map uuidText := by
    intro p hp
    obtain ⟨item, hitem, rfl⟩ := List.mem_map.mp hp
    exact (mem_selected_bulk.mp hitem).2
  have hcount := (List.subperm_of_subset (selected_products text db) hsub).length_le
  rw [List.length_map, List.length_map] at hcount
  have hpage : (Inventory.PrismaInventoryRepository.list text db.inventoryItems
      (bulkQuery ids)).items = selected text (bulkQuery ids) db.inventoryItems := by
    change ((selected text (bulkQuery ids) db.inventoryItems).drop 0).take MAX_BULK_IDS = _
    rw [List.drop_zero, List.take_of_length_le (by omega)]
  unfold listed
  rw [hpage]

/-- A bulk lookup finds of each of its products what a single one does. -/
theorem find?_listed (hlen : ids.length ≤ MAX_BULK_IDS) (hmem : productId ∈ ids)
    (huuid : uuidText productId = productId) :
    (listed text db (bulkQuery ids)).find? (·.productId = productId) =
      (db.findByProductId productId).map toInventoryItemView := by
  rw [listed_bulk hlen, List.find?_map]
  congr 1
  change (selected text (bulkQuery ids) db.inventoryItems).find? (·.productId = productId) = _
  cases hfound : db.findByProductId productId with
  | none =>
    unfold Inventory.Database.findByProductId at hfound
    rw [List.find?_eq_none] at hfound ⊢
    exact fun item hitem => hfound item (mem_selected_bulk.mp hitem).1
  | some item =>
    obtain ⟨hitem, rfl⟩ := Inventory.Database.findByProductId_mem hfound
    refine find?_of_nodup_map (f := InventoryItem.productId) (selected_products text db) ?_
    exact mem_selected_bulk.mpr ⟨hitem, List.mem_map.mpr ⟨_, hmem, huuid⟩⟩

/-- The map has the item of each product that is among the items. -/
theorem foldl_set {items : List InventoryItemView} {found : Found}
    (h : (items.map (·.productId)).Nodup) :
    items.foldl Found.set found productId =
      (items.find? (·.productId = productId)).or (found productId) := by
  induction items generalizing found with
  | nil => rfl
  | cons item items ih =>
    rw [List.map_cons, List.nodup_cons] at h
    rw [List.foldl_cons, ih h.2]
    by_cases he : item.productId = productId
    · have hnone : items.find? (·.productId = productId) = none := by
        rw [List.find?_eq_none]
        intro other hother hp
        exact h.1 (he ▸ List.mem_map.mpr ⟨other, hother, of_decide_eq_true hp⟩)
      have hsome : (item :: items).find? (·.productId = productId) = some item := by
        simp [he]
      rw [hnone, hsome]
      exact if_pos he.symm
    · rw [List.find?_cons_of_neg (by simpa using he)]
      congr 1
      exact if_neg fun h => he h.symm

theorem follows_readStockForPage {told : History ListCall ListCall.Reply} {found : Found}
    {reachable : Bool} (hchunk : chunks ids = [ids])
    (h : Follows (Lister.readStockForPage ids).run told (.done (.ok (found, reachable)))) :
    ∃ reply, told = [⟨.inventory (bulkQuery ids), reply⟩] ∧
      ((∃ items, reply = .ok items ∧ found = items.foldl Found.set Found.empty ∧
        reachable = true) ∨ ∃ e, reply = .error e ∧ found = Found.empty ∧ reachable = false) := by
  unfold Lister.readStockForPage Lister.findByProductIds at h
  rw [hchunk] at h
  obtain ⟨reply, told, rfl, hrest⟩ := follows_perform h
  refine ⟨reply, ?_⟩
  cases reply with
  | ok items =>
    obtain ⟨rfl, hresult⟩ := follows_done hrest
    cases hresult
    exact ⟨rfl, .inl ⟨items, rfl, rfl, rfl⟩⟩
  | error e =>
    obtain ⟨rfl, hresult⟩ := follows_done hrest
    cases hresult
    exact ⟨rfl, .inr ⟨e, rfl, rfl, rfl⟩⟩

variable {told : History ListCall ListCall.Reply} {query : ListProductsQuery}
  {result : ListProductsView} {products : ListProductsResult}
  {reply : (ListCall.inventory (bulkQuery ids)).Reply}

/-- A listing reads a page, and then the stock of its products. -/
theorem follows_list (h : Follows (Lister.list query).run told (.done (.ok result))) :
    ∃ products told', told = ⟨.products query, .ok products⟩ :: told' ∧
      ((products.items = [] ∧ result.items = []) ∨ ∃ found reachable,
        Follows (Lister.readStockForPage (products.items.map (·.id))).run told'
          (.done (.ok (found, reachable))) ∧
        result.items = products.items.map fun product =>
          toProductView product (found product.id) reachable) := by
  obtain ⟨reply, told, rfl, hrest⟩ := follows_perform h
  cases reply with
  | error e => cases (follows_done hrest).2
  | ok products =>
    refine ⟨products, told, rfl, ?_⟩
    change Follows (ExceptT.run (if products.items = [] then _ else _)) told _ at hrest
    split at hrest
    · rename_i hnone
      cases (follows_done hrest).2
      exact .inl ⟨hnone, rfl⟩
    · obtain ⟨⟨found, reachable⟩, told₁, told₂, rfl, hstock, hview⟩ := follows_bind_ok hrest
      obtain ⟨rfl, hview⟩ := follows_done hview
      cases hview
      rw [List.append_nil]
      exact .inr ⟨found, reachable, hstock, rfl⟩

/-- What the only bulk lookup of a listing says. -/
theorem bulkAnswer_page {page : (ListCall.products query).Reply} (hmem : productId ∈ ids) :
    bulkAnswer productId [⟨.products query, page⟩, ⟨.inventory (bulkQuery ids), reply⟩] =
      .of (reply.map fun items => items.find? (·.productId = productId)) := by
  have hasked : ((bulkQuery ids).productIds.any (·.contains productId)) = true := by
    change ids.contains productId = true
    exact List.contains_iff_mem.mpr hmem
  have hanswers : [(⟨.products query, page⟩ : (c : ListCall) × c.Reply),
      ⟨.inventory (bulkQuery ids), reply⟩].filterMap (fun x => x.1.answer productId x.2) =
      [.of (reply.map fun items => items.find? (·.productId = productId))] := by
    rw [List.filterMap_cons_none rfl]
    exact List.filterMap_cons_some (if_pos hasked)
  unfold bulkAnswer
  rw [hanswers]
  rfl

/-- The views of a listing say what the bulk lookup said of their products, and that is what
inventory had of them. -/
theorem listed_truthful (hc : CredibleList text told)
    (h : Follows (Lister.list query).run told (.done (.ok result))) {view : ProductView}
    (hview : view ∈ result.items) :
    Truthful (bulkAnswer view.id told) view ∧
      ∀ record, bulkAnswer view.id told = .answered record → ∃ asked db,
        ⟨.inventory asked, .ok (listed text db asked)⟩ ∈ told ∧
        record = (db.findByProductId view.id).map toInventoryItemView := by
  obtain ⟨products, told, rfl, ⟨-, hnone⟩ | ⟨found, reachable, hstock, hitems⟩⟩ := follows_list h
  · rw [hnone] at hview
    cases hview
  obtain ⟨table, hrows, hlen⟩ := hc ⟨.products query, .ok products⟩ List.mem_cons_self
  rw [hitems] at hview
  obtain ⟨product, hproduct, rfl⟩ := List.mem_map.mp hview
  have huuid : uuidText product.id = product.id := table.uuids product (hrows product hproduct)
  have hmem : product.id ∈ products.items.map (·.id) := List.mem_map_of_mem hproduct
  have hcapped : (products.items.map (·.id)).length ≤ MAX_BULK_IDS := by
    rw [List.length_map]
    exact hlen.trans query.capped
  obtain ⟨reply, rfl, hreply⟩ := follows_readStockForPage
    (chunks_eq_singleton (List.ne_nil_of_mem hmem) hcapped) hstock
  have hanswer : bulkAnswer product.id [⟨.products query, .ok products⟩,
      ⟨.inventory (bulkQuery (products.items.map (·.id))), reply⟩] =
      .of (reply.map fun items => items.find? (·.productId = product.id)) := bulkAnswer_page hmem
  change Truthful (bulkAnswer product.id _) _ ∧ ∀ record, bulkAnswer product.id _ = _ → _
  rw [hanswer]
  rcases hreply with ⟨items, rfl, rfl, rfl⟩ | ⟨e, rfl, rfl, rfl⟩
  · obtain ⟨db, hdb⟩ := hc ⟨.inventory (bulkQuery (products.items.map (·.id))), .ok items⟩
      (List.mem_cons_of_mem _ List.mem_cons_self)
    have hfound : items.foldl Found.set Found.empty product.id =
        items.find? (·.productId = product.id) := by
      rw [foldl_set, Found.empty, Option.or_none]
      rw [hdb, listed_bulk hcapped, List.map_map]
      exact selected_products text db
    rw [hfound]
    refine ⟨truthful_toProductView product (.answered _), fun record h => ?_⟩
    cases h
    refine ⟨bulkQuery (products.items.map (·.id)), db,
      List.mem_cons_of_mem _ (List.mem_singleton.mpr ?_), ?_⟩
    · rw [hdb]
    · rw [hdb]
      exact find?_listed hcapped hmem huuid
  · refine ⟨truthful_toProductView product .unanswered, fun record h => ?_⟩
    cases h

end Bulk

/-- However inventory stands and whether or not it answers, the views of a listing are truthful, and
so is any other unless it is of an update that inventory did not answer about its product. -/
theorem stock_status_truthful_iff (text : PostgresText) :
    (∀ (viewing : Viewing) (told : History Call Call.Reply) (view : ProductView),
      Credible told → Follows viewing.method.run told (.done (.ok view)) →
        (Truthful (lastAnswer view.id told) view ↔ viewing.Heard (lastAnswer view.id told))) ∧
    ∀ (query : ListProductsQuery) (told : History ListCall ListCall.Reply)
      (result : ListProductsView), CredibleList text told →
        Follows (Lister.list query).run told (.done (.ok result)) → ∀ view ∈ result.items,
          Truthful (bulkAnswer view.id told) view ∧
            ∀ record, bulkAnswer view.id told = .answered record → ∃ asked db,
              ⟨.inventory asked, .ok (listed text db asked)⟩ ∈ told ∧
              record = (db.findByProductId view.id).map toInventoryItemView := by
  refine ⟨fun viewing told view hc h => ?_, fun query told result hc h view hview =>
    listed_truthful hc h hview⟩
  cases viewing with
  | getById id =>
    obtain ⟨product, answer, rfl, hlast⟩ := follows_getById h
    refine iff_of_true ?_ trivial
    change Truthful (lastAnswer product.id told) _
    rw [hlast]
    exact truthful_toProductView product answer
  | create input =>
    obtain ⟨product, record, rfl, hlast⟩ := follows_create h
    refine iff_of_true ?_ trivial
    change Truthful (lastAnswer product.id told) _
    rw [hlast]
    exact truthful_toProductView product (.answered (some record))
  | update id input =>
    obtain ⟨product, answer, rfl, hlast⟩ := follows_update hc h
    change Truthful (lastAnswer product.id told) _ ↔ lastAnswer product.id told ≠ .unanswered
    rw [hlast]
    exact truthful_dropped product answer

/-! The desk gets a new name, and inventory does not answer about its stock. -/

def retitleDesk : UpdateProductInput where
  name := some "Oak desk"
  named := rfl

/-- What the update is told, up to inventory's answer. -/
def retitling (reply : Except Thrown (Option InventoryItemView)) : History Call Call.Reply :=
  [⟨.repository (.findById "7"), .ok (some desk)⟩,
    ⟨.repository (.update "7" retitleDesk), .ok (desk.applyUpdate retitleDesk)⟩, looked "7" reply]

def retitled (reply : Except Thrown (Option InventoryItemView)) : ProductView :=
  toProductView (desk.applyUpdate retitleDesk) (Answer.of reply).item

theorem retitling_credible (fate : Fate) :
    Credible (retitling ((Call.inventory (.findByProductId "7")).perform fate deskWorld).1) := by
  have hfound : deskWorld.products.findById "7" = some desk := deskWorld_paired.found
  intro x hx
  rcases List.mem_cons.mp hx with rfl | hx
  · exact ⟨.answered, deskWorld, congrArg Except.ok hfound⟩
  rcases List.mem_cons.mp hx with rfl | hx
  · have halone : ∀ row ∈ deskWorld.products.rows, row ≠ desk →
        row.sku ≠ (desk.applyUpdate retitleDesk).sku :=
      fun row hrow hne => absurd (List.mem_singleton.mp hrow) hne
    obtain ⟨db', hwrite, -⟩ := Repository.update_accepted hfound halone
    refine ⟨.answered, deskWorld, ?_⟩
    change (Repository.update "7" retitleDesk deskWorld.products).1.mapError Thrown.database = _
    rw [hwrite]
    rfl
  · obtain rfl := List.mem_singleton.mp hx
    exact ⟨fate, deskWorld, rfl⟩

theorem retitling_follows (reply : Except Thrown (Option InventoryItemView)) :
    Follows (Method.update "7" retitleDesk).run (retitling reply) (.done (.ok (retitled reply))) := by
  refine .perform (.perform (.perform ?_))
  cases reply with
  | ok record => exact .here _
  | error e => exact .here _

theorem deskPage_paged : 1 ≤ 1 := by omega

theorem deskPage_limited : 1 ≤ 20 := by omega

theorem deskPage_capped : 20 ≤ 100 := by omega

def deskPage : ListProductsQuery where
  page := 1
  limit := 20
  paged := deskPage_paged
  limited := deskPage_limited
  capped := deskPage_capped

/-- What inventory lists of the page. -/
def deskListed : List InventoryItemView :=
  listed Inventory.plainText deskWorld.inventory (Lister.bulkQuery ["7"])

/-- What a listing of the desk is told. -/
def listing : History ListCall ListCall.Reply :=
  [⟨.products deskPage, .ok { items := [desk], total := 1 }⟩,
    ⟨.inventory (Lister.bulkQuery ["7"]), .ok deskListed⟩]

def deskShown : ProductView :=
  toProductView desk (deskListed.foldl Lister.Found.set Lister.Found.empty "7")

theorem listing_credible : CredibleList Inventory.plainText listing := by
  intro x hx
  rcases List.mem_cons.mp hx with rfl | hx
  · exact ⟨deskWorld.products, fun product hproduct => hproduct, by decide⟩
  · obtain rfl := List.mem_singleton.mp hx
    exact ⟨deskWorld.inventory, rfl⟩

theorem listing_follows : Follows (Lister.list deskPage).run listing
    (.done (.ok { items := [deskShown], total := 1 })) :=
  .perform (.perform (.here _))

theorem stock_status_truthful_iff_desk :
    Truthful (.answered (some (toInventoryItemView deskItem)))
        (retitled (.ok (some (toInventoryItemView deskItem)))) ∧
      Truthful (bulkAnswer deskShown.id listing) deskShown := by
  have hanswered : ((Call.inventory (.findByProductId "7")).perform .answered deskWorld).1 =
      .ok (some (toInventoryItemView deskItem)) :=
    congrArg (fun found => Except.ok (Option.map toInventoryItemView found)) deskWorld_paired.stocked
  have hc := retitling_credible .answered
  rw [hanswered] at hc
  constructor
  · exact ((stock_status_truthful_iff Inventory.plainText).1 (.update "7" retitleDesk) _ _ hc
      (retitling_follows _)).mpr nofun
  · exact ((stock_status_truthful_iff Inventory.plainText).2 deskPage _ _ listing_credible
      listing_follows deskShown List.mem_cons_self).1

/-- Inventory does not answer, and the view says that it has no record. -/
theorem stock_status_untruthful : ¬ ∀ (viewing : Viewing) (told : History Call Call.Reply)
    (view : ProductView), Credible told → Follows viewing.method.run told (.done (.ok view)) →
      Truthful (lastAnswer view.id told) view := by
  intro hall
  have h := hall (.update "7" retitleDesk) _ _ (retitling_credible .failed) (retitling_follows _)
  exact (truthful_dropped (desk.applyUpdate retitleDesk) .unanswered).mp h rfl

end PracticalMicroservice.Products
