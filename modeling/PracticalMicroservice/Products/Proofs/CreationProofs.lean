import PracticalMicroservice.Products.Sagas
import PracticalMicroservice.Products.Proofs.CallProofs
import PracticalMicroservice.Products.Proofs.UpdateProofs

/-!
# How creates end

What a create has been told says how far it is (`Stage`), and each stage says what the stores hold of
its product. The calls of one create only touch what is kept under its own id, so the others find
their stages as they left them.
-/

namespace PracticalMicroservice.Products

open Foundations (Called Event Meets Pool Recounted Tells invariant_of_steps pastOf
  pool_step_cases recounting runs tells_bind tells_pure tells_throw)
open Inventory (Fate InventoryItem InventoryItemView toInventoryItemView uuidText
  uuidText_uuidText)

/-! ## How far a create is -/

/-- How far a create is, with its product once there is one. -/
inductive Stage
  | before
  | inserted (product : Product)
  | provisioned (product : Product) (item : InventoryItemView)
  /-- The record could not be created, or was and the reply is lost. -/
  | failed (product : Product)
  | found (product : Product) (item : InventoryItemView)
  | discarded (product : Product)
  /-- Undoing the record failed. -/
  | stranded (product : Product)
  | deleted (product : Product)
  /-- Undoing failed. -/
  | left (product : Product)

namespace Stage

/-- The product of the create. -/
def product? : Stage → Option Product
  | before => none
  | inserted product | provisioned product _ | failed product | found product _
  | discarded product | stranded product | deleted product | left product => some product

/-- The stage after a reply. -/
def next : Stage → (command : Call) × command.Reply → Stage
  | before, ⟨.repository (.create _), .ok product⟩ => inserted product
  | inserted product, ⟨.inventory (.create _), .ok item⟩ => provisioned product item
  | inserted product, ⟨.inventory (.create _), .error _⟩ => failed product
  | failed product, ⟨.inventory (.findByProductId _), .ok none⟩ => discarded product
  | failed product, ⟨.inventory (.findByProductId _), .ok (some item)⟩ => found product item
  | failed product, ⟨.inventory (.findByProductId _), .error _⟩ => stranded product
  | found product _, ⟨.inventory (.delete _), .ok _⟩ => discarded product
  | found product _, ⟨.inventory (.delete _), .error _⟩ => stranded product
  | discarded product, ⟨.repository (.delete _), .ok _⟩ => deleted product
  | discarded product, ⟨.repository (.delete _), .error _⟩ => left product
  | stranded product, ⟨.repository (.delete _), _⟩ => left product
  | stage, _ => stage

/-- What a create of an input may call next. -/
def Allows (input : CreateProductInput) : Stage → Call → Prop
  | before, .repository (.findBySku _) => True
  | before, .repository (.create fields) => fields = input.toNewProductRecord
  | inserted product, .inventory (.create body) => body = Method.provisioning input product
  | failed product, .inventory (.findByProductId productId) => productId = product.id
  | found _ item, .inventory (.delete id) => id = item.id
  | discarded product, .repository (.delete id) => id = product.id
  | stranded product, .repository (.delete id) => id = product.id
  | _, _ => False

/-- How a create ends. -/
def Ended : Stage → Except Thrown ProductView → Prop
  | provisioned product item, .ok view => view = toProductView product (some item)
  | before, .error _ | deleted _, .error _ | left _, .error _ => True
  | _, _ => False

/-- What the stores hold of the product of a create. -/
def Holds (w : World) : Stage → Prop
  | before => True
  | inserted product => product ∈ w.products.rows ∧
      ∀ item ∈ w.inventory.inventoryItems, item.productId ≠ product.id
  | provisioned product _ => product ∈ w.products.rows ∧
      ∃ item ∈ w.inventory.inventoryItems, item.productId = product.id ∧ item.sku = product.sku
  | failed _ => True
  | found product item =>
    ∃ row ∈ w.inventory.inventoryItems, row.id = item.id ∧ row.productId = product.id
  | discarded product => ∀ item ∈ w.inventory.inventoryItems, item.productId ≠ product.id
  | stranded _ => True
  | deleted product => (∀ row ∈ w.products.rows, row.id ≠ product.id) ∧
      ∀ item ∈ w.inventory.inventoryItems, item.productId ≠ product.id
  | left _ => True

end Stage

/-- How far a create is that has been told so much. -/
def stageOf : Told → Stage
  | [] => .before
  | told :: past => (stageOf past).next told

/-! ## The code of a create -/

section Code

variable {α : Type} {input : CreateProductInput} {product : Product} {past : Told}

/-- A create that has been told so much may make the call. -/
abbrev Granted (input : CreateProductInput) (past : Told) (c : Call) : Prop :=
  (stageOf past).Allows input c

theorem tells_discardStock (h : stageOf past = .failed product) :
    Tells Granted Possible input (Method.compensate (Method.discardStock product.id))
      (fun _ past' => stageOf past' = .discarded product ∨ stageOf past' = .stranded product)
      (fun _ _ => False) past := by
  refine tells_compensate (tells_bind (tells_method_call ?_ (fun found => ?_) fun e => ?_))
  · rw [Granted, h]
    rfl
  · have hnext : stageOf (⟨.inventory (.findByProductId product.id), .ok found⟩ :: past) =
        (Stage.failed product).next ⟨.inventory (.findByProductId product.id), .ok found⟩ := by
      rw [← h]
      rfl
    cases found with
    | none => exact tells_pure (.inl hnext)
    | some item =>
      have hfound : stageOf (⟨.inventory (.findByProductId product.id), .ok (some item)⟩ :: past) =
        .found product item := hnext
      refine tells_method_call ?_ (fun _ => .inl ?_) fun e => .inr ?_
      · rw [Granted, hfound]
        rfl
      · show Stage.next _ _ = _
        rw [hfound]
        rfl
      · show Stage.next _ _ = _
        rw [hfound]
        rfl
  · right
    show Stage.next _ _ = _
    rw [h]
    rfl

theorem tells_deleteProduct
    (h : stageOf past = .discarded product ∨ stageOf past = .stranded product) :
    Tells Granted Possible input (Method.compensate (Method.call (.repository (.delete product.id))))
      (fun _ past' => stageOf past' = .deleted product ∨ stageOf past' = .left product)
      (fun _ _ => False) past := by
  rcases h with h | h
  · refine tells_compensate (tells_method_call ?_ (fun _ => .inl ?_) fun e => .inr ?_)
    · rw [Granted, h]
      rfl
    · show Stage.next _ _ = _
      rw [h]
      rfl
    · show Stage.next _ _ = _
      rw [h]
      rfl
  · refine tells_compensate (tells_method_call ?_ (fun _ => .inr ?_) fun e => .inr ?_)
    · rw [Granted, h]
      rfl
    · show Stage.next _ _ = _
      rw [h]
      rfl
    · show Stage.next _ _ = _
      rw [h]
      rfl

/-- A create goes through the stages and ends in one that says what it returns. -/
theorem tells_create (h : stageOf past = .before) :
    Tells Granted Possible input (Method.create input)
      (fun view past' => (stageOf past').Ended (.ok view))
      (fun e past' => (stageOf past').Ended (.error e)) past := by
  unfold Method.create
  have hread : ∀ reply, stageOf (⟨.repository (.findBySku input.sku.text), reply⟩ :: past) =
      .before := by
    intro reply
    show Stage.next _ _ = _
    rw [h]
    rfl
  refine tells_bind (tells_method_call ?_ (fun existing => ?_) fun e => ?_)
  · rw [Granted, h]
    trivial
  · have hstill := hread (.ok existing)
    cases existing with
    | some other =>
      refine tells_throw ?_
      rw [hstill]
      trivial
    | none =>
      refine tells_bind (tells_method_call ?_ (fun product => ?_) fun e => ?_)
      · rw [Granted, hstill]
        rfl
      · have hinserted : stageOf (⟨.repository (.create input.toNewProductRecord), .ok product⟩ ::
            ⟨.repository (.findBySku input.sku.text), .ok none⟩ :: past) = .inserted product := by
          show Stage.next _ _ = _
          rw [hstill]
          rfl
        refine Foundations.tells_tryCatch (tells_bind (tells_method_call ?_ (fun item => ?_)
          fun e => ?_))
        · rw [Granted, hinserted]
          rfl
        · refine tells_pure ?_
          show (Stage.next _ _).Ended _
          rw [hinserted]
          rfl
        · have hfailed : stageOf (⟨.inventory (.create (Method.provisioning input product)), .error e⟩ ::
              ⟨.repository (.create input.toNewProductRecord), .ok product⟩ ::
              ⟨.repository (.findBySku input.sku.text), .ok none⟩ :: past) = .failed product := by
            show Stage.next _ _ = _
            rw [hinserted]
            rfl
          refine tells_bind ((tells_discardStock hfailed).mono (fun _ past' hp => ?_)
            fun _ _ hf => hf.elim)
          refine tells_bind ((tells_deleteProduct hp).mono (fun _ past'' hd => ?_)
            fun _ _ hf => hf.elim)
          refine tells_throw ?_
          rcases hd with hd | hd
          · rw [hd]
            trivial
          · rw [hd]
            trivial
      · show (Stage.next _ _).Ended _
        rw [hstill]
        trivial
  · show (stageOf _).Ended _
    rw [hread]
    trivial

/-- The code of a create, analysed. -/
theorem create_meets (input : CreateProductInput) :
    Meets (recounting Granted Possible) (createProgram input)
      (fun r g => (stageOf g.2).Ended r) (input, []) := by
  refine Foundations.Ensured.meets (tells_create rfl) ?_ ?_
  · rintro view ⟨_, past⟩ ⟨rfl, hended⟩
    exact hended
  · rintro e ⟨_, past⟩ ⟨rfl, hended⟩
    exact hended

end Code

/-! ## What one call does -/

/-- Everything outside one product id is where it was. -/
structure Confined (id : String) (w w' : World) : Prop where
  rows : ∀ row : Product, row.id ≠ id → (row ∈ w'.products.rows ↔ row ∈ w.products.rows)
  items : ∀ item : InventoryItem, item.productId ≠ id →
    (item ∈ w'.inventory.inventoryItems ↔ item ∈ w.inventory.inventoryItems)
  uuids : w'.uuids = w.uuids
  later : w.minted ≤ w'.minted

section Confined

variable {id : String} {w w' : World} {g : Stage} {product : Product}

theorem Idle.confined (h : Idle w w') (id : String) : Confined id w w' where
  rows row _ := by rw [h.rows]
  items item _ := by rw [h.items]
  uuids := h.uuids
  later := h.later

/-- A call confined to another product leaves a stage as it was. -/
theorem Stage.Holds.frame (h : g.Holds w) (hc : Confined id w w') (hp : g.product? = some product)
    (hne : product.id ≠ id) : g.Holds w' := by
  have hitems : (∀ item ∈ w.inventory.inventoryItems, item.productId ≠ product.id) →
      ∀ item ∈ w'.inventory.inventoryItems, item.productId ≠ product.id := by
    intro hnone item hitem he
    have hother : item.productId ≠ id := fun he' => hne (he.symm.trans he')
    exact hnone item ((hc.items item hother).mp hitem) he
  cases g with
  | before => cases hp
  | inserted p =>
    obtain rfl := Option.some.inj hp
    exact ⟨(hc.rows p hne).mpr h.1, hitems h.2⟩
  | provisioned p view =>
    obtain rfl := Option.some.inj hp
    obtain ⟨hrow, item, hitem, hid, hsku⟩ := h
    have hother : item.productId ≠ id := fun he => hne (hid.symm.trans he)
    exact ⟨(hc.rows p hne).mpr hrow, item, (hc.items item hother).mpr hitem, hid, hsku⟩
  | failed p => trivial
  | found p view =>
    obtain rfl := Option.some.inj hp
    obtain ⟨row, hrow, hid, hproduct⟩ := h
    have hother : row.productId ≠ id := fun he => hne (hproduct.symm.trans he)
    exact ⟨row, (hc.items row hother).mpr hrow, hid, hproduct⟩
  | discarded p =>
    obtain rfl := Option.some.inj hp
    exact hitems h
  | stranded p => trivial
  | deleted p =>
    obtain rfl := Option.some.inj hp
    refine ⟨fun row hrow he => ?_, hitems h.2⟩
    have hother : row.id ≠ id := fun he' => hne (he.symm.trans he')
    exact h.1 row ((hc.rows row hother).mp hrow) he
  | left p => trivial

end Confined

/-- What a call of a create that has its product does. -/
structure OwnStep (g : Stage) (product : Product) (e : StoreEvent) : Prop where
  product? : (g.next e.told).product? = some product
  holds : (g.next e.told).Holds e.after
  confined : Confined product.id e.before e.after
  rows : ∀ row ∈ e.after.products.rows, row ∈ e.before.products.rows
  items : ∀ item ∈ e.after.inventory.inventoryItems,
    item ∈ e.before.inventory.inventoryItems ∨ item.productId = product.id
  clean : (g.next e.told = .stranded product ∨ g.next e.told = .left product) →
    ¬ Settled e ∨ g = .stranded product

section OwnStep

variable {input : CreateProductInput} {product : Product} {i : Nat} {fate : Fate} {w w' : World}
  {c : Call} {reply : c.Reply}

theorem eq_of_itemProduct {db : Inventory.Database} {row row' : InventoryItem}
    (h : row ∈ db.inventoryItems) (h' : row' ∈ db.inventoryItems)
    (he : row.productId = row'.productId) : row = row' :=
  List.inj_on_of_nodup_map db.uniqueKeys.2.2 h h' he

/-- The record of the product is created. -/
theorem ownStep_provision (hu : uuidText product.id = product.id)
    (hg : (Stage.inserted product).Holds w) {reply : Except Thrown InventoryItemView}
    (hp : (Call.inventory (.create (Method.provisioning input product))).perform fate w =
      (reply, w')) :
    OwnStep (.inserted product) product
      ⟨i, .inventory (.create (Method.provisioning input product)), reply, w, w'⟩ := by
  obtain ⟨hrow, hnone⟩ := hg
  have hbecame := provide_became fate (Method.provisioning input product) w
  rw [hp] at hbecame
  set item := (Method.provisioning input product).item w with hitem
  have hproduct : item.productId = product.id := hu
  have hconfined : ∀ {w' : World}, Provides w item w' → Confined product.id w w' := by
    intro w' h
    refine ⟨fun row _ => by rw [h.rows], fun other hne => ?_, h.uuids, h.later⟩
    rw [h.items, List.mem_append, List.mem_singleton]
    constructor
    · intro ho
      refine ho.resolve_right fun he => hne ?_
      rw [he]
      exact hproduct
    · exact .inl
  have hitems : ∀ {w' : World}, Provides w item w' → ∀ other ∈ w'.inventory.inventoryItems,
      other ∈ w.inventory.inventoryItems ∨ other.productId = product.id := by
    intro w' h other hother
    rw [h.items, List.mem_append, List.mem_singleton] at hother
    refine hother.imp_right fun he => ?_
    rw [he]
    exact hproduct
  cases hbecame with
  | answered h =>
    refine ⟨rfl, ⟨?_, item, ?_, hproduct, rfl⟩, hconfined h, ?_, hitems h, ?_⟩
    · rw [h.rows]
      exact hrow
    · rw [h.items]
      exact List.mem_append_right _ (List.mem_singleton.mpr rfl)
    · rw [h.rows]
      exact fun _ hr => hr
    · rintro (he | he)
      · cases he
      · cases he
  | lost h =>
    refine ⟨rfl, trivial, hconfined h, ?_, hitems h, ?_⟩
    · rw [h.rows]
      exact fun _ hr => hr
    · rintro (he | he)
      · cases he
      · cases he
  | failed h =>
    refine ⟨rfl, trivial, h.confined _, ?_, ?_, ?_⟩
    · rw [h.rows]
      exact fun _ hr => hr
    · rw [h.items]
      exact fun _ hr => .inl hr
    · rintro (he | he)
      · cases he
      · cases he

/-- Inventory is asked what became of the record. -/
theorem ownStep_lookup (hu : uuidText product.id = product.id)
    {reply : Except Thrown (Option InventoryItemView)}
    (hp : (Call.inventory (.findByProductId product.id)).perform fate w = (reply, w')) :
    OwnStep (.failed product) product
      ⟨i, .inventory (.findByProductId product.id), reply, w, w'⟩ := by
  rcases lookup_cases fate product.id w with hl | ⟨e, hl⟩
  · rw [hp] at hl
    obtain ⟨rfl, rfl⟩ := Prod.mk.inj hl
    rw [hu]
    cases hf : w'.inventory.findByProductId product.id with
    | none =>
      refine ⟨rfl, fun item hitem he => ?_, (Idle.refl _).confined _, fun _ h => h,
        fun _ h => .inl h, ?_⟩
      · unfold Inventory.Database.findByProductId at hf
        rw [List.find?_eq_none] at hf
        exact hf item hitem (decide_eq_true he)
      · rintro (he | he)
        · cases he
        · cases he
    | some item =>
      obtain ⟨hmem, hid⟩ := Inventory.Database.findByProductId_mem hf
      refine ⟨rfl, ⟨item, hmem, rfl, hid⟩, (Idle.refl _).confined _, fun _ h => h,
        fun _ h => .inl h, ?_⟩
      rintro (he | he)
      · cases he
      · cases he
  · rw [hp] at hl
    obtain ⟨rfl, rfl⟩ := Prod.mk.inj hl
    exact ⟨rfl, trivial, (Idle.refl _).confined _, fun _ h => h, fun _ h => .inl h,
      fun _ => .inl fun h => h⟩

/-- The record that was found is deleted. -/
theorem ownStep_discard {view : InventoryItemView} (hg : (Stage.found product view).Holds w)
    {reply : Except Thrown Unit}
    (hp : (Call.inventory (.delete view.id)).perform fate w = (reply, w')) :
    OwnStep (.found product view) product ⟨i, .inventory (.delete view.id), reply, w, w'⟩ := by
  obtain ⟨item, hitem, hid, hproduct⟩ := hg
  have hbecame := discard_became fate view.id w
  rw [hp] at hbecame
  have hmem : ∀ {w' : World}, Discards w view.id w' → ∀ other : InventoryItem,
      other ∈ w'.inventory.inventoryItems ↔
        other ∈ w.inventory.inventoryItems ∧ other.id ≠ view.id := by
    intro w' h other
    rw [h.items, List.mem_filter, decide_eq_true_eq]
  have hconfined : ∀ {w' : World}, Discards w view.id w' → Confined product.id w w' := by
    intro w' h
    refine ⟨fun row _ => by rw [h.rows], fun other hne => ?_, h.uuids, by rw [h.minted]⟩
    rw [hmem h]
    refine ⟨fun ho => ho.1, fun ho => ⟨ho, fun he => ?_⟩⟩
    rw [eq_of_itemId ho hitem (he.trans hid.symm)] at hne
    exact hne hproduct
  have hitems : ∀ {w' : World}, Discards w view.id w' → ∀ other ∈ w'.inventory.inventoryItems,
      other ∈ w.inventory.inventoryItems ∨ other.productId = product.id :=
    fun h other ho => .inl ((hmem h other).mp ho).1
  cases hbecame with
  | answered h =>
    refine ⟨rfl, fun other ho he => ?_, hconfined h, ?_, hitems h, ?_⟩
    · obtain ⟨hold, hne⟩ := (hmem h other).mp ho
      rw [eq_of_itemProduct hold hitem (he.trans hproduct.symm)] at hne
      exact hne hid
    · rw [h.rows]
      exact fun _ hr => hr
    · rintro (he | he)
      · cases he
      · cases he
  | lost h =>
    refine ⟨rfl, trivial, hconfined h, ?_, hitems h, fun _ => .inl fun hs => hs⟩
    rw [h.rows]
    exact fun _ hr => hr
  | failed h =>
    refine ⟨rfl, trivial, h.confined _, ?_, ?_, fun _ => .inl fun hs => hs⟩
    · rw [h.rows]
      exact fun _ hr => hr
    · rw [h.items]
      exact fun _ hr => .inl hr

theorem mem_without {db : Database} {id : String} {row : Product} :
    row ∈ db.without id ↔ row ∈ db.rows ∧ row.id ≠ uuidText id := by
  unfold Database.without
  rw [List.mem_filter, decide_eq_true_eq]

/-- The product is deleted again. -/
theorem ownStep_delete {g : Stage} (hu : uuidText product.id = product.id)
    (hg : g = .discarded product ∧ g.Holds w ∨ g = .stranded product) {reply : Except Thrown Unit}
    (hp : (Call.repository (.delete product.id)).perform fate w = (reply, w')) :
    OwnStep g product ⟨i, .repository (.delete product.id), reply, w, w'⟩ := by
  have hbecame := delete_became fate product.id w
  rw [hp] at hbecame
  have hmem : ∀ {w' : World}, Deletes w product.id w' → ∀ row : Product,
      row ∈ w'.products.rows ↔ row ∈ w.products.rows ∧ row.id ≠ product.id := by
    intro w' h row
    rw [h.rows, mem_without, hu]
  have hconfined : ∀ {w' : World}, Deletes w product.id w' → Confined product.id w w' := by
    intro w' h
    refine ⟨fun row hne => ?_, fun item _ => by rw [h.items], h.uuids, by rw [h.minted]⟩
    rw [hmem h]
    exact ⟨fun hr => hr.1, fun hr => ⟨hr, hne⟩⟩
  have hidle : ∀ {w' : World}, Idle w w' → (∀ row ∈ w'.products.rows, row ∈ w.products.rows) ∧
      ∀ item ∈ w'.inventory.inventoryItems,
        item ∈ w.inventory.inventoryItems ∨ item.productId = product.id := by
    intro w' h
    rw [h.rows, h.items]
    exact ⟨fun _ hr => hr, fun _ hr => .inl hr⟩
  have hdeletes : ∀ {w' : World}, Deletes w product.id w' →
      (∀ row ∈ w'.products.rows, row ∈ w.products.rows) ∧ ∀ item ∈ w'.inventory.inventoryItems,
        item ∈ w.inventory.inventoryItems ∨ item.productId = product.id := by
    intro w' h
    rw [h.items]
    exact ⟨fun row hr => ((hmem h row).mp hr).1, fun _ hr => .inl hr⟩
  rcases hg with ⟨rfl, hnone⟩ | rfl
  · cases hbecame with
    | answered h =>
      refine ⟨rfl, ⟨fun row hr => ((hmem h row).mp hr).2, ?_⟩, hconfined h, (hdeletes h).1,
        (hdeletes h).2, ?_⟩
      · rw [h.items]
        exact hnone
      · rintro (he | he)
        · cases he
        · cases he
    | lost h =>
      exact ⟨rfl, trivial, hconfined h, (hdeletes h).1, (hdeletes h).2, fun _ => .inl fun hs => hs⟩
    | failed h =>
      exact ⟨rfl, trivial, h.confined _, (hidle h).1, (hidle h).2, fun _ => .inl fun hs => hs⟩
  · cases hbecame with
    | answered h =>
      exact ⟨rfl, trivial, hconfined h, (hdeletes h).1, (hdeletes h).2, fun _ => .inr rfl⟩
    | lost h =>
      exact ⟨rfl, trivial, hconfined h, (hdeletes h).1, (hdeletes h).2, fun _ => .inr rfl⟩
    | failed h =>
      exact ⟨rfl, trivial, h.confined _, (hidle h).1, (hidle h).2, fun _ => .inr rfl⟩

/-- Every call of a create that has its product stays with it. -/
theorem own_step {g : Stage} (hg : g.product? = some product)
    (hu : uuidText product.id = product.id) (hallow : g.Allows input c) (hholds : g.Holds w)
    (hp : c.perform fate w = (reply, w')) : OwnStep g product ⟨i, c, reply, w, w'⟩ := by
  cases g with
  | before => cases hg
  | inserted p =>
    obtain rfl := Option.some.inj hg
    cases c with
    | repository c => exact hallow.elim
    | inventory c =>
      cases c with
      | create body =>
        obtain rfl : body = _ := hallow
        exact ownStep_provision hu hholds hp
      | findByProductId _ => exact hallow.elim
      | update _ _ => exact hallow.elim
      | delete _ => exact hallow.elim
  | provisioned p view => cases c <;> exact hallow.elim
  | failed p =>
    obtain rfl := Option.some.inj hg
    cases c with
    | repository c => exact hallow.elim
    | inventory c =>
      cases c with
      | create _ => exact hallow.elim
      | findByProductId productId =>
        obtain rfl : productId = _ := hallow
        exact ownStep_lookup hu hp
      | update _ _ => exact hallow.elim
      | delete _ => exact hallow.elim
  | found p view =>
    obtain rfl := Option.some.inj hg
    cases c with
    | repository c => exact hallow.elim
    | inventory c =>
      cases c with
      | create _ => exact hallow.elim
      | findByProductId _ => exact hallow.elim
      | update _ _ => exact hallow.elim
      | delete id =>
        obtain rfl : id = _ := hallow
        exact ownStep_discard hholds hp
  | discarded p =>
    obtain rfl := Option.some.inj hg
    cases c with
    | inventory c => exact hallow.elim
    | repository c =>
      cases c with
      | findById _ => exact hallow.elim
      | findBySku _ => exact hallow.elim
      | create _ => exact hallow.elim
      | update _ _ => exact hallow.elim
      | delete id =>
        obtain rfl : id = _ := hallow
        exact ownStep_delete hu (.inl ⟨rfl, hholds⟩) hp
  | stranded p =>
    obtain rfl := Option.some.inj hg
    cases c with
    | inventory c => exact hallow.elim
    | repository c =>
      cases c with
      | findById _ => exact hallow.elim
      | findBySku _ => exact hallow.elim
      | create _ => exact hallow.elim
      | update _ _ => exact hallow.elim
      | delete id =>
        obtain rfl : id = _ := hallow
        exact ownStep_delete hu (.inr rfl) hp
  | deleted p => cases c <;> exact hallow.elim
  | left p => cases c <;> exact hallow.elim

end OwnStep

/-! ## The invariant -/

/-- How far a create is. -/
def Creations.stageAt (s : Creations) (i : Nat) : Stage := stageOf (pastOf i s.trace)

/-- The creates keep to their code and to the ids they were given, and the stores hold what their
stages say. -/
structure Sound (start : World) (s : Creations) : Prop where
  recounted : Recounted Granted Possible (fun r g => (stageOf g.2).Ended r) s
  stream : s.world.uuids = start.uuids
  later : start.minted ≤ s.world.minted
  own : ∀ i p, (s.stageAt i).product? = some p →
    ∃ n, start.minted ≤ n ∧ n < s.world.minted ∧ p.id = uuidText (start.uuids n)
  apart : ∀ i j p q, (s.stageAt i).product? = some p → (s.stageAt j).product? = some q →
    p.id = q.id → i = j
  named : ∀ i p input, s.task i = some input → (s.stageAt i).product? = some p →
    p.sku = input.sku.text
  given : ∀ row ∈ s.world.products.rows, row ∈ start.products.rows ∨
    ∃ n, start.minted ≤ n ∧ n < s.world.minted ∧ row.id = uuidText (start.uuids n)
  rows : ∀ row ∈ s.world.products.rows, row ∈ start.products.rows ∨ ∃ j, s.Inserted j row.id
  items : ∀ item ∈ s.world.inventory.inventoryItems, item ∈ start.inventory.inventoryItems ∨
    ∃ j p, (s.stageAt j).product? = some p ∧ p.id = item.productId
  holds : ∀ i, (s.stageAt i).Holds s.world
  inserted : ∀ i p, (s.stageAt i).product? = some p → s.Inserted i p.id
  known : ∀ i id, s.Inserted i id → (∃ p, (s.stageAt i).product? = some p ∧ p.id = id) ∨
    ∃ e ∈ s.trace, e.thread = i ∧ ¬ Settled e
  clean : ∀ i p, (s.stageAt i = .stranded p ∨ s.stageAt i = .left p) →
    ∃ e ∈ s.trace, e.thread = i ∧ ¬ Settled e
  spares : ∀ e ∈ s.trace, SparesOthers s e

theorem sound_start (w : World) : Sound w (Pool.start w) where
  recounted := Foundations.recounted_start
  stream := rfl
  later := Nat.le_refl _
  own _ _ h := nomatch h
  apart _ _ _ _ h := nomatch h
  named _ _ _ _ h := nomatch h
  given _ h := .inl h
  rows _ h := .inl h
  items _ h := .inl h
  holds _ := trivial
  inserted _ _ h := nomatch h
  known _ _ h := by
    obtain ⟨e, he, -⟩ := h
    cases he
  clean _ _ h := by
    rcases h with h | h
    · cases h
    · cases h
  spares _ h := nomatch h

section Steps

variable {start : World} {s s' : Creations} {i : Nat} {fate : Fate} {input : CreateProductInput}
  {c : Call} {next : c.Reply → Foundations.Program Call Call.Reply (Except Thrown ProductView)}
  {reply : c.Reply}

theorem Sound.uuid (h : Sound start s) {p : Product} (hp : (s.stageAt i).product? = some p) :
    uuidText p.id = p.id := by
  obtain ⟨n, -, -, hid⟩ := h.own i p hp
  rw [hid, uuidText_uuidText]

theorem Creations.Inserted.mono {j : Nat} {id : String} {e : StoreEvent}
    (h : s.Inserted j id) (ht : s'.trace = e :: s.trace) : s'.Inserted j id := by
  obtain ⟨e', he', hrest⟩ := h
  refine ⟨e', ?_, hrest⟩
  rw [ht]
  exact List.mem_cons_of_mem _ he'

theorem SparesOthers.mono {e e' : StoreEvent} (h : SparesOthers s e)
    (ht : s'.trace = e' :: s.trace) : SparesOthers s' e where
  products row hrow := (h.products row hrow).imp_right fun hi => hi.mono ht
  items item hitem := (h.items item hitem).imp_right fun hi => hi.mono ht

/-- The stage of the create that has called, and of the others. -/
theorem stageAt_call (hc : Called creating s s' i fate input c next reply) (j : Nat) :
    s'.stageAt j = if j = i then (s.stageAt i).next ⟨c, reply⟩ else s.stageAt j := by
  unfold Creations.stageAt
  by_cases hj : j = i
  · rw [if_pos hj, hj, hc.pastOf_self]
    rfl
  · rw [if_neg hj, hc.pastOf_of_ne hj]

/-- A new create has been told nothing. -/
theorem Sound.spawn (h : Sound start s) (task : CreateProductInput)
    (hs : s.step (.spawn task) = some s') : Sound start s' := by
  have hrecounted := h.recounted.step create_meets (fun _ _ _ _ _ _ _ => trivial) hs
  obtain rfl : _ = s' := Option.some.inj hs
  refine ⟨hrecounted, h.stream, h.later, h.own, h.apart, fun j p task' ht hp => ?_, h.given, h.rows,
    h.items, h.holds, h.inserted, h.known, h.clean,
    fun e he => ⟨(h.spares e he).products, (h.spares e he).items⟩⟩
  rcases Nat.lt_or_ge j s.threads.length with hlt | hge
  · refine h.named j p task' ?_ hp
    unfold Pool.task at ht ⊢
    dsimp only at ht
    rwa [List.getElem?_append_left hlt] at ht
  · have hbefore : s.stageAt j = .before := by
      unfold Creations.stageAt
      rw [h.recounted.unborn j hge]
      rfl
    have hp' : (s.stageAt j).product? = some p := hp
    rw [hbefore] at hp'
    cases hp'

/-- The event of a call. -/
abbrev callEvent (i : Nat) (c : Call) (reply : c.Reply) (s s' : Creations) : StoreEvent :=
  ⟨i, c, reply, s.world, s'.world⟩

theorem called_perform (hc : Called creating s s' i fate input c next reply) :
    c.perform fate s.world = (reply, s'.world) := Option.some.inj hc.perform

/-- A create that has its product calls. -/
theorem Sound.own_call (h : Sound start s) (hc : Called creating s s' i fate input c next reply)
    (hrecounted : Recounted Granted Possible (fun r g => (stageOf g.2).Ended r) s')
    {p : Product} (hp : (s.stageAt i).product? = some p) : Sound start s' := by
  have hallow : (s.stageAt i).Allows input c := h.recounted.allowed hc.thread
  have hstep : OwnStep (s.stageAt i) p (callEvent i c reply s s') :=
    own_step hp (h.uuid hp) hallow (h.holds i) (called_perform hc)
  have hconfined : Confined p.id s.world s'.world := hstep.confined
  have hnew : ((s.stageAt i).next ⟨c, reply⟩).product? = some p := hstep.product?
  have hproduct : ∀ {j q}, (s'.stageAt j).product? = some q ↔ (s.stageAt j).product? = some q := by
    intro j q
    rw [stageAt_call hc]
    by_cases hj : j = i
    · rw [if_pos hj, hj, hnew, hp]
    · rw [if_neg hj]
  have hids : ∀ row ∈ s'.world.products.rows, row ∈ s.world.products.rows := hstep.rows
  have hmember : ∀ e, e ∈ s'.trace ↔ e = callEvent i c reply s s' ∨ e ∈ s.trace := by
    intro e
    rw [hc.trace, List.mem_cons]
  have hlater : ∀ {n}, n < s.world.minted → n < s'.world.minted :=
    fun hn => Nat.lt_of_lt_of_le hn hconfined.later
  refine
    { recounted := hrecounted, stream := hconfined.uuids.trans h.stream
      later := Nat.le_trans h.later hconfined.later, own := fun j q hq => ?_
      apart := fun j k q r hq hr => ?_, named := fun j q task ht hq => ?_
      given := fun row hrow => ?_, rows := fun row hrow => ?_, items := fun item hitem => ?_
      holds := fun j => ?_, inserted := fun j q hq => ?_, known := fun j id hi => ?_
      clean := fun j q hq => ?_, spares := fun e he => ?_ }
  · obtain ⟨n, hlo, hhi, hid⟩ := h.own j q (hproduct.mp hq)
    exact ⟨n, hlo, hlater hhi, hid⟩
  · exact h.apart j k q r (hproduct.mp hq) (hproduct.mp hr)
  · rw [hc.task] at ht
    exact h.named j q task ht (hproduct.mp hq)
  · rcases h.given row (hids row hrow) with hold | ⟨n, hlo, hhi, hid⟩
    · exact .inl hold
    · exact .inr ⟨n, hlo, hlater hhi, hid⟩
  · rcases h.rows row (hids row hrow) with hold | ⟨j, hi⟩
    · exact .inl hold
    · exact .inr ⟨j, hi.mono hc.trace⟩
  · rcases hstep.items item hitem with hold | hid
    · rcases h.items item hold with hstart | ⟨j, q, hq, hid⟩
      · exact .inl hstart
      · exact .inr ⟨j, q, hproduct.mpr hq, hid⟩
    · exact .inr ⟨i, p, hproduct.mpr hp, hid.symm⟩
  · rw [stageAt_call hc]
    by_cases hj : j = i
    · rw [if_pos hj]
      exact hstep.holds
    · rw [if_neg hj]
      cases hq : (s.stageAt j).product? with
      | none =>
        cases hg : s.stageAt j with
        | before => trivial
        | _ => rw [hg] at hq; cases hq
      | some q =>
        exact (h.holds j).frame hconfined hq fun he => hj (h.apart j i q p hq hp he)
  · exact (h.inserted j q (hproduct.mp hq)).mono hc.trace
  · obtain ⟨e, he, hthread, hafter, hbefore⟩ := hi
    rcases (hmember e).mp he with rfl | he
    · obtain ⟨row, hrow, hid⟩ := List.mem_map.mp hafter
      exact absurd (List.mem_map.mpr ⟨row, hids row hrow, hid⟩) hbefore
    · rcases h.known j id ⟨e, he, hthread, hafter, hbefore⟩ with ⟨q, hq, hid⟩ | ⟨e', he', hrest⟩
      · exact .inl ⟨q, hproduct.mpr hq, hid⟩
      · exact .inr ⟨e', (hmember e').mpr (.inr he'), hrest⟩
  · rw [stageAt_call hc] at hq
    by_cases hj : j = i
    · subst hj
      rw [if_pos rfl] at hq
      have hqp : q = p := by
        rcases hq with hq | hq
        · rw [hq] at hnew
          exact Option.some.inj hnew
        · rw [hq] at hnew
          exact Option.some.inj hnew
      subst hqp
      rcases hstep.clean hq with hunsettled | hstranded
      · exact ⟨_, (hmember _).mpr (.inl rfl), rfl, hunsettled⟩
      · obtain ⟨e, he, hrest⟩ := h.clean j q (.inl hstranded)
        exact ⟨e, (hmember e).mpr (.inr he), hrest⟩
    · rw [if_neg hj] at hq
      obtain ⟨e, he, hrest⟩ := h.clean j q hq
      exact ⟨e, (hmember e).mpr (.inr he), hrest⟩
  · rcases (hmember e).mp he with rfl | he
    · have hmine := (h.inserted i p hp).mono hc.trace
      refine ⟨fun row hrow => ?_, fun item hitem => ?_⟩
      · by_cases hid : row.id = p.id
        · rw [hid]
          exact .inr hmine
        · exact .inl ((hconfined.rows row hid).mpr hrow)
      · by_cases hid : item.productId = p.id
        · rw [hid]
          exact .inr hmine
        · exact .inl ((hconfined.items item hid).mpr hitem)
    · exact (h.spares e he).mono hc.trace

/-- Where neither store has changed, a stage is as it was. -/
theorem Stage.Holds.idle {w w' : World} {g : Stage} (hg : g.Holds w) (h : Idle w w') :
    g.Holds w' := by
  have hrows := h.rows
  have hitems := h.items
  cases g with
  | before => trivial
  | inserted p => simpa only [Stage.Holds, hrows, hitems] using hg
  | provisioned p view => simpa only [Stage.Holds, hrows, hitems] using hg
  | failed p => trivial
  | found p view => simpa only [Stage.Holds, hitems] using hg
  | discarded p => simpa only [Stage.Holds, hitems] using hg
  | stranded p => trivial
  | deleted p => simpa only [Stage.Holds, hrows, hitems] using hg
  | left p => trivial

/-- A call that changes neither store and brings its create no further. -/
theorem Sound.quiet_call (h : Sound start s) (hc : Called creating s s' i fate input c next reply)
    (hrecounted : Recounted Granted Possible (fun r g => (stageOf g.2).Ended r) s')
    (hidle : Idle s.world s'.world) (hstage : ∀ j, s'.stageAt j = s.stageAt j) :
    Sound start s' := by
  have hrows := hidle.rows
  have hitems := hidle.items
  have hmember : ∀ e, e ∈ s'.trace ↔ e = callEvent i c reply s s' ∨ e ∈ s.trace := by
    intro e
    rw [hc.trace, List.mem_cons]
  have hlater : ∀ {n}, n < s.world.minted → n < s'.world.minted :=
    fun hn => Nat.lt_of_lt_of_le hn hidle.later
  refine
    { recounted := hrecounted, stream := hidle.uuids.trans h.stream
      later := Nat.le_trans h.later hidle.later, own := fun j q hq => ?_
      apart := fun j k q r hq hr => ?_, named := fun j q task ht hq => ?_
      given := fun row hrow => ?_, rows := fun row hrow => ?_, items := fun item hitem => ?_
      holds := fun j => ?_, inserted := fun j q hq => ?_, known := fun j id hi => ?_
      clean := fun j q hq => ?_, spares := fun e he => ?_ }
  · rw [hstage] at hq
    obtain ⟨n, hlo, hhi, hid⟩ := h.own j q hq
    exact ⟨n, hlo, hlater hhi, hid⟩
  · rw [hstage] at hq hr
    exact h.apart j k q r hq hr
  · rw [hstage] at hq
    rw [hc.task] at ht
    exact h.named j q task ht hq
  · rw [hrows] at hrow
    rcases h.given row hrow with hold | ⟨n, hlo, hhi, hid⟩
    · exact .inl hold
    · exact .inr ⟨n, hlo, hlater hhi, hid⟩
  · rw [hrows] at hrow
    rcases h.rows row hrow with hold | ⟨j, hi⟩
    · exact .inl hold
    · exact .inr ⟨j, hi.mono hc.trace⟩
  · rw [hitems] at hitem
    rcases h.items item hitem with hstart | ⟨j, q, hq, hid⟩
    · exact .inl hstart
    · exact .inr ⟨j, q, by rw [hstage]; exact hq, hid⟩
  · rw [hstage]
    exact (h.holds j).idle hidle
  · rw [hstage] at hq
    exact (h.inserted j q hq).mono hc.trace
  · rw [hstage]
    obtain ⟨e, he, hthread, hafter, hbefore⟩ := hi
    rcases (hmember e).mp he with rfl | he
    · dsimp only at hafter hbefore
      rw [hrows] at hafter
      exact absurd hafter hbefore
    · rcases h.known j id ⟨e, he, hthread, hafter, hbefore⟩ with hp | ⟨e', he', hrest⟩
      · exact .inl hp
      · exact .inr ⟨e', (hmember e').mpr (.inr he'), hrest⟩
  · rw [hstage] at hq
    obtain ⟨e, he, hrest⟩ := h.clean j q hq
    exact ⟨e, (hmember e).mpr (.inr he), hrest⟩
  · rcases (hmember e).mp he with rfl | he
    · refine ⟨fun row hrow => .inl ?_, fun item hitem => .inl ?_⟩
      · rw [hrows]
        exact hrow
      · rw [hitems]
        exact hitem
    · exact (h.spares e he).mono hc.trace

/-- The row of the next product is of no product there is. -/
theorem Sound.row_new (h : Sound start s) (hfresh : start.Fresh) (fields : NewProductRecord) :
    (∀ row ∈ s.world.products.rows,
        row.id ≠ (fields.row (s.world.uuids s.world.minted)).id) ∧
      (∀ item ∈ s.world.inventory.inventoryItems,
        item.productId ≠ (fields.row (s.world.uuids s.world.minted)).id) ∧
      ∀ j p, (s.stageAt j).product? = some p →
        p.id ≠ (fields.row (s.world.uuids s.world.minted)).id := by
  have hid : (fields.row (s.world.uuids s.world.minted)).id =
      uuidText (start.uuids s.world.minted) := by
    rw [h.stream]
    rfl
  have hown : ∀ j p, (s.stageAt j).product? = some p →
      p.id ≠ uuidText (start.uuids s.world.minted) := by
    intro j p hp he
    obtain ⟨n, -, hhi, hpid⟩ := h.own j p hp
    exact absurd (hfresh.distinct n s.world.minted (hpid.symm.trans he)) (Nat.ne_of_lt hhi)
  rw [hid]
  refine ⟨fun row hrow he => ?_, fun item hitem he => ?_, hown⟩
  · rcases h.given row hrow with hold | ⟨n, -, hhi, hrid⟩
    · exact hfresh.products _ h.later row hold he
    · exact absurd (hfresh.distinct n s.world.minted (hrid.symm.trans he)) (Nat.ne_of_lt hhi)
  · rcases h.items item hitem with hold | ⟨j, p, hp, hpid⟩
    · exact hfresh.items _ h.later item hold he
    · exact hown j p hp (hpid.trans he)

/-- A create puts its product into the table, and may not be told. -/
theorem Sound.insert_call (h : Sound start s) (hfresh : start.Fresh)
    (hc : Called creating s s' i fate input c next reply)
    (hrecounted : Recounted Granted Possible (fun r g => (stageOf g.2).Ended r) s')
    (hbefore : s.stageAt i = .before)
    (hinserts : Inserts s.world input.toNewProductRecord s'.world)
    (hstage : s'.stageAt i = .inserted (input.row (s.world.uuids s.world.minted)) ∨
      s'.stageAt i = .before ∧ ¬ Settled (callEvent i c reply s s')) : Sound start s' := by
  obtain ⟨hrownew, hitemnew, hownnew⟩ := h.row_new hfresh input.toNewProductRecord
  have hrows := hinserts.rows
  have hitems := hinserts.items
  set new := input.row (s.world.uuids s.world.minted) with hnew
  have hother : ∀ {j}, j ≠ i → s'.stageAt j = s.stageAt j := by
    intro j hj
    rw [stageAt_call hc, if_neg hj]
  have hself : ∀ {p}, (s'.stageAt i).product? = some p → p = new := by
    intro p hp
    rcases hstage with hs | ⟨hs, -⟩
    · rw [hs] at hp
      exact (Option.some.inj hp).symm
    · rw [hs] at hp
      cases hp
  have hmember : ∀ e, e ∈ s'.trace ↔ e = callEvent i c reply s s' ∨ e ∈ s.trace := by
    intro e
    rw [hc.trace, List.mem_cons]
  have hrow : ∀ {row}, row ∈ s'.world.products.rows ↔ row ∈ s.world.products.rows ∨ row = new := by
    intro row
    rw [hrows, List.mem_append, List.mem_singleton]
  have hconfined : Confined new.id s.world s'.world := by
    refine ⟨fun row hne => ?_, fun item _ => by rw [hitems], hinserts.uuids,
      by rw [hinserts.minted]; exact Nat.le_succ _⟩
    rw [hrow]
    refine ⟨fun hr => hr.resolve_right fun he => hne (by rw [he]), .inl⟩
  have hmine : s'.Inserted i new.id := by
    refine ⟨_, (hmember _).mpr (.inl rfl), rfl, ?_, ?_⟩
    · exact List.mem_map.mpr ⟨new, hrow.mpr (.inr rfl), rfl⟩
    · rintro hid
      obtain ⟨row, hold, he⟩ := List.mem_map.mp hid
      exact hrownew row hold he
  have hlater : ∀ {n}, n < s.world.minted → n < s'.world.minted := by
    intro n hn
    rw [hinserts.minted]
    omega
  have hid : new.id = uuidText (start.uuids s.world.minted) := by
    rw [hnew, h.stream]
    rfl
  have hlast : ∃ n, start.minted ≤ n ∧ n < s'.world.minted ∧ new.id = uuidText (start.uuids n) := by
    refine ⟨s.world.minted, h.later, ?_, hid⟩
    rw [hinserts.minted]
    omega
  refine
    { recounted := hrecounted, stream := hinserts.uuids.trans h.stream
      later := Nat.le_trans h.later (by rw [hinserts.minted]; exact Nat.le_succ _)
      own := fun j q hq => ?_
      apart := fun j k q r hq hr he => ?_, named := fun j q task ht hq => ?_
      given := fun row hr => ?_, rows := fun row hr => ?_, items := fun item hitem => ?_
      holds := fun j => ?_, inserted := fun j q hq => ?_, known := fun j id hi => ?_
      clean := fun j q hq => ?_, spares := fun e he => ?_ }
  · by_cases hj : j = i
    · subst hj
      rw [hself hq]
      exact hlast
    · rw [hother hj] at hq
      obtain ⟨n, hlo, hhi, hqid⟩ := h.own j q hq
      exact ⟨n, hlo, hlater hhi, hqid⟩
  · by_cases hj : j = i
    · subst hj
      by_cases hk : k = j
      · exact hk.symm
      · rw [hother hk] at hr
        rw [hself hq] at he
        exact absurd he.symm (hownnew k r hr)
    · rw [hother hj] at hq
      by_cases hk : k = i
      · subst hk
        rw [hself hr] at he
        exact absurd he (hownnew j q hq)
      · rw [hother hk] at hr
        exact h.apart j k q r hq hr he
  · by_cases hj : j = i
    · subst hj
      rw [hself hq]
      rw [hc.task, hc.task_self] at ht
      obtain rfl := Option.some.inj ht
      rfl
    · rw [hother hj] at hq
      rw [hc.task] at ht
      exact h.named j q task ht hq
  · rcases hrow.mp hr with hr | rfl
    · rcases h.given row hr with hold | ⟨n, hlo, hhi, hrid⟩
      · exact .inl hold
      · exact .inr ⟨n, hlo, hlater hhi, hrid⟩
    · exact .inr hlast
  · rcases hrow.mp hr with hr | he
    · rcases h.rows row hr with hold | ⟨j, hi⟩
      · exact .inl hold
      · exact .inr ⟨j, hi.mono hc.trace⟩
    · rw [he]
      exact .inr ⟨i, hmine⟩
  · rw [hitems] at hitem
    rcases h.items item hitem with hstart | ⟨j, q, hq, hqid⟩
    · exact .inl hstart
    · have hj : j ≠ i := by
        rintro rfl
        rw [hbefore] at hq
        cases hq
      exact .inr ⟨j, q, by rw [hother hj]; exact hq, hqid⟩
  · by_cases hj : j = i
    · subst hj
      rcases hstage with hs | ⟨hs, -⟩
      · rw [hs]
        refine ⟨hrow.mpr (.inr rfl), ?_⟩
        rw [hitems]
        exact hitemnew
      · rw [hs]
        trivial
    · rw [hother hj]
      cases hq : (s.stageAt j).product? with
      | none =>
        cases hg : s.stageAt j with
        | before => trivial
        | _ => rw [hg] at hq; cases hq
      | some q => exact (h.holds j).frame hconfined hq (hownnew j q hq)
  · by_cases hj : j = i
    · subst hj
      rw [hself hq]
      exact hmine
    · rw [hother hj] at hq
      exact (h.inserted j q hq).mono hc.trace
  · obtain ⟨e, he, hthread, hafter, hnot⟩ := hi
    rcases (hmember e).mp he with rfl | he
    · obtain rfl : i = j := hthread
      rcases hstage with hs | ⟨-, hunsettled⟩
      · obtain ⟨row, hr, rfl⟩ := List.mem_map.mp hafter
        rcases hrow.mp hr with hr | rfl
        · exact absurd (List.mem_map.mpr ⟨row, hr, rfl⟩) hnot
        · refine .inl ⟨new, ?_, rfl⟩
          rw [hs]
          rfl
      · exact .inr ⟨_, (hmember _).mpr (.inl rfl), rfl, hunsettled⟩
    · rcases h.known j id ⟨e, he, hthread, hafter, hnot⟩ with ⟨p, hp, hpid⟩ | ⟨e', he', hrest⟩
      · have hj : j ≠ i := by
          rintro rfl
          rw [hbefore] at hp
          cases hp
        exact .inl ⟨p, by rw [hother hj]; exact hp, hpid⟩
      · exact .inr ⟨e', (hmember e').mpr (.inr he'), hrest⟩
  · by_cases hj : j = i
    · subst hj
      rcases hstage with hs | ⟨hs, -⟩
      · rw [hs] at hq
        rcases hq with hq | hq
        · cases hq
        · cases hq
      · rw [hs] at hq
        rcases hq with hq | hq
        · cases hq
        · cases hq
    · rw [hother hj] at hq
      obtain ⟨e, he, hrest⟩ := h.clean j q hq
      exact ⟨e, (hmember e).mpr (.inr he), hrest⟩
  · rcases (hmember e).mp he with rfl | he
    · refine ⟨fun row hr => .inl (hrow.mpr (.inl hr)), fun item hitem => .inl ?_⟩
      rw [hitems]
      exact hitem
    · exact (h.spares e he).mono hc.trace

/-- A create that stays where it is does not move the others. -/
theorem stageAt_same (hc : Called creating s s' i fate input c next reply)
    (hnext : (s.stageAt i).next ⟨c, reply⟩ = s.stageAt i) (j : Nat) :
    s'.stageAt j = s.stageAt j := by
  rw [stageAt_call hc]
  by_cases hj : j = i
  · rw [if_pos hj, hj, hnext]
  · rw [if_neg hj]

/-- The insert of a create, under each fate. -/
theorem Sound.create_call (h : Sound start s) (hfresh : start.Fresh) {fields : NewProductRecord}
    {next : Except Thrown Product → Foundations.Program Call Call.Reply (Except Thrown ProductView)}
    {reply : Except Thrown Product}
    (hc : Called creating s s' i fate input (.repository (.create fields)) next reply)
    (hrecounted : Recounted Granted Possible (fun r g => (stageOf g.2).Ended r) s')
    (hbefore : s.stageAt i = .before) (hfields : fields = input.toNewProductRecord) :
    Sound start s' := by
  subst hfields
  have hbecame := insert_became fate input.toNewProductRecord s.world
  have hperform : (Call.repository (.create input.toNewProductRecord)).perform fate s.world =
      (reply, s'.world) := called_perform hc
  have hself : s'.stageAt i = Stage.before.next ⟨.repository (.create input.toNewProductRecord), reply⟩ := by
    rw [stageAt_call hc, if_pos rfl, hbefore]
  rw [hperform] at hbecame
  cases hbecame with
  | answered hinserts => exact h.insert_call hfresh hc hrecounted hbefore hinserts (.inl hself)
  | lost hinserts =>
    refine h.insert_call hfresh hc hrecounted hbefore hinserts (.inr ⟨hself, fun hsettled => ?_⟩)
    have hrows : s'.world.products.rows = s.world.products.rows := hsettled
    have hlength := congrArg List.length hinserts.rows
    rw [hrows, List.length_append, List.length_singleton] at hlength
    omega
  | failed hidle =>
    refine h.quiet_call hc hrecounted hidle (stageAt_same hc ?_)
    rw [hbefore]
    rfl

/-- A create that has no product yet calls. -/
theorem Sound.before_call (h : Sound start s) (hfresh : start.Fresh)
    (hc : Called creating s s' i fate input c next reply)
    (hrecounted : Recounted Granted Possible (fun r g => (stageOf g.2).Ended r) s')
    (hbefore : s.stageAt i = .before) : Sound start s' := by
  have hallow : (s.stageAt i).Allows input c := h.recounted.allowed hc.thread
  rw [hbefore] at hallow
  have hperform := called_perform hc
  cases c with
  | inventory c => exact hallow.elim
  | repository c =>
    cases c with
    | findBySku sku =>
      have hworld : s'.world = s.world := by
        have hread := read_world (c := .findBySku sku) (w := s.world) rfl fate
        rw [hperform] at hread
        exact hread
      refine h.quiet_call hc hrecounted ?_ (stageAt_same hc ?_)
      · rw [hworld]
        exact .refl _
      · rw [hbefore]
        rfl
    | create fields => exact h.create_call hfresh hc hrecounted hbefore hallow
    | findById _ => exact hallow.elim
    | update _ _ => exact hallow.elim
    | delete _ => exact hallow.elim

end Steps

/-- One step keeps the invariant. -/
theorem Sound.step {start : World} {s s' : Creations} (h : Sound start s) (hfresh : start.Fresh)
    {l : Pool.Label CreateProductInput Fate Empty} (hs : s.step l = some s') : Sound start s' := by
  have hrecounted := h.recounted.step create_meets (fun _ _ _ _ _ _ _ => trivial) hs
  rcases pool_step_cases hs with ⟨task, rfl, -⟩ | ⟨i, fate, task, c, next, reply, -, hc⟩ |
    ⟨move, -, -, -, -⟩
  · exact h.spawn task hs
  · cases hp : (s.stageAt i).product? with
    | some p => exact h.own_call hc hrecounted hp
    | none =>
      refine h.before_call hfresh hc hrecounted ?_
      cases hg : s.stageAt i with
      | before => rfl
      | _ => rw [hg] at hp; cases hp
  · exact nomatch move

/-! ## How a create ends -/

section Ends

variable {start : World} {s : Creations} {i : Nat} {input : CreateProductInput}

/-- The stage in which a create has ended. -/
theorem Sound.ended (h : Sound start s) {r : Except Thrown ProductView} (hr : s.result i = some r) :
    (s.stageAt i).Ended r := by
  obtain ⟨task, hi⟩ := Foundations.result_eq_some hr
  exact h.recounted.returned hi

/-- A create that has returned has left its product and one record. -/
theorem Sound.returned (h : Sound start s) {view : ProductView} (ht : s.task i = some input)
    (hr : s.result i = some (.ok view)) : Stocked s.world view input.sku.text := by
  have hended := h.ended hr
  have hholds := h.holds i
  cases hg : s.stageAt i with
  | provisioned product item =>
    rw [hg] at hended hholds
    obtain rfl : view = toProductView product (some item) := hended
    obtain ⟨hproduct, record, hrecord, hid, hsku⟩ := hholds
    have hnamed : product.sku = input.sku.text := h.named i product input ht (by rw [hg]; rfl)
    refine ⟨hnamed, hproduct, record, hrecord, hid, hsku.trans hnamed, fun other hother he => ?_⟩
    exact eq_of_itemProduct hother hrecord (he.trans hid.symm)
  | _ => rw [hg] at hended; exact hended.elim

/-- A create that has thrown, and has undone what it did, has left nothing. -/
theorem Sound.thrown (h : Sound start s) {error : Thrown} (hr : s.result i = some (.error error))
    (hsettled : ∀ e ∈ s.trace, e.thread = i → Settled e) (sku : String) :
    Undone start s i sku := by
  have hended := h.ended hr
  have hholds := h.holds i
  have hunsettled : ¬ ∃ e ∈ s.trace, e.thread = i ∧ ¬ Settled e := by
    rintro ⟨e, he, hthread, hnot⟩
    exact hnot (hsettled e he hthread)
  have hgone : ∀ id, s.Inserted i id → (∀ row ∈ s.world.products.rows, row.id ≠ id) ∧
      ∀ item ∈ s.world.inventory.inventoryItems, item.productId ≠ id := by
    intro id hi
    obtain ⟨p, hp, rfl⟩ := (h.known i id hi).resolve_right hunsettled
    cases hg : s.stageAt i with
    | deleted product =>
      rw [hg] at hp hholds
      obtain rfl := Option.some.inj hp
      exact hholds
    | left product => exact absurd (h.clean i product (.inr hg)) hunsettled
    | before =>
      rw [hg] at hp
      cases hp
    | _ => rw [hg] at hended; exact hended.elim
  refine ⟨fun id hi => (hgone id hi).1, fun id hi => (hgone id hi).2, fun row hrow _ => ?_,
    fun item hitem _ => ?_⟩
  · rcases h.rows row hrow with hold | ⟨j, hj⟩
    · exact .inl hold
    · refine .inr ⟨j, ?_, hj⟩
      rintro rfl
      exact (hgone row.id hj).1 row hrow rfl
  · rcases h.items item hitem with hold | ⟨j, p, hp, hpid⟩
    · exact .inl hold
    · have hj := h.inserted j p hp
      rw [hpid] at hj
      refine .inr ⟨j, ?_, hj⟩
      rintro rfl
      exact (hgone item.productId hj).2 item hitem rfl

end Ends

/-- Whatever the fates of its calls and whatever other creates do in between, a create that returns
has left its product and one record of the same SKU under its id; one that throws, and whose
compensating calls succeeded, has left nothing; and none touches what belongs to another product. -/
theorem create_saga {start : World} {s : Creations} (hfresh : start.Fresh)
    {labels : List (Pool.Label CreateProductInput Fate Empty)}
    (hrun : runs Creations.step (Pool.start start) labels = some s) : Saga start s := by
  have hsound : Sound start s :=
    invariant_of_steps (P := Sound start) (fun _ _ _ hs h => h.step hfresh hs) hrun
      (sound_start start)
  exact ⟨fun _ _ _ ht hr => hsound.returned ht hr,
    fun _ input _ _ hr hsettled => hsound.thrown hr hsettled input.sku.text, hsound.spares⟩

/-! Two creates of one SKU. Inventory provisions the first product without being heard, and the create
is undone; the second one finds the SKU taken. -/

def noProducts : World where
  products := .empty
  inventory := .empty
  uuids n := String.ofList (List.replicate n 'a')
  minted := 0

theorem noProducts_uuids (n : Nat) :
    uuidText (noProducts.uuids n) = String.ofList (List.replicate n 'a') := by
  have hlower : Char.toLower 'a' = 'a' := rfl
  unfold uuidText noProducts
  rw [String.toList_ofList, List.map_replicate, hlower]

theorem noProducts_fresh : noProducts.Fresh where
  distinct n m h := by
    rw [noProducts_uuids, noProducts_uuids] at h
    simpa using congrArg List.length (String.ofList_injective h)
  products _ _ _ hrow := nomatch hrow
  items _ _ _ hitem := nomatch hitem

theorem lampPrice_bounded : (4500 : Int) ≤ 100000000 := by omega

/-- The input of both creates. -/
def lampInput : CreateProductInput where
  sku := ⟨"DESK-2", desk2_long, desk2_bounded, desk2_spelled⟩
  name := "Lamp"
  priceCents := ⟨4500, Int.natCast_nonneg 4500, lampPrice_bounded⟩
  currency := "USD"
  status := .DRAFT

/-- Both look the SKU up, one inserts, is lost on its way to inventory, and undoes what it did. -/
def undoneCreate : List (Pool.Label CreateProductInput Fate Empty) :=
  [.spawn lampInput, .spawn lampInput, .call 0 .answered, .call 1 .answered, .call 0 .answered,
   .call 0 .lost, .call 1 .answered, .call 0 .answered, .call 0 .answered, .call 0 .answered]

/-- How many products and items the run leaves. -/
def undoneCreated : Option (Nat × Nat × Option Bool) :=
  (runs Creations.step (Pool.start noProducts) undoneCreate).map fun s =>
    (s.world.products.rows.length, s.world.inventory.inventoryItems.length,
      (s.result 0).map (·.isOk))

theorem undoneCreated_eq : undoneCreated = some (0, 0, some false) := by decide +kernel

theorem create_saga_undone :
    ∃ s, runs Creations.step (Pool.start noProducts) undoneCreate = some s ∧
      Saga noProducts s ∧ s.world.products.rows.length = 0 := by
  obtain ⟨s, hrun, hleft⟩ := Option.map_eq_some_iff.mp undoneCreated_eq
  exact ⟨s, hrun, create_saga noProducts_fresh hrun, congrArg Prod.fst hleft⟩

end PracticalMicroservice.Products
