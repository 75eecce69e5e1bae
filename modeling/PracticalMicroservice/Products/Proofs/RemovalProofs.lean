import PracticalMicroservice.Inventory.Proofs.StockingProofs
import PracticalMicroservice.Products.Removal
import PracticalMicroservice.Products.Proofs.CallProofs
import PracticalMicroservice.Products.Proofs.UpdateProofs

/-!
# What a removal deletes

A removal goes by what it has been told. As long as no units are delivered to the record it has found
empty, that is still so when it deletes the product, and when it deletes the record.
-/

namespace PracticalMicroservice.Products

open Foundations (AllSteps Called Meets Pool Recounted Tells invariant_of_allSteps pastOf
  pool_step_cases recounting runs tells_bind tells_pure tells_throw)
open Inventory (Fate InventoryItem InventoryItemView Operation toInventoryItemView uuidText
  uuidText_uuidText)

/-! ## The code of a removal -/

namespace Removal

/-- What a removal may call next. -/
def Allows (id : String) : Removal → Call → Prop
  | started, .repository (.findById id') => id' = id
  | found product, .inventory (.findByProductId productId) => productId = product.id
  | cleared _ _, .repository (.delete id') => id' = id
  | deleted item, .inventory (.delete id') => id' = item.id
  | _, _ => False

/-- What the stores hold of a removal. -/
def Holds (id : String) (w : World) : Removal → Prop
  | found product => product.id = uuidText id
  | cleared product none => product.id = uuidText id ∧
      ∀ row ∈ w.inventory.inventoryItems, row.productId ≠ product.id
  | cleared product (some item) => product.id = uuidText id ∧
      ∀ row ∈ w.inventory.inventoryItems,
        (row.productId = product.id → row.id = item.id) ∧ (row.id = item.id → row.levels.Empty)
  | deleted item => ∀ row ∈ w.inventory.inventoryItems, row.id = item.id → row.levels.Empty
  | _ => True

end Removal

section Code

variable {id : String} {past : Told}

/-- A removal that has been told so much may make the call. -/
abbrev Permitted (id : String) (past : Told) (c : Call) : Prop := (removalOf past).Allows id c

theorem tells_removal (h : removalOf past = .started) :
    Tells Permitted Possible id (Method.remove id) (fun _ _ => True) (fun _ _ => True) past := by
  unfold Method.remove Method.getProduct
  refine tells_bind (tells_bind (tells_method_call ?_ (fun found => ?_) fun e => trivial))
  · rw [Permitted, h]
    rfl
  · have hfound : removalOf (⟨.repository (.findById id), .ok found⟩ :: past) =
        Removal.started.next ⟨.repository (.findById id), .ok found⟩ := by
      rw [← h]
      rfl
    cases found with
    | none => exact tells_throw trivial
    | some product =>
      refine tells_pure (tells_bind (tells_method_call ?_ (fun item => ?_) fun e => trivial))
      · rw [Permitted, hfound]
        rfl
      · have hlooked : removalOf (⟨.inventory (.findByProductId product.id), .ok item⟩ ::
            ⟨.repository (.findById id), .ok (some product)⟩ :: past) =
            (Removal.found product).next ⟨.inventory (.findByProductId product.id), .ok item⟩ := by
          show Removal.next _ _ = _
          rw [hfound]
          rfl
        cases item with
        | none =>
          refine tells_method_call ?_ (fun _ => trivial) fun e => trivial
          rw [Permitted, hlooked]
          rfl
        | some item =>
          have hnext : removalOf (⟨.inventory (.findByProductId product.id), .ok (some item)⟩ ::
              ⟨.repository (.findById id), .ok (some product)⟩ :: past) =
              if item.quantity > 0 ∨ item.reserved > 0 then .ended
              else .cleared product (some item) := hlooked
          dsimp only
          by_cases hunits : item.quantity > 0 ∨ item.reserved > 0
          · rw [if_pos hunits]
            exact tells_bind (tells_throw trivial)
          · rw [if_neg hunits]
            rw [if_neg hunits] at hnext
            refine tells_bind (tells_method_call ?_ (fun _ => ?_) fun e => trivial)
            · rw [Permitted, hnext]
              rfl
            · have hdeleted : removalOf (⟨.repository (.delete id), .ok ()⟩ ::
                  ⟨.inventory (.findByProductId product.id), .ok (some item)⟩ ::
                  ⟨.repository (.findById id), .ok (some product)⟩ :: past) = .deleted item := by
                show Removal.next _ _ = _
                rw [hnext]
                rfl
              have hcall : Tells Permitted Possible id
                  (Method.call (.inventory (.delete item.id))) (fun _ _ => True) (fun _ _ => True)
                  (⟨.repository (.delete id), .ok ()⟩ ::
                    ⟨.inventory (.findByProductId product.id), .ok (some item)⟩ ::
                    ⟨.repository (.findById id), .ok (some product)⟩ :: past) := by
                refine tells_method_call ?_ (fun _ => trivial) fun e => trivial
                rw [Permitted, hdeleted]
                rfl
              exact (tells_compensate hcall).mono (fun _ _ _ => trivial) fun _ _ _ => trivial

/-- The code of a removal, analysed. -/
theorem removal_meets (id : String) :
    Meets (recounting Permitted Possible) (removeProgram id) (fun _ _ => True) (id, []) :=
  Foundations.Ensured.meets (tells_removal rfl) (fun _ _ _ => trivial) fun _ _ _ => trivial

end Code

/-! ## What one call does -/

/-- The rows there are were there before. -/
def Thins (w w' : World) : Prop :=
  ∀ row ∈ w'.inventory.inventoryItems, row ∈ w.inventory.inventoryItems

/-- The rows are those there were, with units only where they are delivered. -/
def Moves (delivered : String → Prop) (w w' : World) : Prop :=
  ∀ row' ∈ w'.inventory.inventoryItems, ∃ row ∈ w.inventory.inventoryItems,
    row'.id = row.id ∧ row'.productId = row.productId ∧
      (row.levels.Empty → row'.levels.Empty ∨ delivered row.id)

section Frame

variable {delivered : String → Prop} {w w' : World} {g : Removal} {id : String}

theorem Thins.moves (h : Thins w w') : Moves delivered w w' :=
  fun row hrow => ⟨row, h row hrow, rfl, rfl, .inl⟩

/-- Where nothing is delivered to its record, a removal finds what it has found. -/
theorem Removal.Holds.frame (hg : g.Holds id w) (h : Moves delivered w w')
    (hfree : ∀ record ∈ g.record?, ¬ delivered record) : g.Holds id w' := by
  have hempty : ∀ record ∈ g.record?, (∀ row ∈ w.inventory.inventoryItems, row.id = record →
      row.levels.Empty) → ∀ row' ∈ w'.inventory.inventoryItems, row'.id = record →
      row'.levels.Empty := by
    intro record hrecord hrows row' hrow' hid
    obtain ⟨row, hrow, hsame, -, hlevels⟩ := h row' hrow'
    have hrowid : row.id = record := hsame.symm.trans hid
    refine (hlevels (hrows row hrow hrowid)).resolve_right ?_
    rw [hrowid]
    exact hfree record hrecord
  cases g with
  | started => trivial
  | found product => exact hg
  | cleared product item =>
    cases item with
    | none =>
      refine ⟨hg.1, fun row' hrow' hid => ?_⟩
      obtain ⟨row, hrow, -, hproduct, -⟩ := h row' hrow'
      exact hg.2 row hrow (hproduct.symm.trans hid)
    | some item =>
      have hrecord := hempty item.id rfl fun row hrow => (hg.2 row hrow).2
      refine ⟨hg.1, fun row' hrow' => ⟨fun hid => ?_, hrecord row' hrow'⟩⟩
      obtain ⟨row, hrow, hsame, hproduct, -⟩ := h row' hrow'
      exact hsame.trans ((hg.2 row hrow).1 (hproduct.symm.trans hid))
  | deleted item => exact hempty item.id rfl hg
  | ended => trivial

end Frame

section Call

variable {w w' : World} {fate : Fate} {id : String} {product : Product} {i : Nat}

/-- Where the rows stay, stock is kept. -/
theorem keepsStock_same {c : Call} {reply : c.Reply}
    (hrows : w'.products.rows = w.products.rows)
    (hitems : w'.inventory.inventoryItems = w.inventory.inventoryItems) :
    KeepsStock ⟨i, c, reply, w, w'⟩ := by
  intro item hitem _
  dsimp only
  rw [hrows, hitems]
  exact ⟨List.mem_map_of_mem hitem, fun product hproduct _ => List.mem_map_of_mem hproduct⟩

/-- A step of a removal: how far it is afterwards, and what it has kept. -/
structure Kept (id : String) (g : Removal) (e : StoreEvent) : Prop where
  holds : (g.next e.told).Holds id e.after
  thins : Thins e.before e.after
  stock : KeepsStock e

theorem kept_find {reply : Except Thrown (Option Product)}
    (hp : (Call.repository (.findById id)).perform fate w = (reply, w')) :
    Kept id .started ⟨i, .repository (.findById id), reply, w, w'⟩ := by
  have hworld : w' = w := by
    have hread := read_world (c := .findById id) (w := w) rfl fate
    rw [hp] at hread
    exact hread
  subst hworld
  refine ⟨?_, fun _ h => h, keepsStock_same rfl rfl⟩
  cases reply with
  | error e => trivial
  | ok found =>
    cases found with
    | none => trivial
    | some product =>
      have hfound : w'.products.findById id = some product := by
        cases fate with
        | answered => exact Except.ok.inj (congrArg Prod.fst hp)
        | lost => cases congrArg Prod.fst hp
        | failed => cases congrArg Prod.fst hp
      show product.id = uuidText id
      have hid := List.find?_some hfound
      exact of_decide_eq_true hid

theorem kept_lookup (hid : product.id = uuidText id)
    {reply : Except Thrown (Option InventoryItemView)}
    (hp : (Call.inventory (.findByProductId product.id)).perform fate w = (reply, w')) :
    Kept id (.found product) ⟨i, .inventory (.findByProductId product.id), reply, w, w'⟩ := by
  have hproduct : uuidText product.id = product.id := by
    rw [hid, uuidText_uuidText]
  obtain hlooked | ⟨e, hlooked⟩ := lookup_cases fate product.id w
  · rw [hp, hproduct] at hlooked
    obtain ⟨rfl, rfl⟩ := Prod.mk.inj hlooked
    refine ⟨?_, fun _ h => h, keepsStock_same rfl rfl⟩
    cases hf : w'.inventory.findByProductId product.id with
    | none =>
      refine ⟨hid, fun row hrow he => ?_⟩
      have hrow' := Inventory.Database.findByProductId_of_mem hrow
      rw [he, hf] at hrow'
      cases hrow'
    | some item =>
      show (if item.quantity > 0 ∨ item.reserved > 0 then Removal.ended
        else .cleared product (some (toInventoryItemView item))).Holds id w'
      by_cases hunits : item.quantity > 0 ∨ item.reserved > 0
      · rw [if_pos hunits]
        trivial
      · rw [if_neg hunits]
        rw [not_or, Int.not_lt, Int.not_lt] at hunits
        refine ⟨hid, fun row hrow => ⟨fun he => ?_, fun he => ?_⟩⟩
        · have hrow' := Inventory.Database.findByProductId_of_mem hrow
          rw [he, hf] at hrow'
          rw [Option.some.inj hrow']
          rfl
        · have hitem : item ∈ w'.inventory.inventoryItems := List.mem_of_find?_eq_some hf
          have hsame : row = item :=
            List.inj_on_of_nodup_map w'.inventory.uniqueKeys.1 hrow hitem he
          rw [hsame]
          exact hunits
  · rw [hp] at hlooked
    obtain ⟨rfl, rfl⟩ := Prod.mk.inj hlooked
    exact ⟨trivial, fun _ h => h, keepsStock_same rfl rfl⟩

/-- What a removal has cleared has no units. -/
theorem Removal.Holds.empty {item : Option InventoryItemView}
    (hg : (cleared product item).Holds id w) {row : InventoryItem}
    (hrow : row ∈ w.inventory.inventoryItems) (hid : row.productId = uuidText id) :
    row.levels.Empty := by
  cases item with
  | none => exact absurd (hid.trans hg.1.symm) (hg.2 row hrow)
  | some item =>
    obtain ⟨hrecord, hempty⟩ := hg.2 row hrow
    exact hempty (hrecord (hid.trans hg.1.symm))

theorem kept_delete {item : Option InventoryItemView} (hg : (Removal.cleared product item).Holds id w)
    {reply : Except Thrown Unit}
    (hp : (Call.repository (.delete id)).perform fate w = (reply, w')) :
    Kept id (.cleared product item) ⟨i, .repository (.delete id), reply, w, w'⟩ := by
  have hstock : Deletes w id w' → KeepsStock ⟨i, .repository (.delete id), reply, w, w'⟩ := by
    intro hdeletes row hrow hunits
    dsimp only
    rw [hdeletes.items, hdeletes.rows]
    refine ⟨List.mem_map_of_mem hrow, fun other hother hid => ?_⟩
    have hne : other.id ≠ uuidText id := fun he => hunits (hg.empty hrow (hid.symm.trans he))
    exact List.mem_map_of_mem (List.mem_filter.mpr ⟨hother, decide_eq_true hne⟩)
  have hthins : w'.inventory.inventoryItems = w.inventory.inventoryItems → Thins w w' := by
    intro hitems row hrow
    rw [← hitems]
    exact hrow
  have hbecame := delete_became fate id w
  rw [hp] at hbecame
  cases hbecame with
  | answered hdeletes =>
    refine ⟨?_, hthins hdeletes.items, hstock hdeletes⟩
    cases item with
    | none => trivial
    | some item =>
      intro row hrow
      dsimp only at hrow
      rw [hdeletes.items] at hrow
      exact (hg.2 row hrow).2
  | lost hdeletes =>
    refine ⟨?_, hthins hdeletes.items, hstock hdeletes⟩
    cases item <;> trivial
  | failed hidle =>
    refine ⟨?_, hthins hidle.items, keepsStock_same hidle.rows hidle.items⟩
    cases item <;> trivial

theorem kept_discard {item : InventoryItemView} (hg : (Removal.deleted item).Holds id w)
    {reply : Except Thrown Unit}
    (hp : (Call.inventory (.delete item.id)).perform fate w = (reply, w')) :
    Kept id (.deleted item) ⟨i, .inventory (.delete item.id), reply, w, w'⟩ := by
  have hstock : Discards w item.id w' →
      KeepsStock ⟨i, .inventory (.delete item.id), reply, w, w'⟩ := by
    intro hdiscards row hrow hunits
    dsimp only
    rw [hdiscards.items, hdiscards.rows]
    have hne : row.id ≠ item.id := fun he => hunits (hg row hrow he)
    refine ⟨List.mem_map_of_mem (List.mem_filter.mpr ⟨hrow, decide_eq_true hne⟩), ?_⟩
    exact fun other hother _ => List.mem_map_of_mem hother
  have hthins : Discards w item.id w' → Thins w w' := by
    intro hdiscards row hrow
    rw [hdiscards.items] at hrow
    exact (List.mem_filter.mp hrow).1
  have hbecame := discard_became fate item.id w
  rw [hp] at hbecame
  cases hbecame with
  | answered hdiscards => exact ⟨trivial, hthins hdiscards, hstock hdiscards⟩
  | lost hdiscards => exact ⟨trivial, hthins hdiscards, hstock hdiscards⟩
  | failed hidle =>
    refine ⟨trivial, fun row hrow => ?_, keepsStock_same hidle.rows hidle.items⟩
    dsimp only at hrow
    rw [hidle.items] at hrow
    exact hrow

/-- Whatever a removal calls next, it keeps what has units. -/
theorem kept_call {g : Removal} {c : Call} {reply : c.Reply} (hallow : g.Allows id c)
    (hg : g.Holds id w) (hp : c.perform fate w = (reply, w')) :
    Kept id g ⟨i, c, reply, w, w'⟩ := by
  cases g with
  | started =>
    cases c with
    | inventory c => exact hallow.elim
    | repository c =>
      cases c with
      | findById id' =>
        obtain rfl : id' = id := hallow
        exact kept_find hp
      | _ => exact hallow.elim
  | found product =>
    cases c with
    | repository c => exact hallow.elim
    | inventory c =>
      cases c with
      | findByProductId productId =>
        obtain rfl : productId = product.id := hallow
        exact kept_lookup hg hp
      | _ => exact hallow.elim
  | cleared product item =>
    cases c with
    | inventory c => exact hallow.elim
    | repository c =>
      cases c with
      | delete id' =>
        obtain rfl : id' = id := hallow
        exact kept_delete hg hp
      | _ => exact hallow.elim
  | deleted item =>
    cases c with
    | repository c => exact hallow.elim
    | inventory c =>
      cases c with
      | delete id' =>
        obtain rfl : id' = item.id := hallow
        exact kept_discard hg hp
      | _ => exact hallow.elim
  | ended => cases c <;> exact hallow.elim

end Call

/-! ## Every step and every run -/

/-- The removals keep to their code, the stores hold what they have found, and stock is kept. -/
structure Steady (s : Removals) : Prop where
  recounted : Recounted Permitted Possible (fun _ _ => True) s
  holds : ∀ i id, s.task i = some id → (s.removalAt i).Holds id s.world
  stock : ∀ e ∈ s.trace, KeepsStock e

theorem steady_start (w : World) : Steady (Pool.start w) where
  recounted := Foundations.recounted_start
  holds _ _ _ := trivial
  stock _ h := nomatch h

section Step

variable {s s' : Removals} {l : Pool.Label String Fate Operation}

/-- A move of inventory leaves the rows where they are, and only a delivery gives units to one that
has none. -/
theorem moves_of_move {op : Operation} {w w' : World} (h : removing.move op w = some w') :
    Moves (fun id => op.Delivers w.inventory id) w w' := by
  have hdef : removing.move op w =
      if op.movesStock then some { w with inventory := (op.run w.inventory).2 } else none := rfl
  rw [hdef] at h
  by_cases hop : op.movesStock = true
  · rw [if_pos hop] at h
    obtain rfl := Option.some.inj h
    obtain ⟨f, hrows, hf⟩ := op.restocked hop w.inventory
    intro row' hrow'
    have hmap : row' ∈ w.inventory.inventoryItems.map (fun row => row.setLevels (f row)) :=
      hrows ▸ hrow'
    obtain ⟨row, hrow, rfl⟩ := List.mem_map.mp hmap
    exact ⟨row, hrow, rfl, rfl, hf row hrow⟩
  · rw [if_neg hop] at h
    cases h

theorem record_task (h : Recounted Permitted Possible (fun _ _ => True) s) {i : Nat}
    {record : String} (hr : record ∈ (s.removalAt i).record?) : i < s.threads.length := by
  by_contra hge
  unfold Removals.removalAt at hr
  rw [h.unborn i (Nat.le_of_not_lt hge)] at hr
  cases hr

theorem Steady.step (h : Steady s) (hok : s.Undelivered l) (hs : s.step l = some s') :
    Steady s' := by
  have hrecounted := h.recounted.step removal_meets (fun _ _ _ _ _ _ _ => trivial) hs
  rcases pool_step_cases hs with ⟨task, rfl, rfl⟩ | ⟨i, fate, task, c, next, reply, rfl, hc⟩ |
    ⟨op, w, rfl, hmove, rfl⟩
  · refine ⟨hrecounted, fun j id ht => ?_, h.stock⟩
    rcases Nat.lt_or_ge j s.threads.length with hlt | hge
    · refine h.holds j id ?_
      unfold Pool.task at ht ⊢
      dsimp only at ht
      rwa [List.getElem?_append_left hlt] at ht
    · have hstarted : s.removalAt j = .started := by
        unfold Removals.removalAt
        rw [h.recounted.unborn j hge]
        rfl
      show (s.removalAt j).Holds id s.world
      rw [hstarted]
      trivial
  · have hallow : (s.removalAt i).Allows task c := h.recounted.allowed hc.thread
    have hperform : c.perform fate s.world = (reply, s'.world) := Option.some.inj hc.perform
    have hkept : Kept task (s.removalAt i) ⟨i, c, reply, s.world, s'.world⟩ :=
      kept_call hallow (h.holds i task hc.task_self) hperform
    refine ⟨hrecounted, fun j id ht => ?_, fun e he => ?_⟩
    · rw [hc.task] at ht
      unfold Removals.removalAt
      by_cases hj : j = i
      · subst hj
        rw [hc.pastOf_self]
        rw [hc.task_self] at ht
        obtain rfl := Option.some.inj ht
        exact hkept.holds
      · rw [hc.pastOf_of_ne hj]
        have hmoves : Moves (fun _ => False) s.world s'.world := hkept.thins.moves
        exact (h.holds j id ht).frame hmoves fun _ _ => not_false
    · rw [hc.trace] at he
      rcases List.mem_cons.mp he with rfl | he
      · exact hkept.stock
      · exact h.stock e he
  · refine ⟨hrecounted, fun j id ht => ?_, h.stock⟩
    refine (h.holds j id ht).frame (moves_of_move hmove) fun record hrecord => ?_
    exact hok j (record_task h.recounted hrecord) record hrecord

end Step

/-- Where no units are delivered to a record between a removal's check and its end, every product and
every record deleted is without units at that moment. -/
theorem remove_keeps_stock {start : World} {labels : List (Pool.Label String Fate Operation)}
    {s : Removals} (hok : AllSteps Removals.step Removals.Undelivered (Pool.start start) labels)
    (hrun : runs Removals.step (Pool.start start) labels = some s) : ∀ e ∈ s.trace, KeepsStock e :=
  (invariant_of_allSteps (fun _ _ _ hok hs h => Steady.step h hok hs) hok hrun
    (steady_start start)).stock

/-- The desk is removed, and between the check and the two deletions inventory does something to its
item. -/
def removingDesk (op : Inventory.Request) : List (Pool.Label String Fate Operation) :=
  [.spawn "7", .call 0 .answered, .call 0 .answered, .move (.request op), .call 0 .answered,
   .call 0 .answered]

/-- What the run leaves of the desk. -/
def deskRemoved (op : Inventory.Request) : Option (Nat × Nat) :=
  (runs Removals.step (Pool.start deskWorld) (removingDesk op)).map fun s =>
    (s.world.products.rows.length, s.world.inventory.inventoryItems.length)

theorem reserving_undelivered : AllSteps Removals.step Removals.Undelivered (Pool.start deskWorld)
    (removingDesk (.reserve "8" Inventory.twoUnits)) := by decide +kernel

theorem reserving_removed : deskRemoved (.reserve "8" Inventory.twoUnits) = some (0, 0) := by
  decide +kernel

theorem remove_keeps_stock_reserving :
    ∃ s, runs Removals.step (Pool.start deskWorld)
        (removingDesk (.reserve "8" Inventory.twoUnits)) = some s ∧
      (∀ e ∈ s.trace, KeepsStock e) ∧ s.world.products.rows.length = 0 := by
  obtain ⟨s, hrun, hleft⟩ := Option.map_eq_some_iff.mp reserving_removed
  exact ⟨s, hrun, remove_keeps_stock reserving_undelivered hrun, congrArg Prod.fst hleft⟩

/-- Whether stock is kept in a run in which two units are delivered after the check. -/
def deliveryKept : Option Bool :=
  (runs Removals.step (Pool.start deskWorld)
    (removingDesk (.receive "8" Inventory.twoUnits))).map fun s => s.trace.all (KeepsStock ·)

theorem deliveryKept_eq : deliveryKept = some false := by decide +kernel

/-- Two units are delivered between the check and the deletions, and go with the record. -/
theorem remove_destroys_stock : ¬ ∀ (start : World)
    (labels : List (Pool.Label String Fate Operation)) (s : Removals),
      runs Removals.step (Pool.start start) labels = some s → ∀ e ∈ s.trace, KeepsStock e := by
  intro hall
  obtain ⟨s, hrun, hkept⟩ := Option.map_eq_some_iff.mp deliveryKept_eq
  have hlost : ¬ s.trace.all (KeepsStock ·) = true := by
    rw [hkept]
    exact Bool.false_ne_true
  apply hlost
  rw [List.all_eq_true]
  exact fun e he => decide_eq_true (hall deskWorld _ s hrun e he)

end PracticalMicroservice.Products
