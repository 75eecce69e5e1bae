import PracticalMicroservice.Products.Proofs.StoreProofs

/-!
# What becomes of a call

Each call has an effect and a reply, and the three fates put them together: both, the effect alone
with an error for a reply, or an error and no effect.
-/

namespace PracticalMicroservice.Products

open Foundations (Ensures History Tells)
open Inventory (DatabaseError Fate InventoryItem InventoryItemView toInventoryItemView uuidText)

/-! ## Inventory's side -/

section Service

variable {db : Inventory.Database}

/-- What a transaction comes to, from what holds where it returns. -/
theorem commit_cases {α : Type} {tx : Inventory.Transaction α} {post : α → Inventory.Database → Prop}
    (h : Ensures tx db post) :
    (∃ thrown, Inventory.commit tx db = (.error thrown, db)) ∨
      ∃ a db', Inventory.commit tx db = (.ok a, db') ∧ post a db' := by
  cases hr : tx.run db with
  | error thrown => exact .inl ⟨thrown, Inventory.commit_of_error hr⟩
  | ok p => exact .inr ⟨p.1, p.2, Inventory.commit_of_ok hr, h p.1 p.2 hr⟩

/-- Inventory creates the record or changes nothing. -/
theorem serviceCreate_outcome (id : String) (createdAt : Nat)
    (input : Inventory.CreateInventoryItemInput) (db : Inventory.Database) :
    (∃ thrown, Inventory.Service.create id createdAt input db = (.error thrown, db)) ∨
      ∃ db', Inventory.Service.create id createdAt input db =
          (.ok (toInventoryItemView (input.row id createdAt)), db') ∧
        db'.inventoryItems = db.inventoryItems ++ [input.row id createdAt] := by
  have hrepository : (∃ thrown, Inventory.Repository.create id createdAt input db =
        (.error thrown, db)) ∨
      ∃ item db', Inventory.Repository.create id createdAt input db = (.ok item, db') ∧
        item = input.row id createdAt ∧
          db'.inventoryItems = db.inventoryItems ++ [input.row id createdAt] := by
    refine commit_cases ?_
    refine Ensures.get_bind ?_
    refine Ensures.bind _ Inventory.Tx.writeItems_ensures ?_
    rintro _ db' ⟨hitems, -⟩
    split
    · refine Ensures.bind (fun _ t => t.inventoryItems = db.inventoryItems ++
        [input.row id createdAt]) (Ensures.modify hitems) ?_
      exact fun _ _ ht => Ensures.pure ⟨rfl, ht⟩
    · exact Ensures.pure ⟨rfl, hitems⟩
  obtain ⟨thrown, hrun⟩ | hrun := Inventory.serviceCreate_cases id createdAt input db
  · exact .inl ⟨_, hrun⟩
  · rw [hrun]
    obtain ⟨thrown, hcreate⟩ | ⟨item, db', hcreate, rfl, hitems⟩ := hrepository
    · rw [hcreate]
      exact .inl ⟨thrown, rfl⟩
    · rw [hcreate]
      exact .inr ⟨db', rfl, hitems⟩

/-- A record that is there is deleted. -/
theorem repositoryDelete_ok {id : String} {item : InventoryItem} (h : db.findById id = some item) :
    ∃ db', Inventory.Repository.delete id db = (.ok (), db') ∧
      db'.inventoryItems = db.inventoryItems.filter (·.id ≠ id) := by
  have hunique : Inventory.UniqueKeys (db.inventoryItems.filter (·.id ≠ id)) := by
    have hsub : (db.inventoryItems.filter (·.id ≠ id)).Sublist db.inventoryItems :=
      List.filter_sublist
    exact ⟨db.uniqueKeys.1.sublist (hsub.map _), db.uniqueKeys.2.1.sublist (hsub.map _),
      db.uniqueKeys.2.2.sublist (hsub.map _)⟩
  have hfit : ∀ row ∈ db.inventoryItems.filter (·.id ≠ id), row.Fits :=
    fun row hrow => db.columnsFit row (List.mem_filter.mp hrow).1
  let pruned : Inventory.Database :=
    { db with inventoryItems := db.inventoryItems.filter (·.id ≠ id), uniqueKeys := hunique,
              columnsFit := hfit }
  have hwrite : db.writeItems (db.inventoryItems.filter (·.id ≠ id)) = .ok pruned := by
    unfold Inventory.Database.writeItems
    rw [dif_pos hunique, dif_pos hfit]
  refine ⟨{ pruned with
    stockMovements := db.stockMovements.filter (·.itemId ≠ id)
    auditLogs := db.auditLogs.filter (·.itemId ≠ id) }, Inventory.commit_of_ok ?_, rfl⟩
  simp only [Inventory.Tx.findUnique, StateT.run_bind, StateT.run_get, pure_bind, StateT.run_pure, h,
    Inventory.Tx.writeItems, hwrite, StateT.run_set]
  rfl

/-- Inventory removes a record unless it is not there or units of it are reserved. -/
theorem serviceRemove_outcome (id : String) (db : Inventory.Database) :
    (∃ thrown, Inventory.Service.remove id db = (.error thrown, db) ∧
      (thrown.statusCode = 404 → db.findById id = none)) ∨
      ∃ db', Inventory.Service.remove id db = (.ok (), db') ∧
        db'.inventoryItems = db.inventoryItems.filter (·.id ≠ id) := by
  rw [Inventory.remove_apply]
  cases hf : db.findById id with
  | none => exact .inl ⟨_, rfl, fun _ => rfl⟩
  | some item =>
    simp only [Inventory.removeChecked]
    by_cases hr : (toInventoryItemView item).reserved > 0
    · rw [if_pos hr]
      refine .inl ⟨_, rfl, fun hstatus => ?_⟩
      simp [Inventory.Thrown.statusCode, Inventory.AppError.statusCode] at hstatus
    · rw [if_neg hr]
      exact .inr (repositoryDelete_ok hf)

end Service

/-! ## The two stores -/

/-- Neither store has changed. -/
structure Idle (w w' : World) : Prop where
  rows : w'.products.rows = w.products.rows
  items : w'.inventory.inventoryItems = w.inventory.inventoryItems
  uuids : w'.uuids = w.uuids
  later : w.minted ≤ w'.minted

theorem Idle.refl (w : World) : Idle w w := ⟨rfl, rfl, rfl, Nat.le_refl _⟩

/-- A reply and the world it leaves: the effect and the answer, the effect alone, or neither. -/
inductive Became {α : Type} (w : World) (a : α) (effect : World → Prop) :
    Except Thrown α × World → Prop
  | answered {w' : World} (h : effect w') : Became w a effect (.ok a, w')
  | lost {e : Thrown} {w' : World} (h : effect w') : Became w a effect (.error e, w')
  | failed {e : Thrown} {w' : World} (h : Idle w w') : Became w a effect (.error e, w')

section Calls

variable {w : World} {fate : Fate}

/-- A statement that is run or raises, under each fate. -/
theorem RepositoryCall.became {c : RepositoryCall} {a : (Call.repository c).Result}
    {effect : World → Prop}
    (h : (∃ w', c.run w = (.ok a, w') ∧ effect w') ∨
      ∃ e w', c.run w = (.error e, w') ∧ Idle w w') :
    Became w a effect (c.perform fate w) := by
  unfold RepositoryCall.perform
  obtain ⟨w', hrun, heffect⟩ | ⟨e, w', hrun, hidle⟩ := h
  · cases fate with
    | answered => exact hrun ▸ .answered heffect
    | lost =>
      rw [hrun]
      exact .lost heffect
    | failed => exact .failed (.refl w)
  · cases fate with
    | answered => exact hrun ▸ .failed hidle
    | lost =>
      rw [hrun]
      exact .failed hidle
    | failed => exact .failed (.refl w)

/-- A request that is accepted or refused, under each fate. -/
theorem respond_became {α : Type} {w₀ : World} {onMissing : Option α} {action : Inventory.Action α}
    {a : α} {effect : World → Prop} (hidle : Idle w₀ w)
    (h : (∃ thrown, action w.inventory = (.error thrown, w.inventory) ∧
        (thrown.statusCode = 404 → ∀ a' ∈ onMissing, a' = a ∧ effect w)) ∨
      ∃ db', action w.inventory = (.ok a, db') ∧ effect { w with inventory := db' }) :
    Became w₀ a effect
      (w.respond (HttpInventoryClient.request fate onMissing action w.inventory)) := by
  obtain ⟨thrown, hrun, hmissing⟩ | ⟨db', hrun, heffect⟩ := h
  · have hsame : ∀ e : Thrown, Became w₀ a effect (w.respond (.error e, w.inventory)) :=
      fun e => .failed hidle
    unfold HttpInventoryClient.request
    cases fate with
    | answered =>
      rw [hrun]
      cases onMissing with
      | none => exact hsame _
      | some a' =>
        dsimp only
        by_cases hstatus : thrown.statusCode = 404
        · rw [if_pos hstatus]
          obtain ⟨rfl, heffect⟩ := hmissing hstatus a' rfl
          exact .answered heffect
        · rw [if_neg hstatus]
          exact hsame _
    | lost =>
      rw [hrun]
      exact hsame _
    | failed => exact hsame _
  · unfold HttpInventoryClient.request
    cases fate with
    | answered =>
      rw [hrun]
      exact .answered heffect
    | lost =>
      rw [hrun]
      exact .lost heffect
    | failed => exact .failed hidle

/-- A product has been put into the table. -/
structure Inserts (w : World) (input : NewProductRecord) (w' : World) : Prop where
  rows : w'.products.rows = w.products.rows ++ [input.row (w.uuids w.minted)]
  items : w'.inventory.inventoryItems = w.inventory.inventoryItems
  uuids : w'.uuids = w.uuids
  minted : w'.minted = w.minted + 1

theorem insert_became (fate : Fate) (input : NewProductRecord) (w : World) :
    Became w (input.row (w.uuids w.minted)) (Inserts w input)
      ((Call.repository (.create input)).perform fate w) := by
  refine RepositoryCall.became (c := .create input) ?_
  have hrun : (RepositoryCall.create input).run w = { w with minted := w.minted + 1 }.statement
    (Repository.create (w.uuids w.minted) input w.products) := rfl
  unfold Repository.create at hrun
  rcases w.products.write_cases (w.products.rows ++ [input.row (w.uuids w.minted)])
    (w.products.inserted_uuids input (w.uuids w.minted)) (input.row (w.uuids w.minted)) with
    ⟨error, hwrite⟩ | ⟨db', hwrite, hrows⟩
  · rw [hwrite] at hrun
    exact .inr ⟨_, _, hrun, rfl, rfl, rfl, Nat.le_succ _⟩
  · rw [hwrite] at hrun
    exact .inl ⟨_, hrun, hrows, rfl, rfl, rfl⟩

/-- A product has been deleted. -/
structure Deletes (w : World) (id : String) (w' : World) : Prop where
  rows : w'.products.rows = w.products.without id
  items : w'.inventory.inventoryItems = w.inventory.inventoryItems
  uuids : w'.uuids = w.uuids
  minted : w'.minted = w.minted

theorem delete_became (fate : Fate) (id : String) (w : World) :
    Became w () (Deletes w id) ((Call.repository (.delete id)).perform fate w) := by
  refine RepositoryCall.became (c := .delete id) ?_
  have hrun : (RepositoryCall.delete id).run w = w.statement (Repository.delete id w.products) := rfl
  unfold Repository.delete at hrun
  cases hf : w.products.findById id with
  | none =>
    rw [hf] at hrun
    exact .inr ⟨_, _, hrun, .refl w⟩
  | some product =>
    rw [hf] at hrun
    dsimp only at hrun
    rcases w.products.write_cases (w.products.without id) (w.products.without_uuids id) () with
      ⟨error, hwrite⟩ | ⟨db', hwrite, hrows⟩
    · rw [hwrite] at hrun
      exact .inr ⟨_, _, hrun, .refl w⟩
    · rw [hwrite] at hrun
      exact .inl ⟨_, hrun, hrows, rfl, rfl, rfl⟩

/-- A record has been created in inventory. -/
structure Provides (w : World) (item : InventoryItem) (w' : World) : Prop where
  rows : w'.products.rows = w.products.rows
  items : w'.inventory.inventoryItems = w.inventory.inventoryItems ++ [item]
  uuids : w'.uuids = w.uuids
  later : w.minted ≤ w'.minted

/-- The record a request creates. -/
def CreateInventoryInput.item (input : CreateInventoryInput) (w : World) : InventoryItem :=
  input.body.row (w.uuids w.minted) w.minted

theorem provide_became (fate : Fate) (input : CreateInventoryInput) (w : World) :
    Became w (toInventoryItemView (input.item w)) (Provides w (input.item w))
      ((Call.inventory (.create input)).perform fate w) := by
  refine respond_became (w := { w with minted := w.minted + 1 })
    ⟨rfl, rfl, rfl, Nat.le_succ _⟩ ?_
  rcases serviceCreate_outcome (w.uuids w.minted) w.minted input.body w.inventory with
    ⟨thrown, hrun⟩ | ⟨db', hrun, hitems⟩
  · exact .inl ⟨thrown, hrun, fun _ a' ha' => nomatch ha'⟩
  · exact .inr ⟨db', hrun, rfl, hitems, rfl, Nat.le_succ _⟩

/-- The record of an id has gone. -/
structure Discards (w : World) (id : String) (w' : World) : Prop where
  rows : w'.products.rows = w.products.rows
  items : w'.inventory.inventoryItems = w.inventory.inventoryItems.filter (·.id ≠ id)
  uuids : w'.uuids = w.uuids
  minted : w'.minted = w.minted

theorem discard_became (fate : Fate) (id : String) (w : World) :
    Became w () (Discards w id) ((Call.inventory (.delete id)).perform fate w) := by
  refine respond_became (w := w) (.refl w) ?_
  rcases serviceRemove_outcome id w.inventory with ⟨thrown, hrun, hnone⟩ | ⟨db', hrun, hitems⟩
  · refine .inl ⟨thrown, hrun, fun hstatus _ _ => ⟨rfl, rfl, ?_, rfl, rfl⟩⟩
    have hmissing := hnone hstatus
    unfold Inventory.Database.findById at hmissing
    rw [List.find?_eq_none] at hmissing
    rw [eq_comm, List.filter_eq_self]
    exact fun row hrow => decide_eq_true fun he => hmissing row hrow (decide_eq_true he)
  · exact .inr ⟨db', hrun, rfl, hitems, rfl, rfl⟩

/-- A lookup changes nothing, and is answered with what is there. -/
theorem lookup_cases (fate : Fate) (productId : String) (w : World) :
    (Call.inventory (.findByProductId productId)).perform fate w =
        (.ok ((w.inventory.findByProductId (uuidText productId)).map toInventoryItemView), w) ∨
      ∃ e, (Call.inventory (.findByProductId productId)).perform fate w = (.error e, w) := by
  cases fate with
  | answered => exact .inl rfl
  | lost => exact .inr ⟨_, rfl⟩
  | failed => exact .inr ⟨_, rfl⟩

/-- A read of the products changes nothing. -/
theorem read_world {c : RepositoryCall} (hc : (c.run w).2 = w) (fate : Fate) :
    ((Call.repository c).perform fate w).2 = w := by
  cases fate with
  | answered => exact hc
  | lost => exact hc
  | failed => rfl

end Calls

/-! ## Calls in the code of a method -/

abbrev Told := History Call Call.Reply

/-- Every reply is possible. -/
abbrev Possible (c : Call) (_ : c.Reply) : Prop := True

section Code

variable {T : Type} {allows : T → Told → Call → Prop} {task : T} {past : Told}

theorem tells_method_call {c : Call} {ok : c.Result → Told → Prop} {err : Thrown → Told → Prop}
    (hallow : allows task past c) (hok : ∀ a, ok a (⟨c, .ok a⟩ :: past))
    (herr : ∀ e, err e (⟨c, .error e⟩ :: past)) :
    Tells allows Possible task (Method.call c) ok err past := by
  unfold Method.call
  refine Foundations.tells_bind (Foundations.tells_request hallow fun reply _ => ?_)
  refine Foundations.tells_result ?_ ?_
  · rintro a rfl
    exact hok a
  · rintro e rfl
    exact herr e

/-- A compensation does not throw. -/
theorem tells_compensate {action : Method Unit} {post : Told → Prop}
    (h : Tells allows Possible task action (fun _ => post) (fun _ => post) past) :
    Tells allows Possible task (Method.compensate action) (fun _ => post) (fun _ _ => False)
      past := by
  refine Foundations.tells_tryCatch (h.mono (fun _ _ ha => ha) fun _ _ he => ?_)
  exact Foundations.tells_pure he

end Code

end PracticalMicroservice.Products
