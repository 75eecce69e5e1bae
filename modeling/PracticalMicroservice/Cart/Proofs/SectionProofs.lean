import PracticalMicroservice.Cart.Section
import PracticalMicroservice.Cart.Proofs.AdapterProofs
import PracticalMicroservice.Cart.Proofs.PromiseProofs

/-!
# The account a call keeps inside its critical section

What each bulk call, each undo and each section of the service does to the account, under the
contract of a section.
-/

namespace PracticalMicroservice.Cart

open Foundations (Ensured ensured_bind ensured_pure ensured_tryCatch)
open Inventory (Transition BulkBody Response units)

/-! ## The account between two commands -/

/-- The call is inside its section, with this record, these units moved and this past. -/
structure Inside (cart : SessionId) (origin fields : List (String × Int))
    (cartNet otherNet : String → Int) (past : Past) (g : Section) : Prop where
  cart : g.cart = cart
  stage : g.stage = .inside
  origin : g.origin = origin
  fields : g.fields = fields
  cartNet : ∀ p, g.cartNet p = cartNet p
  otherNet : ∀ p, g.otherNet p = otherNet p
  past : g.past = past

/-- The units a bulk call adds to the account. -/
def moves (t : Transition) (items : List CartLine) (p : String) : Int :=
  match t with
  | .reserve => quantityOf items p
  | .release => - quantityOf items p

/-- Lines as inventory takes them: each names a unit, and none more than a bulk line may. -/
structure Taken (items : List CartLine) : Prop where
  positive : ∀ line ∈ items, 0 < quantityOf items line.productId
  small : ∀ p, quantityOf items p ≤ 1000000000

section Steps

variable {lossy : Bool} {cart : SessionId} {origin fields : List (String × Int)}
  {cartNet otherNet : String → Int} {past : Past} {g : Section}

/-- The call is inside the section it entered on this record. -/
structure Here (cart : SessionId) (origin : List (String × Int)) (g : Section) : Prop where
  cart : g.cart = cart
  stage : g.stage = .inside
  origin : g.origin = origin

namespace Inside

variable (h : Inside cart origin fields cartNet otherNet past g)
include h

theorem here : Here cart origin g := ⟨h.cart, h.stage, h.origin⟩

theorem claim (p : String) :
    g.claim p = recorded origin p + cartNet p + otherNet p := by
  unfold Section.claim
  rw [h.origin, h.cartNet, h.otherNet]

theorem note (command : Command) (v : Verdict) :
    Inside cart origin fields cartNet otherNet ((command, v) :: past) (g.note command v) :=
  ⟨h.cart, h.stage, h.origin, h.fields, h.cartNet, h.otherNet, by
    show (command, v) :: g.past = _
    rw [h.past]⟩

theorem write (fields' : List (String × Int)) :
    Inside cart origin fields' cartNet otherNet past (g.write fields') :=
  ⟨h.cart, h.stage, h.origin, rfl, h.cartNet, h.otherNet, h.past⟩

theorem move_own (t : Transition) (items : List CartLine) (reason : Option String) :
    Inside cart origin fields (fun p => cartNet p + moves t items p) otherNet past
      (g.move t (bulkBody items cart reason)) := by
  have href : Inventory.trim (bulkBody items cart reason).reference = g.cart.text := by
    rw [h.cart]
    exact cart.trimmed
  unfold Section.move
  rw [if_pos href]
  refine ⟨h.cart, h.stage, h.origin, h.fields, fun p => ?_, h.otherNet, h.past⟩
  have hu : units (bulkBody items cart reason).items p = quantityOf items p := units_toBody items p
  show g.cartNet p + _ = _
  rw [h.cartNet, hu]
  cases t with
  | reserve => rfl
  | release => rfl

theorem move_any (t : Transition) (items : List CartLine) (reference : SessionId)
    (reason : Option String) :
    ∃ cartNet' otherNet', (∀ p, cartNet' p + otherNet' p = cartNet p + otherNet p + moves t items p)
      ∧ Inside cart origin fields cartNet' otherNet' past
        (g.move t (bulkBody items reference reason)) := by
  have hu : ∀ p, units (bulkBody items reference reason).items p = quantityOf items p :=
    units_toBody items
  unfold Section.move
  split
  · refine ⟨fun p => cartNet p + moves t items p, otherNet, fun p => by dsimp only; omega,
      h.cart, h.stage, h.origin, h.fields, fun p => ?_, h.otherNet, h.past⟩
    show g.cartNet p + _ = _
    rw [h.cartNet, hu]
    cases t with
    | reserve => rfl
    | release => rfl
  · refine ⟨cartNet, fun p => otherNet p + moves t items p, fun p => by dsimp only; omega,
      h.cart, h.stage, h.origin, h.fields, h.cartNet, fun p => ?_, h.past⟩
    show g.otherNet p + _ = _
    rw [h.otherNet, hu]
    cases t with
    | reserve => rfl
    | release => rfl

end Inside

/-! ## Bulk calls -/

theorem taken_of_units {items : List CartLine} {reference : SessionId} {reason : Option String}
    (hpos : ∀ line ∈ (bulkBody items reference reason).items,
      0 < units (bulkBody items reference reason).items line.productId)
    (hsmall : ∀ p, units (bulkBody items reference reason).items p ≤ 1000000000) :
    Taken items := by
  have hu (p : String) : units (bulkBody items reference reason).items p = quantityOf items p :=
    units_toBody items p
  refine ⟨fun line hl => ?_, fun p => ?_⟩
  · have hline := hpos { productId := line.productId, quantity := line.quantity }
      (List.mem_map.mpr ⟨line, hl, rfl⟩)
    simp only [hu] at hline
    exact_mod_cast hline
  · have hp := hsmall p
    rw [hu] at hp
    exact_mod_cast hp

/-- The three ways a request can end: told that it took effect, untold, or without effect. -/
theorem ensured_request {t : Transition} {body : BulkBody} {ok : Unit → Section → Prop}
    {err : Exception → Section → Prop}
    (hstage : g.stage = .inside)
    (hallow : t = .release → (∀ p, units body.items p ≤ 1000000000) →
      ∀ p, units body.items p ≤ g.claim p)
    (htold : (∀ line ∈ body.items, 0 < units body.items line.productId) →
      (∀ p, units body.items p ≤ 1000000000) →
      ok () ((g.move t body).note (.post t body) .told))
    (huntold : lossy = true → (∀ line ∈ body.items, 0 < units body.items line.productId) →
      (∀ p, units body.items p ≤ 1000000000) →
      ∀ e, err e ((g.move t body).note (.post t body) .untold))
    (hfailed : ∀ e, err e (g.note (.post t body) .failed)) :
    Ensured (sectionContract lossy) (HttpInventoryAdapter.request t body) ok err g := by
  unfold HttpInventoryAdapter.request
  rw [ensured_bind, ensured_call]
  refine ⟨⟨hstage, hallow⟩, ?_⟩
  rintro reply g' ⟨v, hlossy, hr⟩
  rcases hr with ⟨hv, hpos, hrange, htell, rfl⟩ | ⟨rfl, hno, rfl⟩
  · have hsmall (p : String) : units body.items p ≤ 1000000000 := (hrange p).2
    cases v with
    | told =>
      obtain ⟨r, rfl, hok⟩ := htell.mp rfl
      show Ensured _ (if r.isOk then _ else _) ok err _
      rw [if_pos hok]
      exact htold hpos hsmall
    | untold =>
      match reply, htell with
      | none, _ => exact huntold (hlossy rfl) hpos hsmall _
      | some r, htell =>
        have hok : ¬ r.isOk = true := fun hok => by
          have := htell.mpr ⟨r, rfl, hok⟩
          cases this
        show Ensured _ (if r.isOk then _ else _) ok err _
        rw [if_neg hok]
        exact huntold (hlossy rfl) hpos hsmall _
    | failed => exact absurd rfl hv
  · match reply, hno with
    | none, _ => exact hfailed _
    | some r, hno =>
      have hok : ¬ r.isOk = true := by
        rw [hno r rfl]
        exact Bool.false_ne_true
      show Ensured _ (if r.isOk then _ else _) ok err _
      rw [if_neg hok]
      exact hfailed _

/-- A bulk call: nothing to do, refused on the spot, or one request. -/
theorem ensured_bulk (t : Transition) {items : List CartLine} {reference : SessionId}
    {options : StockChangeOptions} {ok : Unit → Section → Prop} {err : Exception → Section → Prop}
    (hstage : g.stage = .inside)
    (hallow : t = .release → (∀ p, quantityOf items p ≤ 1000000000) →
      ∀ p, (quantityOf items p : Int) ≤ g.claim p)
    (hempty : items = [] → ok () g)
    (htold : Postable items → Taken items →
      ok () ((g.move t (bulkBody items reference options.reason)).note
        (.post t (bulkBody items reference options.reason)) .told))
    (huntold : lossy = true → ∀ e, Postable items → Taken items →
      err e ((g.move t (bulkBody items reference options.reason)).note
        (.post t (bulkBody items reference options.reason)) .untold))
    (hfailed : ∀ e, Postable items →
      err e (g.note (.post t (bulkBody items reference options.reason)) .failed))
    (hrefused : ∀ e, ¬ Postable items → err e g) :
    Ensured (sectionContract lossy) (HttpInventoryAdapter.bulk t items reference options)
      ok err g := by
  by_cases hne : items = []
  · subst hne
    exact hempty rfl
  by_cases hp : Postable items
  · rw [bulk_postable _ _ _ hp]
    refine ensured_request hstage (fun ht hsmall p => ?_) (fun hpos hsmall => ?_)
      (fun hl hpos hsmall e => ?_) (fun e => hfailed e hp)
    · have hu (p : String) : units (bulkBody items reference options.reason).items p =
          quantityOf items p := units_toBody items p
      rw [hu]
      refine hallow ht (fun q => ?_) p
      have hq := hsmall q
      rw [hu] at hq
      exact_mod_cast hq
    · exact htold hp (taken_of_units hpos hsmall)
    · exact huntold hl e hp (taken_of_units hpos hsmall)
  · obtain ⟨message, hthrow⟩ := bulk_not_postable t reference options hne hp
    rw [hthrow]
    exact hrefused _ hp

/-- A bulk call under the cart's own reference. -/
theorem ensured_bulk_own (t : Transition) {items : List CartLine} {options : StockChangeOptions}
    {ok : Unit → Section → Prop} {err : Exception → Section → Prop}
    (h : Inside cart origin fields cartNet otherNet past g)
    (hallow : t = .release → (∀ p, quantityOf items p ≤ 1000000000) →
      ∀ p, (quantityOf items p : Int) ≤ recorded origin p + cartNet p + otherNet p)
    (hempty : items = [] → ok () g)
    (htold : ∀ g', Postable items → Taken items →
      Inside cart origin fields (fun p => cartNet p + moves t items p) otherNet
        ((.post t (bulkBody items cart options.reason), .told) :: past) g' → ok () g')
    (huntold : lossy = true → ∀ e g', Postable items → Taken items →
      Inside cart origin fields (fun p => cartNet p + moves t items p) otherNet
        ((.post t (bulkBody items cart options.reason), .untold) :: past) g' → err e g')
    (hfailed : ∀ e g', Postable items → Inside cart origin fields cartNet otherNet
        ((.post t (bulkBody items cart options.reason), .failed) :: past) g' → err e g')
    (hrefused : ∀ e, ¬ Postable items → err e g) :
    Ensured (sectionContract lossy) (HttpInventoryAdapter.bulk t items cart options) ok err g := by
  have hmove := h.move_own t items options.reason
  refine ensured_bulk t h.stage (fun ht hsmall p => ?_) hempty (fun hp hpos => ?_)
    (fun hl e hp hpos => ?_) (fun e hp => ?_) hrefused
  · rw [h.claim]
    exact hallow ht hsmall p
  · exact htold _ hp hpos (hmove.note _ _)
  · exact huntold hl e _ hp hpos (hmove.note _ _)
  · exact hfailed e _ hp (h.note _ _)

end Steps

/-! ## What the past of a section remembers -/

@[simp] theorem gave_cons (e : Command × Verdict) (past : Past) :
    gave (e :: past) = (gives e || gave past) := rfl

@[simp] theorem undoFailed_cons (e : Command × Verdict) (past : Past) :
    undoFailed (e :: past) = ((undoes e.1 && e.2 == .failed) || undoFailed past) := rfl

@[simp] theorem owedFailed_cons (e : Command × Verdict) (past : Past) :
    owedFailed (e :: past) =
      (((undoes e.1 || retires e.1) && e.2 == .failed && gave past) || owedFailed past) := rfl

@[simp] theorem gives_reserve (body : BulkBody) (v : Verdict) :
    gives (.post .reserve body, v) = false := rfl

section Reasons

variable (t : Transition) (items : List CartLine) (reference : SessionId) (v : Verdict)

@[simp] theorem undoes_rollback :
    undoes (.post t (bulkBody items reference (some CART_ROLLBACK_REASON))) = true := by
  have hr : reasonField (some CART_ROLLBACK_REASON) = some CART_ROLLBACK_REASON := by decide
  simp [undoes, bulkBody, hr]

@[simp] theorem gives_rollback :
    gives (.post t (bulkBody items reference (some CART_ROLLBACK_REASON)), v) = false := by
  have hr : reasonField (some CART_ROLLBACK_REASON) = some CART_ROLLBACK_REASON := by decide
  cases t with
  | reserve => rfl
  | release => simp [gives, bulkBody, hr]

@[simp] theorem undoes_putBack : undoes (.post t
    (bulkBody items reference (some HttpInventoryAdapter.TRANSFER_ROLLBACK_REASON))) = true := by
  have hr : reasonField (some HttpInventoryAdapter.TRANSFER_ROLLBACK_REASON) =
      some HttpInventoryAdapter.TRANSFER_ROLLBACK_REASON := by decide
  simp [undoes, bulkBody, hr]

@[simp] theorem undoes_update :
    undoes (.post t (bulkBody items reference (some CART_UPDATE_REASON))) = false := by
  have hr : reasonField (some CART_UPDATE_REASON) = some CART_UPDATE_REASON := by decide
  simp only [undoes, bulkBody, hr]
  decide

@[simp] theorem undoes_checkout :
    undoes (.post t (bulkBody items reference (some CART_CHECKOUT_REASON))) = false := by
  have hr : reasonField (some CART_CHECKOUT_REASON) = some CART_CHECKOUT_REASON := by decide
  simp only [undoes, bulkBody, hr]
  decide

@[simp] theorem undoes_release (cause : ReleaseCause) :
    undoes (.post t (bulkBody items reference (some s!"Cart {cause.text}"))) = false := by
  simp only [undoes, bulkBody]
  cases cause <;> decide

@[simp] theorem gives_update :
    gives (.post .release (bulkBody items reference (some CART_UPDATE_REASON)), v) =
      (v != .failed) := by
  have hr : reasonField (some CART_UPDATE_REASON) = some CART_UPDATE_REASON := by decide
  have hne : (some CART_UPDATE_REASON != some CART_ROLLBACK_REASON) = true := by decide
  simp only [gives, bulkBody, hr, hne, Bool.and_true]

@[simp] theorem gives_checkout :
    gives (.post .release (bulkBody items reference (some CART_CHECKOUT_REASON)), v) =
      (v != .failed) := by
  have hr : reasonField (some CART_CHECKOUT_REASON) = some CART_CHECKOUT_REASON := by decide
  have hne : (some CART_CHECKOUT_REASON != some CART_ROLLBACK_REASON) = true := by decide
  simp only [gives, bulkBody, hr, hne, Bool.and_true]

@[simp] theorem gives_release (cause : ReleaseCause) :
    gives (.post .release (bulkBody items reference (some s!"Cart {cause.text}")), v) =
      (v != .failed) := by
  have hne : (reasonField (some s!"Cart {cause.text}") != some CART_ROLLBACK_REASON) = true := by
    cases cause <;> decide
  simp only [gives, bulkBody, hne, Bool.and_true]

end Reasons

/-! ## What a section leaves -/

/-- The past has grown by nothing an undo, a release or a retire did. -/
structure Quiet (past past' : Past) : Prop where
  gave : Cart.gave past' = Cart.gave past
  undoFailed : Cart.undoFailed past' = Cart.undoFailed past
  owedFailed : Cart.owedFailed past' = Cart.owedFailed past

theorem Quiet.trans {past past' past'' : Past} (h : Quiet past past') (h' : Quiet past' past'') :
    Quiet past past'' :=
  ⟨h'.gave.trans h.gave, h'.undoFailed.trans h.undoFailed, h'.owedFailed.trans h.owedFailed⟩

theorem Quiet.cons {past : Past} {command : Command} (v : Verdict)
    (hg : gives (command, v) = false) (hu : undoes command = false)
    (hr : retires command = false) : Quiet past ((command, v) :: past) := by
  refine ⟨?_, ?_, ?_⟩
  · rw [gave_cons, hg, Bool.false_or]
  · rw [undoFailed_cons, hu]
    rfl
  · rw [owedFailed_cons, hu, hr]
    rfl

/-- A clean past: nothing given back yet, and no undo failed. -/
structure Clean (past : Past) : Prop where
  undoFailed : Cart.undoFailed past = false
  owedFailed : Cart.owedFailed past = false

theorem Quiet.clean {past past' : Past} (h : Quiet past past') (hc : Clean past) : Clean past' :=
  ⟨h.undoFailed.trans hc.undoFailed, h.owedFailed.trans hc.owedFailed⟩

/-- The account covers the record, unless units it owed could not be put back. -/
def Sound (g : Section) : Prop :=
  owedFailed g.past = false → ∀ p, (recorded g.fields p : Int) ≤ g.claim p

/-- Reading the record: what it lists, or nothing once it has expired. -/
theorem ensured_held {lossy : Bool} {cart : SessionId} {origin fields : List (String × Int)}
    {net other : String → Int} {past : Past} {g : Section}
    (h : Inside cart origin fields net other past g)
    {ok : Held → Section → Prop} {err : Exception → Section → Prop}
    (hok : ∀ read v g', (read = fields ∨ read = []) →
      Inside cart origin fields net other ((.hgetall cart, v) :: past) g' →
      ok (heldQuantities read) g')
    (herr : ∀ v g', Inside cart origin fields net other ((.hgetall cart, v) :: past) g' →
      err .RedisError g') :
    Ensured (sectionContract lossy) (CartRepository.held cart) ok err g := by
  unfold CartRepository.held
  rw [ensured_bind, ensured_call]
  refine ⟨⟨h.cart.symm, h.stage⟩, ?_⟩
  rintro reply g' ⟨v, -, rfl, hread⟩
  rw [ensured_bind, ensured_reply]
  rcases hread with rfl | rfl | rfl
  · exact hok _ v _ (.inl h.fields) (h.note _ _)
  · exact hok _ v _ (.inr rfl) (h.note _ _)
  · exact herr v _ (h.note _ _)

theorem Quiet.hgetall (cart : SessionId) (v : Verdict) (past : Past) :
    Quiet past ((.hgetall cart, v) :: past) := .cons v rfl rfl rfl

end PracticalMicroservice.Cart
