import PracticalMicroservice.Cart.Proofs.SectionProofs

/-!
# A checkout inside its section

The hold moves from the cart to the order, and the record goes. When a step fails the units are on
the record or under the order; they are on both exactly when the order's reservation went untold or
the record could not be dropped.
-/

namespace PracticalMicroservice.Cart

open Foundations (Ensured ensured_bind ensured_pure ensured_tryCatch)
open Inventory (Transition BulkBody Response units)

/-! ## A checkout -/

section Order

variable (orderId : SessionId)

@[simp] theorem orderUntold_cons (e : Command × Verdict) (past : Past) :
    orderUntold orderId (e :: past) =
      ((orders orderId e.1 && e.2 == .untold) || orderUntold orderId past) := rfl

@[simp] theorem discardFailed_post (t : Transition) (body : BulkBody) (v : Verdict) (past : Past) :
    discardFailed ((.post t body, v) :: past) = discardFailed past := rfl

@[simp] theorem discardFailed_discard (cart : SessionId) (v : Verdict) (past : Past) :
    discardFailed ((.cartDiscard cart, v) :: past) = (v == .failed || discardFailed past) := rfl

/-- Only the reservation under the order hands it units. -/
theorem handed_post (t : Transition) (body : BulkBody) (v : Verdict) (past : Past) (p : String) :
    handed orderId ((.post t body, v) :: past) p =
      (if orders orderId (.post t body) && v != .failed then units body.items p else 0) +
        handed orderId past p := rfl

theorem orders_release (body : BulkBody) : orders orderId (.post .release body) = false := by
  simp [orders, orderKind, BulkBody.kind, Transition.type]

theorem orders_checkout (items : List CartLine) :
    orders orderId (.post .reserve (bulkBody items orderId (some CART_CHECKOUT_REASON))) = true := by
  have hreason : (reasonField (some CART_CHECKOUT_REASON)).map Inventory.trim =
      some CART_CHECKOUT_REASON := by decide
  simp [orders, orderKind, BulkBody.kind, Transition.type, bulkBody, hreason, orderId.trimmed]

theorem orders_putBack (items : List CartLine) (cart : SessionId) :
    orders orderId (.post .reserve
      (bulkBody items cart (some HttpInventoryAdapter.TRANSFER_ROLLBACK_REASON))) = false := by
  have hreason : (reasonField (some HttpInventoryAdapter.TRANSFER_ROLLBACK_REASON)).map
      Inventory.trim ≠ some CART_CHECKOUT_REASON := by decide
  simp [orders, orderKind, BulkBody.kind, Transition.type, bulkBody, hreason]

end Order

/-- Where the units of a checkout can be found when it ends: on the record, under the order, or
listed by both. -/
inductive Transferred (orderId : SessionId) (fields : List (String × Int)) (g : Section) : Prop
  | kept : g.fields = fields → (∀ p, handed orderId g.past p = 0) →
      orderUntold orderId g.past = false → discardFailed g.past = false →
      Transferred orderId fields g
  | moved : g.fields = [] → (∀ p, handed orderId g.past p = recorded fields p) →
      orderUntold orderId g.past = false → discardFailed g.past = false →
      Transferred orderId fields g
  | doubled : g.fields = fields → (∀ p, handed orderId g.past p = recorded fields p) →
      (∃ p, 0 < recorded fields p) → (orderUntold orderId g.past = true ∨ discardFailed g.past = true) →
      Transferred orderId fields g

/-- A past without a trace of a checkout. -/
structure Blank (orderId : SessionId) (past : Past) : Prop where
  handed : ∀ p, Cart.handed orderId past p = 0
  orderUntold : Cart.orderUntold orderId past = false
  discardFailed : Cart.discardFailed past = false

section Checkout

variable {env : Env} {cart orderId : SessionId} {context : CallContext} {lossy : Bool}
  {fields : List (String × Int)} {net other : String → Int} {past : Past} {g : Section}
  {lines : List CartLine}

/-- The put-back: another reservation, whose failure is not thrown. -/
theorem ensured_putBack (h : Inside cart fields fields net other past g) (hpost : Postable lines)
    (e : Exception) {ok : Unit → Section → Prop} {err : Exception → Section → Prop}
    (herr : ∀ v net' g', (v = .untold → lossy = true) →
      (∀ p, net' p = net p + if v = .failed then 0 else (quantityOf lines p : Int)) →
      Inside cart fields fields net' other ((.post .reserve (bulkBody lines cart
        (some HttpInventoryAdapter.TRANSFER_ROLLBACK_REASON)), v) :: past) g' → err e g') :
    Ensured (sectionContract lossy)
      (do
        tryCatch (HttpInventoryAdapter.bulk .reserve lines cart
          { reason := some HttpInventoryAdapter.TRANSFER_ROLLBACK_REASON, context })
          fun _ => return ()
        throw e) ok err g := by
  rw [ensured_bind, ensured_tryCatch]
  refine ensured_bulk_own .reserve h (fun ht => by cases ht) (fun he => absurd he hpost.1)
    (fun g' _ _ hin => ?_) (fun hl e' g' _ _ hin => ?_) (fun e' g' _ hin => ?_)
    (fun _ hno => absurd hpost hno)
  · exact herr .told _ g' (fun hv => by cases hv) (fun p => by simp [moves]) hin
  · exact herr .untold _ g' (fun _ => hl) (fun p => by simp [moves]) hin
  · exact herr .failed _ g' (fun hv => by cases hv) (fun p => by simp) hin

/-- Where a transfer that throws leaves the units. -/
structure TransferFailed (lossy : Bool) (cart orderId : SessionId) (fields : List (String × Int))
    (g : Section) : Prop where
  here : Here cart fields g
  transferred : Transferred orderId fields g
  sound : lossy = false → Sound g

/-- The second half of a transfer: the reservation under the order, and the put-back. -/
theorem ensured_transferIn (h : Inside cart fields fields net other past g) (hb : Blank orderId past)
    (hgave : gave past = true) (hpost : Postable lines)
    (hnet : ∀ p, net p + other p = - (quantityOf lines p : Int))
    (hq : ∀ p, quantityOf lines p = recorded fields p)
    {ok : Unit → Section → Prop} {err : Exception → Section → Prop}
    (hok : ∀ net' other' past' g', (∀ p, net' p + other' p = 0) →
      (∀ p, handed orderId past' p = recorded fields p) → (∃ p, 0 < recorded fields p) →
      orderUntold orderId past' = false → discardFailed past' = false → Inside cart fields fields net' other' past' g' → ok () g')
    (herr : ∀ e g', TransferFailed lossy cart orderId fields g' → err e g') :
    Ensured (sectionContract lossy)
      (tryCatch (HttpInventoryAdapter.bulk .reserve lines orderId
          { reason := some CART_CHECKOUT_REASON, context })
        fun error => do
          tryCatch (HttpInventoryAdapter.bulk .reserve lines cart
            { reason := some HttpInventoryAdapter.TRANSFER_ROLLBACK_REASON, context })
            fun _ => return ()
          throw error) ok err g := by
  rw [ensured_tryCatch]
  obtain ⟨net', other', hsum, hmove⟩ :=
    h.move_any .reserve lines orderId (some CART_CHECKOUT_REASON)
  have hunits : ∀ p, units (bulkBody lines orderId (some CART_CHECKOUT_REASON)).items p =
      recorded fields p := fun p => by
    show units (toBody lines) p = _
    rw [units_toBody, hq]
  have hlisted : Taken lines → ∃ p, 0 < recorded fields p := by
    intro htaken
    obtain ⟨line, hl⟩ := List.exists_mem_of_ne_nil lines hpost.1
    exact ⟨line.productId, hq line.productId ▸ htaken.positive line hl⟩
  refine ensured_bulk .reserve h.stage (fun ht => by cases ht) (fun he => absurd he hpost.1)
    (fun _ hpos => ?_) (fun hl e _ hpos => ?_) (fun e _ => ?_) (fun e hno => absurd hpost hno)
  · refine hok net' other' _ _ (fun p => ?_) (fun p => ?_) (hlisted hpos) ?_ ?_ (hmove.note _ .told)
    · have := hsum p
      have := hnet p
      simp only [moves] at *
      omega
    · rw [handed_post, orders_checkout, hunits, hb.handed]
      simp
    · simp [hb.orderUntold]
    · simp [hb.discardFailed]
  · -- the order holds the units, and the caller does not know
    refine ensured_putBack (hmove.note _ .untold) hpost e (fun v net'' g' _ _ hin => ?_)
    refine herr e g' ⟨hin.here, .doubled hin.fields (fun p => ?_) (hlisted hpos) (.inl ?_),
      fun hf => by rw [hl] at hf; cases hf⟩
    · rw [hin.past, handed_post, orders_putBack, handed_post, orders_checkout, hunits, hb.handed]
      simp
    · rw [hin.past]
      simp [orders_checkout]
  · refine ensured_putBack (h.note _ .failed) hpost e (fun v net'' g' hlossy hnet'' hin => ?_)
    refine herr e g' ⟨hin.here, .kept hin.fields (fun p => ?_) ?_ ?_, fun hf => ?_⟩
    · rw [hin.past, handed_post, orders_putBack, handed_post, hb.handed]
      simp
    · rw [hin.past]
      simp [orders_putBack, hb.orderUntold]
    · rw [hin.past]
      simp [hb.discardFailed]
    · intro howed p
      rw [hin.claim, hin.fields, hnet'']
      have hn := hnet p
      have hl := hq p
      cases v with
      | told =>
        simp only [reduceCtorEq, if_false]
        omega
      | untold =>
        rw [hlossy rfl] at hf
        cases hf
      | failed =>
        rw [hin.past] at howed
        simp [hgave] at howed

theorem transferFailed_of_still (h : Inside cart fields fields net other past g)
    (hb : Blank orderId past) (hnet : ∀ p, net p + other p = 0) :
    TransferFailed lossy cart orderId fields g := by
  refine ⟨h.here, .kept h.fields ?_ ?_ ?_, fun _ _ p => ?_⟩
  · rw [h.past]
    exact hb.handed
  · rw [h.past]
    exact hb.orderUntold
  · rw [h.past]
    exact hb.discardFailed
  · have := hnet p
    rw [h.claim, h.fields]
    omega

/-- Moving the hold of the cart to the order. -/
theorem ensured_transferHold (h : Inside cart fields fields (fun _ => 0) (fun _ => 0) past g)
    (hb : Blank orderId past) (hne : lines ≠ []) (hq : ∀ p, quantityOf lines p = recorded fields p)
    {ok : Unit → Section → Prop} {err : Exception → Section → Prop}
    (hok : ∀ net' other' past' g', (∀ p, net' p + other' p = 0) →
      (∀ p, handed orderId past' p = recorded fields p) → (∃ p, 0 < recorded fields p) →
      orderUntold orderId past' = false → discardFailed past' = false → Inside cart fields fields net' other' past' g' → ok () g')
    (herr : ∀ e g', TransferFailed lossy cart orderId fields g' → err e g') :
    Ensured (sectionContract lossy)
      (HttpInventoryAdapter.transferHold lines cart orderId
        { reason := some CART_CHECKOUT_REASON, context }) ok err g := by
  unfold HttpInventoryAdapter.transferHold
  rw [if_neg fun hl => hne (List.length_eq_zero_iff.mp hl), ensured_bind]
  have hblank : ∀ v, Blank orderId
      ((.post .release (bulkBody lines cart (some CART_CHECKOUT_REASON)), v) :: past) := by
    refine fun v => ⟨fun p => ?_, ?_, ?_⟩
    · rw [handed_post, orders_release, hb.handed]
      simp
    · simp [orders_release, hb.orderUntold]
    · simp [hb.discardFailed]
  refine ensured_bulk_own .release h (fun _ _ p => ?_) (fun he => absurd he hne)
    (fun g' hpost _ hin => ?_) (fun hl e g' _ _ hin => ?_) (fun e g' _ hin => ?_) (fun e _ => ?_)
  · have := hq p
    omega
  · refine ensured_transferIn hin (hblank _) ?_ hpost (fun p => ?_) hq hok herr
    · simp
    · simp [moves]
  · -- the units are given back, and the caller does not know: the record still lists them
    refine herr e g' ⟨hin.here, .kept hin.fields ?_ ?_ ?_, fun hf => ?_⟩
    · rw [hin.past]
      exact (hblank _).handed
    · rw [hin.past]
      exact (hblank _).orderUntold
    · rw [hin.past]
      exact (hblank _).discardFailed
    · rw [hl] at hf
      cases hf
  · exact herr e g' (transferFailed_of_still hin (hblank _) fun p => by simp)
  · exact herr e g (transferFailed_of_still h hb fun p => by simp)

/-- What `checkout` does under the write lock. -/
theorem ensured_checkoutHeld (h : Inside cart fields fields (fun _ => 0) (fun _ => 0) past g)
    (hb : Blank orderId past) :
    Ensured (sectionContract lossy) (CartService.checkoutHeld env cart orderId context)
      (fun r g' => Here cart fields g' ∧ Transferred orderId fields g' ∧
        ∀ p, (quantityOf r.lines p : Int) + recorded g'.fields p ≤ g'.claim p)
      (fun _ => TransferFailed lossy cart orderId fields) g := by
  unfold CartService.checkoutHeld CartRepository.lines
  rw [ensured_bind, ensured_bind]
  have hblank : ∀ v, Blank orderId ((.hgetall cart, v) :: past) :=
    fun v => ⟨hb.handed, hb.orderUntold, hb.discardFailed⟩
  refine ensured_held h (fun read v g₁ hread hin => ?_)
    (fun v g₁ hin => transferFailed_of_still hin (hblank v) fun p => rfl)
  set lines := toCartLines env.collates (heldQuantities read) with hlines
  have hquantity : ∀ p, quantityOf lines p = recorded read p := quantityOf_recorded _ read
  rw [ensured_pure]
  by_cases hempty : lines.length = 0
  · rw [if_pos hempty, ensured_bind]
    exact transferFailed_of_still hin (hblank v) fun p => rfl
  rw [if_neg hempty, ensured_bind]
  have hne : lines ≠ [] := fun e => hempty (List.length_eq_zero_iff.mpr e)
  have hq : ∀ p, quantityOf lines p = recorded fields p := by
    rcases hread with rfl | rfl
    · exact hquantity
    · have hnil : lines = [] := rfl
      exact absurd hnil hne
  refine ensured_transferHold hin (hblank v) hne hq
    (fun net' other' past' g₂ hsum hhanded hlisted htold hdiscard hin₂ => ?_) (fun e g₂ hfail => hfail)
  unfold CartRepository.discard
  rw [ensured_bind, ensured_bind, ensured_call]
  refine ⟨⟨hin₂.cart.symm, hin₂.stage⟩, ?_⟩
  rintro reply g₃ ⟨v₃, hlossy, hr⟩
  rw [ensured_reply]
  rcases hr with ⟨hv, htell, rfl⟩ | ⟨rfl, rfl, rfl⟩
  · have hin₃ := (hin₂.write []).note (.cartDiscard cart) v₃
    have hmoved : Transferred orderId fields ((g₂.write []).note (.cartDiscard cart) v₃) := by
      refine .moved rfl (fun p => ?_) ?_ ?_
      · rw [hin₃.past]
        exact hhanded p
      · rw [hin₃.past]
        simp [htold, orders]
      · rw [hin₃.past]
        simp [hv, hdiscard]
    match reply with
    | some () =>
      refine ⟨hin₃.here, hmoved, fun p => ?_⟩
      have := hsum p
      show (quantityOf lines p : Int) + _ ≤ _
      rw [hin₃.claim, hin₃.fields, recorded_nil, hq]
      omega
    | none =>
      refine ⟨hin₃.here, hmoved, fun _ _ p => ?_⟩
      have := hsum p
      rw [hin₃.claim, hin₃.fields, recorded_nil]
      omega
  · have hin₃ := hin₂.note (.cartDiscard cart) .failed
    refine ⟨hin₃.here, .doubled hin₃.fields (fun p => ?_) hlisted (.inr ?_), fun _ _ p => ?_⟩
    · rw [hin₃.past]
      exact hhanded p
    · rw [hin₃.past]
      simp
    · have := hsum p
      rw [hin₃.claim, hin₃.fields]
      omega

end Checkout

end PracticalMicroservice.Cart
