import PracticalMicroservice.Cart.Adapters
import PracticalMicroservice.Cart.Proofs.PlannerProofs
import PracticalMicroservice.Inventory.Proofs.LedgerProofs

/-!
# The bulk calls of the HTTP adapter

A bulk call is nothing, a refusal before any request, or exactly one request; the lines of a cart
and the body inventory parses name the same units.
-/

namespace PracticalMicroservice.Cart

open Inventory (Transition BulkBody Response Database heldFor reservedOf units bulkRoute)

/-! ## The lines of a cart as a bulk body -/

theorem units_toBody (lines : List CartLine) (productId : String) :
    units (toBody lines) productId = quantityOf lines productId := by
  induction lines with
  | nil => rfl
  | cons line lines ih =>
    have hbody : toBody (line :: lines) =
        { productId := line.productId, quantity := line.quantity } :: toBody lines := rfl
    rw [hbody, Inventory.units_cons, ih, quantityOf_cons]
    split
    · simp
    · simp

/-- What the schema makes sure of when it accepts the lines of a cart. -/
theorem parse_toBody {items : List CartLine} {body : BulkBody} {input : Inventory.BulkStockInput}
    (h : Inventory.parseBulk body = some input) (hb : body.items = toBody items) :
    items ≠ [] ∧ items.length ≤ MAX_BULK_LINES ∧ (items.map (·.productId)).Nodup ∧
      ∀ line ∈ items, 0 < line.quantity := by
  have hraw : input.items.map Inventory.BulkStockLine.raw = toBody items :=
    hb ▸ (Inventory.parseBulk_some h).1
  have hlen : input.items.length = items.length := by
    simpa [toBody] using congrArg List.length hraw
  refine ⟨?_, ?_, ?_, ?_⟩
  · rintro rfl
    exact input.nonempty (List.length_eq_zero_iff.mp hlen)
  · rw [← hlen]
    exact input.bounded
  · have hids : input.items.map (·.productId) = items.map (·.productId) := by
      have := congrArg (List.map (·.productId)) hraw
      simpa [toBody, Inventory.BulkStockLine.raw, Function.comp_def] using this
    rw [← hids]
    exact input.distinct
  · intro line hl
    have hm : ({ productId := line.productId, quantity := line.quantity } : Inventory.StockLine) ∈
        input.items.map Inventory.BulkStockLine.raw := by
      rw [hraw]
      exact List.mem_map.mpr ⟨line, hl, rfl⟩
    obtain ⟨parsed, -, hp⟩ := List.mem_map.mp hm
    have hq : parsed.quantity.value = line.quantity := congrArg Inventory.StockLine.quantity hp
    have hpos := parsed.quantity.positive
    omega

/-! ## One request -/

theorem post_delivered (w : World) (t : Transition) (body : BulkBody) :
    w.post .delivered t body = (some (bulkRoute t body w.inventory).1,
      { w with inventory := (bulkRoute t body w.inventory).2 }) := rfl

theorem post_refused {w : World} {t : Transition} {body : BulkBody}
    (h : ¬ body.Accepted t w.inventory) :
    w.post .delivered t body = (some (bulkRoute t body w.inventory).1, w) := by
  rw [post_delivered, Inventory.bulkRoute_refused h]

/-! ## What a bulk call comes to -/

/-- The lines one request may carry. -/
def Postable (items : List CartLine) : Prop :=
  items ≠ [] ∧ (items.map (·.productId)).Nodup ∧ items.length ≤ MAX_BULK_LINES

instance (items : List CartLine) : Decidable (Postable items) :=
  inferInstanceAs (Decidable (_ ∧ _ ∧ _))

/-- The body of a bulk call. -/
def bulkBody (items : List CartLine) (reference : SessionId) (reason : Option String) : BulkBody where
  items := toBody items
  reference := reference.text
  reason := reasonField reason

variable (t : Transition) {items : List CartLine} (reference : SessionId)
  (options : StockChangeOptions)

theorem bulk_nil : HttpInventoryAdapter.bulk t [] reference options = pure () := rfl

theorem bulk_postable (h : Postable items) :
    HttpInventoryAdapter.bulk t items reference options =
      HttpInventoryAdapter.request t (bulkBody items reference options.reason) := by
  obtain ⟨hne, hn, hl⟩ := h
  have hlen : ¬ items.length = 0 := fun e => hne (List.length_eq_zero_iff.mp e)
  have hmany : ¬ items.length > MAX_BULK_LINES := by omega
  unfold HttpInventoryAdapter.bulk
  simp only [if_neg hlen, if_neg (not_not_intro hn), if_neg hmany]
  rfl

/-- Lines no request may carry are refused on the spot. -/
theorem bulk_not_postable (hne : items ≠ []) (h : ¬ Postable items) :
    ∃ message, HttpInventoryAdapter.bulk t items reference options =
      throw (.BadRequestException message) := by
  have hlen : ¬ items.length = 0 := fun e => hne (List.length_eq_zero_iff.mp e)
  unfold HttpInventoryAdapter.bulk
  simp only [if_neg hlen]
  by_cases hn : (items.map (·.productId)).Nodup
  · have hmany : items.length > MAX_BULK_LINES := by
      by_contra hl
      exact h ⟨hne, hn, by omega⟩
    simp only [if_neg (not_not_intro hn), if_pos hmany]
    exact ⟨_, rfl⟩
  · simp only [if_pos hn]
    exact ⟨_, rfl⟩

end PracticalMicroservice.Cart
