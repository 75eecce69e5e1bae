import PracticalMicroservice.Inventory.Consumer
import PracticalMicroservice.Inventory.Proofs.LedgerProofs

/-!
# What the schemas of a bulk call accept

The texts that pass unchanged, and the bodies that are read as they were written.
-/

namespace PracticalMicroservice.Inventory

/-! ## Texts -/

/-- The visible characters of ASCII. -/
def visible (c : Char) : Prop := 0x20 < c.val ∧ c.val < 0x7F

instance : DecidablePred visible := fun _ => inferInstanceAs (Decidable (_ ∧ _))

theorem visible_of_all {l : List Char} (h : l.all (fun c => decide (visible c)) = true) :
    ∀ c ∈ l, visible c := fun c hc => of_decide_eq_true (List.all_eq_true.mp h c hc)

theorem isWhiteSpace_of_visible {c : Char} (h : visible c) : isWhiteSpace c = false := by
  have hlow : [(0x09 : UInt32), 0x0A, 0x0B, 0x0C, 0x0D, 0x20, 0xA0, 0x1680, 0x2028, 0x2029,
      0x202F, 0x205F, 0x3000, 0xFEFF].all (fun v => decide ¬ (0x20 < v ∧ v < 0x7F)) = true := by
    decide
  have hspaces : ¬ (0x2000 ≤ c.val ∧ c.val ≤ 0x200A) := fun hc =>
    absurd h.2 (by grind)
  simp only [isWhiteSpace, Bool.or_eq_false_iff, decide_eq_false_iff_not]
  refine ⟨fun hm => of_decide_eq_true (List.all_eq_true.mp hlow _ hm) h, ?_⟩
  simpa using hspaces

theorem dropWhile_of_none {α : Type} {p : α → Bool} {l : List α} (h : ∀ a ∈ l, p a = false) :
    l.dropWhile p = l := by
  cases l with
  | nil => rfl
  | cons a l => exact List.dropWhile_cons_of_neg (by simp [h a List.mem_cons_self])

theorem trim_of_visible {s : String} (h : ∀ c ∈ s.toList, visible c) : trim s = s := by
  have hleft : s.toList.dropWhile isWhiteSpace = s.toList :=
    dropWhile_of_none fun c hc => isWhiteSpace_of_visible (h c hc)
  have hright : s.toList.reverse.dropWhile isWhiteSpace = s.toList.reverse :=
    dropWhile_of_none fun c hc => isWhiteSpace_of_visible (h c (List.mem_reverse.mp hc))
  unfold trim
  rw [hleft, hright, List.reverse_reverse, String.ofList_toList]

theorem jsLength_of_visible {s : String} (h : ∀ c ∈ s.toList, visible c) :
    jsLength s = s.toList.length := by
  have hunits : ∀ c ∈ s.toList, (if 0xFFFF < c.val then 2 else 1) = 1 := by
    intro c hc
    have := (h c hc).2
    exact if_neg (by grind)
  unfold jsLength
  rw [List.map_congr_left hunits]
  simp

theorem visible_of_isUuid {s : String} (h : isUuid s = true) :
    s.toList.length = 36 ∧ ∀ c ∈ s.toList, visible c := by
  simp only [isUuid, Bool.or_eq_true, beq_iff_eq, Bool.and_eq_true] at h
  rcases h with (rfl | rfl) | ⟨hlen, hall⟩
  · exact ⟨by decide +kernel, visible_of_all (by decide +kernel)⟩
  · exact ⟨by decide +kernel, visible_of_all (by decide +kernel)⟩
  · refine ⟨hlen, fun c hc => ?_⟩
    obtain ⟨i, hi, rfl⟩ := List.mem_iff_getElem.mp hc
    have htest := List.all_eq_true.mp hall (s.toList[i], i)
      (List.mk_mem_zipIdx_iff_getElem?.mpr (List.getElem?_eq_getElem hi))
    generalize s.toList[i] = c at htest
    dsimp only at htest
    have hbetween : ∀ {lo hi : Char}, 0x20 < lo.val → hi.val < 0x7F → lo ≤ c → c ≤ hi → visible c :=
      fun hlo hhi hle hle' => ⟨Nat.lt_of_lt_of_le hlo hle, Nat.lt_of_le_of_lt hle' hhi⟩
    split at htest
    · rw [beq_iff_eq.mp htest]
      decide
    split at htest
    · simp only [Bool.and_eq_true, decide_eq_true_eq] at htest
      exact hbetween (by decide) (by decide) htest.1 htest.2
    split at htest
    · have hvariant : ∀ c ∈ ['8', '9', 'a', 'b', 'A', 'B'], visible c := visible_of_all (by decide)
      exact hvariant c (List.contains_iff_mem.mp htest)
    · simp only [isHexDigit, Bool.or_eq_true, Bool.and_eq_true, decide_eq_true_eq] at htest
      rcases htest with (htest | htest) | htest
      · exact hbetween (by decide) (by decide) htest.1 htest.2
      · exact hbetween (by decide) (by decide) htest.1 htest.2
      · exact hbetween (by decide) (by decide) htest.1 htest.2

section Texts

variable {max : Nat} {s : String}

theorem boundedText_self_iff :
    boundedText max s = some s ↔ trim s = s ∧ 1 ≤ jsLength s ∧ jsLength s ≤ max := by
  constructor
  · intro h
    have htrim : trim s = s := (boundedText_eq h).symm
    unfold boundedText at h
    simp only [htrim, Option.ite_none_right_eq_some] at h
    exact ⟨htrim, h.1⟩
  · rintro ⟨htrim, hlength⟩
    unfold boundedText
    simp only [htrim]
    exact if_pos hlength

theorem boundedText_of_isUuid (h : isUuid s = true) (hmax : 36 ≤ max) :
    boundedText max s = some s := by
  obtain ⟨hlength, hvisible⟩ := visible_of_isUuid h
  have hunits : jsLength s = 36 := (jsLength_of_visible hvisible).trans hlength
  exact boundedText_self_iff.mpr ⟨trim_of_visible hvisible, by omega, by omega⟩

theorem optionalText_self_iff {s : Option String} :
    optionalText max s = some s ↔ ∀ text ∈ s, boundedText max text = some text := by
  cases s with
  | none => simp [optionalText]
  | some text => simp [optionalText]

theorem jsLength_eq_zero_iff : jsLength s = 0 ↔ s = "" := by
  constructor
  · intro h
    unfold jsLength at h
    cases hs : s.toList with
    | nil => exact String.toList_eq_nil_iff.mp hs
    | cons c rest =>
      rw [hs, List.map_cons, List.sum_cons] at h
      split at h
      · omega
      · omega
  · rintro rfl
    rfl

end Texts

/-! ## Bulk bodies -/

theorem parseBulkLine_iff {line : StockLine} :
    (∃ parsed, parseBulkLine line = some parsed) ↔
      isUuid line.productId = true ∧ 0 < line.quantity ∧ line.quantity ≤ 1000000000 := by
  unfold parseBulkLine parsePositiveQuantity
  by_cases huuid : isUuid line.productId = true
  · by_cases hq : 0 < line.quantity ∧ line.quantity ≤ 1000000000
    · simp [huuid, hq]
    · simp [huuid, hq]
  · simp [huuid]

theorem mapM_parseBulkLine_iff {lines : List StockLine} :
    (∃ parsed, lines.mapM parseBulkLine = some parsed) ↔
      ∀ line ∈ lines, ∃ parsed, parseBulkLine line = some parsed := by
  induction lines with
  | nil => simp
  | cons line lines ih =>
    constructor
    · rintro ⟨parsed, h⟩
      rw [List.mapM_cons] at h
      obtain ⟨first, hfirst, h⟩ := Option.bind_eq_some_iff.mp h
      obtain ⟨rest, hrest, -⟩ := Option.bind_eq_some_iff.mp h
      intro l hl
      rcases List.mem_cons.mp hl with rfl | hl
      · exact ⟨first, hfirst⟩
      · exact ih.mp ⟨rest, hrest⟩ l hl
    · intro h
      obtain ⟨first, hfirst⟩ := h line List.mem_cons_self
      obtain ⟨rest, hrest⟩ := ih.mpr fun l hl => h l (List.mem_cons_of_mem _ hl)
      rw [List.mapM_cons, hfirst, hrest]
      exact ⟨first :: rest, rfl⟩

theorem productIds_of_raw {parsed : List BulkStockLine} {lines : List StockLine}
    (h : parsed.map BulkStockLine.raw = lines) :
    parsed.map BulkStockLine.productId = lines.map (·.productId) := by
  rw [← h, List.map_map]
  rfl

theorem parts_of_parseBulk {body : BulkBody} {input : BulkStockInput}
    (h : parseBulk body = some input) :
    (∃ items, body.items.mapM parseBulkLine = some items) ∧
      (∃ reference, boundedText 120 body.reference = some reference) ∧
      ∃ reason, optionalText 500 body.reason = some reason := by
  unfold parseBulk at h
  split at h
  · rename_i items reference reason hitems hreference hreason
    exact ⟨⟨items, hitems⟩, ⟨reference, hreference⟩, reason, hreason⟩
  · cases h

/-- The bodies the schema accepts. -/
theorem parseBulk_iff {body : BulkBody} : (∃ input, parseBulk body = some input) ↔
    body.items ≠ [] ∧ body.items.length ≤ MAX_BULK_LINES ∧
      (body.items.map (·.productId)).Nodup ∧
      (∀ line ∈ body.items, isUuid line.productId = true ∧ 0 < line.quantity ∧
        line.quantity ≤ 1000000000) ∧
      (∃ reference, boundedText 120 body.reference = some reference) ∧
      ∃ reason, optionalText 500 body.reason = some reason := by
  constructor
  · rintro ⟨input, h⟩
    have hraw := (parseBulk_some h).1
    have hlength : input.items.length = body.items.length := by
      rw [← hraw, List.length_map]
    obtain ⟨hitems, htexts⟩ := parts_of_parseBulk h
    refine ⟨fun hnil => ?_, ?_, ?_, fun line hl => ?_, htexts⟩
    · rw [hnil] at hlength
      exact input.nonempty (List.length_eq_zero_iff.mp hlength)
    · rw [← hlength]
      exact input.bounded
    · rw [← productIds_of_raw hraw]
      exact input.distinct
    · exact parseBulkLine_iff.mp (mapM_parseBulkLine_iff.mp hitems line hl)
  · rintro ⟨hne, hbounded, hdistinct, hlines, ⟨reference, hreference⟩, reason, hreason⟩
    obtain ⟨items, hitems⟩ := mapM_parseBulkLine_iff.mpr fun line hl =>
      parseBulkLine_iff.mpr (hlines line hl)
    have hraw := mapM_parseBulkLine_raw hitems
    have hlength : items.length = body.items.length := by
      rw [← hraw, List.length_map]
    have hall : items ≠ [] ∧ items.length ≤ MAX_BULK_LINES ∧
        (items.map BulkStockLine.productId).Nodup := by
      refine ⟨fun hnil => hne ?_, ?_, ?_⟩
      · rw [← hraw, hnil]
        rfl
      · rw [hlength]
        exact hbounded
      · rw [productIds_of_raw hraw]
        exact hdistinct
    unfold parseBulk
    simp only [hitems, hreference, hreason]
    rw [dif_pos hall]
    exact ⟨_, rfl⟩

/-! ## Envelopes -/

/-- What an envelope the schema accepts is read as. -/
theorem parseStockEvent_some {raw : RawStockEvent} {event : StockEvent}
    (h : parseStockEvent raw = some event) :
    boundedText 120 raw.messageId = some event.messageId ∧
      InventoryRoutingKey.ofText? raw.type = some event.type ∧
      optionalText 200 raw.correlationId = some event.correlationId ∧
      optionalText 120 raw.actor = some event.actor ∧
      parseBulk raw.payload = some event.payload := by
  unfold parseStockEvent at h
  simp only [Option.bind_eq_bind, Option.bind_eq_some_iff] at h
  obtain ⟨messageId, hid, type, htype, occurredAt, -, correlationId, hcorrelation, actor, hactor,
    payload, hpayload, he⟩ := h
  cases he
  exact ⟨hid, htype, hcorrelation, hactor, hpayload⟩

theorem parseStockEvent_of {raw : RawStockEvent} {messageId : String} {type : InventoryRoutingKey}
    {occurredAt : Nat} {correlationId actor : Option String} {payload : BulkStockInput}
    (hid : boundedText 120 raw.messageId = some messageId)
    (htype : InventoryRoutingKey.ofText? raw.type = some type)
    (hat : raw.occurredAt = some occurredAt)
    (hcorrelation : optionalText 200 raw.correlationId = some correlationId)
    (hactor : optionalText 120 raw.actor = some actor)
    (hpayload : parseBulk raw.payload = some payload) :
    parseStockEvent raw = some { messageId, type, occurredAt, correlationId, actor, payload } := by
  unfold parseStockEvent
  rw [hid, htype, hat, hcorrelation, hactor, hpayload]
  rfl

end PracticalMicroservice.Inventory
