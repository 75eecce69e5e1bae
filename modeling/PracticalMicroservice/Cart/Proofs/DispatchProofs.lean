import PracticalMicroservice.Cart.Dispatch
import PracticalMicroservice.Cart.Proofs.AdapterProofs
import PracticalMicroservice.Cart.Proofs.CustodyProofs
import PracticalMicroservice.Cart.Proofs.ExpiryProofs
import PracticalMicroservice.Cart.Proofs.KeepingProofs
import PracticalMicroservice.Cart.Proofs.SystemProofs
import PracticalMicroservice.Inventory.Proofs.SchemaProofs

/-!
# What becomes of a release on its way

A release whose lines are named products is understood as it was meant exactly when it is within
inventory's bounds, over either transport; and in every run the cart only sends such releases.
-/

namespace PracticalMicroservice

/-! ## A sliced actor -/

namespace Inventory

theorem sliceUnits_prefix (max : Nat) (l : List Char) : sliceUnits max l <+: l := by
  induction l generalizing max with
  | nil => exact List.prefix_rfl
  | cons c l ih =>
    unfold sliceUnits
    split
    · exact List.cons_prefix_cons.mpr ⟨rfl, ih _⟩
    · exact List.nil_prefix

theorem sum_sliceUnits_le (max : Nat) (l : List Char) :
    ((sliceUnits max l).map codeUnits).sum ≤ max := by
  induction l generalizing max with
  | nil => exact Nat.zero_le _
  | cons c l ih =>
    unfold sliceUnits
    split
    · have hrest := ih (max - codeUnits c)
      rw [List.map_cons, List.sum_cons]
      omega
    · exact Nat.zero_le _

theorem sliceUnits_of_le {max : Nat} {l : List Char} (h : (l.map codeUnits).sum ≤ max) :
    sliceUnits max l = l := by
  induction l generalizing max with
  | nil => rfl
  | cons c l ih =>
    rw [List.map_cons, List.sum_cons] at h
    unfold sliceUnits
    rw [if_pos (by omega), ih (by omega)]

theorem length_trim_le (s : String) : (trim s).toList.length ≤ s.toList.length := by
  have hleft := (List.dropWhile_sublist isWhiteSpace (l := s.toList)).length_le
  have hright := (List.dropWhile_sublist isWhiteSpace
    (l := (s.toList.dropWhile isWhiteSpace).reverse)).length_le
  unfold trim
  rw [String.toList_ofList, List.length_reverse]
  rw [List.length_reverse] at hright
  omega

/-- An actor arrives as it was sent if it is trimmed and short. -/
theorem requestContext_actor {actor generated : String} {requestId : Option String} :
    (requestContext requestId ((some actor).filter (· ≠ "")) generated).2 = some actor ↔
      boundedText 120 actor = some actor := by
  rw [boundedText_self_iff]
  constructor
  · intro h
    by_cases hempty : actor = ""
    · subst hempty
      cases h
    by_cases htrimmed : trim actor = ""
    · simp [requestContext, hempty, htrimmed] at h
    have hslice : String.ofList (sliceUnits 120 (trim actor).toList) = actor := by
      simpa [requestContext, hempty, htrimmed, ACTOR_MAX_LENGTH] using h
    have hchars : sliceUnits 120 (trim actor).toList = actor.toList := by
      rw [← hslice, String.toList_ofList, hslice]
    have hlength := length_trim_le actor
    have hprefix := sliceUnits_prefix 120 (trim actor).toList
    have hwhole : sliceUnits 120 (trim actor).toList = (trim actor).toList := by
      refine hprefix.eq_of_length_le ?_
      rw [hchars]
      exact hlength
    have hbound : jsLength actor ≤ 120 := by
      have hle := sum_sliceUnits_le 120 (trim actor).toList
      rw [hchars] at hle
      exact hle
    have hpos : jsLength actor ≠ 0 := fun hzero => hempty (jsLength_eq_zero_iff.mp hzero)
    exact ⟨String.toList_inj.mp (hwhole.symm.trans hchars), by omega, hbound⟩
  · rintro ⟨htrim, hpos, hbound⟩
    have hempty : actor ≠ "" := fun he => by
      rw [jsLength_eq_zero_iff.mpr he] at hpos
      omega
    have hslice : sliceUnits 120 actor.toList = actor.toList := sliceUnits_of_le hbound
    simp [requestContext, hempty, htrim, ACTOR_MAX_LENGTH, hslice]

/-- A correlation id arrives as it was sent, whatever would be minted instead, if it is short. -/
theorem requestContext_requestId {requestId : String} (actor : Option String)
    (hne : requestId ≠ "") :
    (∀ generated, (requestContext ((some requestId).filter (· ≠ "")) actor generated).1 =
      requestId) ↔ jsLength requestId ≤ 200 := by
  constructor
  · intro h
    by_contra hlong
    have hminted := h ""
    simp [requestContext, Option.filter_some, hne, hlong] at hminted
  · intro hshort generated
    simp [requestContext, Option.filter_some, hne, hshort]

end Inventory

namespace Cart

open Inventory (BulkBody Understood boundedText optionalText jsLength trim isUuid parseBulk)

/-! ## What is understood of a parcel -/

namespace Release

variable {release : Release}

theorem header_fixed {text : String} (h : header (some text) = some text) :
    trim text = text ∧ text ≠ "" := by
  unfold header at h
  rw [Option.map_some, Option.filter_eq_some_iff] at h
  obtain ⟨htrim, hne⟩ := h
  exact ⟨Option.some.inj htrim, by simpa using hne⟩

theorem Sendable.body_eq (h : release.Sendable) : release.body =
    { items := toBody release.items, reference := release.reference.text,
      reason := release.options.reason } := by
  obtain ⟨reason, hreason, hbounded⟩ := h.reason
  have hne : reason ≠ "" := by
    rintro rfl
    cases hbounded
  unfold body reasonField
  simp [hreason, hne]

/-- Inventory takes the lines of a release if they are few and name few units each. -/
theorem Sendable.parse_iff (h : release.Sendable) :
    (∃ input, parseBulk release.body = some input) ↔
      release.items.length ≤ Inventory.MAX_BULK_LINES ∧
        ∀ line ∈ release.items, line.quantity ≤ 1000000000 := by
  have hreference : boundedText 120 release.reference.text = some release.reference.text :=
    Inventory.boundedText_of_isUuid h.reference (by omega)
  have hreason : optionalText 500 release.options.reason = some release.options.reason := by
    obtain ⟨reason, hreason, hbounded⟩ := h.reason
    rw [hreason, Inventory.optionalText_self_iff]
    rintro _ ⟨⟩
    exact hbounded
  have hids : (toBody release.items).map (·.productId) = release.items.map (·.productId) := by
    simp [toBody]
  rw [h.body_eq, Inventory.parseBulk_iff]
  constructor
  · rintro ⟨-, hlength, -, hlines, -⟩
    refine ⟨by simpa [toBody] using hlength, fun line hl => ?_⟩
    have hline := hlines _ (List.mem_map.mpr ⟨line, hl, rfl⟩)
    have hle : (line.quantity : Int) ≤ 1000000000 := hline.2.2
    omega
  · rintro ⟨hlength, hquantities⟩
    refine ⟨by simpa [toBody] using h.nonempty, by simpa [toBody] using hlength,
      by rw [hids]; exact h.distinct, fun raw hraw => ?_, ⟨_, hreference⟩, _, hreason⟩
    obtain ⟨line, hl, rfl⟩ := List.mem_map.mp hraw
    obtain ⟨huuid, hpos⟩ := h.lines line hl
    have hle := hquantities line hl
    exact ⟨huuid, by dsimp only; omega, by dsimp only; omega⟩

/-- What inventory reads of a body it takes. -/
theorem Sendable.parsed (h : release.Sendable) {input : Inventory.BulkStockInput}
    (hp : parseBulk release.body = some input) :
    input.items.map Inventory.BulkStockLine.raw = toBody release.items ∧
      input.reference = release.reference.text ∧ input.reason = release.options.reason := by
  obtain ⟨hitems, hreference, hreason⟩ := Inventory.parseBulk_some hp
  rw [h.body_eq] at hitems hreference hreason
  refine ⟨hitems, hreference.trans release.reference.trimmed, hreason.trans ?_⟩
  obtain ⟨reason, heq, hbounded⟩ := h.reason
  have htrim := (Inventory.boundedText_self_iff.mp hbounded).1
  dsimp only
  rw [heq, Option.map_some, htrim]

theorem Sendable.requestId (h : release.Sendable) {requestId : String}
    (hid : release.options.context.requestId = some requestId) :
    trim requestId = requestId ∧ requestId ≠ "" :=
  header_fixed (hid ▸ h.correlated)

/-- Over HTTP. -/
theorem Sendable.request_conveys_iff (h : release.Sendable) :
    release.request.Conveys release ↔ release.Bounded := by
  constructor
  · intro hconveys
    have hunderstood : ∀ generated, ∃ input, parseBulk release.body = some input ∧
        (∀ actor ∈ release.options.context.actor, boundedText 120 actor = some actor) ∧
        ∀ requestId ∈ release.options.context.requestId,
          (Inventory.requestContext ((some requestId).filter (· ≠ ""))
            (release.options.context.actor.filter (· ≠ "")) generated).1 = requestId := by
      intro generated
      obtain ⟨u, hu, hmeant⟩ := hconveys generated
      obtain ⟨input, hparse, rfl⟩ := Option.map_eq_some_iff.mp hu
      refine ⟨input, hparse, fun actor ha => ?_, fun requestId hid => ?_⟩
      · have hactor : (Inventory.requestContext (release.options.context.requestId.filter (· ≠ ""))
            ((some actor).filter (· ≠ "")) generated).2 = some actor := by
          rw [← Option.mem_def.mp ha]
          exact hmeant.actor
        exact Inventory.requestContext_actor.mp hactor
      · have hcorrelated := hmeant.correlated requestId hid
        rw [Option.mem_def.mp hid] at hcorrelated
        exact Option.some.inj hcorrelated
    obtain ⟨input, hparse, hactor, -⟩ := hunderstood ""
    obtain ⟨hlines, hquantities⟩ := h.parse_iff.mp ⟨input, hparse⟩
    refine ⟨hlines, hquantities, hactor, fun requestId hid => ?_⟩
    refine (Inventory.requestContext_requestId (release.options.context.actor.filter (· ≠ ""))
      (h.requestId hid).2).mp fun generated => ?_
    obtain ⟨-, -, -, hcorrelated⟩ := hunderstood generated
    exact hcorrelated requestId hid
  · intro hbounded generated
    obtain ⟨input, hparse⟩ := h.parse_iff.mpr ⟨hbounded.lines, hbounded.quantities⟩
    obtain ⟨hitems, hreference, hreason⟩ := h.parsed hparse
    refine ⟨_, Option.map_eq_some_iff.mpr ⟨input, hparse, rfl⟩, hitems, hreference, hreason, ?_,
      fun requestId hid => ?_⟩
    · cases hactor : release.options.context.actor with
      | none => rfl
      | some actor =>
        exact (@Inventory.requestContext_actor actor generated
          (release.options.context.requestId.filter (· ≠ ""))).mpr (hbounded.actor actor hactor)
    · have hshort := (Inventory.requestContext_requestId
        (release.options.context.actor.filter (· ≠ "")) (h.requestId hid).2).mpr
        (hbounded.correlated requestId hid) generated
      dsimp only
      rw [Option.mem_def.mp hid]
      exact congrArg some hshort

theorem Sendable.correlated_iff (h : release.Sendable) :
    optionalText 200 release.options.context.requestId =
        some release.options.context.requestId ↔
      ∀ requestId ∈ release.options.context.requestId, jsLength requestId ≤ 200 := by
  rw [Inventory.optionalText_self_iff]
  constructor
  · intro htexts requestId hid
    exact (Inventory.boundedText_self_iff.mp (htexts requestId hid)).2.2
  · intro hshort requestId hid
    obtain ⟨htrim, hne⟩ := h.requestId hid
    have hpos : jsLength requestId ≠ 0 := fun hzero => hne (Inventory.jsLength_eq_zero_iff.mp hzero)
    exact Inventory.boundedText_self_iff.mpr ⟨htrim, by omega, hshort requestId hid⟩

/-- As a message. -/
theorem Sendable.message_conveys_iff (h : release.Sendable) {messageId : String}
    (huuid : isUuid messageId = true) (occurredAt : Nat) :
    (Parcel.message (release.message messageId occurredAt)).Conveys release ↔ release.Bounded := by
  have hpayload : (release.message messageId occurredAt).payload = release.body := h.body_eq.symm
  have hid : boundedText 120 messageId = some messageId :=
    Inventory.boundedText_of_isUuid huuid (by omega)
  constructor
  · intro hconveys
    obtain ⟨u, hu, hmeant⟩ := hconveys ""
    unfold Parcel.understood at hu
    dsimp only at hu
    obtain ⟨event, hevent, hu⟩ := Option.bind_eq_some_iff.mp hu
    obtain ⟨-, -, hcorrelation, hactor, hparse⟩ := Inventory.parseStockEvent_some hevent
    rw [hpayload] at hparse
    split at hu
    · cases hu
      have hsame : event.actor = release.options.context.actor := hmeant.actor
      have hcorrelated : event.correlationId = release.options.context.requestId := by
        rw [Inventory.optionalText_eq hcorrelation]
        cases hrequest : release.options.context.requestId with
        | none => simp [Release.message, hrequest]
        | some requestId => simp [Release.message, hrequest, (h.requestId hrequest).1]
      rw [hsame] at hactor
      rw [hcorrelated] at hcorrelation
      obtain ⟨hlines, hquantities⟩ := h.parse_iff.mp ⟨event.payload, hparse⟩
      exact ⟨hlines, hquantities, Inventory.optionalText_self_iff.mp hactor,
        h.correlated_iff.mp hcorrelation⟩
    · cases hu
  · intro hbounded generated
    obtain ⟨input, hparse⟩ := h.parse_iff.mpr ⟨hbounded.lines, hbounded.quantities⟩
    obtain ⟨hitems, hreference, hreason⟩ := h.parsed hparse
    have hactor := Inventory.optionalText_self_iff.mpr hbounded.actor
    have hcorrelation := h.correlated_iff.mpr hbounded.correlated
    have htype : Inventory.InventoryRoutingKey.ofText?
        Inventory.InventoryRoutingKey.release.text = some .release := rfl
    rw [← hpayload] at hparse
    have hevent : Inventory.parseStockEvent (release.message messageId occurredAt) =
        some { messageId, type := .release, occurredAt,
               correlationId := release.options.context.requestId,
               actor := release.options.context.actor, payload := input } :=
      Inventory.parseStockEvent_of hid htype rfl hcorrelation hactor hparse
    have hunderstood : (Parcel.message (release.message messageId occurredAt)).understood generated =
        some { items := input.items.map Inventory.BulkStockLine.raw, reference := input.reference,
               reason := input.reason, correlationId := release.options.context.requestId,
               actor := release.options.context.actor } := by
      unfold Parcel.understood
      dsimp only
      rw [hevent]
      rfl
    exact ⟨_, hunderstood, hitems, hreference, hreason, rfl, fun requestId hrequest => hrequest⟩

/-- A release whose lines are named products is understood as it was meant exactly when it is within
inventory's bounds. -/
theorem Sendable.conveys_iff (h : release.Sendable) {parcel : Parcel}
    (ht : release.TravelsAs parcel) : parcel.Conveys release ↔ release.Bounded := by
  cases ht with
  | request => exact h.request_conveys_iff
  | message messageId occurredAt huuid => exact h.message_conveys_iff huuid occurredAt

end Release

/-! ## The lines of a record -/

section Record

variable {cart : SessionId} {fields : List (String × Int)}

/-- What is held is a recorded product, of units there are. -/
theorem Recordable.held (h : Recordable cart fields) {p : String} {n : Nat}
    (hm : (p, n) ∈ heldQuantities fields) : isUuid p = true ∧ 0 < n ∧ fields ≠ [] := by
  have hget := Entries.get_of_mem (heldQuantities_distinct fields) hm
  rw [get_heldQuantities h.distinct] at hget
  obtain ⟨value, hvalue, hlisted⟩ := Option.bind_eq_some_iff.mp hget
  have hfield := Entries.mem_of_get hvalue
  obtain ⟨⟨-, hpos⟩, hn⟩ := Option.ite_none_right_eq_some.mp hlisted
  refine ⟨(h.lines _ hfield).1, ?_, List.ne_nil_of_mem hfield⟩
  have heq := Option.some.inj hn
  omega

theorem mem_toCartLines {collates : String → String → Bool} {held : Held} {line : CartLine} :
    line ∈ toCartLines collates held ↔ (line.productId, line.quantity) ∈ held := by
  unfold toCartLines
  rw [(List.perm_insertionSort _ _).mem_iff, List.mem_map]
  constructor
  · rintro ⟨entry, hm, rfl⟩
    exact hm
  · intro hm
    exact ⟨_, hm, rfl⟩

/-- Lines that can be given back. -/
def Releasable (items : List StockLine) : Prop :=
  (items.map (·.productId)).Nodup ∧ ∀ line ∈ items, isUuid line.productId = true ∧ 0 < line.quantity

theorem Recordable.releasable (h : Recordable cart fields) (collates : String → String → Bool) :
    Releasable (toCartLines collates (heldQuantities fields)) := by
  constructor
  · have hperm := (List.perm_insertionSort
      (fun a b : CartLine => collates a.productId b.productId = true)
      ((heldQuantities fields).map fun entry =>
        { productId := entry.1, quantity := entry.2 : CartLine })).map (·.productId)
    refine hperm.nodup_iff.mpr ?_
    rw [List.map_map]
    exact heldQuantities_distinct fields
  · intro line hl
    obtain ⟨huuid, hpos, -⟩ := h.held (mem_toCartLines.mp hl)
    exact ⟨huuid, hpos⟩

theorem Recordable.minted_of_lines (h : Recordable cart fields) {collates : String → String → Bool}
    (hne : toCartLines collates (heldQuantities fields) ≠ []) : isUuid cart.text = true := by
  obtain ⟨line, hl⟩ := List.exists_mem_of_ne_nil _ hne
  exact h.minted (h.held (mem_toCartLines.mp hl)).2.2

end Record

/-! ## What a method sends -/

section Sending

open Foundations (Ensured)

variable {α β : Type} {P : Release → Prop} {ok : α → Prop} {ok' : β → Prop}

/-- The method only makes such releases, and returns what it is to. -/
def Hands (P : Release → Prop) (p : Promise α) (ok : α → Prop) : Prop :=
  Ensured (sending P) p (fun a _ => ok a) (fun _ _ => True) ()

/-- The method only makes releases that can be made. -/
abbrev Sends (p : Promise α) (ok : α → Prop) : Prop := Hands Release.Sendable p ok

theorem sends_pure {a : α} (h : ok a) : Hands P (pure a) ok := h

theorem sends_throw (e : Exception) : Hands P (throw e : Promise α) ok := trivial

theorem sends_reply {reply : Option α} (h : ∀ a ∈ reply, ok a) : Hands P (Promise.reply reply) ok := by
  unfold Hands
  rw [ensured_reply]
  cases reply with
  | some a => exact h a rfl
  | none => trivial

theorem sends_read (reply : Option α) : Hands P (Promise.reply reply) fun _ => True :=
  sends_reply fun _ _ => trivial

theorem sends_call (command : Command) (h : (sending P).allows command ()) :
    Hands P (Promise.call command) fun reply => (sending P).replies command () reply () :=
  ensured_call.mpr ⟨h, fun _ _ hr => hr⟩

theorem Hands.mono {ok'' : α → Prop} {p : Promise α} (h : Hands P p ok) (hok : ∀ a, ok a → ok'' a) :
    Hands P p ok'' := Ensured.mono h (fun a _ ha => hok a ha) fun _ _ he => he

theorem sends_bind {p : Promise β} {f : β → Promise α} (hp : Hands P p ok')
    (hf : ∀ b, ok' b → Hands P (f b) ok) : Hands P (p >>= f) ok := by
  unfold Hands
  rw [Foundations.ensured_bind]
  exact Ensured.mono hp (fun b _ hb => hf b hb) fun _ _ he => he

/-- What is awaited may be absent. -/
theorem sends_optional {p : Promise (Option β)} {f : Option β → Promise α}
    (hp : Hands P p fun found => ∀ b ∈ found, ok' b) (hsome : ∀ b, ok' b → Hands P (f (some b)) ok)
    (hnone : Hands P (f none) ok) : Hands P (p >>= f) ok := by
  refine sends_bind hp fun found hfound => ?_
  cases found with
  | some b => exact hsome b (hfound b rfl)
  | none => exact hnone

theorem sends_tryCatch {p : Promise α} {handler : Exception → Promise α} (hp : Hands P p ok)
    (hhandler : ∀ e, Hands P (handler e) ok) : Hands P (tryCatch p handler) ok := by
  unfold Hands
  rw [Foundations.ensured_tryCatch]
  exact Ensured.mono hp (fun _ _ ha => ha) fun e _ _ => hhandler e

theorem sends_orUndo {step : Promise α} {undo : Promise Unit} (hstep : Hands P step ok)
    (hundo : Hands P undo fun _ => True) : Hands P (CartService.orUndo step undo) ok :=
  sends_tryCatch hstep fun e => sends_bind hundo fun _ _ => sends_throw e

/-- A command and the reading of its reply. -/
theorem sends_redis (command : Command) {f : command.Reply → Option α}
    (h : (sending P).allows command ())
    (hf : ∀ reply, (sending P).replies command () reply () → ∀ a ∈ f reply, ok a) :
    Hands P (do Promise.reply (f (← Promise.call command))) ok :=
  sends_bind (sends_call command h) fun reply hr => sends_reply (hf reply hr)

theorem sends_randomUUID : Hands P Promise.randomUUID fun uuid => isUuid uuid = true :=
  sends_call .randomUUID trivial

theorem sends_dateNow : Hands P Promise.dateNow fun _ => True :=
  (sends_call .dateNow trivial).mono fun _ _ => trivial

theorem sends_dueAt {env : Env} : Hands P (CartRepository.dueAt env) fun _ => True :=
  sends_bind sends_dateNow fun _ _ => sends_pure trivial

theorem sends_attempt (key : LockKey) (token : String) (attempts : Nat) :
    Hands P (RedisLock.attempt key token attempts) fun _ => True := by
  induction attempts with
  | zero => exact sends_pure trivial
  | succ attempts ih =>
    unfold RedisLock.attempt
    refine sends_bind (sends_call (.lockSet key token) trivial) fun reply _ =>
      sends_bind (sends_read reply) fun taken _ => ?_
    cases taken with
    | true => exact sends_pure trivial
    | false => exact ih

theorem sends_withLock {key : LockKey} (retries : Nat) {work : Promise α} (hwork : Hands P work ok) :
    Hands P (RedisLock.withLock key retries work) fun result => ∀ a ∈ result, ok a := by
  unfold RedisLock.withLock
  have hacquire : Hands P (RedisLock.acquire key retries) fun _ => True := by
    refine sends_bind sends_randomUUID fun token _ =>
      sends_bind (sends_attempt key token (retries + 1)) fun taken _ => ?_
    cases taken with
    | true => exact sends_pure trivial
    | false => exact sends_pure trivial
  refine sends_bind hacquire fun acquired _ => ?_
  cases acquired with
  | none => exact sends_pure fun _ h => nomatch h
  | some token =>
    have hgive : Hands P (RedisLock.release key token) fun _ => True :=
      sends_bind (sends_call (.lockRelease key token) trivial) fun _ _ => sends_pure trivial
    have hheld : Hands P (Promise.finally_ work (RedisLock.release key token)) ok :=
      ensured_finally (Ensured.mono hwork
        (fun a _ ha => Ensured.mono hgive (fun _ _ _ => ha) fun _ _ he => he)
        fun _ _ _ => Ensured.mono hgive (fun _ _ _ => trivial) fun _ _ he => he)
    exact sends_bind hheld fun a ha => sends_pure fun _ h => Option.some.inj h ▸ ha

/-! ### The adapters -/

variable {env : Env} {cart : SessionId} {context : CallContext} {items : List StockLine}
  {reference : SessionId} {options : StockChangeOptions}

theorem sends_request {t : Inventory.Transition} {body : BulkBody}
    (h : (sending P).allows (.post t body) ()) :
    Hands P (HttpInventoryAdapter.request t body) fun _ => ∃ input, parseBulk body = some input := by
  refine sends_bind (sends_call (.post t body) h) fun reply hr => ?_
  cases reply with
  | none => exact sends_throw _
  | some response =>
    dsimp only
    split
    · rename_i hok
      exact sends_pure (hr response rfl hok)
    · exact sends_throw _

theorem sends_bulk {t : Inventory.Transition}
    (h : items ≠ [] → (sending P).allows (.post t (bulkBody items reference options.reason)) ()) :
    Hands P (HttpInventoryAdapter.bulk t items reference options) fun _ =>
      ∀ line ∈ items, isUuid line.productId = true := by
  by_cases hnil : items = []
  · subst hnil
    rw [bulk_nil]
    exact sends_pure fun _ hl => nomatch hl
  by_cases hpostable : Postable items
  · rw [bulk_postable t reference options hpostable]
    refine (sends_request (h hnil)).mono fun _ hparse line hl => ?_
    obtain ⟨-, -, -, hlines, -⟩ := Inventory.parseBulk_iff.mp hparse
    exact (hlines _ (List.mem_map.mpr ⟨line, hl, rfl⟩)).1
  · obtain ⟨message, hrefused⟩ := bulk_not_postable t reference options hnil hpostable
    rw [hrefused]
    exact sends_throw _

/-- A reservation is no release. -/
theorem sends_reserve : Hands P (HttpInventoryAdapter.bulk .reserve items reference options) fun _ =>
    ∀ line ∈ items, isUuid line.productId = true := sends_bulk fun _ h => nomatch h

theorem sends_release (h : items ≠ [] → P (Release.mk items reference options)) :
    Hands P (HttpInventoryAdapter.bulk .release items reference options) fun _ => True :=
  (sends_bulk fun hne _ => ⟨_, h hne, .post⟩).mono fun _ _ => trivial

theorem sends_dispatch (h : items ≠ [] → P (Release.mk items reference options)) :
    Hands P (dispatchReleaseMany env items reference options) fun _ => True := by
  unfold dispatchReleaseMany
  split
  · exact sends_release h
  · unfold AmqpInventoryDispatch.releaseMany
    split
    · exact sends_pure trivial
    · rename_i hne
      have hitems : items ≠ [] := fun hnil => hne (List.length_eq_zero_iff.mpr hnil)
      refine sends_bind sends_randomUUID fun messageId huuid =>
        sends_bind sends_dateNow fun occurredAt _ => ?_
      refine sends_bind (sends_call (.publish
        ((Release.mk items reference options).message messageId occurredAt))
        ⟨_, h hitems, .publish messageId occurredAt huuid⟩) fun confirmed _ => ?_
      cases confirmed with
      | true => exact sends_pure trivial
      | false => exact sends_throw _

theorem Releasable.sendable (h : Releasable items) (hcart : isUuid cart.text = true)
    (hcontext : header context.requestId = context.requestId) {reason : String}
    (hreason : boundedText 500 reason = some reason) (hne : items ≠ []) :
    (Release.mk items cart { reason := some reason, context }).Sendable :=
  ⟨hne, h.1, h.2, hcart, ⟨reason, rfl, hreason⟩, hcontext⟩

theorem reasons_bounded : boundedText 500 CART_UPDATE_REASON = some CART_UPDATE_REASON ∧
    boundedText 500 CART_ROLLBACK_REASON = some CART_ROLLBACK_REASON ∧
    boundedText 500 CART_CHECKOUT_REASON = some CART_CHECKOUT_REASON := by decide +kernel

theorem cause_bounded (cause : ReleaseCause) :
    boundedText 500 s!"Cart {cause.text}" = some s!"Cart {cause.text}" := by
  cases cause with
  | expired => decide +kernel
  | swept => decide +kernel
  | abandoned => decide +kernel

/-! ### An update -/

section Update

variable (hcart : isUuid cart.text = true) (hcontext : header context.requestId = context.requestId)
include hcart hcontext

theorem sends_rollback {reserved released : List StockLine} (h : Releasable reserved) :
    Sends (CartService.rollback env reserved released cart context) fun _ => True := by
  have hretake : Sends (do
      if released.length > 0 then
        HttpInventoryAdapter.reserveMany released cart
          { reason := some CART_ROLLBACK_REASON, context }) fun _ => True := by
    split
    · exact sends_reserve.mono fun _ _ => trivial
    · exact sends_pure trivial
  unfold CartService.rollback
  split
  · exact sends_pure trivial
  refine sends_tryCatch ?_ fun _ => sends_pure trivial
  dsimp only
  split
  · exact sends_bind (sends_dispatch (h.sendable hcart hcontext reasons_bounded.2.1))
      fun _ _ => hretake
  · exact hretake

omit hcontext in
theorem sends_commit {changes : CartChanges}
    (h : ∀ line ∈ changes.writes, isUuid line.productId = true ∧ 0 < line.quantity) :
    Sends (CartRepository.commit env cart changes) fun _ => True := by
  refine sends_bind sends_dueAt fun dueAt _ => ?_
  refine sends_bind (sends_call (.cartCommit cart changes.writes changes.removals
    env.sessionTtlSeconds env.itemsTtlSeconds dueAt) ⟨hcart, h⟩) fun reply _ => ?_
  exact sends_bind (sends_read reply) fun _ _ => sends_pure trivial

/-- A plan that is carried out: what is given back is held, and what is written is held or reserved
for. -/
theorem sends_applyChanges {changes : CartChanges}
    (hreserve : (changes.reserve.map (·.productId)).Nodup ∧
      ∀ line ∈ changes.reserve, 0 < line.quantity)
    (hrelease : Releasable changes.release)
    (hwrites : ∀ line ∈ changes.writes, 0 < line.quantity ∧
      (line.productId ∈ changes.reserve.map (·.productId) ∨ isUuid line.productId = true)) :
    Sends (CartService.applyChanges env changes cart context) fun _ => True := by
  have hrest : (∀ line ∈ changes.reserve, isUuid line.productId = true) → Sends (do
      if changes.release.length > 0 then
        CartService.orUndo (dispatchReleaseMany env changes.release cart
          { reason := some CART_UPDATE_REASON, context })
          (CartService.rollback env changes.reserve [] cart context)
      CartService.orUndo (CartRepository.commit env cart changes)
        (CartService.rollback env changes.reserve changes.release cart context)) fun _ => True := by
    intro huuids
    have hreserved : Releasable changes.reserve :=
      ⟨hreserve.1, fun line hl => ⟨huuids line hl, hreserve.2 line hl⟩⟩
    have hwritten : ∀ line ∈ changes.writes, isUuid line.productId = true ∧ 0 < line.quantity := by
      intro line hl
      obtain ⟨hpos, hknown⟩ := hwrites line hl
      refine ⟨?_, hpos⟩
      rcases hknown with hknown | hknown
      · obtain ⟨taken, htaken, hid⟩ := List.mem_map.mp hknown
        rw [← hid]
        exact huuids taken htaken
      · exact hknown
    have hcommit : Sends (CartService.orUndo (CartRepository.commit env cart changes)
        (CartService.rollback env changes.reserve changes.release cart context)) fun _ => True :=
      sends_orUndo (sends_commit hcart hwritten) (sends_rollback hcart hcontext hreserved)
    dsimp only
    split
    · exact sends_bind (sends_orUndo
        (sends_dispatch (hrelease.sendable hcart hcontext reasons_bounded.1))
        (sends_rollback hcart hcontext hreserved)) fun _ _ => hcommit
    · exact hcommit
  have hnone : Releasable [] := ⟨List.nodup_nil, fun _ h => nomatch h⟩
  unfold CartService.applyChanges
  dsimp only
  split
  · exact sends_bind (sends_orUndo sends_reserve (sends_rollback hcart hcontext hnone))
      fun _ huuids => hrest huuids
  · rename_i hempty
    refine hrest fun line hl => ?_
    rw [List.length_eq_zero_iff.mp (Nat.eq_zero_of_not_pos hempty)] at hl
    cases hl

omit hcart hcontext in
theorem sends_held : Sends (CartRepository.held cart) fun held =>
    ∃ fields, Recordable cart fields ∧ held = heldQuantities fields := by
  refine sends_bind (sends_call (.hgetall cart) trivial) fun reply hr => ?_
  exact sends_bind (sends_reply hr) fun fields hf => sends_pure ⟨fields, hf, rfl⟩

omit hcart hcontext in
theorem sends_lines : Sends (CartRepository.lines env cart) fun lines =>
    ∃ fields, Recordable cart fields ∧ lines = toCartLines env.collates (heldQuantities fields) := by
  refine sends_bind sends_held fun held hheld => ?_
  obtain ⟨fields, hf, rfl⟩ := hheld
  exact sends_pure ⟨fields, hf, rfl⟩

omit hcart hcontext in
theorem sends_touch : Sends (CartRepository.touch env cart) fun live =>
    live = true → isUuid cart.text = true := by
  refine sends_bind sends_dueAt fun dueAt _ => ?_
  exact sends_redis (.cartTouch cart env.sessionTtlSeconds env.itemsTtlSeconds dueAt) trivial
    fun reply hr live hlive htrue => hr (hlive.trans (congrArg some htrue))

theorem sends_applyRequested {requested : List CartLine}
    (hn : (requested.map (·.productId)).Nodup) :
    Sends (CartService.applyRequested env requested cart context) fun _ => True := by
  unfold CartService.applyRequested
  refine sends_bind sends_held fun held hheld => ?_
  obtain ⟨fields, hf, rfl⟩ := hheld
  have hlisted := listed_planChanges (heldQuantities fields) requested
  have hknown : ∀ {p : String}, p ∈ (heldQuantities fields).map Prod.fst → isUuid p = true := by
    intro p hp
    obtain ⟨entry, hm, rfl⟩ := List.mem_map.mp hp
    exact (hf.held hm).1
  have happly : Sends (CartService.applyChanges env
      (planChanges (heldQuantities fields) requested) cart context) fun _ => True := by
    refine sends_applyChanges hcart hcontext ⟨hlisted.reserve.nodup hn, hlisted.reserve_pos⟩
      ⟨hlisted.release.nodup hn, fun line hl => ⟨?_, hlisted.release_pos line hl⟩⟩
      fun line hl => ⟨hlisted.writes_pos line hl, ?_⟩
    · exact hknown (held_of_release hn hl)
    · exact (reserved_or_held_of_write hn hl).imp_right hknown
  have hsettle : Sends (do
      if isNoop (planChanges (heldQuantities fields) requested) then
        let _ ← CartRepository.touch env cart
        CartRepository.lines env cart
      else CartService.applyChanges env (planChanges (heldQuantities fields) requested) cart context)
      fun _ => True := by
    split
    · exact sends_bind sends_touch fun _ _ => sends_lines.mono fun _ _ => trivial
    · exact happly
  dsimp only
  split
  · exact sends_bind (sends_throw _) fun _ (_ : True) => hsettle
  · exact hsettle

theorem sends_setLines {requested : List CartLine} :
    Sends (CartService.setLines env requested cart context) fun _ => True := by
  unfold CartService.setLines
  dsimp only
  split
  · exact sends_bind (sends_throw _) fun _ h => (nomatch (h : False))
  · rename_i hfew
    have hn := nodup_of_no_duplicates (Nat.eq_zero_of_not_pos hfew)
    exact sends_optional (sends_withLock _ (sends_applyRequested hcart hcontext hn))
      (fun _ _ => sends_pure trivial) (sends_throw _)

end Update

/-! ### A checkout -/

theorem sends_transferHold {target : SessionId}
    (h : items ≠ [] → ∀ reason, options.reason = some reason →
      (Release.mk items reference options).Sendable) {reason : String}
    (hreason : options.reason = some reason) :
    Sends (HttpInventoryAdapter.transferHold items reference target options) fun _ => True := by
  have hsame : ({ options with
      reason := options.reason.orElse fun _ => some "Hold transferred out" } : StockChangeOptions) =
      options := by
    rw [hreason]
    cases options
    cases hreason
    rfl
  unfold HttpInventoryAdapter.transferHold
  split
  · exact sends_pure trivial
  rw [hsame]
  refine sends_bind (sends_release fun hne => h hne reason hreason) fun _ _ => ?_
  refine sends_tryCatch (sends_reserve.mono fun _ _ => trivial) fun e => ?_
  exact sends_bind (sends_tryCatch (sends_reserve.mono fun _ _ => trivial)
    fun _ => sends_pure trivial) fun _ _ => sends_throw e

theorem sends_checkoutHeld (hcontext : header context.requestId = context.requestId)
    {orderId : SessionId} :
    Sends (CartService.checkoutHeld env cart orderId context) fun _ => True := by
  unfold CartService.checkoutHeld
  refine sends_bind sends_lines fun lines hlines => ?_
  obtain ⟨fields, hf, rfl⟩ := hlines
  dsimp only
  split
  · exact sends_bind (sends_throw _) fun _ h => (nomatch (h : False))
  refine sends_bind (sends_transferHold (fun hne reason hr => ?_) rfl) fun _ _ =>
    sends_bind (sends_redis (.cartDiscard cart) trivial fun _ _ _ _ => trivial) fun _ _ =>
      sends_pure trivial
  exact (hf.releasable env.collates).sendable (hf.minted_of_lines hne) hcontext
    reasons_bounded.2.2 hne

theorem sends_checkout (hcontext : header context.requestId = context.requestId)
    {orderId : SessionId} : Sends (CartService.checkout env cart orderId context) fun _ => True :=
  sends_optional (sends_withLock _ (sends_checkoutHeld hcontext)) (fun _ _ => sends_pure trivial)
    (sends_throw _)

/-! ### A release -/

theorem header_of_isUuid {uuid : String} (h : isUuid uuid = true) :
    header (some uuid) = some uuid := by
  obtain ⟨hlength, hvisible⟩ := Inventory.visible_of_isUuid h
  have hne : uuid ≠ "" := by
    rintro rfl
    cases hlength
  unfold header
  rw [Option.map_some, Inventory.trim_of_visible hvisible, Option.filter_some]
  simp [hne]

theorem Recordable.sendable {fields : List (String × Int)} (h : Recordable cart fields)
    {requestId : String} (huuid : isUuid requestId = true) (cause : ReleaseCause)
    (hne : toCartLines env.collates (heldQuantities fields) ≠ []) :
    (Release.ofHold env cart fields cause requestId).Sendable :=
  (h.releasable env.collates).sendable (h.minted_of_lines hne) (header_of_isUuid huuid)
    (cause_bounded cause) hne

theorem hands_releaseFailed (e : Exception) :
    Hands P (CartService.releaseFailed env cart e) fun _ => True := by
  have hretry : ∀ e' : Exception, Hands P (do
      CartRepository.scheduleRelease cart
        ((← Promise.dateNow) + env.CART_RELEASE_RETRY_DELAY_MS.value)
      throw e' : Promise Bool) fun _ => True := fun e' =>
    sends_bind sends_dateNow fun now _ => sends_bind
      (sends_redis (.zadd cart (now + env.CART_RELEASE_RETRY_DELAY_MS.value)) trivial
        fun _ _ _ _ => trivial) fun _ (_ : True) => sends_throw e'
  cases e with
  | InsufficientStockException message failures =>
    exact sends_bind (sends_redis (.cartFinish cart) trivial fun _ _ _ _ => trivial)
      fun _ (_ : True) => sends_pure trivial
  | BadRequestException message => exact hretry _
  | ConflictException message => exact hretry _
  | NotFoundException message => exact hretry _
  | ServiceUnavailableException message => exact hretry _
  | RedisError => exact hretry _

/-- What `releaseTaken` does once the take has replied. -/
def afterTake (env : Env) (cart : SessionId) (cause : ReleaseCause)
    (reply : Option (List (String × Int))) : Promise ReleaseOutcome := do
  let held ← (do return toCartLines env.collates (heldQuantities (← Promise.reply reply)))
  if held.length = 0 then
    CartRepository.forget cart
    return { released := false, skipped := some .empty, lines := 0 }
  else CartService.releaseHeld env cart held cause

theorem releaseTaken_eq (env : Env) (cart : SessionId) (cause : ReleaseCause) :
    CartService.releaseTaken env cart cause =
      Promise.call (.cartTake cart env.inFlightTtlSeconds) >>= afterTake env cart cause := rfl

/-- A release makes no other release than that of the lines it has taken. -/
theorem hands_afterTake {cause : ReleaseCause} {reply : Option (List (String × Int))}
    (h : ∀ fields ∈ reply, toCartLines env.collates (heldQuantities fields) ≠ [] →
      ∀ requestId, isUuid requestId = true → P (.ofHold env cart fields cause requestId)) :
    Hands P (afterTake env cart cause reply) fun _ => True := by
  have htaken : Hands P (do
      return toCartLines env.collates (heldQuantities (← Promise.reply reply)) :
        Promise (List CartLine)) fun lines =>
      ∃ fields ∈ reply, lines = toCartLines env.collates (heldQuantities fields) :=
    sends_bind (sends_reply fun fields hf => hf) fun fields hf => sends_pure ⟨fields, hf, rfl⟩
  unfold afterTake
  refine sends_bind htaken fun held hheld => ?_
  obtain ⟨fields, hf, rfl⟩ := hheld
  split
  · exact sends_bind (sends_redis (.zrem cart) trivial fun _ _ _ _ => trivial)
      fun _ (_ : True) => sends_pure trivial
  unfold CartService.releaseHeld
  refine sends_bind sends_randomUUID fun requestId huuid => ?_
  have hdispatch : Hands P (tryCatch (do
      dispatchReleaseMany env (toCartLines env.collates (heldQuantities fields)) cart
        { reason := some s!"Cart {cause.text}"
          context := { requestId := some requestId, actor := some env.SERVICE_NAME } }
      return true) (CartService.releaseFailed env cart)) fun _ => True :=
    sends_tryCatch (sends_bind (sends_dispatch fun hne => h fields hf hne requestId huuid)
      fun _ _ => sends_pure trivial) hands_releaseFailed
  refine sends_bind hdispatch fun dispatched _ => ?_
  cases dispatched with
  | true =>
    exact sends_bind (sends_redis (.cartFinish cart) trivial fun _ _ _ _ => trivial)
      fun _ (_ : True) => sends_pure trivial
  | false => exact sends_pure trivial

theorem sends_releaseTaken {cause : ReleaseCause} :
    Sends (CartService.releaseTaken env cart cause) fun _ => True := by
  rw [releaseTaken_eq]
  refine sends_bind (sends_call (.cartTake cart env.inFlightTtlSeconds) trivial) fun reply hr => ?_
  exact hands_afterTake fun fields hf hne requestId huuid => (hr fields hf).sendable huuid cause hne

theorem sends_releaseSession {cause : ReleaseCause} :
    Sends (CartService.releaseSession env cart cause) fun _ => True := by
  refine sends_bind (sends_withLock 0 (sends_withLock _ sends_releaseTaken)) fun outcome _ => ?_
  cases outcome with
  | none => exact sends_pure trivial
  | some outcome =>
    cases outcome with
    | none => exact sends_pure trivial
    | some outcome => exact sends_pure trivial

/-! ### The threads -/

theorem sends_resolveSession (claimed : Option SessionId) :
    Sends (CartService.resolveSession env claimed) fun resolved =>
      isUuid resolved.cartSessionId.text = true := by
  unfold CartService.resolveSession
  extract_lets settle
  have hminted : ∀ live, (live = true → ∀ cart ∈ claimed, isUuid cart.text = true) →
      Sends (settle live) fun resolved => isUuid resolved.cartSessionId.text = true := by
    intro live hlive
    unfold settle
    split
    · exact sends_pure (hlive rfl _ rfl)
    · refine sends_bind sends_randomUUID fun uuid huuid => ?_
      have hsame : ∀ cart ∈ CartService.sessionOf uuid, cart.text = uuid := by
        intro cart hcart
        unfold CartService.sessionOf at hcart
        split at hcart
        · cases hcart
          rfl
        · cases hcart
      cases hsession : CartService.sessionOf uuid with
      | none => exact sends_throw _
      | some cart =>
        have hcart : isUuid cart.text = true := by
          rw [hsame cart hsession]
          exact huuid
        exact sends_bind (sends_redis (.startSession cart env.sessionTtlSeconds) hcart
          fun _ _ _ _ => trivial) fun _ (_ : True) => sends_pure hcart
  cases claimed with
  | none => exact hminted false fun h => nomatch h
  | some cart =>
    refine sends_bind sends_touch fun live hlive => hminted live fun htrue c hc => ?_
    cases hc
    exact hlive htrue

theorem sends_requireSession (claimed : Option SessionId) :
    Sends (CartController.requireSession env claimed) fun cart => isUuid cart.text = true := by
  cases claimed with
  | none => exact sends_throw _
  | some cart =>
    refine sends_bind sends_touch fun live hlive => ?_
    cases live with
    | true => exact sends_pure (hlive rfl)
    | false => exact sends_throw _

theorem sends_watcherRelease {cause : ReleaseCause} :
    Sends (CartExpiryWatcher.release env cart cause) fun _ => True :=
  sends_tryCatch (sends_bind sends_releaseSession fun _ _ => sends_pure trivial)
    fun _ => sends_pure trivial

theorem sends_sweepAll (carts : List SessionId) :
    Sends (CartExpiryWatcher.sweepAll env carts) fun _ => True := by
  induction carts with
  | nil => exact sends_pure trivial
  | cons cart carts ih =>
    have hone : Sends (CartExpiryWatcher.sweepOne env cart) fun _ => True := by
      refine sends_bind (sends_redis (.pttl cart) trivial fun _ _ _ _ => trivial)
        fun ttlMs (_ : True) => ?_
      split
      · exact sends_bind sends_dateNow fun now _ =>
          sends_redis (.zadd cart _) trivial fun _ _ _ _ => trivial
      · exact sends_watcherRelease
    exact sends_bind hone fun _ _ => ih

theorem sends_task {task : Task} (h : task.requested) : Sends (task.run env) fun _ => True := by
  cases task with
  | setItems items claimed context =>
    exact sends_bind (sends_bind (sends_resolveSession claimed) fun resolved hcart =>
      sends_setLines hcart h) fun _ _ => sends_pure trivial
  | getCart claimed =>
    have hget : Sends (CartController.getCart env claimed) fun _ => True :=
      sends_bind (sends_requireSession claimed) fun cart _ => sends_lines.mono fun _ _ => trivial
    exact sends_bind hget fun _ _ => sends_pure trivial
  | checkoutCart orderId claimed context =>
    exact sends_bind (sends_bind (sends_requireSession claimed) fun cart _ => sends_checkout h)
      fun _ _ => sends_pure trivial
  | abandon claimed =>
    have habandon : Sends (CartController.abandon env claimed) fun _ => True := by
      cases claimed with
      | none => exact sends_pure trivial
      | some cart => exact sends_bind sends_releaseSession fun _ _ => sends_pure trivial
    exact sends_bind habandon fun _ _ => sends_pure trivial
  | sweep =>
    have hsweep : Sends (CartExpiryWatcher.sweep env) fun _ => True :=
      sends_tryCatch (sends_bind sends_dateNow fun now _ => sends_bind
        (sends_redis (.dueBefore now env.CART_SWEEP_BATCH.value) trivial fun _ _ _ _ => trivial)
        fun due (_ : True) => sends_sweepAll due) fun _ => sends_pure trivial
    exact sends_bind hsweep fun _ _ => sends_pure trivial
  | setLines requested cart context =>
    exact sends_bind (sends_setLines h.1 h.2) fun _ _ => sends_pure trivial
  | checkout cart orderId context =>
    exact sends_bind (sends_checkout h.2) fun _ _ => sends_pure trivial
  | releaseSession cart cause =>
    exact sends_bind sends_releaseSession fun _ _ => sends_pure trivial
  | repository call cart => exact h.elim

theorem sends_notified : Sends (notified env cart) fun _ => True :=
  sends_bind sends_watcherRelease fun _ _ => sends_pure trivial

end Sending

/-! ## A tidy store -/

section Store

variable {r r' : Redis} {cart : SessionId}

theorem liveSession_some {expiresAt : Nat} (h : r.liveSession cart = some expiresAt) :
    r.session cart = some expiresAt := (Option.filter_eq_some_iff.mp h).1

theorem Redis.Tidy.hgetall (h : r.Tidy) (cart : SessionId) : Recordable cart (r.hgetall cart) := by
  unfold Redis.hgetall
  cases hitems : r.liveItems cart with
  | none => exact ⟨List.nodup_nil, fun _ hf => (nomatch hf), fun hne => absurd rfl hne⟩
  | some hash => exact h.records cart hash (Redis.liveItems_some hitems).1

/-- A step on the keys of one cart. -/
theorem Redis.Tidy.touching (h : r.Tidy) (cart : SessionId)
    (hsession : ∀ c ≠ cart, r'.session c = r.session c)
    (hitems : ∀ c ≠ cart, r'.items c = r.items c)
    (hminted : ∀ expiresAt, r'.session cart = some expiresAt → isUuid cart.text = true)
    (hrecord : ∀ hash, r'.items cart = some hash → Recordable cart hash.fields) : r'.Tidy := by
  refine ⟨fun c expiresAt hs => ?_, fun c hash hi => ?_⟩
  · by_cases hc : c = cart
    · subst hc
      exact hminted expiresAt hs
    · exact h.sessions c expiresAt (hsession c hc ▸ hs)
  · by_cases hc : c = cart
    · subst hc
      exact hrecord hash hi
    · exact h.records c hash (hitems c hc ▸ hi)

/-- A step on other keys. -/
theorem Redis.Tidy.quiet (h : r.Tidy) (hsession : r'.session = r.session)
    (hitems : r'.items = r.items) : r'.Tidy :=
  ⟨fun c expiresAt hs => h.sessions c expiresAt (hsession ▸ hs),
    fun c hash hi => h.records c hash (hitems ▸ hi)⟩

theorem mem_set {κ α : Type} [DecidableEq κ] {entries : List (κ × α)} {key : κ} {value : α}
    {entry : κ × α} (h : entry ∈ Entries.set entries key value) :
    entry = (key, value) ∨ entry ∈ entries := by
  induction entries with
  | nil => exact .inl (List.mem_singleton.mp h)
  | cons first rest ih =>
    rw [Entries.set] at h
    split at h
    · rcases List.mem_cons.mp h with h | h
      · exact .inl h
      · exact .inr (List.mem_cons_of_mem _ h)
    · rcases List.mem_cons.mp h with h | h
      · exact .inr (h ▸ List.mem_cons_self)
      · exact (ih h).imp_right (List.mem_cons_of_mem _)

theorem mem_committed {fields : List (String × Int)} {writes : List CartLine}
    {removals : List String} {field : String × Int}
    (h : field ∈ Redis.committed fields writes removals) :
    field ∈ fields ∨ ∃ line ∈ writes, field = (line.productId, (line.quantity : Int)) := by
  have hdel : ∀ (removals : List String) (entries : List (String × Int)),
      field ∈ Redis.hdel entries removals → field ∈ entries := by
    intro removals
    induction removals with
    | nil => exact fun _ hm => hm
    | cons p removals ih => exact fun entries hm => (List.mem_filter.mp (ih _ hm)).1
  have hset : ∀ (writes : List CartLine) (entries : List (String × Int)),
      field ∈ Redis.hset entries writes →
        field ∈ entries ∨ ∃ line ∈ writes, field = (line.productId, (line.quantity : Int)) := by
    intro writes
    induction writes with
    | nil => exact fun _ hm => .inl hm
    | cons line writes ih =>
      intro entries hm
      rcases ih _ hm with hm | ⟨l, hl, he⟩
      · rcases mem_set hm with he | hm
        · exact .inr ⟨line, List.mem_cons_self, he⟩
        · exact .inl hm
      · exact .inr ⟨l, List.mem_cons_of_mem _ hl, he⟩
  exact hset writes fields (hdel removals _ h)

theorem Redis.Tidy.cartCommit (h : r.Tidy) {writes : List CartLine} {removals : List String}
    {sessionTtl itemsTtl dueAt : Nat} (hcart : isUuid cart.text = true)
    (hwrites : ∀ line ∈ writes, isUuid line.productId = true ∧ 0 < line.quantity) :
    (r.cartCommit cart writes removals sessionTtl itemsTtl dueAt).2.Tidy := by
  have hfields : Recordable cart (Redis.committed (r.hgetall cart) writes removals) := by
    refine ⟨Redis.committed_distinct (r.hgetall_distinct cart) writes removals, fun field hf => ?_,
      fun _ => hcart⟩
    rcases mem_committed hf with hf | ⟨line, hl, rfl⟩
    · exact (h.hgetall cart).lines field hf
    · obtain ⟨huuid, hpos⟩ := hwrites line hl
      exact ⟨huuid, by dsimp only; omega⟩
  unfold Redis.cartCommit
  dsimp only
  split
  · refine h.touching cart (fun c hc => if_neg hc) (fun c hc => if_neg hc) (fun _ _ => hcart)
      fun hash hi => ?_
    cases (if_pos rfl).symm.trans hi
    exact hfields
  · refine h.touching cart (fun c hc => if_neg hc) (fun c hc => if_neg hc) (fun _ _ => hcart)
      fun hash hi => ?_
    cases (if_pos rfl).symm.trans hi

theorem Redis.Tidy.cartTouch (h : r.Tidy) {sessionTtl itemsTtl dueAt : Nat} :
    (r.cartTouch cart sessionTtl itemsTtl dueAt).2.Tidy := by
  unfold Redis.cartTouch
  cases hsession : r.liveSession cart with
  | none => exact h
  | some expiresAt =>
    have hcart := h.sessions cart expiresAt (liveSession_some hsession)
    cases hitems : r.liveItems cart with
    | none =>
      exact h.touching cart (fun c hc => if_neg hc) (fun _ _ => rfl) (fun _ _ => hcart)
        (h.records cart)
    | some hash =>
      refine h.touching cart (fun c hc => if_neg hc) (fun c hc => if_neg hc) (fun _ _ => hcart)
        fun hash' hi => ?_
      cases (if_pos rfl).symm.trans hi
      exact h.records cart hash (Redis.liveItems_some hitems).1

theorem Redis.Tidy.cartTake (h : r.Tidy) {inFlight : Nat} :
    (r.cartTake cart inFlight).2.Tidy := by
  unfold Redis.cartTake
  cases hitems : r.liveItems cart with
  | none => exact h
  | some hash =>
    dsimp only
    split
    · refine h.touching cart (fun _ _ => rfl) (fun c hc => if_neg hc) (h.sessions cart)
        fun hash' hi => ?_
      cases (if_pos rfl).symm.trans hi
      exact h.records cart hash (Redis.liveItems_some hitems).1
    · exact h

theorem take_eq_hgetall (r : Redis) (cart : SessionId) (inFlight : Nat) :
    (r.cartTake cart inFlight).1 = r.hgetall cart := by
  unfold Redis.cartTake Redis.hgetall
  cases r.liveItems cart with
  | none => rfl
  | some hash =>
    dsimp only
    split
    · rfl
    · rename_i hnil
      exact (not_not.mp hnil).symm

/-- A cart without a record, and perhaps without a session. -/
theorem Redis.Tidy.dropped (h : r.Tidy) (cart : SessionId)
    (hitems : r'.items = fun c => if c = cart then none else r.items c)
    (hsession : ∀ c, r'.session c = r.session c ∨ r'.session c = none) : r'.Tidy := by
  refine ⟨fun c expiresAt hs => ?_, fun c hash hi => ?_⟩
  · rcases hsession c with he | he
    · exact h.sessions c expiresAt (he ▸ hs)
    · cases he.symm.trans hs
  · rw [hitems] at hi
    dsimp only at hi
    split at hi
    · cases hi
    · exact h.records c hash hi

theorem tidy_effect {P : Release → Prop} {command : Command} (h : r.Tidy)
    (ha : (sending P).allows command ()) : (command.effect r).Tidy := by
  cases command with
  | cartCommit cart writes removals sessionTtl itemsTtl dueAt => exact h.cartCommit ha.1 ha.2
  | cartTouch cart sessionTtl itemsTtl dueAt => exact h.cartTouch
  | cartTake cart inFlight => exact h.cartTake
  | startSession cart sessionTtl =>
    exact h.touching cart (fun c hc => if_neg hc) (fun _ _ => rfl) (fun _ _ => ha)
      (h.records cart)
  | cartFinish cart => exact h.dropped cart rfl fun _ => .inl rfl
  | cartDiscard cart =>
    refine h.dropped cart rfl fun c => ?_
    by_cases hc : c = cart
    · exact .inr (if_pos hc)
    · exact .inl (if_neg hc)
  | lockSet key token =>
    have hsame : (r.lockSet key token).2.Tidy := by
      unfold Redis.lockSet
      split
      · exact h.quiet rfl rfl
      · exact h
    exact hsame
  | lockRelease key token =>
    have hsame : (r.lockRelease key token).Tidy := by
      unfold Redis.lockRelease
      split
      · exact h.quiet rfl rfl
      · exact h
    exact hsame
  | zadd cart score => exact h.quiet rfl rfl
  | zrem cart => exact h.quiet rfl rfl
  | randomUUID | dateNow | hgetall _ | dueBefore _ _ | pttl _ | post _ _ | publish _ => exact h

end Store

/-! ## A run -/

section Run

open Foundations (Meets runs AllSteps)

variable {P : Release → Prop} {w : World} {env : Env}

theorem onRedis_some {α : Type} {fate : Fate} {run : Redis → α × Redis} {a : α}
    (h : a ∈ (w.onRedis fate run).1) : a = (run w.redis).1 := by
  rcases onRedis_reply w fate run with he | he
  · exact (Option.some.inj (he.symm.trans h)).symm
  · cases he.symm.trans h

/-- Inventory answers a request with success only if it took the body. -/
theorem parsed_of_isOk {fate : Fate} {t : Inventory.Transition} {body : BulkBody}
    {response : Inventory.Response} (h : response ∈ (w.post fate t body).1)
    (hok : response.isOk = true) : ∃ input, parseBulk body = some input := by
  have hroute : response = (Inventory.bulkRoute t body w.inventory).1 := by
    cases fate with
    | delivered => exact (Option.some.inj h).symm
    | lost => cases h
    | replyLost => cases h
    | unavailable =>
      cases h
      cases hok
  cases hparse : parseBulk body with
  | some input => exact ⟨input, rfl⟩
  | none =>
    unfold Inventory.bulkRoute at hroute
    rw [hparse] at hroute
    rw [hroute] at hok
    cases hok

/-- The replies are those that the service counts on. -/
theorem replies_sending (ht : w.redis.Tidy) (hu : ∀ n, isUuid (w.uuids n) = true) (fate : Fate)
    (command : Command) : (sending P).replies command () (w.perform fate command).1 () := by
  cases command with
  | randomUUID => exact hu w.minted
  | hgetall cart =>
    intro fields hf
    rw [onRedis_some hf]
    exact ht.hgetall cart
  | cartTake cart inFlight =>
    intro fields hf
    rw [onRedis_some hf, take_eq_hgetall]
    exact ht.hgetall cart
  | cartTouch cart sessionTtl itemsTtl dueAt =>
    intro hlive
    have htouched := onRedis_some (Option.mem_def.mpr hlive)
    unfold Redis.cartTouch at htouched
    cases hsession : w.redis.liveSession cart with
    | none =>
      rw [hsession] at htouched
      cases htouched
    | some expiresAt => exact ht.sessions cart expiresAt (liveSession_some hsession)
  | post t body => exact fun response hr hok => parsed_of_isOk hr hok
  | _ => trivial

theorem uuids_perform (fate : Fate) (command : Command) (w : World) :
    (w.perform fate command).2.uuids = w.uuids := by
  have honRedis : ∀ {α : Type} (run : Redis → α × Redis), (w.onRedis fate run).2.uuids = w.uuids := by
    intro α run
    cases fate with
    | _ => rfl
  cases command with
  | randomUUID => rfl
  | dateNow => rfl
  | post t body =>
    cases fate with
    | _ => rfl
  | publish message =>
    cases fate with
    | _ => rfl
  | _ => exact honRedis _

/-- Every thread keeps to what the service sends, the store is tidy, and so has been all that was
sent. -/
structure InOrder (s : System) : Prop where
  governed : Governed (sending Release.Sendable) (fun _ _ => True) s.threads fun _ => ()
  tidy : s.world.redis.Tidy
  minted : ∀ n, isUuid (s.world.uuids n) = true
  sent : ∀ i command v, Event.performed i command v ∈ s.trace → (sending Release.Sendable).allows command ()

variable {s s' : System}

theorem Hands.meets {α : Type} {p : Promise α} {ok : α → Prop} (h : Hands P p ok) :
    Meets (sending P) p.run (fun _ _ => True) () :=
  Foundations.Ensured.meets h (fun _ _ _ => trivial) fun _ _ _ => trivial

theorem InOrder.push (h : InOrder s) {t : Thread}
    (ht : Meets (sending Release.Sendable) t.program (fun _ _ => True) ()) :
    InOrder { s with threads := s.threads ++ [t] } where
  governed := by
    have hpushed := h.governed.push ht
    rwa [Function.update_eq_self] at hpushed
  tidy := h.tidy
  minted := h.minted
  sent := h.sent

/-- A step beside the threads. -/
theorem InOrder.frame (h : InOrder s) (hthreads : s'.threads = s.threads)
    (htidy : s'.world.redis.Tidy) (huuids : s'.world.uuids = s.world.uuids)
    (htrace : ∀ i command v, Event.performed i command v ∈ s'.trace →
      Event.performed i command v ∈ s.trace) : InOrder s' where
  governed := hthreads ▸ h.governed
  tidy := htidy
  minted := huuids ▸ h.minted
  sent i command v hm := h.sent i command v (htrace i command v hm)

theorem InOrder.call (h : InOrder s) {i : Nat} {fate : Fate} (hs : s.call i fate = some s') :
    InOrder s' := by
  obtain ⟨t, command, next, hc⟩ := called_of_call hs
  have hallows := h.governed.allows hc
  refine ⟨?_, ?_, ?_, fun j other v hm => ?_⟩
  · have hgoverned := h.governed.call hc (replies_sending h.tidy h.minted fate command)
    rwa [Function.update_eq_self] at hgoverned
  · rw [hc.world, redis_perform]
    split
    · exact h.tidy
    · exact tidy_effect h.tidy hallows
  · rw [hc.world, uuids_perform]
    exact h.minted
  · rw [hc.trace] at hm
    rcases List.mem_cons.mp hm with he | hm
    · cases he
      exact hallows
    · exact h.sent j other v hm

theorem InOrder.step (h : InOrder s) {l : Label} (hok : requested s l)
    (hs : System.step env s l = some s') : InOrder s' := by
  cases l with
  | spawn task =>
    obtain rfl := Option.some.inj hs
    exact h.push (sends_task hok).meets
  | notify notice =>
    obtain ⟨cart, armings, -, rfl⟩ := step_notify hs
    exact h.push sends_notified.meets
  | call i fate => exact h.call hs
  | crash i =>
    obtain ⟨t, -, rfl⟩ := step_crash hs
    exact ⟨h.governed.crash fun _ => trivial, h.tidy, h.minted, h.sent⟩
  | lapse key =>
    obtain rfl := Option.some.inj hs
    exact h.frame rfl (h.tidy.quiet rfl rfl) rfl fun _ _ _ hm => hm
  | tick ms =>
    obtain rfl := Option.some.inj hs
    exact h.frame rfl (h.tidy.quiet rfl rfl) rfl fun _ _ _ hm => hm
  | expire cart =>
    obtain ⟨expiresAt, -, -, rfl⟩ := step_expire hs
    refine h.frame rfl (h.tidy.touching cart (fun c hc => if_neg hc) (fun _ _ => rfl)
      (fun expiresAt hs => ?_) (h.tidy.records cart)) rfl fun _ _ _ hm => hm
    cases (if_pos rfl).symm.trans hs
  | other t body =>
    obtain rfl := Option.some.inj hs
    exact h.frame rfl h.tidy rfl fun _ _ _ hm => hm
  | consume message fate =>
    obtain ⟨content, -, rfl⟩ := step_consume hs
    refine h.frame rfl h.tidy rfl fun _ _ _ hm => ?_
    rcases List.mem_cons.mp hm with he | hm
    · cases he
    · exact hm

/-- A program with the world to itself only makes the releases it is to make. -/
theorem commandsOf_allowed {α : Type} {deal : Command → Fate}
    {p : Foundations.Program Command Command.Reply α} {post : α → Unit → Prop}
    (h : Meets (sending P) p post ()) (ht : w.redis.Tidy)
    (hu : ∀ n, isUuid (w.uuids n) = true) :
    ∀ command ∈ commandsOf deal p w, (sending P).allows command () := by
  induction p generalizing w with
  | done a => exact fun _ hm => nomatch hm
  | perform command next ih =>
    intro other hm
    rcases List.mem_cons.mp hm with rfl | hm
    · exact h.1
    · refine ih _ (h.2 _ () (replies_sending ht hu (deal command) command)) ?_ ?_ other hm
      · rw [redis_perform]
        split
        · exact ht
        · exact tidy_effect ht h.1
      · rw [uuids_perform]
        exact hu

/-- The release of a cart sends what its record lists, and nothing else. -/
theorem releaseTaken_commands {deal : Command → Fate} {cart : SessionId} {cause : ReleaseCause}
    (ht : w.redis.Tidy) (hu : ∀ n, isUuid (w.uuids n) = true) :
    ∀ command ∈ commandsOf deal (CartService.releaseTaken env cart cause).run w,
      command.givesBack = true → ∃ requestId, isUuid requestId = true ∧
        toCartLines env.collates (heldQuantities (w.redis.hgetall cart)) ≠ [] ∧
        (Release.ofHold env cart (w.redis.hgetall cart) cause requestId).SentBy command := by
  intro command hm hgives
  let take : Command := .cartTake cart env.inFlightTtlSeconds
  have hrest : commandsOf deal (CartService.releaseTaken env cart cause).run w =
      take :: commandsOf deal (afterTake env cart cause (w.perform (deal take) take).1).run
        (w.perform (deal take) take).2 := rfl
  rw [hrest] at hm
  rcases List.mem_cons.mp hm with rfl | hm
  · cases hgives
  have hhands : Hands (fun release => ∃ requestId, isUuid requestId = true ∧
      toCartLines env.collates (heldQuantities (w.redis.hgetall cart)) ≠ [] ∧
      release = .ofHold env cart (w.redis.hgetall cart) cause requestId)
      (afterTake env cart cause (w.perform (deal take) take).1) fun _ => True := by
    refine hands_afterTake fun fields hf hne requestId huuid => ?_
    have hfields : fields = w.redis.hgetall cart := by
      rw [onRedis_some hf, take_eq_hgetall]
    rw [← hfields]
    exact ⟨requestId, huuid, hne, rfl⟩
  have htidy : (w.perform (deal take) take).2.redis.Tidy := by
    rw [redis_perform]
    split
    · exact ht
    · have hallows : (sending Release.Sendable).allows take () := trivial
      exact tidy_effect ht hallows
  have hallowed := commandsOf_allowed hhands.meets htidy
    (fun n => by rw [uuids_perform]; exact hu n) command hm
  cases command with
  | post t body =>
    obtain ⟨_, ⟨requestId, huuid, hne, rfl⟩, hsent⟩ := hallowed (beq_iff_eq.mp hgives)
    exact ⟨requestId, huuid, hne, hsent⟩
  | publish message =>
    obtain ⟨_, ⟨requestId, huuid, hne, rfl⟩, hsent⟩ := hallowed
    exact ⟨requestId, huuid, hne, hsent⟩
  | _ => cases hgives

end Run

/-- Whatever is released in a run of requests is a release that can be made, the release of a cart
carries exactly the lines of its record, and such a release is understood as it was meant exactly
when it is within inventory's bounds. -/
theorem releases_understood_iff (env : Env) (world : World) (now : Nat) (others : String → Int)
    (labels : List Label) (s : System) (huuids : ∀ n, isUuid (world.uuids n) = true)
    (hrequested : Foundations.AllSteps (System.step env) requested
      (.start { world with redis := .empty now } others []) labels)
    (hrun : Foundations.runs (System.step env)
      (.start { world with redis := .empty now } others []) labels = some s) :
    (∀ (release : Release) (parcel : Parcel), release.Sendable → release.TravelsAs parcel →
      (parcel.Conveys release ↔ release.Bounded)) ∧
    (∀ i command v, Event.performed i command v ∈ s.trace → command.givesBack = true →
      ∃ release : Release, release.Sendable ∧ release.SentBy command) ∧
    ∀ deal cart cause, ∀ command ∈ commandsOf deal (CartService.releaseTaken env cart cause).run
      s.world, command.givesBack = true → ∃ requestId, isUuid requestId = true ∧
        (Release.ofHold env cart (s.world.redis.hgetall cart) cause requestId).Sendable ∧
        (Release.ofHold env cart (s.world.redis.hgetall cart) cause requestId).SentBy command := by
  have hstart : InOrder (.start { world with redis := .empty now } others []) :=
    ⟨governed_nil _, ⟨fun _ _ hs => (nomatch hs), fun _ _ hi => nomatch hi⟩, huuids,
      fun _ _ _ hm => nomatch hm⟩
  have hinOrder : InOrder s := Foundations.invariant_of_allSteps (P := InOrder)
    (fun _ _ _ hok hs h => h.step hok hs) hrequested hrun hstart
  refine ⟨fun release parcel h ht => h.conveys_iff ht, fun i command v hm hgives => ?_,
    fun deal cart cause command hm hgives => ?_⟩
  · have hallowed := hinOrder.sent i command v hm
    cases command with
    | post t body => exact hallowed (beq_iff_eq.mp hgives)
    | publish message => exact hallowed
    | _ => cases hgives
  · obtain ⟨requestId, huuid, hne, hsent⟩ :=
      releaseTaken_commands hinOrder.tidy hinOrder.minted command hm hgives
    exact ⟨requestId, huuid, (hinOrder.tidy.hgetall cart).sendable huuid cause hne, hsent⟩

/-! A shopper asks for a thousand million lamps, and for as many again. -/

def mintedIds : List String :=
  ["0d0c5f1e-8a42-4c6b-9f13-2b7a6e5d4c01", "1e1d6f2f-9b53-4d7c-8a24-3c8b7f6e5d02",
    "2f2e7a3a-ac64-4e8d-9b35-4d9c8a7f6e03", "3a3f8b4b-bd75-4f9e-8c46-5ead9b8a7f04",
    "4b4a9c5c-ce86-4aaf-9d57-6fbeac9b8a05", "5c5bad6d-df97-4bba-8e68-7acfbdac9b06"]

theorem mintedIds_uuid : ∀ uuid ∈ Inventory.lampId :: mintedIds, isUuid uuid = true := by
  decide +kernel

theorem hoard_fits : Inventory.StockLevels.Fits ⟨2000000000, 0⟩ := by decide

theorem none_fits : Inventory.StockLevels.Fits ⟨0, 0⟩ := by decide

def hoardWorld : World where
  inventory := Inventory.warehouse ⟨2000000000, 0⟩ ⟨0, 0⟩ hoard_fits none_fits
  redis := .empty 0
  queue := []
  uuids := fun n => mintedIds.getD n Inventory.lampId
  minted := 0

theorem hoardWorld_uuids (n : Nat) : isUuid (hoardWorld.uuids n) = true := by
  refine mintedIds_uuid _ ?_
  change mintedIds.getD n Inventory.lampId ∈ _
  rw [List.getD_eq_getElem?_getD]
  cases h : mintedIds[n]? with
  | none => exact List.mem_cons_self
  | some uuid => exact List.mem_cons_of_mem _ (List.mem_of_getElem? h)

theorem firstCart_trimmed :
    trim "0d0c5f1e-8a42-4c6b-9f13-2b7a6e5d4c01" = "0d0c5f1e-8a42-4c6b-9f13-2b7a6e5d4c01" := by
  decide +kernel

/-- The first cart that the world mints an id for. -/
def firstCart : SessionId := ⟨"0d0c5f1e-8a42-4c6b-9f13-2b7a6e5d4c01", firstCart_trimmed⟩

/-- A new cart, with as many lamps as inventory reserves at once. -/
def lampsHeld : List Label := .spawn (.setItems (lamps 1000000000) none {}) :: goesOn 0 9

/-- As many again are put in it, and then it is given up. -/
def lampsHoarded : List Label :=
  lampsHeld ++ .spawn (.setItems (lamps 2000000000) (some firstCart) {}) :: goesOn 1 9 ++
    .spawn (.abandon (some firstCart)) :: goesOn 2 7

/-- The lamps that inventory reserves at once are given back as they were meant. -/
theorem releases_understood_lamps : ∃ s,
    Foundations.runs (System.step shop.overHttp)
        (.start { hoardWorld with redis := .empty 0 } (fun _ => 0) []) lampsHeld = some s ∧
      s.world.redis.hgetall firstCart = [(Inventory.lampId, 1000000000)] ∧
      ∀ command ∈ commandsOf (fun _ => .delivered)
          (CartService.releaseTaken shop.overHttp firstCart .abandoned).run s.world,
        command.givesBack = true → ∃ release : Release, release.SentBy command ∧
          release.request.Conveys release := by
  have hrun : (Foundations.runs (System.step shop.overHttp)
      (.start { hoardWorld with redis := .empty 0 } (fun _ => 0) []) lampsHeld).map
      (fun s => s.world.redis.hgetall firstCart) = some [(Inventory.lampId, 1000000000)] := by
    decide +kernel
  obtain ⟨s, hs, hrecord⟩ := Option.map_eq_some_iff.mp hrun
  obtain ⟨hconveys, -, hholds⟩ := releases_understood_iff shop.overHttp hoardWorld 0 (fun _ => 0)
    lampsHeld s hoardWorld_uuids (by decide +kernel) hs
  refine ⟨s, hs, hrecord, fun command hm hgives => ?_⟩
  obtain ⟨requestId, huuid, hsendable, hsent⟩ := hholds _ firstCart .abandoned command hm hgives
  have hlines : toCartLines shop.collates (heldQuantities (s.world.redis.hgetall firstCart)) =
      lamps 1000000000 := by
    rw [hrecord]
    decide +kernel
  have hname : boundedText 120 shop.SERVICE_NAME = some shop.SERVICE_NAME := by decide +kernel
  refine ⟨_, hsent, (hconveys _ _ hsendable .request).mpr ⟨?_, fun line hl => ?_, ?_, ?_⟩⟩
  · change (toCartLines shop.collates (heldQuantities _)).length ≤ 50
    rw [hlines]
    exact Nat.succ_le_succ (Nat.zero_le _)
  · have hline : line ∈ lamps 1000000000 := hlines ▸ hl
    rw [List.mem_singleton.mp hline]
  · rintro _ ⟨⟩
    exact hname
  · rintro _ ⟨⟩
    obtain ⟨hlength, hvisible⟩ := Inventory.visible_of_isUuid huuid
    rw [Inventory.jsLength_of_visible hvisible]
    omega

/-- The release of twice as many is refused: it names more units of a product than inventory's schema
lets a line name. -/
theorem releases_refused : ¬ ∀ (labels : List Label) (s : System),
    Foundations.AllSteps (System.step shop.overHttp) requested
        (.start { hoardWorld with redis := .empty 0 } (fun _ => 0) []) labels →
      Foundations.runs (System.step shop.overHttp)
        (.start { hoardWorld with redis := .empty 0 } (fun _ => 0) []) labels = some s →
      s.trace.any Event.refused = false := by
  intro hall
  have hrun : (Foundations.runs (System.step shop.overHttp)
      (.start { hoardWorld with redis := .empty 0 } (fun _ => 0) []) lampsHoarded).map
      (fun s => s.trace.any Event.refused) = some true := by decide +kernel
  obtain ⟨s, hs, hrefused⟩ := Option.map_eq_some_iff.mp hrun
  have htaken := hall lampsHoarded s (by decide +kernel) hs
  rw [hrefused] at htaken
  cases htaken

end Cart

end PracticalMicroservice
