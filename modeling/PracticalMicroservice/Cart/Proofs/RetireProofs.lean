import PracticalMicroservice.Cart.Service
import PracticalMicroservice.Cart.Proofs.AdapterProofs

/-!
# When a release retires the cart's record

`releaseHeld` reads a refused release as one that landed before. Inventory refuses a batch for any
one of its lines, so the reading is right only when no line of the record is counted any more.
-/

namespace PracticalMicroservice.Cart

open Inventory (Transition BulkBody Response Database heldFor reservedOf units bulkRoute)

/-! ## Programs that run alone -/

section Execute

variable {α β : Type} {deal : Command → Fate} {w : World}

theorem execute_bind (p : Foundations.Program Command Command.Reply α)
    (f : α → Foundations.Program Command Command.Reply β) (w : World) :
    w.execute deal (p >>= f) =
      (w.execute deal p).2.execute deal (f (w.execute deal p).1) := by
  show w.execute deal (p.bind f) = _
  induction p generalizing w with
  | done a => rfl
  | perform command next ih => exact ih _ _

theorem execute_call (command : Command) :
    w.execute deal (Promise.call command).run =
      (.ok (w.perform (deal command) command).1, (w.perform (deal command) command).2) := rfl

/-- A promise that resolves hands its value on; one that rejects ends the sequence. -/
theorem execute_seq (p : Promise α) (f : α → Promise β) :
    w.execute deal (p >>= f).run = match w.execute deal p.run with
      | (.ok a, w') => w'.execute deal (f a).run
      | (.error e, w') => (.error e, w') := by
  have h : w.execute deal (p >>= f).run =
      w.execute deal (p.run >>= ExceptT.bindCont f) := rfl
  rw [h, execute_bind]
  rcases w.execute deal p.run with ⟨r, w'⟩
  cases r with
  | ok a => rfl
  | error e => rfl

theorem execute_tryCatch (p : Promise α) (handler : Exception → Promise α) :
    w.execute deal (tryCatch p handler).run = match w.execute deal p.run with
      | (.ok a, w') => (.ok a, w')
      | (.error e, w') => w'.execute deal (handler e).run := by
  show w.execute deal (p.run >>= _) = _
  rw [execute_bind]
  rcases w.execute deal p.run with ⟨r, w'⟩
  cases r with
  | ok a => rfl
  | error e => rfl

end Execute

/-! ## The release, alone -/

/-- The schema accepts the body, and inventory answers with a conflict. -/
def Conflicts (body : BulkBody) (db : Database) : Prop :=
  (Inventory.parseBulk body).isSome = true ∧ ¬ body.Accepted .release db

instance (body : BulkBody) (db : Database) : Decidable (Conflicts body db) :=
  inferInstanceAs (Decidable (_ ∧ _))

/-- Only the calls to inventory meet the given fate. -/
def inventoryMeets (fate : Fate) : Command → Fate
  | .post _ _ => fate
  | _ => .delivered

/-- The body of the release of a cart. -/
def releaseBody (cart : SessionId) (held : List CartLine) (cause : ReleaseCause) : BulkBody :=
  bulkBody held cart (some s!"Cart {cause.text}")

variable (cart : SessionId) (held : List CartLine) (cause : ReleaseCause) (fate : Fate) (w : World)

/-- What a dispatched release comes to: it resolves, and every unit named was given back; it is
refused with a conflict, and none was; or it fails in a way that says nothing. -/
inductive Dispatched : Except Exception Unit × World → Prop
  | empty : held = [] → Dispatched (.ok (), w)
  | resolved (inventory : Database) : (releaseBody cart held cause).Accepted .release w.inventory →
      Inventory.Moved .release (releaseBody cart held cause) w.inventory inventory →
      Dispatched (.ok (), { w with inventory })
  | refused (message : String) (failures : List StockFailure) : fate = .delivered →
      Conflicts (releaseBody cart held cause) w.inventory →
      Dispatched (.error (.InsufficientStockException message failures), w)
  | failed (error : Exception) (inventory : Database) :
      (∀ message failures, error ≠ .InsufficientStockException message failures) →
      ¬ (fate = .delivered ∧ Conflicts (releaseBody cart held cause) w.inventory) →
      Dispatched (.error error, { w with inventory })

variable {cart held cause fate w}

/-- A refusal is an `InsufficientStockException` exactly when its status is 409. -/
theorem toException_refused (response : Response) (h : response.status ≠ 409) (message : String)
    (failures : List StockFailure) :
    HttpInventoryAdapter.toException response ≠ .InsufficientStockException message failures := by
  unfold HttpInventoryAdapter.toException
  simp only [h, if_false]
  split
  · intro e
    cases e
  · intro e
    cases e

/-- Lines inventory reads are lines the adapter posts. -/
theorem postable_of_parse {reason : Option String}
    (h : (Inventory.parseBulk (bulkBody held cart reason)).isSome = true) : Postable held := by
  obtain ⟨input, hparse⟩ := Option.isSome_iff_exists.mp h
  obtain ⟨hne, hl, hn, -⟩ := parse_toBody hparse rfl
  exact ⟨hne, hn, hl⟩

/-- The request that carries the release, under each fate. -/
theorem request_dispatched :
    Dispatched cart held cause fate w
      (w.execute (inventoryMeets fate)
        (HttpInventoryAdapter.request .release (releaseBody cart held cause)).run) := by
  set body := releaseBody cart held cause with hbody
  unfold HttpInventoryAdapter.request
  rw [execute_seq, execute_call]
  have hperform : w.perform (inventoryMeets fate (.post .release body)) (.post .release body) =
      w.post fate .release body := rfl
  simp only [hperform]
  cases fate with
  | delivered =>
    obtain ⟨hacc, hok, hmoved⟩ | ⟨hrej, hok, hdb, hstatus⟩ :=
      Inventory.bulkRoute_cases .release body w.inventory
    · simp only [post_delivered, hok, if_true]
      exact .resolved _ hacc hmoved
    · simp only [post_refused hrej, hok, Bool.false_eq_true, if_false]
      by_cases hp : (Inventory.parseBulk body).isSome = true
      · rw [if_pos hp] at hstatus
        have hex : HttpInventoryAdapter.toException (bulkRoute .release body w.inventory).1 =
            .InsufficientStockException (bulkRoute .release body w.inventory).1.message
              (HttpInventoryAdapter.toStockFailures
                (bulkRoute .release body w.inventory).1.details) := by
          unfold HttpInventoryAdapter.toException
          simp [hstatus]
        rw [hex]
        exact .refused _ _ rfl ⟨hp, hrej⟩
      · rw [if_neg hp] at hstatus
        refine .failed _ w.inventory (toException_refused _ (by omega)) ?_
        rintro ⟨-, hc, -⟩
        exact hp hc
  | lost =>
    refine .failed _ w.inventory (fun _ _ e => ?_) (fun hc => ?_)
    · cases e
    · cases hc.1
  | replyLost =>
    refine .failed _ (bulkRoute .release body w.inventory).2 (fun _ _ e => ?_) (fun hc => ?_)
    · cases e
    · cases hc.1
  | unavailable =>
    refine .failed _ w.inventory (toException_refused _ (by decide)) (fun hc => ?_)
    cases hc.1

theorem releaseMany_dispatched (env : Env) (context : CallContext) :
    Dispatched cart held cause fate w
      (w.execute (inventoryMeets fate) (dispatchReleaseMany env.overHttp held cart
        { reason := some s!"Cart {cause.text}", context }).run) := by
  show Dispatched cart held cause fate w
    (w.execute (inventoryMeets fate) (HttpInventoryAdapter.bulk .release held cart
      { reason := some s!"Cart {cause.text}", context }).run)
  by_cases hne : held = []
  · subst hne
    exact .empty rfl
  by_cases hp : Postable held
  · rw [bulk_postable _ _ _ hp]
    exact request_dispatched
  · obtain ⟨message, hthrow⟩ := bulk_not_postable .release cart
      { reason := some s!"Cart {cause.text}", context } hne hp
    rw [hthrow]
    refine .failed _ w.inventory (fun _ _ e => ?_) fun hc => ?_
    · cases e
    · exact hp (postable_of_parse hc.2.1)

/-! ## Retiring the record -/

/-- The record is taken off: its release is settled. -/
def retiredFrom (w : World) (cart : SessionId) : World :=
  { w with redis := w.redis.cartFinish cart }

/-- The record stays, and is due again later. -/
def rescheduledFrom (env : Env) (w : World) (cart : SessionId) : World :=
  { w with redis := w.redis.zadd cart (w.redis.now + env.CART_RELEASE_RETRY_DELAY_MS.value) }

/-- The world `releaseHeld` leaves, by how its dispatch ended. -/
def settledFrom (env : Env) (cart : SessionId) : Except Exception Unit × World → World
  | (.ok (), w) => retiredFrom w cart
  | (.error (.InsufficientStockException _ _), w) => retiredFrom w cart
  | (.error _, w) => rescheduledFrom env w cart

theorem releaseHeld_execute (env : Env) (cart : SessionId) (held : List CartLine)
    (cause : ReleaseCause) (fate : Fate) (w : World) :
    ∃ context, (w.execute (inventoryMeets fate)
        (CartService.releaseHeld env cart held cause).run).2 =
      settledFrom env cart (({ w with minted := w.minted + 1 } : World).execute
        (inventoryMeets fate) (dispatchReleaseMany env held cart
          { reason := some s!"Cart {cause.text}", context }).run) := by
  refine ⟨{ requestId := some (w.uuids w.minted), actor := some env.SERVICE_NAME }, ?_⟩
  unfold CartService.releaseHeld
  rw [execute_seq]
  show (({ w with minted := w.minted + 1 } : World).execute (inventoryMeets fate) _).2 = _
  rw [execute_seq, execute_tryCatch, execute_seq]
  generalize World.execute _ _ _ = dispatched
  obtain ⟨result, w'⟩ := dispatched
  cases result with
  | ok u => rfl
  | error e => cases e <;> rfl

/-- The units of one line of the record that inventory still counts on the cart's behalf: those
not given back, as far as the ledger holds them for the cart and the counter has them. -/
def stillCounted (before after : Database) (cart : SessionId) (line : CartLine) : Int :=
  min (line.quantity - (heldFor before cart.text line.productId -
    heldFor after cart.text line.productId))
    (min (heldFor after cart.text line.productId) (reservedOf after line.productId))

/-- The record goes only when nothing of it is counted any more; else it stays, and is due again. -/
structure RetiresOnlyReleased (env : Env) (cart : SessionId) (held : List CartLine)
    (before after : World) : Prop where
  retired : before.redis.items cart ≠ none → after.redis.items cart = none →
    ∀ line ∈ held, stillCounted before.inventory after.inventory cart line ≤ 0
  kept : (∃ line ∈ held, 0 < stillCounted before.inventory after.inventory cart line) →
    after.redis.items cart = before.redis.items cart ∧
      Entries.get after.redis.due cart =
        some (before.redis.now + env.CART_RELEASE_RETRY_DELAY_MS.value)

/-- Inventory counts no unit of the line on the cart's behalf. -/
def Uncounted (db : Database) (cart : SessionId) (line : CartLine) : Prop :=
  heldFor db cart.text line.productId ≤ 0 ∨ reservedOf db line.productId ≤ 0

theorem stillCounted_of_moved {inventory : Database}
    (hacc : (releaseBody cart held cause).Accepted .release w.inventory)
    (hm : Inventory.Moved .release (releaseBody cart held cause) w.inventory inventory)
    {line : CartLine} (hl : line ∈ held) : stillCounted w.inventory inventory cart line ≤ 0 := by
  obtain ⟨input, hparse, -⟩ := hacc
  obtain ⟨-, -, hn, -⟩ := parse_toBody hparse rfl
  have hheld := hm.heldFor cart.text line.productId
  have href : cart.text = Inventory.trim (releaseBody cart held cause).reference :=
    cart.trimmed.symm
  have hunits : units (releaseBody cart held cause).items line.productId = line.quantity := by
    show units (toBody held) line.productId = _
    rw [units_toBody, quantityOf_of_mem hn hl]
  rw [if_pos href, hunits] at hheld
  simp only [Transition.shift] at hheld
  unfold stillCounted
  omega

/-- Nothing was given back: the line is counted unless it was not before. -/
theorem stillCounted_same {line : CartLine} (hq : 0 < line.quantity) (db : Database) :
    stillCounted db db cart line ≤ 0 ↔ Uncounted db cart line := by
  unfold stillCounted Uncounted
  omega

theorem entries_get_set {κ α : Type} [DecidableEq κ] (entries : List (κ × α)) (key : κ)
    (value : α) : Entries.get (Entries.set entries key value) key = some value := by
  induction entries with
  | nil => simp [Entries.set, Entries.get]
  | cons entry rest ih =>
    rw [Entries.set]
    split
    · simp [Entries.get]
    · rename_i h
      simpa [Entries.get, h] using ih

theorem entries_get_delete {κ α : Type} [DecidableEq κ] (entries : List (κ × α)) (key : κ) :
    Entries.get (Entries.delete entries key) key = none := by
  have hnone : (Entries.delete entries key).find? (·.1 = key) = none := by
    rw [List.find?_eq_none]
    intro entry he hk
    have := (List.mem_filter.mp he).2
    simp_all
  simp [Entries.get, hnone]

theorem retires_of_rescheduled (env : Env) {w' : World} (hr : w'.redis = w.redis) :
    RetiresOnlyReleased env cart held w (rescheduledFrom env w' cart) := by
  have hitems : (rescheduledFrom env w' cart).redis.items cart = w.redis.items cart := by
    rw [← hr]
    rfl
  refine ⟨fun hbefore hafter => absurd (hitems ▸ hafter) hbefore, fun _ => ⟨hitems, ?_⟩⟩
  rw [← hr]
  exact entries_get_set _ _ _

theorem retires_of_retired (env : Env) (w' : World) :
    RetiresOnlyReleased env cart held w (retiredFrom w' cart) ↔
      ∀ line ∈ held, stillCounted w.inventory w'.inventory cart line ≤ 0 := by
  constructor
  · intro h line hl
    by_contra hc
    have hkept := (h.kept ⟨line, hl, not_le.mp hc⟩).2
    have hgone : Entries.get (retiredFrom w' cart).redis.due cart = none :=
      entries_get_delete _ _
    rw [hgone] at hkept
    cases hkept
  · intro h
    refine ⟨fun _ _ => h, ?_⟩
    rintro ⟨line, hl, hpos⟩
    exact absurd (h line hl) (not_le.mpr hpos)

/-- `releaseHeld` retires what is released, exactly when a conflict comes only after nothing of
the record is counted any more. -/
theorem retires_only_released_iff (env : Env) (cart : SessionId) (held : List CartLine)
    (cause : ReleaseCause) (fate : Fate) (w : World) :
    RetiresOnlyReleased env.overHttp cart held w
        (w.execute (inventoryMeets fate)
          (CartService.releaseHeld env.overHttp cart held cause).run).2 ↔
      (fate = .delivered → Conflicts (releaseBody cart held cause) w.inventory →
        ∀ line ∈ held, Uncounted w.inventory cart line) := by
  obtain ⟨context, hrun⟩ := releaseHeld_execute env.overHttp cart held cause fate w
  have hdisp : Dispatched cart held cause fate { w with minted := w.minted + 1 } _ :=
    releaseMany_dispatched env context
  rw [hrun]
  generalize World.execute _ _ _ = dispatched at hdisp
  cases hdisp with
  | empty he =>
    refine (retires_of_retired _ { w with minted := w.minted + 1 }).trans ?_
    simp [he]
  | resolved inventory hacc hmoved =>
    refine (retires_of_retired _ { w with minted := w.minted + 1, inventory }).trans ⟨fun _ _ hc => absurd hacc hc.2, fun _ line hl => ?_⟩
    exact stillCounted_of_moved hacc hmoved hl
  | refused message failures hf hc =>
    obtain ⟨input, hparse⟩ := Option.isSome_iff_exists.mp hc.1
    obtain ⟨-, -, -, hpos⟩ := parse_toBody hparse rfl
    refine (retires_of_retired _ { w with minted := w.minted + 1 }).trans ⟨fun h _ _ line hl => ?_, fun h line hl => ?_⟩
    · exact (stillCounted_same (hpos line hl) _).mp (h line hl)
    · exact (stillCounted_same (hpos line hl) _).mpr (h hf hc line hl)
  | failed error inventory hne hno =>
    have hsettled : settledFrom env.overHttp cart (.error error, { w with
        minted := w.minted + 1, inventory }) = rescheduledFrom env.overHttp
          { w with minted := w.minted + 1, inventory } cart := by
      cases error with
      | InsufficientStockException message failures => exact absurd rfl (hne message failures)
      | _ => rfl
    refine ⟨fun _ hf hc => absurd ⟨hf, hc⟩ hno, fun _ => ?_⟩
    rw [hsettled]
    exact retires_of_rescheduled _ rfl

/-! Two lamps and a chair in a cart, of which someone else gave the chair back. -/

def collates (a b : String) : Bool := decide (a ≤ b)

def shop : Env := .defaults collates

def cartOne : SessionId := ⟨"cart-1", by decide⟩

def twoLampsOneChair : List CartLine :=
  [{ productId := Inventory.lampId, quantity := 2 }, { productId := Inventory.chairId, quantity := 1 }]

/-- Inventory after the cart reserved its lines and another reference released the chair. -/
def chairConsumed : Database :=
  (bulkRoute .release
    { items := [⟨Inventory.chairId, 1⟩], reference := "other" }
    (bulkRoute .reserve (bulkBody twoLampsOneChair cartOne (some CART_UPDATE_REASON))
      (Inventory.warehouse ⟨5, 0⟩ ⟨5, 0⟩)).2).2

/-- A cart whose session has expired, at the moment its lines were taken. -/
def expiredCart (inventory : Database) : World where
  inventory
  redis := (((Redis.empty 1000).setItems cartOne (some
    { fields := [(Inventory.lampId, 2), (Inventory.chairId, 1)], expiresAt := 301000,
      distinct := by decide })).zadd cartOne 900)
  queue := []
  uuids := fun n => toString n
  minted := 0

/-- The conflict is about the chair alone: the lamps stay reserved for a cart without a record. -/
theorem releaseHeld_strands_lamps :
    ¬ RetiresOnlyReleased shop.overHttp cartOne twoLampsOneChair (expiredCart chairConsumed)
        ((expiredCart chairConsumed).execute (inventoryMeets .delivered)
          (CartService.releaseHeld shop.overHttp cartOne twoLampsOneChair .expired).run).2 := by
  intro h
  have hgone := h.retired (by decide) (by decide +kernel)
    { productId := Inventory.lampId, quantity := 2 } (by decide)
  exact absurd hgone (by decide +kernel)

end PracticalMicroservice.Cart
