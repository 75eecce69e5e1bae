import PracticalMicroservice.Cart.Timing
import PracticalMicroservice.Cart.Proofs.CustodyProofs
import PracticalMicroservice.Cart.Proofs.ExpiryProofs

/-!
# Sections end before their locks lapse

What a method can spend inside a section is added up along its paths. A section that is left in time
still has its lock, so no other thread can have entered it.
-/

namespace PracticalMicroservice.Cart

open Foundations (Ensured Meets runs)

@[simp] theorem cost_post {timeouts : Timeouts} (t : Inventory.Transition)
    (body : Inventory.BulkBody) :
    timeouts.cost (.post t body) = timeouts.INVENTORY_TIMEOUT_MS.value := rfl

@[simp] theorem cost_publish {timeouts : Timeouts} (message : Inventory.RawStockEvent) :
    timeouts.cost (.publish message) = timeouts.RABBITMQ_PUBLISH_TIMEOUT_MS.value := rfl

/-! ## What a method spends -/

section Spending

variable {α β : Type} {env : Env} {timeouts : Timeouts} {ok err ok' err' : Nat}

/-- Inside a section, the method spends at most so much when it returns, and when it throws. -/
def Spends (env : Env) (timeouts : Timeouts) (ok err : Nat) (p : Promise α) : Prop :=
  ∀ cart ms, ok ≤ ms → err ≤ ms → Ensured (budget env timeouts) p
    (fun _ left => ∃ rest, left = some (cart, rest) ∧ ms ≤ rest + ok)
    (fun _ left => ∃ rest, left = some (cart, rest) ∧ ms ≤ rest + err) (some (cart, ms))

theorem spends_pure (a : α) : Spends env timeouts 0 0 (pure a) :=
  fun _ ms _ _ => ⟨ms, rfl, Nat.le_refl _⟩

theorem spends_throw (e : Exception) : Spends env timeouts 0 0 (throw e : Promise α) :=
  fun _ ms _ _ => ⟨ms, rfl, Nat.le_refl _⟩

theorem spends_reply (reply : Option α) : Spends env timeouts 0 0 (Promise.reply reply) := by
  intro cart ms _ _
  rw [ensured_reply]
  cases reply with
  | some a => exact ⟨ms, rfl, Nat.le_refl _⟩
  | none => exact ⟨ms, rfl, Nat.le_refl _⟩

theorem Spends.mono {p : Promise α} (h : Spends env timeouts ok err p) (hok : ok ≤ ok')
    (herr : err ≤ err') : Spends env timeouts ok' err' p := by
  intro cart ms hle hle'
  refine (h cart ms (by omega) (by omega)).mono (fun _ left h' => ?_) fun _ left h' => ?_
  · obtain ⟨rest, hleft, hrest⟩ := h'
    exact ⟨rest, hleft, by omega⟩
  · obtain ⟨rest, hleft, hrest⟩ := h'
    exact ⟨rest, hleft, by omega⟩

theorem Spends.bind {p : Promise β} {f : β → Promise α} (hp : Spends env timeouts ok err p)
    (ok' err' : Nat) (hf : ∀ b, Spends env timeouts ok' err' (f b)) :
    Spends env timeouts (ok + ok') (max err (ok + err')) (p >>= f) := by
  intro cart ms hle hle'
  have herr : err ≤ ms ∧ ok + err' ≤ ms := by omega
  rw [Foundations.ensured_bind]
  refine (hp cart ms (by omega) herr.1).mono (fun b left h' => ?_) fun _ left h' => ?_
  · obtain ⟨rest, rfl, hrest⟩ := h'
    refine (hf b cart rest (by omega) (by omega)).mono (fun _ left h' => ?_) fun _ left h' => ?_
    · obtain ⟨rest', hleft, hrest'⟩ := h'
      exact ⟨rest', hleft, by omega⟩
    · obtain ⟨rest', hleft, hrest'⟩ := h'
      exact ⟨rest', hleft, by omega⟩
  · obtain ⟨rest, hleft, hrest⟩ := h'
    exact ⟨rest, hleft, by omega⟩

/-- A handler goes on with what the failure left. -/
theorem Spends.tryCatch {p : Promise α} {handler : Exception → Promise α}
    (hp : Spends env timeouts ok err p) (hh : ∀ e, Spends env timeouts ok' err' (handler e)) :
    Spends env timeouts (max ok (err + ok')) (err + err') (tryCatch p handler) := by
  intro cart ms hle hle'
  have hok : ok ≤ ms ∧ err + ok' ≤ ms := by omega
  rw [Foundations.ensured_tryCatch]
  refine (hp cart ms hok.1 (by omega)).mono (fun _ left h' => ?_) fun e left h' => ?_
  · obtain ⟨rest, hleft, hrest⟩ := h'
    exact ⟨rest, hleft, by omega⟩
  · obtain ⟨rest, rfl, hrest⟩ := h'
    refine (hh e cart rest (by omega) (by omega)).mono (fun _ left h' => ?_) fun _ left h' => ?_
    · obtain ⟨rest', hleft, hrest'⟩ := h'
      exact ⟨rest', hleft, by omega⟩
    · obtain ⟨rest', hleft, hrest'⟩ := h'
      exact ⟨rest', hleft, by omega⟩

/-- An undo is only run by a method that then throws. -/
theorem Spends.orUndo {step : Promise α} {undo : Promise Unit}
    (hstep : Spends env timeouts ok err step) (hundo : Spends env timeouts ok' ok' undo) :
    Spends env timeouts ok (err + ok') (CartService.orUndo step undo) := by
  intro cart ms hle hle'
  unfold CartService.orUndo
  rw [Foundations.ensured_tryCatch]
  refine (hstep cart ms hle (by omega)).mono (fun _ left h' => h') fun e left h' => ?_
  obtain ⟨rest, rfl, hrest⟩ := h'
  rw [Foundations.ensured_bind]
  refine (hundo cart rest (by omega) (by omega)).mono (fun _ left h' => ?_) fun _ left h' => ?_
  · obtain ⟨rest', hleft, hrest'⟩ := h'
    exact ⟨rest', hleft, by omega⟩
  · obtain ⟨rest', hleft, hrest'⟩ := h'
    exact ⟨rest', hleft, by omega⟩

/-- A command that is no lock costs what it costs. -/
theorem spends_call {command : Command}
    (hallows : ∀ left, (∀ section_ ∈ left, timeouts.cost command ≤ section_.2) →
      (budget env timeouts).allows command left)
    (hreplies : ∀ left reply left', (budget env timeouts).replies command left reply left' →
      left' = left.map fun section_ => (section_.1, section_.2 - timeouts.cost command)) :
    Spends env timeouts (timeouts.cost command) (timeouts.cost command) (Promise.call command) := by
  intro cart ms hle _
  refine ensured_call.mpr ⟨hallows _ fun section_ hs => ?_, fun reply left' hr => ?_⟩
  · obtain rfl := Option.some.inj hs
    exact hle
  · rw [hreplies _ _ _ hr]
    exact ⟨ms - timeouts.cost command, rfl, by omega⟩

theorem spends_free {command : Command} (hcost : timeouts.cost command = 0)
    (hallows : ∀ left, (∀ section_ ∈ left, timeouts.cost command ≤ section_.2) →
      (budget env timeouts).allows command left)
    (hreplies : ∀ left reply left', (budget env timeouts).replies command left reply left' →
      left' = left.map fun section_ => (section_.1, section_.2 - timeouts.cost command)) :
    Spends env timeouts 0 0 (Promise.call command) := by
  have h := spends_call hallows hreplies
  rwa [hcost] at h

theorem spends_uuid : Spends env timeouts 0 0 Promise.randomUUID :=
  spends_free rfl (fun _ h => h) fun _ _ _ h => h

theorem spends_now : Spends env timeouts 0 0 Promise.dateNow :=
  spends_free rfl (fun _ h => h) fun _ _ _ h => h

/-- A command to Redis, and the reading of its reply. -/
theorem spends_redis {command : Command} {f : command.Reply → Option α}
    (h : Spends env timeouts 0 0 (Promise.call command)) :
    Spends env timeouts 0 0 (do Promise.reply (f (← Promise.call command))) :=
  (h.bind 0 0 fun reply => spends_reply (f reply)).mono (Nat.le_refl _) (Nat.le_refl _)

variable {cart : SessionId} {items : List StockLine} {reference : SessionId}
  {options : StockChangeOptions} {context : CallContext}

theorem spends_bulk (t : Inventory.Transition) :
    Spends env timeouts timeouts.INVENTORY_TIMEOUT_MS.value timeouts.INVENTORY_TIMEOUT_MS.value
      (HttpInventoryAdapter.bulk t items reference options) := by
  have hrequest : ∀ body, Spends env timeouts timeouts.INVENTORY_TIMEOUT_MS.value
      timeouts.INVENTORY_TIMEOUT_MS.value (HttpInventoryAdapter.request t body) := by
    intro body
    have hpost : Spends env timeouts (timeouts.cost (.post t body)) (timeouts.cost (.post t body))
        (Promise.call (.post t body)) := spends_call (fun _ h => h) fun _ _ _ h => h
    refine (hpost.bind 0 0 fun reply => ?_).mono (Nat.le_refl _) (by simp)
    cases reply with
    | none => exact spends_throw _
    | some response =>
      dsimp only
      split
      · exact spends_pure ()
      · exact spends_throw _
  have hrefuse : ∀ (e : Exception) (p : Promise Unit), Spends env timeouts
      timeouts.INVENTORY_TIMEOUT_MS.value timeouts.INVENTORY_TIMEOUT_MS.value
      (do throw e; p) := by
    intro e p cart ms _ _
    exact ⟨ms, rfl, by omega⟩
  have hbounded : ∀ {p : Prop} [Decidable p] (e : Exception) (body : Inventory.BulkBody),
      Spends env timeouts timeouts.INVENTORY_TIMEOUT_MS.value timeouts.INVENTORY_TIMEOUT_MS.value
        (if p then (do throw e; HttpInventoryAdapter.request t body)
          else HttpInventoryAdapter.request t body) := by
    intro p _ e body
    split
    · exact hrefuse e _
    · exact hrequest body
  unfold HttpInventoryAdapter.bulk
  split
  · exact (spends_pure ()).mono (Nat.zero_le _) (Nat.zero_le _)
  dsimp only
  split
  · exact hrefuse _ _
  · exact hbounded _ _

theorem spends_dispatch : Spends env timeouts (timeouts.dispatchCost env) (timeouts.dispatchCost env)
    (dispatchReleaseMany env items reference options) := by
  unfold dispatchReleaseMany Timeouts.dispatchCost
  cases env.INVENTORY_DISPATCH_TRANSPORT with
  | http => exact spends_bulk .release
  | amqp =>
    dsimp only
    unfold AmqpInventoryDispatch.releaseMany
    split
    · exact (spends_pure ()).mono (Nat.zero_le _) (Nat.zero_le _)
    · have hpublish : ∀ message, Spends env timeouts
          timeouts.RABBITMQ_PUBLISH_TIMEOUT_MS.value timeouts.RABBITMQ_PUBLISH_TIMEOUT_MS.value
          (AmqpInventoryDispatch.publish message) := by
        intro message
        have hcall : Spends env timeouts (timeouts.cost (.publish message))
            (timeouts.cost (.publish message)) (Promise.call (.publish message)) :=
          spends_call (fun _ h => h) fun _ _ _ h => h
        refine (hcall.bind 0 0 fun confirmed => ?_).mono (by simp) (by simp)
        cases confirmed with
        | true => exact spends_pure ()
        | false => exact spends_throw _
      refine (spends_uuid.bind timeouts.RABBITMQ_PUBLISH_TIMEOUT_MS.value
        timeouts.RABBITMQ_PUBLISH_TIMEOUT_MS.value fun messageId => ?_).mono (by simp) (by simp)
      exact (spends_now.bind _ _ fun occurredAt => hpublish _).mono (by simp) (by simp)

/-! ### An update -/

theorem spends_held : Spends env timeouts 0 0 (CartRepository.held cart) := by
  have hread : Spends env timeouts 0 0 (Promise.call (.hgetall cart)) :=
    spends_free rfl (fun _ h => h) fun _ _ _ h => h
  refine (hread.bind 0 0 fun reply => ?_).mono (Nat.le_refl _) (Nat.le_refl _)
  exact ((spends_reply reply).bind 0 0 fun _ => spends_pure _).mono (Nat.le_refl _) (Nat.le_refl _)

theorem spends_lines : Spends env timeouts 0 0 (CartRepository.lines env cart) :=
  (spends_held.bind 0 0 fun _ => spends_pure _).mono (Nat.le_refl _) (Nat.le_refl _)

theorem spends_dueAt : Spends env timeouts 0 0 (CartRepository.dueAt env) :=
  (spends_now.bind 0 0 fun _ => spends_pure _).mono (Nat.le_refl _) (Nat.le_refl _)

theorem spends_commit {changes : CartChanges} :
    Spends env timeouts 0 0 (CartRepository.commit env cart changes) := by
  refine (spends_dueAt.bind 0 0 fun dueAt => ?_).mono (Nat.le_refl _) (Nat.le_refl _)
  have hwrite : Spends env timeouts 0 0 (Promise.call (.cartCommit cart changes.writes
      changes.removals env.sessionTtlSeconds env.itemsTtlSeconds dueAt)) :=
    spends_free rfl (fun _ h => h) fun _ _ _ h => h
  refine (hwrite.bind 0 0 fun reply => ?_).mono (Nat.le_refl _) (Nat.le_refl _)
  exact ((spends_reply reply).bind 0 0 fun _ => spends_pure _).mono (Nat.le_refl _) (Nat.le_refl _)

theorem spends_touch : Spends env timeouts 0 0 (CartRepository.touch env cart) := by
  refine (spends_dueAt.bind 0 0 fun dueAt => ?_).mono (Nat.le_refl _) (Nat.le_refl _)
  have hslide : Spends env timeouts 0 0 (Promise.call (.cartTouch cart env.sessionTtlSeconds
      env.itemsTtlSeconds dueAt)) := spends_free rfl (fun _ h => h) fun _ _ _ h => h
  exact spends_redis hslide

/-- A rollback gives back what was reserved, and takes again what was given back. -/
theorem spends_rollback {reserved released : List StockLine} {n m : Nat}
    (hn : reserved.length > 0 → timeouts.dispatchCost env ≤ n)
    (hm : released.length > 0 → timeouts.INVENTORY_TIMEOUT_MS.value ≤ m) :
    Spends env timeouts (n + m) (n + m)
      (CartService.rollback env reserved released cart context) := by
  have hretake : Spends env timeouts m m (do
      if released.length > 0 then
        HttpInventoryAdapter.reserveMany released cart
          { reason := some CART_ROLLBACK_REASON, context }) := by
    split
    · rename_i hpos
      exact (spends_bulk .reserve).mono (hm hpos) (hm hpos)
    · exact (spends_pure ()).mono (Nat.zero_le _) (Nat.zero_le _)
  have hback : Spends env timeouts (n + m) (n + m) (do
      if reserved.length > 0 then
        dispatchReleaseMany env reserved cart { reason := some CART_ROLLBACK_REASON, context }
      if released.length > 0 then
        HttpInventoryAdapter.reserveMany released cart
          { reason := some CART_ROLLBACK_REASON, context }) := by
    dsimp only
    split
    · rename_i hpos
      have hgive : Spends env timeouts n n (dispatchReleaseMany env reserved cart
          { reason := some CART_ROLLBACK_REASON, context }) :=
        spends_dispatch.mono (hn hpos) (hn hpos)
      exact (hgive.bind m m fun _ => hretake).mono (Nat.le_refl _) (by omega)
    · exact hretake.mono (Nat.le_add_left _ _) (Nat.le_add_left _ _)
  unfold CartService.rollback
  split
  · exact (spends_pure ()).mono (Nat.zero_le _) (Nat.zero_le _)
  · exact (hback.tryCatch fun _ => spends_pure ()).mono (by omega) (by omega)

/-- An update reserves, releases and writes; or it fails after that, and is taken back. -/
theorem spends_applyChanges {changes : CartChanges} : Spends env timeouts
    (timeouts.INVENTORY_TIMEOUT_MS.value + timeouts.dispatchCost env)
    (2 * (timeouts.INVENTORY_TIMEOUT_MS.value + timeouts.dispatchCost env))
    (CartService.applyChanges env changes cart context) := by
  have hwrite : Spends env timeouts 0
      (timeouts.dispatchCost env + timeouts.INVENTORY_TIMEOUT_MS.value)
      (CartService.orUndo (CartRepository.commit env cart changes)
        (CartService.rollback env changes.reserve changes.release cart context)) :=
    (spends_commit.orUndo (spends_rollback (fun _ => Nat.le_refl _) fun _ => Nat.le_refl _)).mono
      (Nat.le_refl _) (by omega)
  have hrelease : Spends env timeouts (timeouts.dispatchCost env)
      (2 * timeouts.dispatchCost env + timeouts.INVENTORY_TIMEOUT_MS.value) (do
      if changes.release.length > 0 then
        CartService.orUndo (dispatchReleaseMany env changes.release cart
          { reason := some CART_UPDATE_REASON, context })
          (CartService.rollback env changes.reserve [] cart context)
      CartService.orUndo (CartRepository.commit env cart changes)
        (CartService.rollback env changes.reserve changes.release cart context)) := by
    dsimp only
    split
    · have hundo : Spends env timeouts (timeouts.dispatchCost env + 0)
          (timeouts.dispatchCost env + 0)
          (CartService.rollback env changes.reserve [] cart context) :=
        spends_rollback (fun _ => Nat.le_refl _) fun h => absurd h (Nat.lt_irrefl 0)
      exact ((spends_dispatch.orUndo hundo).bind _ _ fun _ => hwrite).mono (by omega) (by omega)
    · exact hwrite.mono (by omega) (by omega)
  unfold CartService.applyChanges
  dsimp only
  split
  · have hundo : Spends env timeouts (0 + 0) (0 + 0)
        (CartService.rollback env [] [] cart context) :=
      spends_rollback (fun h => absurd h (Nat.lt_irrefl 0)) fun h => absurd h (Nat.lt_irrefl 0)
    exact (((spends_bulk .reserve).orUndo hundo).bind _ _ fun _ => hrelease).mono (by omega)
      (by omega)
  · exact hrelease.mono (by omega) (by omega)

theorem spends_applyRequested {requested : List CartLine} : Spends env timeouts
    (timeouts.INVENTORY_TIMEOUT_MS.value + timeouts.dispatchCost env)
    (2 * (timeouts.INVENTORY_TIMEOUT_MS.value + timeouts.dispatchCost env))
    (CartService.applyRequested env requested cart context) := by
  have hplanned : ∀ changes, Spends env timeouts
      (timeouts.INVENTORY_TIMEOUT_MS.value + timeouts.dispatchCost env)
      (2 * (timeouts.INVENTORY_TIMEOUT_MS.value + timeouts.dispatchCost env)) (do
      if isNoop changes then
        let _ ← CartRepository.touch env cart
        CartRepository.lines env cart
      else CartService.applyChanges env changes cart context) := by
    intro changes
    split
    · exact (spends_touch.bind 0 0 fun _ => spends_lines).mono (Nat.zero_le _) (by omega)
    · exact spends_applyChanges
  unfold CartService.applyRequested
  refine (spends_held.bind (timeouts.INVENTORY_TIMEOUT_MS.value + timeouts.dispatchCost env)
    (2 * (timeouts.INVENTORY_TIMEOUT_MS.value + timeouts.dispatchCost env)) fun held => ?_).mono
    (by omega) (by omega)
  dsimp only
  split
  · exact ((spends_throw _).bind _ _ fun _ => hplanned _).mono (by omega) (by omega)
  · exact hplanned _

/-! ### A checkout and a release -/

/-- A checkout releases, reserves, and puts back what it cannot reserve for the order. -/
theorem spends_checkoutHeld {orderId : SessionId} : Spends env timeouts
    (3 * timeouts.INVENTORY_TIMEOUT_MS.value) (3 * timeouts.INVENTORY_TIMEOUT_MS.value)
    (CartService.checkoutHeld env cart orderId context) := by
  have hback : ∀ {lines : List CartLine} {options : StockChangeOptions} (e : Exception),
      Spends env timeouts timeouts.INVENTORY_TIMEOUT_MS.value timeouts.INVENTORY_TIMEOUT_MS.value (do
        tryCatch (HttpInventoryAdapter.bulk .reserve lines cart options) fun _ => return ()
        throw e : Promise Unit) := by
    intro lines options e
    exact (((spends_bulk .reserve).tryCatch fun _ => spends_pure ()).bind 0 0 fun _ =>
      spends_throw e).mono (by omega) (by omega)
  have htransfer : ∀ {lines : List CartLine} {options : StockChangeOptions}, Spends env timeouts
      (3 * timeouts.INVENTORY_TIMEOUT_MS.value) (3 * timeouts.INVENTORY_TIMEOUT_MS.value)
      (HttpInventoryAdapter.transferHold lines cart orderId options) := by
    intro lines options
    unfold HttpInventoryAdapter.transferHold
    split
    · exact (spends_pure ()).mono (Nat.zero_le _) (Nat.zero_le _)
    · refine ((spends_bulk .release).bind (2 * timeouts.INVENTORY_TIMEOUT_MS.value)
        (2 * timeouts.INVENTORY_TIMEOUT_MS.value) fun _ => ?_).mono (by omega) (by omega)
      exact ((spends_bulk .reserve).tryCatch hback).mono (by omega) (by omega)
  have hended : ∀ lines : List CartLine, Spends env timeouts
      (3 * timeouts.INVENTORY_TIMEOUT_MS.value) (3 * timeouts.INVENTORY_TIMEOUT_MS.value) (do
      HttpInventoryAdapter.transferHold lines cart orderId
        { reason := some CART_CHECKOUT_REASON, context }
      CartRepository.discard cart
      return ({ cartSessionId := cart, orderId, lines } : CheckoutResult)) := by
    intro lines
    have hdrop : Spends env timeouts 0 0 (CartRepository.discard cart) :=
      spends_redis (spends_free rfl (fun _ h => h) fun _ _ _ h => h)
    refine (htransfer.bind 0 0 fun _ => ?_).mono (by omega) (by omega)
    exact (hdrop.bind 0 0 fun _ => spends_pure _).mono (Nat.le_refl _) (Nat.le_refl _)
  unfold CartService.checkoutHeld
  refine (spends_lines.bind (3 * timeouts.INVENTORY_TIMEOUT_MS.value)
    (3 * timeouts.INVENTORY_TIMEOUT_MS.value) fun lines => ?_).mono (by omega) (by omega)
  dsimp only
  split
  · exact ((spends_throw _).bind _ _ fun _ => hended lines).mono (by omega) (by omega)
  · exact hended lines

theorem spends_releaseFailed (e : Exception) :
    Spends env timeouts 0 0 (CartService.releaseFailed env cart e) := by
  have hretry : ∀ e' : Exception, Spends env timeouts 0 0 (do
      CartRepository.scheduleRelease cart
        ((← Promise.dateNow) + env.CART_RELEASE_RETRY_DELAY_MS.value)
      throw e' : Promise Bool) := by
    intro e'
    have hadd : ∀ score, Spends env timeouts 0 0 (CartRepository.scheduleRelease cart score) :=
      fun score => spends_redis (spends_free rfl (fun _ h => h) fun _ _ _ h => h)
    refine (spends_now.bind 0 0 fun now => ?_).mono (Nat.le_refl _) (Nat.le_refl _)
    exact ((hadd _).bind 0 0 fun _ => spends_throw e').mono (Nat.le_refl _) (Nat.le_refl _)
  cases e with
  | InsufficientStockException message failures =>
    have hretire : Spends env timeouts 0 0 (CartRepository.retire cart) :=
      spends_redis (spends_free rfl (fun _ h => h) fun _ _ _ h => h)
    exact (hretire.bind 0 0 fun _ => spends_pure false).mono (Nat.le_refl _) (Nat.le_refl _)
  | BadRequestException message => exact hretry (.BadRequestException message)
  | ConflictException message => exact hretry (.ConflictException message)
  | NotFoundException message => exact hretry (.NotFoundException message)
  | ServiceUnavailableException message => exact hretry (.ServiceUnavailableException message)
  | RedisError => exact hretry .RedisError

/-- A release dispatches once. -/
theorem spends_releaseTaken {cause : ReleaseCause} : Spends env timeouts (timeouts.dispatchCost env)
    (timeouts.dispatchCost env) (CartService.releaseTaken env cart cause) := by
  have hretire : Spends env timeouts 0 0 (CartRepository.retire cart) :=
    spends_redis (spends_free rfl (fun _ h => h) fun _ _ _ h => h)
  have hforget : Spends env timeouts 0 0 (CartRepository.forget cart) :=
    spends_redis (spends_free rfl (fun _ h => h) fun _ _ _ h => h)
  have hheld : ∀ held, Spends env timeouts (timeouts.dispatchCost env) (timeouts.dispatchCost env)
      (CartService.releaseHeld env cart held cause) := by
    intro held
    unfold CartService.releaseHeld
    refine (spends_uuid.bind (timeouts.dispatchCost env) (timeouts.dispatchCost env)
      fun requestId => ?_).mono (by omega) (by omega)
    refine (((spends_dispatch.bind 0 0 fun _ => spends_pure true).tryCatch
      spends_releaseFailed).bind 0 0 fun dispatched => ?_).mono (by omega) (by omega)
    cases dispatched with
    | true => exact (hretire.bind 0 0 fun _ => spends_pure _).mono (Nat.le_refl _) (Nat.le_refl _)
    | false => exact spends_pure _
  have htake : Spends env timeouts 0 0 (CartRepository.takeHeldLines env cart) := by
    have hread : Spends env timeouts 0 0 (Promise.call (.cartTake cart env.inFlightTtlSeconds)) :=
      spends_free rfl (fun _ h => h) fun _ _ _ h => h
    refine (hread.bind 0 0 fun reply => ?_).mono (Nat.le_refl _) (Nat.le_refl _)
    exact ((spends_reply reply).bind 0 0 fun _ => spends_pure _).mono (Nat.le_refl _)
      (Nat.le_refl _)
  unfold CartService.releaseTaken
  refine (htake.bind (timeouts.dispatchCost env) (timeouts.dispatchCost env) fun held => ?_).mono
    (by omega) (by omega)
  split
  · exact (hforget.bind 0 0 fun _ => spends_pure _).mono (by omega) (by omega)
  · exact hheld held

end Spending

/-! ## The code of every thread -/

section Code

variable {α : Type} {env : Env} {timeouts : Timeouts} {cart : SessionId}

/-- A section that spends no more than it has is entered and left. -/
theorem keeps_section {retries : Nat} {work : Promise α} {ok err : Nat}
    (h : Spends env timeouts ok err work) (hok : ok ≤ timeouts.longest env)
    (herr : err ≤ timeouts.longest env) : Keeps (budget env timeouts) (· = none)
      (RedisLock.withLock (.writeLock cart) retries work) := by
  rintro left rfl
  have hlockable : Lockable (budget env timeouts) (.writeLock cart) (· = none)
      (· = some (cart, timeouts.longest env)) := by
    constructor
    · rintro left rfl
      exact ⟨fun _ h => (nomatch h), fun _ _ hr => hr⟩
    · rintro token left rfl
      refine ⟨rfl, fun reply left' hr => ⟨fun ht => ?_, fun hf => ?_⟩⟩
      · exact hr.trans (if_pos ht)
      · exact hr.trans (if_neg hf)
  have hleave : ∀ token left, (∃ rest, left = some (cart, rest)) →
      (budget env timeouts).allows (.lockRelease (.writeLock cart) token) left ∧
        ∀ reply left', (budget env timeouts).replies (.lockRelease (.writeLock cart) token) left
          reply left' → left' = none := fun _ _ hin => ⟨hin, fun _ _ hr => hr⟩
  refine ensured_withLock hlockable retries (fun _ left => ∃ rest, left = some (cart, rest))
    (fun _ left => ∃ rest, left = some (cart, rest)) ?_ (fun token _ => hleave token)
    (fun token _ => hleave token) (fun _ hfree => ⟨hfree, hfree⟩) rfl
  rintro left rfl
  refine (h cart _ hok herr).mono (fun _ left h' => ?_) fun _ left h' => ?_
  · obtain ⟨rest, hleft, -⟩ := h'
    exact ⟨rest, hleft⟩
  · obtain ⟨rest, hleft, -⟩ := h'
    exact ⟨rest, hleft⟩

theorem budget_parts : KeepsParts (budget env timeouts) (· = none) env where
  plain command h := by
    rintro left rfl
    cases command with
    | cartCommit _ _ _ _ _ _ | cartTouch _ _ _ _ => cases h
    | lockSet key token =>
      cases key with
      | writeLock cart => cases h
      | releaseLock cart => exact ⟨fun _ h => (nomatch h), fun _ _ hr => hr⟩
    | lockRelease key token =>
      cases key with
      | writeLock cart => cases h
      | releaseLock cart => exact ⟨fun _ h => (nomatch h), fun _ _ hr => hr⟩
    | _ => exact ⟨fun _ h => (nomatch h), fun _ _ hr => hr⟩
  touch cart := by
    refine keeps_touch ?_ fun dueAt => ?_
    · rintro left rfl
      exact ⟨fun _ h => (nomatch h), fun _ _ hr => hr⟩
    · rintro left rfl
      exact ⟨fun _ h => (nomatch h), fun _ _ hr => hr⟩
  commit cart changes := by
    refine keeps_commit ?_ fun dueAt => ?_
    · rintro left rfl
      exact ⟨fun _ h => (nomatch h), fun _ _ hr => hr⟩
    · rintro left rfl
      exact ⟨fun _ h => (nomatch h), fun _ _ hr => hr⟩
  update _ _ _ := by
    refine keeps_section spends_applyRequested ?_ (Nat.le_max_left _ _)
    unfold Timeouts.longest
    omega
  checkout _ _ _ := keeps_section spends_checkoutHeld (Nat.le_max_right _ _) (Nat.le_max_right _ _)
  release _ _ := by
    refine keeps_section spends_releaseTaken ?_ ?_
    · unfold Timeouts.longest
      omega
    · unfold Timeouts.longest
      omega

end Code

/-! ## The locks -/

section Locks

variable {env : Env} {timeouts : Timeouts} {cart : SessionId}

/-- A command that sets or frees no write lock. -/
def Command.unlocking : Command → Option SessionId
  | .lockRelease (.writeLock cart) _ => some cart
  | _ => none

/-- Only the script that frees it makes a write lock free. -/
theorem locks_effect {command : Command} {r : Redis} (hc : command.unlocking ≠ some cart)
    (h : r.locks (.writeLock cart) ≠ none) : (command.effect r).locks (.writeLock cart) ≠ none := by
  cases command with
  | lockSet key token => exact Redis.locks_lockSet r key (.writeLock cart) token h
  | lockRelease key token =>
    have hne : LockKey.writeLock cart ≠ key := by
      rintro rfl
      exact hc rfl
    change (r.lockRelease key token).locks (.writeLock cart) ≠ none
    rwa [Redis.locks_lockRelease r token hne]
  | cartCommit c writes removals sessionTtl itemsTtl dueAt =>
    change (r.cartCommit c writes removals sessionTtl itemsTtl dueAt).2.locks _ ≠ none
    rwa [Redis.locks_cartCommit]
  | cartTouch c sessionTtl itemsTtl dueAt =>
    change (r.cartTouch c sessionTtl itemsTtl dueAt).2.locks _ ≠ none
    rwa [Redis.locks_cartTouch]
  | cartTake c inFlight =>
    change (r.cartTake c inFlight).2.locks _ ≠ none
    rwa [Redis.locks_cartTake]
  | _ => exact h

theorem locks_perform {fate : Fate} {command : Command} {w : World}
    (hc : command.unlocking ≠ some cart) (h : w.redis.locks (.writeLock cart) ≠ none) :
    (w.perform fate command).2.redis.locks (.writeLock cart) ≠ none := by
  rw [redis_perform]
  split
  · exact h
  · exact locks_effect hc h

/-- What a command does to the section its thread is in: it enters one, under a lock it found free,
leaves it, or spends of what is left. -/
inductive Passage (env : Env) (timeouts : Timeouts) (fate : Fate) (w : World) :
    Command → Option (SessionId × Nat) → Option (SessionId × Nat) → Prop
  | enters {cart : SessionId} {token : String}
    (hfree : w.redis.locks (.writeLock cart) = none)
    (hset : (w.perform fate (.lockSet (.writeLock cart) token)).2.redis.locks (.writeLock cart) ≠
      none)
    (htold : (Command.lockSet (.writeLock cart) token).verdict fate w = .told) :
    Passage env timeouts fate w (.lockSet (.writeLock cart) token) none
      (some (cart, timeouts.longest env))
  | leaves {cart : SessionId} {token : String} {ms : Nat} :
    Passage env timeouts fate w (.lockRelease (.writeLock cart) token) (some (cart, ms)) none
  | stays {command : Command} {left : Option (SessionId × Nat)}
    (hunlocking : command.unlocking = none)
    (hcost : ∀ section_ ∈ left, timeouts.cost command ≤ section_.2)
    (hheld : ∀ past, lockHeld ((command, command.verdict fate w) :: past) = lockHeld past) :
    Passage env timeouts fate w command left
      (left.map fun section_ => (section_.1, section_.2 - timeouts.cost command))

theorem passage_perform (fate : Fate) {command : Command} {w : World}
    {left : Option (SessionId × Nat)} (ha : (budget env timeouts).allows command left) :
    ∃ left', (budget env timeouts).replies command left (w.perform fate command).1 left' ∧
      Passage env timeouts fate w command left left' := by
  cases command with
  | lockSet key token =>
    cases key with
    | releaseLock cart => exact ⟨_, rfl, .stays rfl ha fun _ => rfl⟩
    | writeLock cart =>
      obtain rfl := ha
      have hout : (Command.lockSet (.writeLock cart) token).verdict fate w ≠ .told →
          Passage env timeouts fate w (.lockSet (.writeLock cart) token) none none := by
        intro hv
        refine .stays rfl (fun _ h => nomatch h) fun past => ?_
        cases hverdict : (Command.lockSet (.writeLock cart) token).verdict fate w with
        | told => exact absurd hverdict hv
        | untold => rfl
        | failed => rfl
      have hreply : (w.perform fate (.lockSet (.writeLock cart) token)) =
          w.onRedis fate fun r => r.lockSet (.writeLock cart) token := rfl
      have hverdict : (Command.lockSet (.writeLock cart) token).verdict fate w =
          if (w.redis.lockSet (.writeLock cart) token).1 then fate.verdict else .failed := rfl
      cases hlock : w.redis.locks (.writeLock cart) with
      | some owner =>
        have hset : w.redis.lockSet (.writeLock cart) token = (false, w.redis) := by
          unfold Redis.lockSet
          rw [hlock]
        rw [hset] at hverdict
        refine ⟨none, ?_, hout (by rw [hverdict]; nofun)⟩
        have hnot : (w.perform fate (.lockSet (.writeLock cart) token)).1 ≠ some true := by
          rw [hreply]
          rcases onRedis_reply w fate fun r => r.lockSet (.writeLock cart) token with h | h
          · rw [h, hset]
            nofun
          · rw [h]
            nofun
        exact (if_neg hnot).symm
      | none =>
        have hset : w.redis.lockSet (.writeLock cart) token =
            (true, w.redis.setLock (.writeLock cart) (some token)) := by
          unfold Redis.lockSet
          rw [hlock]
        rw [hset, if_pos rfl] at hverdict
        rcases onRedis_cases w fate fun r => r.lockSet (.writeLock cart) token with
          ⟨hv, h⟩ | ⟨hv, h⟩ | ⟨hv, h⟩
        · refine ⟨some (cart, timeouts.longest env), ?_, .enters hlock ?_ (hverdict.trans hv)⟩
          · have htold : (w.perform fate (.lockSet (.writeLock cart) token)).1 = some true := by
              rw [hreply, h, hset]
            exact (if_pos htold).symm
          · rw [hreply, h, hset]
            exact ne_of_eq_of_ne (if_pos rfl) (Option.some_ne_none token)
        · refine ⟨none, ?_, hout (by rw [hverdict, hv]; nofun)⟩
          have hnot : (w.perform fate (.lockSet (.writeLock cart) token)).1 ≠ some true := by
            rw [hreply, h]
            nofun
          exact (if_neg hnot).symm
        · refine ⟨none, ?_, hout (by rw [hverdict, hv]; nofun)⟩
          have hnot : (w.perform fate (.lockSet (.writeLock cart) token)).1 ≠ some true := by
            rw [hreply, h]
            nofun
          exact (if_neg hnot).symm
  | lockRelease key token =>
    cases key with
    | releaseLock cart => exact ⟨_, rfl, .stays rfl ha fun _ => rfl⟩
    | writeLock cart =>
      obtain ⟨ms, rfl⟩ := ha
      exact ⟨none, rfl, .leaves⟩
  | _ => exact ⟨_, rfl, .stays rfl ha fun _ => rfl⟩

end Locks

/-! ## The invariant -/

/-- Every thread keeps to its budget; who is inside a section has its lock, which lasts as long as the
rest of the budget; and no command takes longer than it can. -/
structure InTime (env : Env) (timeouts : Timeouts) (s : Timed)
    (left : Nat → Option (SessionId × Nat)) : Prop where
  governed : Governed (budget env timeouts) (fun _ left => left = none) s.system.threads left
  unborn : ∀ i, s.system.threads.length ≤ i → left i = none ∧ pastOf s.system.trace i = []
  sections : ∀ i, (s.system.nextCommand i).isSome →
    lockHeld (pastOf s.system.trace i) = (left i).map (·.1)
  held : ∀ i cart ms, left i = some (cart, ms) →
    s.system.world.redis.locks (.writeLock cart) ≠ none ∧
      s.since i + ms + timeouts.CART_LOCK_TTL_MS.value ≤
        s.expiry (.writeLock cart) + timeouts.longest env
  alone : ∀ i j cart ms ms', left i = some (cart, ms) → left j = some (cart, ms') → i = j
  prompt : ∀ i section_, left i = some section_ → ∀ command ∈ s.system.nextCommand i,
    s.now ≤ s.since i + timeouts.cost command

section Step

variable {env : Env} {timeouts : Timeouts} {s s' : Timed} {left : Nat → Option (SessionId × Nat)}

/-- What a command inside a section costs is left for it. -/
theorem cost_le_of_allows {command : Command} {section_ : SessionId × Nat}
    (h : (budget env timeouts).allows command (some section_)) :
    timeouts.cost command ≤ section_.2 := by
  cases command with
  | lockSet key token => exact Nat.zero_le _
  | lockRelease key token => exact Nat.zero_le _
  | _ => exact h section_ rfl

/-- Who is inside a section has a command to perform, and time left for it. -/
theorem InTime.busy (h : InTime env timeouts s left) {i : Nat} {section_ : SessionId × Nat}
    (hi : left i = some section_) : ∃ command, s.system.nextCommand i = some command ∧
      timeouts.cost command ≤ section_.2 := by
  have hlt : i < s.system.threads.length := by
    by_contra hge
    rw [(h.unborn i (by omega)).1] at hi
    cases hi
  obtain ⟨t, ht⟩ : ∃ t, s.system.threads[i]? = some t := ⟨_, List.getElem?_eq_getElem hlt⟩
  have hmeets := h.governed i t ht
  rw [hi] at hmeets
  unfold System.nextCommand
  rw [ht]
  cases hp : t.program with
  | done result =>
    rw [hp] at hmeets
    cases hmeets
  | perform command next =>
    rw [hp] at hmeets
    refine ⟨command, ?_, cost_le_of_allows hmeets.1⟩
    dsimp only
    rw [hp]

/-- A section ends before its lock lapses. -/
theorem InTime.unexpired (h : InTime env timeouts s left)
    (hlong : timeouts.longest env < timeouts.CART_LOCK_TTL_MS.value) {i : Nat} {cart : SessionId}
    {ms : Nat} (hi : left i = some (cart, ms)) : s.now < s.expiry (.writeLock cart) := by
  obtain ⟨command, hcommand, hcost⟩ := h.busy hi
  have hprompt := h.prompt i _ hi command hcommand
  have hheld := (h.held i cart ms hi).2
  dsimp only at hcost
  omega

theorem InTime.exclusive (h : InTime env timeouts s left)
    (hlong : timeouts.longest env < timeouts.CART_LOCK_TTL_MS.value) : s.Exclusive := by
  have hinside : ∀ i cart, s.system.working i cart → ∃ ms, left i = some (cart, ms) := by
    rintro i cart ⟨hsection, hnext⟩
    have hheld := (h.sections i hnext).symm.trans hsection
    obtain ⟨⟨c, ms⟩, hleft, rfl⟩ := Option.map_eq_some_iff.mp hheld
    exact ⟨ms, hleft⟩
  refine ⟨fun i cart hi => ?_, fun i j cart hi hj => ?_⟩
  · obtain ⟨ms, hleft⟩ := hinside i cart hi
    exact h.unexpired hlong hleft
  · obtain ⟨ms, hleft⟩ := hinside i cart hi
    obtain ⟨ms', hleft'⟩ := hinside j cart hj
    exact h.alone i j cart ms ms' hleft hleft'

/-- A step of the system, with its times. -/
theorem timed_step {l : Label} (hs : Timed.step env timeouts s l = some s') :
    s.permits timeouts l ∧ System.step env s.system l = some s'.system ∧
      (∀ i, s'.since i = if Timed.advanced s.system l = some i then s.now else s.since i) ∧
      ∀ key, s'.expiry key =
        if s.system.world.redis.locks key = none ∧ s'.system.world.redis.locks key ≠ none then
          s.now + timeouts.ttl key
        else s.expiry key := by
  unfold Timed.step at hs
  split at hs
  · rename_i hpermits
    obtain ⟨system, hsystem, rfl⟩ := Option.map_eq_some_iff.mp hs
    exact ⟨hpermits, hsystem, fun _ => rfl, fun _ => rfl⟩
  · cases hs

/-- A step beside the threads, that frees no lock in use and lets no command take too long. -/
theorem InTime.frame (h : InTime env timeouts s left)
    (hthreads : s'.system.threads = s.system.threads)
    (hpast : ∀ i, pastOf s'.system.trace i = pastOf s.system.trace i)
    (hsince : s'.since = s.since)
    (hlocks : ∀ i cart ms, left i = some (cart, ms) →
      s'.system.world.redis.locks (.writeLock cart) ≠ none)
    (hexpiry : ∀ key, s.system.world.redis.locks key ≠ none → s'.expiry key = s.expiry key)
    (hprompt : ∀ i section_, left i = some section_ → ∀ command ∈ s.system.nextCommand i,
      s'.now ≤ s.since i + timeouts.cost command) : InTime env timeouts s' left := by
  have hnext : ∀ i, s'.system.nextCommand i = s.system.nextCommand i := by
    intro i
    unfold System.nextCommand
    rw [hthreads]
  refine ⟨hthreads ▸ h.governed, fun i hi => ?_, fun i hi => ?_, fun i cart ms hi => ?_, h.alone,
    fun i section_ hi command hc => ?_⟩
  · rw [hpast]
    exact h.unborn i (hthreads ▸ hi)
  · rw [hnext] at hi
    rw [hpast]
    exact h.sections i hi
  · rw [hsince, hexpiry _ (h.held i cart ms hi).1]
    exact ⟨hlocks i cart ms hi, (h.held i cart ms hi).2⟩
  · rw [hnext] at hc
    rw [hsince]
    exact hprompt i section_ hi command hc

/-- A step beside the threads that takes no time. -/
theorem InTime.still (h : InTime env timeouts s left)
    (hthreads : s'.system.threads = s.system.threads)
    (hpast : ∀ i, pastOf s'.system.trace i = pastOf s.system.trace i)
    (hsince : s'.since = s.since)
    (hlocks : ∀ i cart ms, left i = some (cart, ms) →
      s'.system.world.redis.locks (.writeLock cart) ≠ none)
    (hexpiry : ∀ key, s.system.world.redis.locks key ≠ none → s'.expiry key = s.expiry key)
    (hnow : s'.now = s.now) : InTime env timeouts s' left := by
  refine h.frame hthreads hpast hsince hlocks hexpiry fun i section_ hi command hc => ?_
  rw [hnow]
  exact h.prompt i section_ hi command hc

/-- The threads that have not performed are where they were. -/
theorem nextCommand_of_ne {i j : Nat} {fate : Fate} {t : Thread} {command : Command}
    {next : command.Reply → Foundations.Program Command Command.Reply
      (Except Exception (Option CheckoutResult))} {before after : System}
    (hc : Called before after i fate t command next) (hj : j ≠ i) :
    after.nextCommand j = before.nextCommand j := by
  unfold System.nextCommand
  rw [hc.getElem?, if_neg hj]

theorem InTime.call (h : InTime env timeouts s left) {i : Nat} {fate : Fate}
    (hs : Timed.step env timeouts s (.call i fate) = some s') :
    ∃ left, InTime env timeouts s' left := by
  obtain ⟨-, hcall, hsince, hexpiry⟩ := timed_step hs
  obtain ⟨t, command, next, hc⟩ := called_of_call hcall
  obtain ⟨left', hreplies, hpassage⟩ :=
    passage_perform fate (w := s.system.world) (h.governed.allows hc)
  have hnow : s'.now = s.now := by
    unfold Timed.now
    rw [hc.world]
    exact now_perform fate command s.system.world
  have hsinceSelf : s'.since i = s.now := (hsince i).trans (if_pos rfl)
  have hsinceOther : ∀ j ≠ i, s'.since j = s.since j := fun j hj =>
    (hsince j).trans (if_neg fun he => hj (Option.some.inj he).symm)
  have hkept : ∀ key, s.system.world.redis.locks key ≠ none → s'.expiry key = s.expiry key :=
    fun key hkey => (hexpiry key).trans (if_neg fun hboth => hkey hboth.1)
  -- a cart in whose section another thread is stays locked
  have hothers : ∀ j ≠ i, ∀ cart ms, left j = some (cart, ms) →
      s'.system.world.redis.locks (.writeLock cart) ≠ none := by
    intro j hj cart ms hleft
    rw [hc.world]
    refine locks_perform (fun hun => ?_) (h.held j cart ms hleft).1
    generalize hli : left i = li at hpassage
    cases hpassage with
    | enters => cases hun
    | leaves =>
      cases hun
      exact hj (h.alone j i _ _ _ hleft hli)
    | stays hunlocking => rw [hunlocking] at hun; cases hun
  -- and the one that performs does not enter it
  have hclash : ∀ j ≠ i, ∀ cart ms ms', left j = some (cart, ms) → left' ≠ some (cart, ms') := by
    intro j hj cart ms ms' hleft hleft'
    generalize hli : left i = li at hpassage
    cases hpassage with
    | enters hfree _ _ =>
      cases hleft'
      exact (h.held j cart ms hleft).1 hfree
    | leaves => cases hleft'
    | stays _ _ _ =>
      obtain ⟨⟨c, ms₀⟩, rfl, he⟩ := Option.map_eq_some_iff.mp hleft'
      cases he
      exact hj (h.alone j i _ _ _ hleft hli)
  refine ⟨Function.update left i left', h.governed.call hc hreplies, fun j hj => ?_,
    fun j hj => ?_, fun j cart ms hj => ?_, fun j j' cart ms ms' hj hj' => ?_,
    fun j section_ hj other hother => ?_⟩
  · have hlt := hc.lt
    rw [hc.length] at hj
    have hne : j ≠ i := by omega
    rw [Function.update_of_ne hne, hc.trace, pastOf_performed, if_neg (Ne.symm hne)]
    exact h.unborn j hj
  · rw [hc.trace, pastOf_performed]
    by_cases hji : j = i
    · subst hji
      rw [if_pos rfl, Function.update_self]
      have hsection := h.sections j (by rw [hc.nextCommand]; rfl)
      generalize hli : left j = li at hpassage hsection
      cases hpassage with
      | enters _ _ htold =>
        rw [htold]
        rfl
      | leaves => rfl
      | stays _ _ hheld =>
        rw [hheld, hsection, Option.map_map]
        rfl
    · rw [if_neg (Ne.symm hji), Function.update_of_ne hji]
      rw [nextCommand_of_ne hc hji] at hj
      exact h.sections j hj
  · by_cases hji : j = i
    · subst hji
      rw [Function.update_self] at hj
      have hheld := h.held j
      have hprompt := h.prompt j
      generalize hli : left j = li at hpassage hheld hprompt
      cases hpassage with
      | enters hfree hset _ =>
        cases hj
        rw [← hc.world] at hset
        refine ⟨hset, ?_⟩
        have httl : timeouts.ttl (.writeLock cart) = timeouts.CART_LOCK_TTL_MS.value := rfl
        rw [hsinceSelf, hexpiry, if_pos ⟨hfree, hset⟩, httl]
        omega
      | leaves => cases hj
      | stays hunlocking hcost _ =>
        obtain ⟨⟨c, ms₀⟩, rfl, he⟩ := Option.map_eq_some_iff.mp hj
        cases he
        obtain ⟨hlock, hroom⟩ := hheld c ms₀ rfl
        have hearly := hprompt (c, ms₀) rfl command hc.nextCommand
        have hcost := hcost (c, ms₀) rfl
        refine ⟨?_, ?_⟩
        · rw [hc.world]
          exact locks_perform (by rw [hunlocking]; nofun) hlock
        · rw [hsinceSelf, hkept _ hlock]
          dsimp only at hcost ⊢
          omega
    · rw [Function.update_of_ne hji] at hj
      obtain ⟨hlock, hroom⟩ := h.held j cart ms hj
      rw [hsinceOther j hji, hkept _ hlock]
      exact ⟨hothers j hji cart ms hj, hroom⟩
  · by_cases hji : j = i
    · by_cases hji' : j' = i
      · rw [hji, hji']
      · rw [hji, Function.update_self] at hj
        rw [Function.update_of_ne hji'] at hj'
        exact absurd hj (hclash j' hji' cart ms' ms hj')
    · rw [Function.update_of_ne hji] at hj
      by_cases hji' : j' = i
      · rw [hji', Function.update_self] at hj'
        exact absurd hj' (hclash j hji cart ms ms' hj)
      · rw [Function.update_of_ne hji'] at hj'
        exact h.alone j j' cart ms ms' hj hj'
  · rw [hnow]
    by_cases hji : j = i
    · rw [hji, hsinceSelf]
      exact Nat.le_add_right _ _
    · rw [Function.update_of_ne hji] at hj
      rw [nextCommand_of_ne hc hji] at hother
      rw [hsinceOther j hji]
      exact h.prompt j section_ hj other hother

/-- A thread that starts is in no section. -/
theorem InTime.push (h : InTime env timeouts s left) {t : Thread} {l : Label}
    {system : System} (hs : Timed.step env timeouts s l = some s')
    (hadvanced : Timed.advanced s.system l = some s.system.threads.length)
    (hsystem : System.step env s.system l = some system)
    (hpushed : system = { s.system with threads := s.system.threads ++ [t] })
    (ht : Meets (budget env timeouts) t.program (fun _ left => left = none) none) :
    ∃ left, InTime env timeouts s' left := by
  obtain ⟨-, hstep, hsince, hexpiry⟩ := timed_step hs
  have hthreads : s'.system = { s.system with threads := s.system.threads ++ [t] } :=
    (Option.some.inj (hstep.symm.trans hsystem)).trans hpushed
  have hlength : s'.system.threads.length = s.system.threads.length + 1 := by
    rw [hthreads, List.length_append, List.length_singleton]
  have hredis : s'.system.world.redis = s.system.world.redis := by rw [hthreads]
  have hnow : s'.now = s.now := by
    unfold Timed.now
    rw [hredis]
  have hunborn : left s.system.threads.length = none := (h.unborn _ (Nat.le_refl _)).1
  have hsame : Function.update left s.system.threads.length none = left := by
    rw [← hunborn, Function.update_eq_self]
  have hkept : ∀ key, s'.expiry key = s.expiry key := fun key => by
    rw [hexpiry, hredis]
    exact if_neg fun hboth => hboth.2 hboth.1
  have hborn : ∀ {i section_}, left i = some section_ → i < s.system.threads.length := by
    intro i section_ hi
    by_contra hge
    rw [(h.unborn i (by omega)).1] at hi
    cases hi
  have hold : ∀ {i section_}, left i = some section_ →
      s'.since i = s.since i ∧ s'.system.nextCommand i = s.system.nextCommand i := by
    intro i section_ hi
    have hlt := hborn hi
    refine ⟨(hsince i).trans (if_neg fun he => ?_), ?_⟩
    · rw [hadvanced] at he
      have heq := Option.some.inj he
      omega
    · unfold System.nextCommand
      rw [hthreads, List.getElem?_append_left hlt]
  refine ⟨left, ?_, fun i hi => ?_, fun i hi => ?_, fun i cart ms hi => ?_, h.alone,
    fun i section_ hi command hc => ?_⟩
  · have hgoverned := h.governed.push ht
    rw [hsame] at hgoverned
    rw [hthreads]
    exact hgoverned
  · rw [hthreads]
    exact h.unborn i (by omega)
  · rw [hthreads] at hi ⊢
    by_cases hlt : i < s.system.threads.length
    · refine h.sections i ?_
      unfold System.nextCommand at hi ⊢
      rwa [List.getElem?_append_left hlt] at hi
    · obtain ⟨hleft, hpast⟩ := h.unborn i (by omega)
      rw [hleft, hpast]
      rfl
  · rw [hredis, hkept, (hold hi).1]
    exact h.held i cart ms hi
  · rw [(hold hi).2] at hc
    rw [hnow, (hold hi).1]
    exact h.prompt i section_ hi command hc

/-- A thread that is gone is in no section, whatever it has locked. -/
theorem InTime.crash (h : InTime env timeouts s left) {i : Nat}
    (hs : Timed.step env timeouts s (.crash i) = some s') :
    ∃ left, InTime env timeouts s' left := by
  obtain ⟨-, hstep, hsince, hexpiry⟩ := timed_step hs
  obtain ⟨t, ht, hcrashed⟩ := step_crash hstep
  have hlt : i < s.system.threads.length := (List.getElem?_eq_some_iff.mp ht).1
  have hredis : s'.system.world.redis = s.system.world.redis := by rw [hcrashed]
  have hnow : s'.now = s.now := by
    unfold Timed.now
    rw [hredis]
  have hkept : ∀ key, s'.expiry key = s.expiry key := fun key => by
    rw [hexpiry, hredis]
    exact if_neg fun hboth => hboth.2 hboth.1
  have hstay : ∀ j, s'.since j = s.since j := fun j => (hsince j).trans (if_neg nofun)
  have hothers : ∀ j ≠ i, s'.system.nextCommand j = s.system.nextCommand j := by
    intro j hj
    unfold System.nextCommand
    rw [hcrashed, List.getElem?_set_ne (Ne.symm hj)]
  have hself : s'.system.nextCommand i = none := by
    unfold System.nextCommand
    rw [hcrashed, List.getElem?_set_self hlt]
  have hleft : ∀ {j section_}, Function.update left i none j = some section_ →
      j ≠ i ∧ left j = some section_ := by
    intro j section_ hj
    by_cases hji : j = i
    · rw [hji, Function.update_self] at hj
      cases hj
    · rw [Function.update_of_ne hji] at hj
      exact ⟨hji, hj⟩
  refine ⟨Function.update left i none, ?_, fun j hj => ?_, fun j hj => ?_,
    fun j cart ms hj => ?_, fun j j' cart ms ms' hj hj' => ?_, fun j section_ hj command hc => ?_⟩
  · rw [hcrashed]
    exact h.governed.gone rfl
  · rw [hcrashed] at hj ⊢
    rw [List.length_set] at hj
    rw [Function.update_of_ne (by omega)]
    exact h.unborn j hj
  · by_cases hji : j = i
    · rw [hji, hself] at hj
      cases hj
    · rw [hothers j hji] at hj
      rw [Function.update_of_ne hji, hcrashed]
      exact h.sections j hj
  · rw [hredis, hkept, hstay]
    exact h.held j cart ms (hleft hj).2
  · exact h.alone j j' cart ms ms' (hleft hj).2 (hleft hj').2
  · obtain ⟨hji, hj⟩ := hleft hj
    rw [hothers j hji] at hc
    rw [hnow, hstay]
    exact h.prompt j section_ hj command hc

theorem InTime.step (h : InTime env timeouts s left)
    (hlong : timeouts.longest env < timeouts.CART_LOCK_TTL_MS.value) {l : Label}
    (hs : Timed.step env timeouts s l = some s') : ∃ left, InTime env timeouts s' left := by
  obtain ⟨hpermits, hstep, hsince, hexpiry⟩ := timed_step hs
  -- a step beside the threads leaves the times as they are, where no lock is set
  have hbeside : Timed.advanced s.system l = none → s'.since = s.since := fun hnone => by
    funext i
    rw [hsince, hnone]
    rfl
  have hkept : ∀ key, s.system.world.redis.locks key ≠ none → s'.expiry key = s.expiry key :=
    fun key hkey => (hexpiry key).trans (if_neg fun hboth => hkey hboth.1)
  cases l with
  | spawn task =>
    exact h.push hs rfl rfl rfl ((budget_parts.task task none rfl).meets
      (fun _ _ hpost => hpost) fun _ _ hpost => hpost)
  | notify notice =>
    obtain ⟨cart, armings, -, hsystem⟩ := step_notify hstep
    exact h.push hs rfl hstep hsystem ((budget_parts.notified none rfl).meets
      (fun _ _ hpost => hpost) fun _ _ hpost => hpost)
  | call i fate => exact h.call hs
  | crash i => exact h.crash hs
  | lapse key =>
    have hsystem := (Option.some.inj hstep).symm
    refine ⟨left, h.still (by rw [hsystem]) (fun i => by rw [hsystem]) (hbeside rfl)
      (fun i cart ms hi => ?_) hkept ?_⟩
    · -- the lock of a section in use is not due
      have hdue : s.expiry key ≤ s.now := hpermits
      have hlive := h.unexpired hlong hi
      have hne : LockKey.writeLock cart ≠ key := by
        rintro rfl
        omega
      rw [hsystem]
      exact ne_of_eq_of_ne (if_neg hne) (h.held i cart ms hi).1
    · unfold Timed.now
      rw [hsystem]
      rfl
  | tick ms =>
    have hsystem := (Option.some.inj hstep).symm
    refine ⟨left, h.frame (by rw [hsystem]) (fun i => by rw [hsystem]) (hbeside rfl)
      (fun i cart ms hi => ?_) hkept fun i section_ hi command hc => ?_⟩
    · rw [hsystem]
      exact (h.held i cart ms hi).1
    · have hnow : s'.now = s.now + ms := by
        unfold Timed.now
        rw [hsystem]
      have hlt : i < s.system.threads.length := by
        by_contra hge
        rw [(h.unborn i (by omega)).1] at hi
        cases hi
      have hinside : (lockHeld (pastOf s.system.trace i)).isSome := by
        rw [h.sections i (by rw [Option.mem_def.mp hc]; rfl), hi]
        rfl
      rw [hnow]
      exact hpermits i hlt hinside command hc
  | expire cart =>
    obtain ⟨expiresAt, -, -, hsystem⟩ := step_expire hstep
    refine ⟨left, h.still (by rw [hsystem]) (fun i => by rw [hsystem]) (hbeside rfl)
      (fun i cart ms hi => ?_) hkept ?_⟩
    · rw [hsystem]
      exact (h.held i cart ms hi).1
    · unfold Timed.now
      rw [hsystem]
      rfl
  | other t body =>
    have hsystem := (Option.some.inj hstep).symm
    refine ⟨left, h.still (by rw [hsystem]; rfl) (fun i => by rw [hsystem]; rfl) (hbeside rfl)
      (fun i cart ms hi => ?_) hkept ?_⟩
    · rw [hsystem]
      exact (h.held i cart ms hi).1
    · unfold Timed.now
      rw [hsystem]
      rfl
  | consume message fate =>
    obtain ⟨content, -, hsystem⟩ := step_consume hstep
    refine ⟨left, h.still (by rw [hsystem]; rfl) (fun i => by rw [hsystem]; rfl) (hbeside rfl)
      (fun i cart ms hi => ?_) hkept ?_⟩
    · rw [hsystem]
      exact (h.held i cart ms hi).1
    · unfold Timed.now
      rw [hsystem]
      rfl

end Step

/-- Where a lock lasts longer than the longest section, nobody works in a section whose lock has
lapsed, and no two work in one at a time. -/
theorem sections_end_in_time (env : Env) (timeouts : Timeouts) (world : World)
    (others : String → Int) (labels : List Label) (s : Timed)
    (hlong : timeouts.longest env < timeouts.CART_LOCK_TTL_MS.value)
    (hrun : runs (Timed.step env timeouts) (.start world others) labels = some s) :
    s.Exclusive := by
  have hstart : InTime env timeouts (.start world others) fun _ => none :=
    ⟨governed_nil _, fun _ _ => ⟨rfl, rfl⟩, fun _ hnext => (nomatch hnext),
      fun _ _ _ hi => (nomatch hi), fun _ _ _ _ _ hi => (nomatch hi), fun _ _ hi => nomatch hi⟩
  obtain ⟨left, h⟩ := Foundations.invariant_of_steps
    (P := fun s => ∃ left, InTime env timeouts s left)
    (fun _ _ _ hs ⟨_, h⟩ => h.step hlong hs) hrun ⟨_, hstart⟩
  exact h.exclusive hlong

/-! A cart's lamp is exchanged for a chair while every call of inventory takes all the time it may. -/

theorem patient_positive : 1 ≤ 20001 := by omega

theorem patient_bounded : 20001 ≤ 120000 := by omega

/-- The defaults, but for a lock that lasts longer than four calls of inventory. -/
def patientTimeouts : Timeouts :=
  { Timeouts.defaults with CART_LOCK_TTL_MS := ⟨20001, patient_positive, patient_bounded⟩ }

theorem pair_fits : Inventory.StockLevels.Fits ⟨2, 0⟩ := by decide

def stockedWorld : World :=
  { lampWorld with inventory := Inventory.warehouse ⟨2, 0⟩ ⟨2, 0⟩ pair_fits pair_fits }

/-- The chair is reserved and the lamp given back, the cart cannot be written, and the chair is given
back. The lamp is still to be taken again. -/
def slowExchange : List Label :=
  .spawn (.setLines (lamps 1) cartOne {}) :: goesOn 0 7 ++
    .spawn (.setLines [{ productId := Inventory.lampId, quantity := 0 },
      { productId := Inventory.chairId, quantity := 1 }] cartOne {}) :: goesOn 1 3 ++
    .tick 5000 :: goesOn 1 1 ++ .tick 5000 :: goesOn 1 2 ++
    [.call 1 .lost, .tick 5000] ++ goesOn 1 1

/-- The lock lapses, and another request comes in. -/
def overtaken : List Label :=
  slowExchange ++ .lapse (.writeLock cartOne) :: .spawn (.setLines (lamps 2) cartOne {}) :: goesOn 2 2

theorem sections_end_in_time_lamp : ∃ s,
    runs (Timed.step shop patientTimeouts) (.start stockedWorld fun _ => 0) slowExchange = some s ∧
      s.now = 15000 ∧ s.Exclusive := by
  have hrun : (runs (Timed.step shop patientTimeouts) (.start stockedWorld fun _ => 0)
      slowExchange).map (·.now) = some 15000 := by decide +kernel
  obtain ⟨s, hs, hnow⟩ := Option.map_eq_some_iff.mp hrun
  exact ⟨s, hs, hnow, sections_end_in_time shop patientTimeouts stockedWorld (fun _ => 0)
    slowExchange s (by decide +kernel) hs⟩

/-- Under the defaults the lock lapses before the lamp is taken again, and two threads are in the
section of one cart. -/
theorem sections_overlap : ¬ ∀ (labels : List Label) (s : Timed),
    runs (Timed.step shop .defaults) (.start stockedWorld fun _ => 0) labels = some s →
      s.Exclusive := by
  intro hall
  have hrun : (runs (Timed.step shop .defaults) (.start stockedWorld fun _ => 0) overtaken).map
      (fun s => decide (s.system.working 1 cartOne ∧ s.system.working 2 cartOne)) = some true := by
    decide +kernel
  obtain ⟨s, hs, hworking⟩ := Option.map_eq_some_iff.mp hrun
  obtain ⟨hone, htwo⟩ := of_decide_eq_true hworking
  have hsame := (hall overtaken s hs).alone 1 2 cartOne hone htwo
  omega

end PracticalMicroservice.Cart
