import PracticalMicroservice.Cart.Proofs.PromiseProofs
import PracticalMicroservice.Cart.System

/-!
# What every command of a method keeps

A method whose commands each keep an invariant of the ghost state keeps it, whether it returns or
throws. The methods of the service are gone through once, for any contract.
-/

namespace PracticalMicroservice.Cart

open Foundations (Contract Ensured)

section Keeping

variable {σ α β : Type} {k : Contract Command Command.Reply σ} {I : σ → Prop}

/-- The command is allowed wherever the invariant holds, and keeps it. -/
def Kept (k : Contract Command Command.Reply σ) (I : σ → Prop) (command : Command) : Prop :=
  ∀ s, I s → k.allows command s ∧ ∀ reply s', k.replies command s reply s' → I s'

/-- The method only does what is allowed, and keeps the invariant however it ends. -/
def Keeps (k : Contract Command Command.Reply σ) (I : σ → Prop) (p : Promise α) : Prop :=
  ∀ s, I s → Ensured k p (fun _ => I) (fun _ => I) s

theorem keeps_pure (a : α) : Keeps k I (pure a) := fun _ h => h

theorem keeps_throw (e : Exception) : Keeps k I (throw e : Promise α) := fun _ h => h

theorem keeps_reply (reply : Option α) : Keeps k I (Promise.reply reply) := by
  intro s h
  rw [ensured_reply]
  cases reply with
  | some a => exact h
  | none => exact h

theorem keeps_call {command : Command} (h : Kept k I command) :
    Keeps k I (Promise.call command) := fun s hs => ensured_call.mpr (h s hs)

theorem keeps_bind {p : Promise β} {f : β → Promise α} (hp : Keeps k I p)
    (hf : ∀ b, Keeps k I (f b)) : Keeps k I (p >>= f) := by
  intro s h
  rw [Foundations.ensured_bind]
  exact (hp s h).mono (fun b s' h' => hf b s' h') fun _ _ h' => h'

/-- What is awaited may be absent. -/
theorem keeps_optional {p : Promise (Option β)} {f : Option β → Promise α} (hp : Keeps k I p)
    (hsome : ∀ b, Keeps k I (f (some b))) (hnone : Keeps k I (f none)) : Keeps k I (p >>= f) := by
  refine keeps_bind hp fun found => ?_
  cases found with
  | some b => exact hsome b
  | none => exact hnone

theorem keeps_tryCatch {p : Promise α} {handler : Exception → Promise α} (hp : Keeps k I p)
    (hhandler : ∀ e, Keeps k I (handler e)) : Keeps k I (tryCatch p handler) := by
  intro s h
  rw [Foundations.ensured_tryCatch]
  exact (hp s h).mono (fun _ _ h' => h') fun e s' h' => hhandler e s' h'

theorem keeps_orUndo {step : Promise α} {undo : Promise Unit} (hstep : Keeps k I step)
    (hundo : Keeps k I undo) : Keeps k I (CartService.orUndo step undo) :=
  keeps_tryCatch hstep fun e => keeps_bind hundo fun _ => keeps_throw e

/-- A command and the reading of its reply. -/
theorem keeps_redis {command : Command} {f : command.Reply → Option α} (h : Kept k I command) :
    Keeps k I (do Promise.reply (f (← Promise.call command))) :=
  keeps_bind (keeps_call h) fun reply => keeps_reply (f reply)

/-! ## Locks -/

theorem keeps_attempt {key : LockKey} {token : String} (h : Kept k I (.lockSet key token))
    (attempts : Nat) : Keeps k I (RedisLock.attempt key token attempts) := by
  induction attempts with
  | zero => exact keeps_pure false
  | succ attempts ih =>
    unfold RedisLock.attempt
    refine keeps_bind (keeps_call h) fun reply => keeps_bind (keeps_reply reply) fun taken => ?_
    cases taken with
    | true => exact keeps_pure true
    | false => exact ih

theorem keeps_withLock {key : LockKey} (retries : Nat) {work : Promise α}
    (huuid : Kept k I .randomUUID) (hset : ∀ token, Kept k I (.lockSet key token))
    (hrelease : ∀ token, Kept k I (.lockRelease key token)) (hwork : Keeps k I work) :
    Keeps k I (RedisLock.withLock key retries work) := by
  unfold RedisLock.withLock RedisLock.acquire
  refine keeps_bind (keeps_bind (keeps_call huuid) fun token =>
    keeps_bind (keeps_attempt (hset token) (retries + 1)) fun taken => ?_) fun acquired => ?_
  · cases taken with
    | true => exact keeps_pure (some token)
    | false => exact keeps_pure none
  · cases acquired with
    | none => exact keeps_pure none
    | some token =>
      have hgive : Keeps k I (RedisLock.release key token) :=
        keeps_bind (keeps_call (hrelease token)) fun _ => keeps_pure ()
      refine keeps_bind (fun s hs => ensured_finally ?_) fun a => keeps_pure (some a)
      exact (hwork s hs).mono (fun _ s' h' => hgive s' h') fun _ s' h' => hgive s' h'

/-! ## The scripts that arm a session -/

section Arming

variable {env : Env} {cart : SessionId}

theorem keeps_dueAt (hnow : Kept k I .dateNow) : Keeps k I (CartRepository.dueAt env) :=
  keeps_bind (keeps_call hnow) fun _ => keeps_pure _

theorem keeps_commit {changes : CartChanges} (hnow : Kept k I .dateNow)
    (h : ∀ dueAt, Kept k I (.cartCommit cart changes.writes changes.removals env.sessionTtlSeconds
      env.itemsTtlSeconds dueAt)) : Keeps k I (CartRepository.commit env cart changes) :=
  keeps_bind (keeps_dueAt hnow) fun dueAt => keeps_bind (keeps_call (h dueAt)) fun reply =>
    keeps_bind (keeps_reply reply) fun _ => keeps_pure _

theorem keeps_touch (hnow : Kept k I .dateNow)
    (h : ∀ dueAt, Kept k I (.cartTouch cart env.sessionTtlSeconds env.itemsTtlSeconds dueAt)) :
    Keeps k I (CartRepository.touch env cart) :=
  keeps_bind (keeps_dueAt hnow) fun dueAt => keeps_redis (h dueAt)

end Arming

/-! ## The adapters -/

variable {env : Env} {cart : SessionId} {items : List StockLine} {reference : SessionId}
  {options : StockChangeOptions}

theorem keeps_bulk (t : Inventory.Transition) (h : ∀ body, Kept k I (.post t body)) :
    Keeps k I (HttpInventoryAdapter.bulk t items reference options) := by
  have hrequest : ∀ body, Keeps k I (HttpInventoryAdapter.request t body) := by
    intro body
    refine keeps_bind (keeps_call (h body)) fun reply => ?_
    cases reply with
    | none => exact keeps_throw _
    | some response =>
      dsimp only
      split
      · exact keeps_pure ()
      · exact keeps_throw _
  have hbounded : ∀ {p : Prop} [Decidable p] (e : Exception) (body : Inventory.BulkBody),
      Keeps k I (if p then (do throw e; HttpInventoryAdapter.request t body)
        else HttpInventoryAdapter.request t body) := by
    intro p _ e body
    split
    · exact keeps_bind (keeps_throw e) fun _ => hrequest body
    · exact hrequest body
  unfold HttpInventoryAdapter.bulk
  split
  · exact keeps_pure ()
  dsimp only
  split
  · exact keeps_bind (keeps_throw _) fun _ => hbounded _ _
  · exact hbounded _ _

theorem keeps_dispatch (hpost : ∀ body, Kept k I (.post .release body))
    (huuid : Kept k I .randomUUID) (hnow : Kept k I .dateNow)
    (hpublish : ∀ message, Kept k I (.publish message)) :
    Keeps k I (dispatchReleaseMany env items reference options) := by
  unfold dispatchReleaseMany
  split
  · exact keeps_bulk .release hpost
  · unfold AmqpInventoryDispatch.releaseMany
    split
    · exact keeps_pure ()
    · refine keeps_bind (keeps_call huuid) fun messageId => keeps_bind (keeps_call hnow) fun _ =>
        keeps_bind (keeps_call (hpublish _)) fun confirmed => ?_
      cases confirmed with
      | true => exact keeps_pure ()
      | false => exact keeps_throw _

/-! ## A release -/

/-- What a release of a cart performs. -/
def Releases (env : Env) (cart : SessionId) : Command → Prop
  | .randomUUID | .dateNow | .lockSet _ _ | .lockRelease _ _ | .publish _ => True
  | .post t _ => t = .release
  | .cartTake c inFlight => c = cart ∧ inFlight = env.inFlightTtlSeconds
  | .cartFinish c | .zrem c | .zadd c _ => c = cart
  | .hgetall _ | .cartCommit _ _ _ _ _ _ | .cartTouch _ _ _ _ | .startSession _ _
  | .cartDiscard _ | .dueBefore _ _ | .pttl _ => False

theorem keeps_releaseHeld {held : List CartLine} {cause : ReleaseCause}
    (h : ∀ command, Releases env cart command → Kept k I command) :
    Keeps k I (CartService.releaseHeld env cart held cause) := by
  have hretire : Keeps k I (CartRepository.retire cart) := keeps_redis (h (.cartFinish cart) rfl)
  unfold CartService.releaseHeld
  refine keeps_bind (keeps_call (h .randomUUID trivial)) fun _ => keeps_bind
    (keeps_tryCatch (keeps_bind ?_ fun _ => keeps_pure true) fun e => ?_) fun dispatched => ?_
  · exact keeps_dispatch (fun body => h (.post .release body) rfl) (h .randomUUID trivial)
      (h .dateNow trivial) fun message => h (.publish message) trivial
  · cases e with
    | InsufficientStockException message failures =>
      exact keeps_bind hretire fun _ => keeps_pure false
    | BadRequestException message | ConflictException message | NotFoundException message
    | ServiceUnavailableException message | RedisError =>
      exact keeps_bind (keeps_call (h .dateNow trivial)) fun now => keeps_bind
        (keeps_redis (h (.zadd cart _) rfl)) fun _ => keeps_throw _
  · cases dispatched with
    | true => exact keeps_bind hretire fun _ => keeps_pure _
    | false => exact keeps_pure _

theorem keeps_releaseTaken {cause : ReleaseCause}
    (h : ∀ command, Releases env cart command → Kept k I command) :
    Keeps k I (CartService.releaseTaken env cart cause) := by
  unfold CartService.releaseTaken CartRepository.takeHeldLines
  refine keeps_bind (keeps_bind (keeps_call (h (.cartTake cart env.inFlightTtlSeconds) ⟨rfl, rfl⟩))
    fun reply => keeps_bind (keeps_reply reply) fun taken => keeps_pure _) fun held => ?_
  split
  · exact keeps_bind (keeps_redis (h (.zrem cart) rfl)) fun _ => keeps_pure _
  · exact keeps_releaseHeld h

theorem keeps_releaseSession {cause : ReleaseCause}
    (h : ∀ command, Releases env cart command → Kept k I command) :
    Keeps k I (CartService.releaseSession env cart cause) := by
  have hlock : ∀ {γ : Type} (key : LockKey) (retries : Nat) (work : Promise γ), Keeps k I work →
      Keeps k I (RedisLock.withLock key retries work) := fun key retries work hwork =>
    keeps_withLock retries (h .randomUUID trivial) (fun token => h (.lockSet key token) trivial)
      (fun token => h (.lockRelease key token) trivial) hwork
  unfold CartService.releaseSession
  refine keeps_bind (hlock _ _ _ (hlock _ _ _ (keeps_releaseTaken h))) fun outcome => ?_
  cases outcome with
  | none => exact keeps_pure _
  | some outcome =>
    cases outcome with
    | none => exact keeps_pure _
    | some outcome => exact keeps_pure outcome

/-- A release by the watcher, which absorbs its failure. -/
theorem keeps_watcherRelease {cause : ReleaseCause}
    (h : ∀ command, Releases env cart command → Kept k I command) :
    Keeps k I (CartExpiryWatcher.release env cart cause) :=
  keeps_tryCatch (keeps_bind (keeps_releaseSession h) fun _ => keeps_pure ()) fun _ => keeps_pure ()

/-! ## Whatever a thread runs -/

/-- A command that neither takes or gives back a write lock nor arms a record. -/
def Command.plain : Command → Bool
  | .lockSet (.writeLock _) _ | .lockRelease (.writeLock _) _ | .cartCommit _ _ _ _ _ _
  | .cartTouch _ _ _ _ => false
  | _ => true

/-- The parts that every method of the service is made of keep the invariant. -/
structure KeepsParts (k : Contract Command Command.Reply σ) (I : σ → Prop) (env : Env) : Prop where
  plain : ∀ command, command.plain = true → Kept k I command
  touch : ∀ cart, Keeps k I (CartRepository.touch env cart)
  commit : ∀ cart changes, Keeps k I (CartRepository.commit env cart changes)
  update : ∀ cart requested context, Keeps k I (RedisLock.withLock (.writeLock cart)
    env.CART_LOCK_RETRIES.value (CartService.applyRequested env requested cart context))
  checkout : ∀ cart orderId context, Keeps k I (RedisLock.withLock (.writeLock cart)
    env.CART_LOCK_RETRIES.value (CartService.checkoutHeld env cart orderId context))
  release : ∀ cart cause, Keeps k I (RedisLock.withLock (.writeLock cart)
    env.CART_LOCK_RETRIES.value (CartService.releaseTaken env cart cause))

namespace KeepsParts

variable {context : CallContext} (h : KeepsParts k I env)
include h

theorem held : Keeps k I (CartRepository.held cart) :=
  keeps_bind (keeps_call (h.plain (.hgetall cart) rfl)) fun reply =>
    keeps_bind (keeps_reply reply) fun _ => keeps_pure _

theorem lines : Keeps k I (CartRepository.lines env cart) :=
  keeps_bind h.held fun _ => keeps_pure _

theorem scheduleRelease (score : Nat) :
    Keeps k I (CartRepository.scheduleRelease cart score) :=
  keeps_redis (h.plain (.zadd cart score) rfl)

theorem startSession : Keeps k I (CartRepository.startSession env cart) :=
  keeps_redis (h.plain (.startSession cart env.sessionTtlSeconds) rfl)

theorem setLines {requested : List CartLine} :
    Keeps k I (CartService.setLines env requested cart context) := by
  have hlocked := h.update cart requested context
  unfold CartService.setLines
  dsimp only
  split
  · refine keeps_bind (keeps_throw _) fun _ => ?_
    exact keeps_optional hlocked (fun settled => keeps_pure settled) (keeps_throw _)
  · exact keeps_optional hlocked (fun settled => keeps_pure settled) (keeps_throw _)

theorem checkoutCart {orderId : SessionId} :
    Keeps k I (CartService.checkout env cart orderId context) :=
  keeps_optional (h.checkout cart orderId context) (fun settled => keeps_pure settled)
    (keeps_throw _)

theorem releaseSession {cause : ReleaseCause} :
    Keeps k I (CartService.releaseSession env cart cause) := by
  refine keeps_bind (keeps_withLock 0 (h.plain .randomUUID rfl)
    (fun token => h.plain (.lockSet (.releaseLock cart) token) rfl)
    (fun token => h.plain (.lockRelease (.releaseLock cart) token) rfl)
    (h.release cart cause)) fun outcome => ?_
  cases outcome with
  | none => exact keeps_pure _
  | some outcome =>
    cases outcome with
    | none => exact keeps_pure _
    | some outcome => exact keeps_pure outcome

theorem resolveSession (claimed : Option SessionId) :
    Keeps k I (CartService.resolveSession env claimed) := by
  unfold CartService.resolveSession
  extract_lets settle
  have hsettle : ∀ live, Keeps k I (settle live) := by
    intro live
    unfold settle
    split
    · exact keeps_pure _
    · refine keeps_bind (keeps_call (h.plain .randomUUID rfl)) fun uuid => ?_
      cases CartService.sessionOf uuid with
      | none => exact keeps_throw _
      | some cart => exact keeps_bind h.startSession fun _ => keeps_pure _
  cases claimed with
  | none => exact hsettle false
  | some cart => exact keeps_bind (h.touch cart) hsettle

theorem requireSession (claimed : Option SessionId) :
    Keeps k I (CartController.requireSession env claimed) := by
  cases claimed with
  | none => exact keeps_throw _
  | some cart =>
    refine keeps_bind (h.touch cart) fun live => ?_
    cases live with
    | true => exact keeps_pure cart
    | false => exact keeps_throw _

theorem watcherRelease {cause : ReleaseCause} :
    Keeps k I (CartExpiryWatcher.release env cart cause) :=
  keeps_tryCatch (keeps_bind h.releaseSession fun _ => keeps_pure ()) fun _ => keeps_pure ()

theorem sweepAll (carts : List SessionId) : Keeps k I (CartExpiryWatcher.sweepAll env carts) := by
  induction carts with
  | nil => exact keeps_pure ()
  | cons cart carts ih =>
    refine keeps_bind (keeps_bind (keeps_redis (h.plain (.pttl cart) rfl)) fun ttlMs => ?_)
      fun _ => ih
    split
    · exact keeps_bind (keeps_call (h.plain .dateNow rfl)) fun now => h.scheduleRelease _
    · exact h.watcherRelease

theorem sweep : Keeps k I (CartExpiryWatcher.sweep env) :=
  keeps_tryCatch (keeps_bind (keeps_call (h.plain .dateNow rfl)) fun now =>
    keeps_bind (keeps_redis (h.plain (.dueBefore now env.CART_SWEEP_BATCH.value) rfl))
      fun due => h.sweepAll due) fun _ => keeps_pure ()

theorem repository (call : RepositoryCall) : Keeps k I (call.run env cart) := by
  cases call with
  | startSession => exact h.startSession
  | commit changes => exact keeps_bind (h.commit cart changes) fun _ => keeps_pure ()
  | touch => exact keeps_bind (h.touch cart) fun _ => keeps_pure ()
  | takeHeldLines =>
    exact keeps_bind (keeps_bind (keeps_call (h.plain (.cartTake cart env.inFlightTtlSeconds) rfl))
      fun reply => keeps_bind (keeps_reply reply) fun _ => keeps_pure _) fun _ => keeps_pure ()
  | retire => exact keeps_redis (h.plain (.cartFinish cart) rfl)
  | discard => exact keeps_redis (h.plain (.cartDiscard cart) rfl)
  | forget => exact keeps_redis (h.plain (.zrem cart) rfl)
  | scheduleRelease score => exact h.scheduleRelease score

theorem task (task : Task) : Keeps k I (task.run env) := by
  cases task with
  | setItems items claimed context =>
    exact keeps_bind (keeps_bind (h.resolveSession claimed) fun _ => h.setLines)
      fun _ => keeps_pure none
  | getCart claimed =>
    exact keeps_bind (keeps_bind (h.requireSession claimed) fun _ => h.lines)
      fun _ => keeps_pure none
  | checkoutCart orderId claimed context =>
    exact keeps_bind (keeps_bind (h.requireSession claimed) fun _ => h.checkoutCart)
      fun _ => keeps_pure _
  | abandon claimed =>
    refine keeps_bind ?_ fun _ => keeps_pure none
    cases claimed with
    | none => exact keeps_pure ()
    | some cart => exact keeps_bind h.releaseSession fun _ => keeps_pure ()
  | sweep => exact keeps_bind h.sweep fun _ => keeps_pure none
  | setLines requested cart context => exact keeps_bind h.setLines fun _ => keeps_pure none
  | checkout cart orderId context => exact keeps_bind h.checkoutCart fun _ => keeps_pure _
  | releaseSession cart cause => exact keeps_bind h.releaseSession fun _ => keeps_pure none
  | repository call cart => exact keeps_bind (h.repository call) fun _ => keeps_pure none

theorem notified : Keeps k I (notified env cart) :=
  keeps_bind h.watcherRelease fun _ => keeps_pure none

end KeepsParts

end Keeping

end PracticalMicroservice.Cart
