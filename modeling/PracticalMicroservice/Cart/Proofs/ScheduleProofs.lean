import PracticalMicroservice.Cart.Expiry
import PracticalMicroservice.Cart.Proofs.ExpiryProofs

/-!
# Records stay on schedule

The scripts that arm a session give the record longer than the session and its score, whatever became
of the time between the reading of the clock and the script. So a record is off schedule only after a
command that did not find what it was to find.
-/

namespace PracticalMicroservice.Cart

open Foundations (AllSteps Ensured Meets runs)

/-! ## The code -/

section Code

variable {env : Env} {cart : SessionId} {context : CallContext} {α : Type}

/-- A method that passes the scripts the times it is to pass, however it ends. -/
abbrev Punctual (env : Env) (p : Promise α) : Prop := Keeps (punctual env) (fun _ => True) p

theorem kept_punctual {command : Command} (h : ∀ now, (punctual env).allows command now) :
    Kept (punctual env) (fun _ => True) command := fun now _ => ⟨h now, fun _ _ _ => trivial⟩

theorem punctual_commit (changes : CartChanges) :
    Punctual env (CartRepository.commit env cart changes) := by
  intro now _
  unfold CartRepository.commit CartRepository.dueAt
  rw [Foundations.ensured_bind, Foundations.ensured_bind, ensured_dateNow]
  refine ⟨trivial, fun reading now' hr => ?_⟩
  obtain rfl : now' = reading := hr
  rw [Foundations.ensured_pure, Foundations.ensured_bind, ensured_call]
  refine ⟨⟨rfl, rfl, Nat.le_refl _⟩, fun reply now' _ => ?_⟩
  rw [Foundations.ensured_bind, ensured_reply]
  cases reply with
  | none => trivial
  | some settled => trivial

theorem punctual_touch : Punctual env (CartRepository.touch env cart) := by
  intro now _
  unfold CartRepository.touch CartRepository.dueAt
  rw [Foundations.ensured_bind, Foundations.ensured_bind, ensured_dateNow]
  refine ⟨trivial, fun reading now' hr => ?_⟩
  obtain rfl : now' = reading := hr
  rw [Foundations.ensured_pure, Foundations.ensured_bind, ensured_call]
  refine ⟨⟨rfl, rfl, Nat.le_refl _⟩, fun reply now' _ => ?_⟩
  rw [ensured_reply]
  cases reply with
  | none => trivial
  | some live => trivial

theorem punctual_held : Punctual env (CartRepository.held cart) := by
  have hread : Kept (punctual env) (fun _ => True) (.hgetall cart) := kept_punctual fun _ => trivial
  exact keeps_bind (keeps_call hread) fun reply => keeps_bind (keeps_reply reply) fun _ =>
    keeps_pure _

theorem punctual_lines : Punctual env (CartRepository.lines env cart) :=
  keeps_bind punctual_held fun _ => keeps_pure _

theorem punctual_withLock {key : LockKey} (retries : Nat) {work : Promise α}
    (h : Punctual env work) : Punctual env (RedisLock.withLock key retries work) :=
  keeps_withLock retries (kept_punctual fun _ => trivial) (fun _ => kept_punctual fun _ => trivial)
    (fun _ => kept_punctual fun _ => trivial) h

theorem punctual_bulk (t : Inventory.Transition) {items : List StockLine} {reference : SessionId}
    {options : StockChangeOptions} :
    Punctual env (HttpInventoryAdapter.bulk t items reference options) :=
  keeps_bulk t fun _ => kept_punctual fun _ => trivial

theorem punctual_dispatch {items : List StockLine} {reference : SessionId}
    {options : StockChangeOptions} :
    Punctual env (dispatchReleaseMany env items reference options) :=
  keeps_dispatch (fun _ => kept_punctual fun _ => trivial) (kept_punctual fun _ => trivial)
    (kept_punctual fun _ => trivial) fun _ => kept_punctual fun _ => trivial

theorem punctual_rollback {reserved released : List StockLine} :
    Punctual env (CartService.rollback env reserved released cart context) := by
  have hretake : Punctual env (do
      if released.length > 0 then
        HttpInventoryAdapter.reserveMany released cart
          { reason := some CART_ROLLBACK_REASON, context }) := by
    split
    · exact punctual_bulk .reserve
    · exact keeps_pure ()
  unfold CartService.rollback
  split
  · exact keeps_pure ()
  refine keeps_tryCatch ?_ fun _ => keeps_pure ()
  dsimp only
  split
  · exact keeps_bind punctual_dispatch fun _ => hretake
  · exact hretake

theorem punctual_applyChanges {changes : CartChanges} :
    Punctual env (CartService.applyChanges env changes cart context) := by
  have hwrite : Punctual env (CartService.orUndo (CartRepository.commit env cart changes)
      (CartService.rollback env changes.reserve changes.release cart context)) :=
    keeps_orUndo (punctual_commit changes) punctual_rollback
  have hrelease : Punctual env (do
      if changes.release.length > 0 then
        CartService.orUndo (dispatchReleaseMany env changes.release cart
          { reason := some CART_UPDATE_REASON, context })
          (CartService.rollback env changes.reserve [] cart context)
      CartService.orUndo (CartRepository.commit env cart changes)
        (CartService.rollback env changes.reserve changes.release cart context)) := by
    dsimp only
    split
    · exact keeps_bind (keeps_orUndo punctual_dispatch punctual_rollback) fun _ => hwrite
    · exact hwrite
  unfold CartService.applyChanges
  dsimp only
  split
  · exact keeps_bind (keeps_orUndo (punctual_bulk .reserve) punctual_rollback) fun _ => hrelease
  · exact hrelease

theorem punctual_applyRequested {requested : List CartLine} :
    Punctual env (CartService.applyRequested env requested cart context) := by
  have hplanned : ∀ changes, Punctual env (do
      if isNoop changes then
        let _ ← CartRepository.touch env cart
        CartRepository.lines env cart
      else CartService.applyChanges env changes cart context) := by
    intro changes
    split
    · exact keeps_bind punctual_touch fun _ => punctual_lines
    · exact punctual_applyChanges
  unfold CartService.applyRequested
  refine keeps_bind punctual_held fun held => ?_
  dsimp only
  split
  · exact keeps_bind (keeps_throw _) fun _ => hplanned _
  · exact hplanned _

theorem punctual_checkoutHeld {orderId : SessionId} :
    Punctual env (CartService.checkoutHeld env cart orderId context) := by
  have htransfer : ∀ {lines : List CartLine} {options : StockChangeOptions},
      Punctual env (HttpInventoryAdapter.transferHold lines cart orderId options) := by
    intro lines options
    unfold HttpInventoryAdapter.transferHold
    split
    · exact keeps_pure ()
    · refine keeps_bind (punctual_bulk .release) fun _ =>
        keeps_tryCatch (punctual_bulk .reserve) fun e => ?_
      exact keeps_bind (keeps_tryCatch (punctual_bulk .reserve) fun _ => keeps_pure ())
        fun _ => keeps_throw e
  have hended : ∀ lines : List CartLine, Punctual env (do
      HttpInventoryAdapter.transferHold lines cart orderId
        { reason := some CART_CHECKOUT_REASON, context }
      CartRepository.discard cart
      return ({ cartSessionId := cart, orderId, lines } : CheckoutResult)) := by
    intro lines
    have hdrop : Kept (punctual env) (fun _ => True) (.cartDiscard cart) :=
      kept_punctual fun _ => trivial
    exact keeps_bind htransfer fun _ => keeps_bind (keeps_redis hdrop) fun _ => keeps_pure _
  unfold CartService.checkoutHeld
  refine keeps_bind punctual_lines fun lines => ?_
  dsimp only
  split
  · exact keeps_bind (keeps_throw _) fun _ => hended lines
  · exact hended lines

theorem punctual_releaseTaken {cause : ReleaseCause} :
    Punctual env (CartService.releaseTaken env cart cause) := by
  refine keeps_releaseTaken fun command h => kept_punctual fun now => ?_
  cases command with
  | cartCommit _ _ _ _ _ _ => exact h.elim
  | cartTouch _ _ _ _ => exact h.elim
  | _ => trivial

/-- Every thread passes the scripts the times it is to pass. -/
theorem punctual_parts : KeepsParts (punctual env) (fun _ => True) env where
  plain command h := by
    refine kept_punctual fun now => ?_
    cases command with
    | cartCommit _ _ _ _ _ _ => cases h
    | cartTouch _ _ _ _ => cases h
    | _ => trivial
  touch _ := punctual_touch
  commit _ changes := punctual_commit changes
  update _ _ _ := punctual_withLock _ punctual_applyRequested
  checkout _ _ _ := punctual_withLock _ punctual_checkoutHeld
  release _ _ := punctual_withLock _ punctual_releaseTaken

end Code

/-! ## The store -/

namespace Redis

section Store

variable {r r' : Redis} {cart : SessionId}

theorem liveItems_iff {hash : ItemsHash} :
    hash ∈ r.liveItems cart ↔ r.items cart = some hash ∧ r.now < hash.expiresAt := by
  unfold liveItems
  rw [Option.mem_def, Option.filter_eq_some_iff, decide_eq_true_eq]

theorem liveSession_iff {expiresAt : Nat} :
    expiresAt ∈ r.liveSession cart ↔ r.session cart = some expiresAt ∧ r.now < expiresAt := by
  unfold liveSession
  rw [Option.mem_def, Option.filter_eq_some_iff, decide_eq_true_eq]

theorem hgetall_of_live {hash : ItemsHash} (h : hash ∈ r.liveItems cart) :
    r.hgetall cart = hash.fields := by
  unfold hgetall
  rw [Option.mem_def.mp h]

/-- What is on schedule stays so while time passes and a session ends. -/
theorem Scheduled.later {hash : ItemsHash} (h : r.Scheduled cart hash) (hnow : r.now ≤ r'.now)
    (hsession : r'.session cart = r.session cart ∨ r'.session cart = none)
    (hdue : Entries.get r'.due cart = Entries.get r.due cart) : r'.Scheduled cart hash where
  outlives expiresAt he := by
    obtain ⟨hs, hlt⟩ := liveSession_iff.mp he
    rcases hsession with hsame | hnone
    · exact h.outlives expiresAt (liveSession_iff.mpr ⟨hsame ▸ hs, by omega⟩)
    · rw [hnone] at hs
      cases hs
  due := hdue ▸ h.due

/-- A step that touches one cart, and leaves its record on schedule. -/
theorem OnSchedule.touching (h : r.OnSchedule) (cart : SessionId) (hnow : r.now ≤ r'.now)
    (hitems : ∀ c ≠ cart, r'.items c = r.items c)
    (hsession : ∀ c ≠ cart, r'.session c = r.session c)
    (hdue : ∀ c ≠ cart, Entries.get r'.due c = Entries.get r.due c)
    (hcart : ∀ hash ∈ r'.liveItems cart, hash.fields ≠ [] → r'.Scheduled cart hash) :
    r'.OnSchedule := by
  intro c hash hlive hne
  by_cases hc : c = cart
  · subst hc
    exact hcart hash hlive hne
  · obtain ⟨hs, hlt⟩ := liveItems_iff.mp hlive
    have hold : hash ∈ r.liveItems c := liveItems_iff.mpr ⟨hitems c hc ▸ hs, by omega⟩
    exact (h c hash hold hne).later hnow (.inl (hsession c hc)) (hdue c hc)

/-- A step that leaves the keys of the carts where they are, but for sessions that end. -/
theorem OnSchedule.quiet (h : r.OnSchedule) (hnow : r.now ≤ r'.now) (hitems : r'.items = r.items)
    (hsession : ∀ c, r'.session c = r.session c ∨ r'.session c = none) (hdue : r'.due = r.due) :
    r'.OnSchedule := by
  intro c hash hlive hne
  obtain ⟨hs, hlt⟩ := liveItems_iff.mp hlive
  have hold : hash ∈ r.liveItems c := liveItems_iff.mpr ⟨hitems ▸ hs, by omega⟩
  exact (h c hash hold hne).later hnow (hsession c) (by rw [hdue])

theorem get_zadd (score : Nat) (c : SessionId) : Entries.get (r.zadd cart score).due c =
    if cart = c then some score else Entries.get r.due c := Entries.get_set r.due cart c score

theorem get_zrem (c : SessionId) : Entries.get (r.zrem cart).due c =
    if cart = c then none else Entries.get r.due c := Entries.get_delete r.due cart c

/-- The times of an arming: the record outlives the session and the score. -/
theorem expiry_lt (env : Env) (r : Redis) :
    r.expiryIn env.sessionTtlSeconds < r.expiryIn env.itemsTtlSeconds := by
  have hgrace := env.CART_TTL_GRACE_SECONDS.lower
  unfold expiryIn Env.sessionTtlSeconds Env.itemsTtlSeconds
  omega

/-- A record that is armed is on schedule. -/
theorem scheduled_armed {env : Env} {hash : ItemsHash} {reading dueAt : Nat}
    (hitems : hash.expiresAt = r.expiryIn env.itemsTtlSeconds)
    (hsession : r'.session cart = some (r.expiryIn env.sessionTtlSeconds))
    (hdue : Entries.get r'.due cart = some dueAt)
    (hdueAt : dueAt ≤ reading + env.sessionTtlSeconds * 1000) (hreading : reading ≤ r.now) :
    r'.Scheduled cart hash where
  outlives expiresAt he := by
    have hlt := expiry_lt env r
    obtain ⟨hs, -⟩ := liveSession_iff.mp he
    rw [hsession] at hs
    cases hs
    omega
  due := by
    have hlt := expiry_lt env r
    refine ⟨dueAt, hdue, ?_⟩
    unfold expiryIn at hlt hitems
    omega

theorem OnSchedule.cartCommit (h : r.OnSchedule) {env : Env} {writes : List CartLine}
    {removals : List String} {reading dueAt : Nat}
    (hdueAt : dueAt ≤ reading + env.sessionTtlSeconds * 1000) (hreading : reading ≤ r.now) :
    (r.cartCommit cart writes removals env.sessionTtlSeconds env.itemsTtlSeconds dueAt).2.OnSchedule :=
    by
  unfold Redis.cartCommit
  dsimp only
  split
  · refine h.touching cart (Nat.le_refl _) (fun c hc => if_neg hc)
      (fun c hc => if_neg hc) (fun c hc => ?_) fun hash hlive hne => ?_
    · rw [get_zadd, if_neg (Ne.symm hc)]
      rfl
    · obtain ⟨hs, -⟩ := liveItems_iff.mp hlive
      have hstored : some hash = _ := hs.symm.trans (if_pos rfl)
      cases hstored
      refine scheduled_armed rfl (if_pos rfl) ?_ hdueAt hreading
      rw [get_zadd, if_pos rfl]
  · refine h.touching cart (Nat.le_refl _) (fun c hc => if_neg hc)
      (fun c hc => if_neg hc) (fun c hc => ?_) fun hash hlive _ => ?_
    · rw [get_zrem, if_neg (Ne.symm hc)]
      rfl
    · obtain ⟨hs, -⟩ := liveItems_iff.mp hlive
      cases hs.symm.trans (if_pos rfl)

theorem OnSchedule.cartTouch (h : r.OnSchedule) {env : Env} {reading dueAt : Nat}
    (hdueAt : dueAt ≤ reading + env.sessionTtlSeconds * 1000) (hreading : reading ≤ r.now) :
    (r.cartTouch cart env.sessionTtlSeconds env.itemsTtlSeconds dueAt).2.OnSchedule := by
  unfold Redis.cartTouch
  cases hsession : r.liveSession cart with
  | none => exact h
  | some expiresAt =>
    cases hitems : r.liveItems cart with
    | none =>
      refine h.touching cart (Nat.le_refl _) (fun _ _ => rfl) (fun c hc => if_neg hc)
        (fun _ _ => rfl) fun hash hlive _ => ?_
      have hold : hash ∈ r.liveItems cart := hlive
      rw [hitems] at hold
      cases hold
    | some hash =>
      refine h.touching cart (Nat.le_refl _) (fun c hc => if_neg hc) (fun c hc => if_neg hc)
        (fun c hc => ?_) fun hash' hlive hne => ?_
      · exact (get_zadd dueAt c).trans (if_neg (Ne.symm hc))
      · obtain ⟨hs, -⟩ := liveItems_iff.mp hlive
        cases hs.symm.trans (if_pos rfl)
        exact scheduled_armed rfl (if_pos rfl) ((get_zadd dueAt cart).trans (if_pos rfl)) hdueAt
          hreading

/-- A take holds the record for a while from now on, whatever its time was. -/
theorem OnSchedule.cartTake (h : r.OnSchedule) {inFlight : Nat}
    (ht : (Command.cartTake cart inFlight).Timely r) : (r.cartTake cart inFlight).2.OnSchedule := by
  unfold Redis.cartTake
  cases hitems : r.liveItems cart with
  | none => exact h
  | some hash =>
    dsimp only
    split
    · rename_i hne
      obtain ⟨hsession, hscore⟩ := ht (by rw [hgetall_of_live hitems]; exact hne)
      refine h.touching cart (Nat.le_refl _) (fun c hc => if_neg hc) (fun _ _ => rfl)
        (fun _ _ => rfl) fun hash' hlive _ => ?_
      obtain ⟨hs, -⟩ := liveItems_iff.mp hlive
      cases hs.symm.trans (if_pos rfl)
      obtain ⟨score, hdue, -⟩ := (h cart hash hitems hne).due
      exact ⟨hsession, score, hdue, hscore score hdue⟩
    · exact h

theorem OnSchedule.startSession (h : r.OnSchedule) {sessionTtl : Nat}
    (ht : (Command.startSession cart sessionTtl).Timely r) :
    (r.startSession cart sessionTtl).OnSchedule := by
  refine h.touching cart (Nat.le_refl _) (fun _ _ => rfl) (fun c hc => if_neg hc)
    (fun _ _ => rfl) fun hash hlive hne => ⟨fun expiresAt he => ?_, (h cart hash hlive hne).due⟩
  obtain ⟨hs, -⟩ := liveSession_iff.mp he
  cases hs.symm.trans (if_pos rfl)
  exact ht hash hlive hne

theorem OnSchedule.zadd (h : r.OnSchedule) {score : Nat}
    (ht : (Command.zadd cart score).Timely r) : (r.zadd cart score).OnSchedule := by
  refine h.touching cart (Nat.le_refl _) (fun _ _ => rfl) (fun _ _ => rfl) (fun c hc => ?_)
    fun hash hlive hne => ⟨(h cart hash hlive hne).outlives, score, ?_, ht hash hlive hne⟩
  · exact (get_zadd score c).trans (if_neg (Ne.symm hc))
  · exact (get_zadd score cart).trans (if_pos rfl)

theorem OnSchedule.zrem (h : r.OnSchedule) (ht : (Command.zrem cart).Timely r) :
    (r.zrem cart).OnSchedule := by
  refine h.touching cart (Nat.le_refl _) (fun _ _ => rfl) (fun _ _ => rfl) (fun c hc => ?_)
    fun hash hlive hne => ?_
  · exact (get_zrem c).trans (if_neg (Ne.symm hc))
  · have hold : hash ∈ r.liveItems cart := hlive
    have hnone : r.hgetall cart = [] := ht
    exact absurd ((hgetall_of_live hold).symm.trans hnone) hne

/-- A cart without a record is on schedule. -/
theorem OnSchedule.dropped (h : r.OnSchedule) (hnow : r'.now = r.now)
    (hitems : r'.items = fun c => if c = cart then none else r.items c)
    (hsession : ∀ c ≠ cart, r'.session c = r.session c)
    (hdue : r'.due = Entries.delete r.due cart) : r'.OnSchedule := by
  refine h.touching cart (Nat.le_of_eq hnow.symm) (fun c hc => ?_) hsession (fun c hc => ?_)
    fun hash hlive _ => ?_
  · rw [hitems]
    exact if_neg hc
  · rw [hdue, Entries.get_delete, if_neg (Ne.symm hc)]
  · obtain ⟨hs, -⟩ := liveItems_iff.mp hlive
    rw [hitems] at hs
    cases hs.symm.trans (if_pos rfl)

end Store

end Redis

/-- A command that finds what it is to find leaves every record on schedule. -/
theorem onSchedule_effect {env : Env} {r : Redis} {command : Command} {reading : Nat}
    (h : r.OnSchedule) (ht : command.Timely r) (ha : (punctual env).allows command reading)
    (hreading : reading ≤ r.now) : (command.effect r).OnSchedule := by
  cases command with
  | cartCommit cart writes removals sessionTtl itemsTtl dueAt =>
    obtain ⟨rfl, rfl, hdueAt⟩ := ha
    exact h.cartCommit hdueAt hreading
  | cartTouch cart sessionTtl itemsTtl dueAt =>
    obtain ⟨rfl, rfl, hdueAt⟩ := ha
    exact h.cartTouch hdueAt hreading
  | cartTake cart inFlight => exact h.cartTake ht
  | startSession cart sessionTtl => exact h.startSession ht
  | zadd cart score => exact h.zadd ht
  | zrem cart => exact h.zrem ht
  | cartFinish cart => exact h.dropped rfl rfl (fun _ _ => rfl) rfl
  | cartDiscard cart => exact h.dropped rfl rfl (fun c hc => if_neg hc) rfl
  | lockSet key token =>
    have hsame : (r.lockSet key token).2.OnSchedule := by
      unfold Redis.lockSet
      split
      · exact h.quiet (Nat.le_refl _) rfl (fun _ => .inl rfl) rfl
      · exact h
    exact hsame
  | lockRelease key token =>
    have hsame : (r.lockRelease key token).OnSchedule := by
      unfold Redis.lockRelease
      split
      · exact h.quiet (Nat.le_refl _) rfl (fun _ => .inl rfl) rfl
      · exact h
    exact hsame
  | randomUUID | dateNow | hgetall _ | dueBefore _ _ | pttl _ | post _ _ | publish _ => exact h

/-! ## The system -/

/-- A reading of the clock, as the contract has it. -/
def lastReading : (command : Command) → command.Reply → Nat → Nat
  | .dateNow, reading, _ => reading
  | _, _, reading => reading

theorem replies_lastReading {env : Env} (command : Command) (reply : command.Reply)
    (reading : Nat) :
    (punctual env).replies command reading reply (lastReading command reply reading) := by
  cases command <;> rfl

/-- Every thread is punctual and no reading lies ahead, and every record is on schedule. -/
structure KeptOnSchedule (env : Env) (s : System) (readings : Nat → Nat) : Prop where
  governed : Governed (punctual env) (fun _ _ => True) s.threads readings
  past : ∀ i, readings i ≤ s.world.redis.now
  records : s.world.redis.OnSchedule


section Step

variable {env : Env} {s s' : System} {readings : Nat → Nat}

theorem meets_punctual {p : Promise (Option CheckoutResult)} (h : Punctual env p) (reading : Nat) :
    Meets (punctual env) p.run (fun _ _ => True) reading :=
  (h reading trivial).meets (fun _ _ _ => trivial) fun _ _ _ => trivial

/-- A thread that starts has read no clock. -/
theorem KeptOnSchedule.push (h : KeptOnSchedule env s readings) {t : Thread}
    (ht : Meets (punctual env) t.program (fun _ _ => True) 0) :
    KeptOnSchedule env { s with threads := s.threads ++ [t] }
      (Function.update readings s.threads.length 0) where
  governed := h.governed.push ht
  past i := by
    by_cases hi : i = s.threads.length
    · rw [hi, Function.update_self]
      exact Nat.zero_le _
    · rw [Function.update_of_ne hi]
      exact h.past i
  records := h.records

/-- A step beside the threads. -/
theorem KeptOnSchedule.frame (h : KeptOnSchedule env s readings) (hthreads : s'.threads = s.threads)
    (hnow : s.world.redis.now ≤ s'.world.redis.now) (hrecords : s'.world.redis.OnSchedule) :
    KeptOnSchedule env s' readings where
  governed := hthreads ▸ h.governed
  past i := Nat.le_trans (h.past i) hnow
  records := hrecords

theorem KeptOnSchedule.call (h : KeptOnSchedule env s readings) {i : Nat} {fate : Fate}
    (hok : timely s (.call i fate)) (hs : s.call i fate = some s') :
    ∃ readings, KeptOnSchedule env s' readings := by
  obtain ⟨t, command, next, hc⟩ := called_of_call hs
  have hnow : s'.world.redis.now = s.world.redis.now := by
    rw [hc.world]
    exact now_perform fate command s.world
  refine ⟨Function.update readings i (lastReading command (s.world.perform fate command).1
    (readings i)), h.governed.call hc (replies_lastReading command _ _), fun j => ?_, ?_⟩
  · rw [hnow]
    by_cases hj : j = i
    · rw [hj, Function.update_self]
      cases command with
      | dateNow => exact Nat.le_refl _
      | _ => exact h.past i
    · rw [Function.update_of_ne hj]
      exact h.past j
  · rw [hc.world, redis_perform]
    split
    · exact h.records
    · rename_i hlanded
      exact onSchedule_effect h.records (hok hlanded command hc.nextCommand) (h.governed.allows hc)
        (h.past i)

theorem KeptOnSchedule.step (h : KeptOnSchedule env s readings) {l : Label} (hok : timely s l)
    (hs : System.step env s l = some s') : ∃ readings, KeptOnSchedule env s' readings := by
  cases l with
  | spawn task =>
    obtain rfl := Option.some.inj hs
    exact ⟨_, h.push (meets_punctual (punctual_parts.task task) 0)⟩
  | notify notice =>
    obtain ⟨cart, armings, -, rfl⟩ := step_notify hs
    exact ⟨_, h.push (meets_punctual punctual_parts.notified 0)⟩
  | call i fate => exact h.call hok hs
  | crash i =>
    obtain ⟨t, -, rfl⟩ := step_crash hs
    exact ⟨readings, h.governed.crash fun _ => trivial, h.past, h.records⟩
  | lapse key =>
    obtain rfl := Option.some.inj hs
    exact ⟨readings, h.frame rfl (Nat.le_refl _)
      (h.records.quiet (Nat.le_refl _) rfl (fun _ => .inl rfl) rfl)⟩
  | tick ms =>
    obtain rfl := Option.some.inj hs
    exact ⟨readings, h.frame rfl (Nat.le_add_right _ _)
      (h.records.quiet (Nat.le_add_right _ _) rfl (fun _ => .inl rfl) rfl)⟩
  | expire cart =>
    obtain ⟨expiresAt, -, -, rfl⟩ := step_expire hs
    refine ⟨readings, h.frame rfl (Nat.le_refl _)
      (h.records.quiet (Nat.le_refl _) rfl (fun c => ?_) rfl)⟩
    by_cases hc : c = cart
    · exact .inr (if_pos hc)
    · exact .inl (if_neg hc)
  | other t body =>
    obtain rfl := Option.some.inj hs
    exact ⟨readings, h.frame rfl (Nat.le_refl _) h.records⟩
  | consume message fate =>
    obtain ⟨content, -, rfl⟩ := step_consume hs
    exact ⟨readings, h.frame rfl (Nat.le_refl _) h.records⟩

end Step

/-- Under every configuration and in every run from an empty store, records outlive their sessions and
stay in the index, due before they expire, as long as each command finds what it is to find. -/
theorem records_stay_on_schedule (env : Env) (world : World) (now : Nat) (others : String → Int)
    (labels : List Label) (s : System)
    (hrun : runs (System.step env) (.start { world with redis := .empty now } others []) labels =
      some s)
    (h : AllSteps (System.step env) timely (.start { world with redis := .empty now } others [])
      labels) : s.world.redis.OnSchedule := by
  have hempty : (Redis.empty now).OnSchedule := fun cart hash hlive _ => nomatch hlive
  obtain ⟨readings, hkept⟩ := Foundations.invariant_of_allSteps
    (P := fun s => ∃ readings, KeptOnSchedule env s readings)
    (fun _ _ _ hok hs ⟨_, hk⟩ => hk.step hok hs) h hrun
    ⟨fun _ => 0, governed_nil _, fun _ => Nat.zero_le _, hempty⟩
  exact hkept.records

/-! A cart that is given up while it is live, under a grace time shorter than a session. -/

theorem second_positive : 1 ≤ 1 := by omega

theorem second_bounded : 1 ≤ 86400 := by omega

/-- The defaults, but for a grace time of a second. -/
def hastyShop : Env :=
  { shop.overHttp with CART_TTL_GRACE_SECONDS := ⟨1, second_positive, second_bounded⟩ }

/-- A lamp is put in the cart, the session runs out, and the watcher takes the lamp. -/
def lampDue : List Label :=
  .spawn (.setLines (lamps 1) cartOne {}) :: goesOn 0 7 ++
    [.tick 60000, .expire cartOne, .notify 0] ++ goesOn 1 5

/-- The cart is given up while its session is live, and inventory cannot be reached. -/
def lampForgotten : List Label :=
  .spawn (.setLines (lamps 1) cartOne {}) :: goesOn 0 7 ++
    .spawn (.abandon (some cartOne)) :: goesOn 1 6 ++ .call 1 .unavailable :: goesOn 1 4

theorem records_stay_on_schedule_lamp : ∃ s,
    runs (System.step hastyShop) (.start lampWorld (fun _ => 0) []) lampDue = some s ∧
      s.world.redis.OnSchedule := by
  have hsome : (runs (System.step hastyShop) (.start lampWorld (fun _ => 0) []) lampDue).isSome :=
    by decide +kernel
  obtain ⟨s, hrun⟩ := Option.isSome_iff_exists.mp hsome
  exact ⟨s, hrun, records_stay_on_schedule hastyShop lampWorld 0 (fun _ => 0) lampDue s hrun
    (by decide +kernel)⟩

/-- The record ends a second after the take, half a minute before its release is due again; then one
lamp is reserved, and nothing says for whom. -/
theorem records_fall_off_schedule :
    (¬ ∀ (labels : List Label) (s : System),
      runs (System.step hastyShop) (.start lampWorld (fun _ => 0) []) labels = some s →
        s.world.redis.OnSchedule) ∧
      (runs (System.step hastyShop) (.start lampWorld (fun _ => 0) [])
        (lampForgotten ++ [.tick 1000])).map (fun s => (s.world.redis.hgetall cartOne,
          Entries.get s.world.redis.due cartOne,
          Inventory.reservedOf s.world.inventory Inventory.lampId)) = some ([], some 30000, 1) := by
  refine ⟨fun hall => ?_, by decide +kernel⟩
  have hrun : (runs (System.step hastyShop) (.start lampWorld (fun _ => 0) []) lampForgotten).map
      (fun s => ((s.world.redis.liveItems cartOne).map fun hash => (hash.fields, hash.expiresAt),
        s.world.redis.liveSession cartOne)) =
      some (some ([(Inventory.lampId, 1)], 1000), some 60000) := by decide +kernel
  obtain ⟨s, hs, he⟩ := Option.map_eq_some_iff.mp hrun
  obtain ⟨hitems, hsession⟩ := Prod.mk.inj he
  obtain ⟨hash, hlive, hhash⟩ := Option.map_eq_some_iff.mp hitems
  obtain ⟨hfields, hexpires⟩ := Prod.mk.inj hhash
  have hne : hash.fields ≠ [] := by
    rw [hfields]
    exact List.cons_ne_nil _ _
  have hlt := (hall lampForgotten s hs cartOne hash hlive hne).outlives 60000 hsession
  omega

end PracticalMicroservice.Cart
