import PracticalMicroservice.Email.History

/-!
# Proofs: the tasks, analysed

Each method keeps to what its task may do; the program of a task is assembled from its method.
-/

namespace PracticalMicroservice.Email

open Foundations (Meets Tells tells_bind tells_pure tells_request tells_result tells_throw)

/-- Nothing was recorded yet. -/
def Unrecorded (past : Told) : Prop := ∀ x ∈ past, x.1.recorded? = none

section

variable {α : Type} {env : Env} {task : Task} {past : Told} {ok : α → Told → Prop}
  {err : AppError → Told → Prop}

theorem Unrecorded.cons (h : Unrecorded past) (command : Command)
    (hc : command.recorded? = none) (reply : command.Reply) :
    Unrecorded (⟨command, reply⟩ :: past) := by
  intro x hx
  rcases List.mem_cons.mp hx with rfl | hx
  · exact hc
  · exact h x hx

/-- Only the delivery of a message records what became of it. -/
theorem deliver_of_recorded {command : Command} {id : Nat} (hd : task.Does env command)
    (hr : command.recorded? = some id) :
    ∃ cycle index message, task = .deliver cycle index message ∧ message.id = id := by
  cases task with
  | deliver cycle index message =>
    refine ⟨cycle, index, message, rfl, ?_⟩
    unfold Command.recorded? at hr
    split at hr
    · exact (show _ = message.id from hd) ▸ Option.some.inj hr
    · exact hd.1 ▸ Option.some.inj hr
    · exact (show _ = message.id from hd) ▸ Option.some.inj hr
    · cases hr
  | enqueue input idempotencyKey =>
    unfold Command.recorded? at hr
    split at hr <;> first | cases hd | cases hr
  | runOnce workerId =>
    unfold Command.recorded? at hr
    split at hr <;> first | cases hd | cases hr
  | retry id' =>
    unfold Command.recorded? at hr
    split at hr <;> first | cases hd | cases hr
  | purgeExpired =>
    unfold Command.recorded? at hr
    split at hr <;> first | cases hd | cases hr

/-- A command that claims. -/
theorem claim_of_claims {command : Command} (h : command.claims = true) :
    ∃ ids workerId now claimTimeoutMs,
      command = .repository (.claimCandidates ids workerId now claimTimeoutMs) := by
  unfold Command.claims at h
  split at h
  · rename_i ids workerId now claimTimeoutMs
    exact ⟨ids, workerId, now, claimTimeoutMs, rfl⟩
  · cases h

/-- Only the delivery of a message hands it over. -/
theorem deliver_of_handed {command : Command} {id : Nat} (hd : task.Does env command)
    (hh : command.handed? = some id) :
    ∃ cycle index message, task = .deliver cycle index message ∧ message.id = id := by
  unfold Command.handed? at hh
  split at hh
  · cases task with
    | deliver cycle index message =>
      exact ⟨cycle, index, message, rfl, (show _ = message.id from hd) ▸ Option.some.inj hh⟩
    | enqueue input idempotencyKey => cases hd
    | runOnce workerId => cases hd
    | retry id' => cases hd
    | purgeExpired => cases hd
  · cases hh

/-- Every command but the ones that hand a message over, claim a batch or read it back is justified
by its task alone. -/
theorem justified_of_does {command : Command} (hu : Unrecorded past) (hd : task.Does env command)
    (hc : ∀ workerId now, command ≠ .repository (.findClaimed workerId now))
    (hh : command.handed? = none) (hn : command.claims = false) :
    Justified env task past command :=
  ⟨hd, (fun _ he => nomatch hh.symm.trans he), hu,
    fun workerId now he => absurd he (hc workerId now),
    fun ids workerId now claimTimeoutMs he => by rw [he] at hn; cases hn⟩

theorem tells_call {command : Command} {ok : command.Reply → Told → Prop}
    (hj : Justified env task past command) (h : ∀ reply, ok reply (⟨command, reply⟩ :: past)) :
    Tells (Justified env) Credible task (Promise.call command) ok err past :=
  tells_request hj fun reply _ => h reply

theorem tells_repository {c : Call} {ok : c.Result → Told → Prop}
    (hj : Justified env task past (.repository c))
    (hok : ∀ result, Credible (.repository c) (.ok result) →
      ok result (⟨.repository c, .ok result⟩ :: past))
    (herr : ∀ e, err e (⟨.repository c, .error e⟩ :: past)) :
    Tells (Justified env) Credible task (Promise.repository c) ok err past := by
  refine tells_bind (tells_request hj fun reply hr => tells_result (fun a ha => ?_) fun e he => ?_)
  · subst ha
    exact hok a hr
  · subst he
    exact herr e

end

/-! ## The methods -/

section

variable {env : Env} {past : Told}

/-- Nothing was claimed, or a batch was read back under a claim made before. -/
def ReadBack (messages : List EmailMessage) (past : Told) : Prop :=
  (messages = [] ∧ ∀ x ∈ past, x.1.claims = false) ∨ ∃ workerId now rest,
    past = ⟨.repository (.findClaimed workerId now), .ok messages⟩ :: rest ∧
      ∃ x ∈ rest, claimed? x = some (workerId, now)

theorem tells_runOnce {workerId : String} :
    Tells (Justified env) Credible (.runOnce workerId) (EmailDispatcher.runOnce env workerId)
      ReadBack (fun _ _ => True) [] := by
  unfold EmailDispatcher.runOnce EmailDispatcher.claimDue
  have h0 : Unrecorded [] := fun _ hx => nomatch hx
  refine tells_bind (tells_call (justified_of_does h0 trivial (by simp) rfl rfl) fun now => ?_)
  have h1 := h0.cons .now rfl now
  refine tells_bind (tells_repository (justified_of_does h1 trivial (by simp) rfl rfl)
    (fun candidates hlimit => ?_) fun _ => trivial)
  have h2 := h1.cons (.repository (.findCandidates env.DISPATCHER_BATCH_SIZE now
    env.DISPATCHER_CLAIM_TIMEOUT_MS)) rfl (.ok candidates)
  have hunclaimed : ∀ x ∈ (⟨.repository (.findCandidates env.DISPATCHER_BATCH_SIZE now
      env.DISPATCHER_CLAIM_TIMEOUT_MS), .ok candidates⟩ :: ⟨.now, now⟩ :: [] : Told),
      x.1.claims = false := by
    intro x hx
    rcases List.mem_cons.mp hx with rfl | hx
    · rfl
    · obtain rfl := List.mem_singleton.mp hx
      rfl
  cases candidates with
  | nil => exact tells_pure (.inl ⟨rfl, hunclaimed⟩)
  | cons candidate more =>
    refine tells_bind (tells_repository ⟨rfl, (fun _ he => nomatch he), h2,
      (fun _ _ he => nomatch he), ?_⟩ (fun u _ => ?_) fun _ => trivial)
    · intro ids' workerId' now' claimTimeoutMs' he
      cases he
      refine ⟨by rw [List.length_map]; exact hlimit, rfl,
        ⟨_, List.mem_cons_of_mem _ List.mem_cons_self, rfl⟩, hunclaimed⟩
    have h3 := h2.cons (.repository (.claimCandidates
      ((candidate :: more).map (·.id)) workerId now env.DISPATCHER_CLAIM_TIMEOUT_MS)) rfl (.ok u)
    refine tells_repository ⟨rfl, (fun _ he => nomatch he), h3, ?_, fun _ _ _ _ he => nomatch he⟩
      (fun messages _ => ?_) fun _ => trivial
    · intro workerId' now' he
      cases he
      exact ⟨_, List.mem_cons_self, rfl⟩
    · exact .inr ⟨workerId, now, _, rfl, _, List.mem_cons_self, rfl⟩

theorem tells_recordFailure {cycle index : Nat} {message : EmailMessage} {reason : String}
    {retryable : Bool} (hu : Unrecorded past) :
    Tells (Justified env) Credible (.deliver cycle index message)
      (EmailDispatcher.recordFailure env message reason retryable) (fun _ _ => True)
      (fun _ _ => True) past := by
  unfold EmailDispatcher.recordFailure
  dsimp only
  split
  · refine tells_bind (tells_call (justified_of_does hu rfl (by simp) rfl rfl) fun _ => ?_)
    exact tells_pure trivial
  · rename_i hgo
    have hleft : message.attempts < message.maxAttempts := by
      simp only [ge_iff_le, Bool.or_eq_true, not_or, decide_eq_true_eq] at hgo
      omega
    refine tells_bind (tells_call (justified_of_does hu trivial (by simp) rfl rfl) fun now => ?_)
    have h1 := hu.cons .now rfl now
    refine tells_bind (tells_call (justified_of_does h1 trivial (by simp) rfl rfl) fun random => ?_)
    have h2 := h1.cons .random rfl random
    refine tells_bind (tells_call (justified_of_does h2 ⟨rfl, hleft⟩ (by simp) rfl rfl) fun _ => ?_)
    exact tells_pure trivial

theorem tells_deliver {cycle index : Nat} {message : EmailMessage} :
    Tells (Justified env) Credible (.deliver cycle index message)
      (EmailDispatcher.deliver env message) (fun _ _ => True) (fun _ _ => True) [] := by
  unfold EmailDispatcher.deliver
  have h0 : Unrecorded [] := fun _ hx => nomatch hx
  refine tells_bind (tells_call ⟨rfl, (fun _ _ => rfl), h0, (fun _ _ he => nomatch he),
    fun _ _ _ _ he => nomatch he⟩ fun outcome => ?_)
  have h1 := h0.cons (.send (EmailDispatcher.outbound env message)) rfl outcome
  cases outcome with
  | threw crash => exact tells_recordFailure h1
  | refused reason retryable => exact tells_recordFailure h1
  | accepted provider providerMessageId =>
    refine tells_bind (tells_call (justified_of_does h1 trivial (by simp) rfl rfl) fun now => ?_)
    have h2 := h1.cons .now rfl now
    refine tells_bind (tells_call (justified_of_does h2 rfl (by simp) rfl rfl) fun _ => ?_)
    exact tells_pure trivial

theorem tells_enqueue {input : SendEmailInput} {idempotencyKey : Option String} :
    Tells (Justified env) Credible (.enqueue input idempotencyKey)
      (EmailService.enqueue .calls env input input.properties idempotencyKey) (fun _ _ => True)
      (fun _ _ => True) [] := by
  unfold EmailService.enqueue
  have h0 : Unrecorded [] := fun _ hx => nomatch hx
  have hinsert : ∀ (record : NewEmailRecord) (idempotency : Option IdempotencyRecord)
      {ok : EnqueueOutcome → Told → Prop}, record.maxAttempts = env.EMAIL_MAX_ATTEMPTS →
      (∀ outcome past', ok outcome past') →
      Tells (Justified env) Credible (.enqueue input idempotencyKey)
        (EmailService.enqueueOnce .calls record idempotency) ok (fun _ _ => True) [] := by
    intro record idempotency ok hmax hok
    unfold EmailService.enqueueOnce
    refine tells_bind (tells_call (justified_of_does h0 hmax (by simp) rfl rfl) fun inserted => ?_)
    have h1 := h0.cons (.repository (.insert record idempotency)) rfl inserted
    cases inserted with
    | ok outcome => exact tells_pure (hok _ _)
    | error e =>
      cases idempotency with
      | none => exact tells_throw trivial
      | some key =>
        dsimp only
        split
        · refine tells_bind (tells_repository (justified_of_does h1 trivial (by simp) rfl rfl)
            (fun found _ => ?_) fun _ => trivial)
          cases found with
          | some found => exact tells_pure (hok _ _)
          | none => exact tells_throw trivial
        · exact tells_throw trivial
  refine tells_bind (hinsert _ _ rfl fun outcome past' => ?_)
  split
  · exact tells_throw trivial
  · exact tells_pure trivial

theorem tells_retry {id : Nat} :
    Tells (Justified env) Credible (.retry id) (EmailService.retry id) (fun _ _ => True)
      (fun _ _ => True) [] := by
  unfold EmailService.retry EmailService.getById
  have h0 : Unrecorded [] := fun _ hx => nomatch hx
  refine tells_bind (tells_bind (tells_repository (justified_of_does h0 rfl (by simp) rfl rfl)
    (fun found _ => ?_) fun _ => trivial))
  have h1 := h0.cons (.repository (.findById id)) rfl (.ok found)
  cases found with
  | none => exact tells_throw trivial
  | some message =>
    refine tells_pure ?_
    split
    · refine tells_bind (tells_call (justified_of_does h1 trivial (by simp) rfl rfl) fun now => ?_)
      have h2 := h1.cons .now rfl now
      exact tells_repository (justified_of_does h2 ⟨rfl, rfl⟩ (by simp) rfl rfl) (fun _ _ => trivial)
        fun _ => trivial
    · exact tells_throw trivial

theorem tells_purgeExpired :
    Tells (Justified env) Credible .purgeExpired (EmailDispatcher.purgeExpired env)
      (fun _ _ => True) (fun _ _ => True) [] := by
  unfold EmailDispatcher.purgeExpired
  have h0 : Unrecorded [] := fun _ hx => nomatch hx
  split
  · exact tells_pure trivial
  · refine tells_bind (tells_call (justified_of_does h0 trivial (by simp) rfl rfl) fun now => ?_)
    have h1 := h0.cons .now rfl now
    exact tells_repository (justified_of_does h1 trivial (by simp) rfl rfl) (fun _ _ => trivial)
      fun _ => trivial

end

/-- The programs of the tasks. -/
theorem told_run (env : Env) (task : Task) : Meets (told env) (task.run env) Concluded (task, []) := by
  have hother : ∀ {answer : Answer} {g : Task × Told},
      (∀ messages, answer ≠ .claimed (.ok messages)) → Concluded answer g :=
    fun h messages he => absurd he (h messages)
  cases task with
  | enqueue input idempotencyKey =>
    exact tells_enqueue.meets (fun _ _ _ => hother (by simp)) fun _ _ _ => hother (by simp)
  | runOnce workerId =>
    refine tells_runOnce.meets (fun messages past hback => ?_) fun _ _ _ => hother (by simp)
    intro messages' he
    cases he
    exact hback
  | deliver cycle index message =>
    exact tells_deliver.meets (fun _ _ _ => hother (by simp)) fun _ _ _ => hother (by simp)
  | retry id => exact tells_retry.meets (fun _ _ _ => hother (by simp)) fun _ _ _ => hother (by simp)
  | purgeExpired =>
    exact tells_purgeExpired.meets (fun _ _ _ => hother (by simp)) fun _ _ _ => hother (by simp)

end PracticalMicroservice.Email
