import PracticalMicroservice.Cart.Watcher

/-!
# What the service's own combinators ensure

The judgement `Ensured` for a command, for the reply of a Redis command, for a cleanup and for a
lock, under any contract.
-/

namespace PracticalMicroservice.Cart

open Foundations (Contract Ensured Meets)

variable {σ α β : Type} {k : Contract Command Command.Reply σ} {s : σ}

theorem ensured_call {command : Command} {ok : command.Reply → σ → Prop}
    {err : Exception → σ → Prop} :
    Ensured k (Promise.call command) ok err s ↔
      k.allows command s ∧ ∀ reply s', k.replies command s reply s' → ok reply s' := Iff.rfl

theorem ensured_dateNow {ok : Nat → σ → Prop} {err : Exception → σ → Prop} :
    Ensured k Promise.dateNow ok err s ↔
      k.allows .dateNow s ∧ ∀ reply s', k.replies .dateNow s reply s' → ok reply s' := Iff.rfl

theorem ensured_randomUUID {ok : String → σ → Prop} {err : Exception → σ → Prop} :
    Ensured k Promise.randomUUID ok err s ↔
      k.allows .randomUUID s ∧ ∀ reply s', k.replies .randomUUID s reply s' → ok reply s' :=
  Iff.rfl

theorem ensured_reply {ok : α → σ → Prop} {err : Exception → σ → Prop} {reply : Option α} :
    Ensured k (Promise.reply reply) ok err s ↔
      match reply with
      | some a => ok a s
      | none => err .RedisError s := by
  cases reply with
  | some a => exact Iff.rfl
  | none => exact Iff.rfl

theorem ensured_finally {work : Promise α} {cleanup : Promise Unit} {ok : α → σ → Prop}
    {err : Exception → σ → Prop}
    (h : Ensured k work (fun a s' => Ensured k cleanup (fun _ => ok a) err s')
      (fun e s' => Ensured k cleanup (fun _ => err e) err s') s) :
    Ensured k (Promise.finally_ work cleanup) ok err s := by
  unfold Promise.finally_
  rw [Foundations.ensured_bind, Foundations.ensured_tryCatch, Foundations.ensured_bind]
  refine h.mono (fun a s' hc => ?_) (fun e s' hc => ?_)
  · rw [Foundations.ensured_pure, Foundations.ensured_bind]
    exact hc
  · rw [Foundations.ensured_pure, Foundations.ensured_bind]
    exact hc

/-- What a lock needs of a contract: `free` holds outside, `taken` inside, and an attempt leads
from the one to the other exactly when it is told so. -/
structure Lockable (k : Contract Command Command.Reply σ) (key : LockKey)
    (free taken : σ → Prop) : Prop where
  uuid : ∀ s, free s → k.allows .randomUUID s ∧
    ∀ reply s', k.replies .randomUUID s reply s' → free s'
  set : ∀ token s, free s → k.allows (.lockSet key token) s ∧
    ∀ reply s', k.replies (.lockSet key token) s reply s' →
      (reply = some true → taken s') ∧ (reply ≠ some true → free s')

theorem ensured_attempt {key : LockKey} {free taken : σ → Prop} (hk : Lockable k key free taken)
    (token : String) (attempts : Nat) {ok : Bool → σ → Prop} {err : Exception → σ → Prop}
    (htaken : ∀ s, taken s → ok true s) (hfree : ∀ s, free s → ok false s ∧ err .RedisError s)
    (hs : free s) : Ensured k (RedisLock.attempt key token attempts) ok err s := by
  induction attempts generalizing s with
  | zero => exact (hfree s hs).1
  | succ attempts ih =>
    unfold RedisLock.attempt
    rw [Foundations.ensured_bind, ensured_call]
    obtain ⟨hallows, hreplies⟩ := hk.set token s hs
    refine ⟨hallows, fun reply s' hr => ?_⟩
    obtain ⟨ht, hf⟩ := hreplies reply s' hr
    rw [Foundations.ensured_bind, ensured_reply]
    match reply, ht, hf with
    | some true, ht, _ => exact htaken s' (ht rfl)
    | some false, _, hf => exact ih (hf (by simp))
    | none, _, hf => exact (hfree s' (hf (by simp))).2

theorem ensured_withLock {key : LockKey} {free taken : σ → Prop}
    (hk : Lockable k key free taken) (retries : Nat) {work : Promise α}
    (okWork : α → σ → Prop) (errWork : Exception → σ → Prop)
    {ok : Option α → σ → Prop} {err : Exception → σ → Prop}
    (hwork : ∀ s, taken s → Ensured k work okWork errWork s)
    (hok : ∀ token a s, okWork a s → k.allows (.lockRelease key token) s ∧
      ∀ reply s', k.replies (.lockRelease key token) s reply s' → ok (some a) s')
    (herr : ∀ token e s, errWork e s → k.allows (.lockRelease key token) s ∧
      ∀ reply s', k.replies (.lockRelease key token) s reply s' → err e s')
    (hfree : ∀ s, free s → ok none s ∧ err .RedisError s) (hs : free s) :
    Ensured k (RedisLock.withLock key retries work) ok err s := by
  unfold RedisLock.withLock RedisLock.acquire
  simp only [Foundations.ensured_bind, ensured_randomUUID]
  obtain ⟨hallows, hreplies⟩ := hk.uuid s hs
  refine ⟨hallows, fun token s' hr => ?_⟩
  refine ensured_attempt hk token (retries + 1) (fun s' hs' => ?_) (fun s' hs' => ?_)
    (hreplies token s' hr)
  · simp only [if_true, Foundations.ensured_pure, Foundations.ensured_bind]
    refine ensured_finally ((hwork s' hs').mono (fun a s'' ha => ?_) (fun e s'' he => ?_))
    · exact hok token a s'' ha
    · exact herr token e s'' he
  · exact hfree s' hs'

end PracticalMicroservice.Cart
