import PracticalMicroservice.Cart.Custody
import PracticalMicroservice.Cart.Proofs.WorldProofs

/-!
# The account of a call and the world it moves

Every reply the world gives to a command a section allows is one the contract of the section
foresees, and what the command did to the world is one of five things.
-/

namespace PracticalMicroservice.Cart

open Inventory (Transition BulkBody Moved units)

/-- The world an account rests on is as it was: the records, the locks that are held, and the
counters. -/
structure Undisturbed (w w' : World) : Prop where
  record : ∀ c, w'.redis.record c = w.redis.record c
  locks : ∀ c, w.redis.locks (.writeLock c) ≠ none → w'.redis.locks (.writeLock c) ≠ none
  inventory : w'.inventory = w.inventory

theorem Undisturbed.refl (w : World) : Undisturbed w w := ⟨fun _ => rfl, fun _ h => h, rfl⟩

theorem undisturbed_onRedis {α : Type} {w : World} (fate : Fate) {run : Redis → α × Redis}
    (hrecord : ∀ c, (run w.redis).2.record c = w.redis.record c)
    (hlocks : ∀ c, w.redis.locks (.writeLock c) ≠ none →
      (run w.redis).2.locks (.writeLock c) ≠ none) :
    Undisturbed w (w.onRedis fate run).2 := by
  refine ⟨fun c => ?_, fun c hc => ?_, onRedis_inventory w fate run⟩
  · obtain h | h := onRedis_redis w fate run
    · rw [h, hrecord]
    · rw [h]
  · obtain h | h := onRedis_redis w fate run
    · rw [h]
      exact hlocks c hc
    · rw [h]
      exact hc

/-- What a command a section allows does to the world and to the account. -/
inductive SectionStep (lossy : Bool) (command : Command) (v : Verdict) (w w' : World)
    (g : Section) : Section → Prop
  /-- Nothing an account rests on has changed. -/
  | idle : Undisturbed w w' → SectionStep lossy command v w w' g (g.note command v)
  | entered : g.stage = .before → w.redis.locks (.writeLock g.cart) = none →
      w'.redis.locks (.writeLock g.cart) ≠ none → Undisturbed w w' →
      SectionStep lossy command v w w' g ((g.enter (w.redis.record g.cart)).note command v)
  | left : g.stage = .inside → (∀ c, w'.redis.record c = w.redis.record c) →
      (∀ c ≠ g.cart, w'.redis.locks (.writeLock c) = w.redis.locks (.writeLock c)) →
      w'.inventory = w.inventory →
      (lossy = false → owedFailed g.past = false → ∀ p, recorded g.fields p ≤ g.claim p) →
      SectionStep lossy command v w w' g (g.leave.note command v)
  /-- The record of the cart has been written. -/
  | wrote (fields : List (String × Int)) : g.stage = .inside →
      (∀ c, w'.redis.record c = if c = g.cart then fields else w.redis.record c) →
      w'.redis.locks = w.redis.locks → w'.inventory = w.inventory →
      SectionStep lossy command v w w' g ((g.write fields).note command v)
  /-- A batch has been applied. -/
  | moved (t : Transition) (body : BulkBody) : g.stage = .inside → command = .post t body →
      v ≠ .failed → body.Accepted t w.inventory → Moved t body w.inventory w'.inventory →
      w'.redis = w.redis → (t = .release → ∀ p, Inventory.units body.items p ≤ g.claim p) →
      SectionStep lossy command v w w' g ((g.move t body).note command v)

/-! ## Every reply is foreseen -/

section Foreseen

variable {lossy : Bool} {w : World} {g : Section} {fate : Fate}

/-- A command has been answered as the contract says, and has done one of five things. -/
def Foreseen (lossy : Bool) (fate : Fate) (command : Command) (w : World) (g : Section) : Prop :=
  ∃ g', sectionReply (command.verdict fate w) command g (w.perform fate command).1 g' ∧
    SectionStep lossy command (command.verdict fate w) w (w.perform fate command).2 g g'

theorem foreseen_lockSet {key : LockKey} {token : String}
    (hallow : sectionAllows lossy (.lockSet key token) g) :
    Foreseen lossy fate (.lockSet key token) w g := by
  have hframe : Undisturbed w (w.perform fate (.lockSet key token)).2 :=
    undisturbed_onRedis fate (fun c => Redis.record_lockSet _ c key token)
      fun c hc => Redis.locks_lockSet _ key _ token hc
  cases key with
  | releaseLock cart => exact ⟨_, rfl, .idle hframe⟩
  | writeLock cart =>
    obtain ⟨rfl, hstage⟩ := hallow
    have hverdict : (Command.lockSet (.writeLock g.cart) token).verdict fate w =
        if (w.redis.lockSet (.writeLock g.cart) token).1 then fate.verdict else .failed := rfl
    cases hl : w.redis.locks (.writeLock g.cart) with
    | some owner =>
      have hset : w.redis.lockSet (.writeLock g.cart) token = (false, w.redis) := by
        unfold Redis.lockSet
        rw [hl]
      refine ⟨_, .inr ⟨?_, ?_, rfl⟩, .idle hframe⟩
      · rw [hverdict, hset]
        intro h
        cases h
      · show (w.onRedis fate fun r => r.lockSet (.writeLock g.cart) token).1 ≠ some true
        obtain h | h := onRedis_reply w fate fun r => r.lockSet (.writeLock g.cart) token
        · rw [h, hset]
          simp
        · rw [h]
          simp
    | none =>
      have hset : w.redis.lockSet (.writeLock g.cart) token =
          (true, w.redis.setLock (.writeLock g.cart) (some token)) := by
        unfold Redis.lockSet
        rw [hl]
      have hv : (Command.lockSet (.writeLock g.cart) token).verdict fate w = fate.verdict := by
        rw [hverdict, hset]
        rfl
      rw [Foreseen, hv]
      obtain ⟨hfv, hp⟩ | ⟨hfv, hp⟩ | ⟨hfv, hp⟩ :=
        onRedis_cases w fate fun r => r.lockSet (.writeLock g.cart) token
      · refine ⟨_, .inl ⟨hfv, ?_, w.redis.record g.cart, Redis.record_distinct _ _, rfl⟩, ?_⟩
        · show (w.onRedis fate fun r => r.lockSet (.writeLock g.cart) token).1 = some true
          rw [hp, hset]
        · refine .entered hstage hl ?_ hframe
          show (w.onRedis fate fun r => r.lockSet (.writeLock g.cart) token).2.redis.locks _ ≠ none
          rw [hp, hset]
          simp [Redis.setLock]
      · refine ⟨_, .inr ⟨by rw [hfv]; decide, ?_, rfl⟩, .idle hframe⟩
        show (w.onRedis fate fun r => r.lockSet (.writeLock g.cart) token).1 ≠ some true
        rw [hp]
        simp
      · refine ⟨_, .inr ⟨by rw [hfv]; decide, ?_, rfl⟩, .idle hframe⟩
        show (w.onRedis fate fun r => r.lockSet (.writeLock g.cart) token).1 ≠ some true
        rw [hp]
        simp

theorem foreseen_lockRelease {key : LockKey} {token : String}
    (hallow : sectionAllows lossy (.lockRelease key token) g) :
    Foreseen lossy fate (.lockRelease key token) w g := by
  cases key with
  | releaseLock cart =>
    refine ⟨_, rfl, .idle (undisturbed_onRedis fate
      (fun c => Redis.record_lockRelease _ c (.releaseLock cart) token) fun c hc => ?_)⟩
    have hk : LockKey.writeLock c ≠ .releaseLock cart := fun h => by cases h
    rw [Redis.locks_lockRelease _ token hk]
    exact hc
  | writeLock cart =>
    obtain ⟨rfl, hstage, hcover⟩ := hallow
    have hrecord (c : SessionId) :
        (w.redis.lockRelease (.writeLock g.cart) token).record c = w.redis.record c :=
      Redis.record_lockRelease _ c _ token
    have hlocks (c : SessionId) (hc : c ≠ g.cart) :
        (w.redis.lockRelease (.writeLock g.cart) token).locks (.writeLock c) =
          w.redis.locks (.writeLock c) := by
      refine Redis.locks_lockRelease _ token fun h => ?_
      cases h
      exact hc rfl
    refine ⟨_, rfl, .left hstage (fun c => ?_) (fun c hc => ?_) ?_ hcover⟩
    · obtain h | h := onRedis_redis w fate
        fun r => ((), r.lockRelease (.writeLock g.cart) token)
      · exact (congrArg (Redis.record · c) h).trans (hrecord c)
      · exact congrArg (Redis.record · c) h
    · obtain h | h := onRedis_redis w fate
        fun r => ((), r.lockRelease (.writeLock g.cart) token)
      · exact (congrArg (Redis.locks · (.writeLock c)) h).trans (hlocks c hc)
      · exact congrArg (Redis.locks · (.writeLock c)) h
    · exact onRedis_inventory w fate _

/-- A command that writes the record of the cart. -/
theorem foreseen_write {α : Type} (lossy : Bool) (fate : Fate) (command : Command)
    (run : Redis → α × Redis) {fields : List (String × Int)} (hstage : g.stage = .inside)
    (hrecord : ∀ c, (run w.redis).2.record c = if c = g.cart then fields else w.redis.record c)
    (hlocks : (run w.redis).2.locks = w.redis.locks) :
    (fate.verdict ≠ .failed ∧ (fate.verdict = .told ↔ (w.onRedis fate run).1 ≠ none) ∧
      SectionStep lossy command fate.verdict w (w.onRedis fate run).2 g
        ((g.write fields).note command fate.verdict)) ∨
    (fate.verdict = .failed ∧ (w.onRedis fate run).1 = none ∧
      SectionStep lossy command fate.verdict w (w.onRedis fate run).2 g
        (g.note command fate.verdict)) := by
  obtain ⟨hv, hp⟩ | ⟨hv, hp⟩ | ⟨hv, hp⟩ := onRedis_cases w fate run
  · rw [hp, hv]
    exact .inl ⟨by decide, by simp, .wrote fields hstage hrecord hlocks rfl⟩
  · rw [hp, hv]
    exact .inl ⟨by decide, by simp, .wrote fields hstage hrecord hlocks rfl⟩
  · rw [hp, hv]
    exact .inr ⟨rfl, rfl, .idle (.refl w)⟩

theorem foreseen_post {t : Transition} {body : BulkBody}
    (hallow : sectionAllows lossy (.post t body) g) : Foreseen lossy fate (.post t body) w g := by
  obtain ⟨hstage, hcover⟩ := hallow
  obtain ⟨hv, hacc, htold, db, hp, hmoved⟩ | ⟨hv, hno, hp⟩ := post_cases w fate t body
  · refine ⟨_, .inl ⟨hv, fun line hl => hacc.units_pos hl,
      fun p => ⟨hacc.units_nonneg p, hacc.units_le p⟩, htold, rfl⟩, ?_⟩
    refine .moved t body hstage rfl hv hacc ?_ ?_ fun ht => hcover ht hacc.units_le
    · show Moved t body w.inventory (w.post fate t body).2.inventory
      rw [hp]
      exact hmoved
    · show (w.post fate t body).2.redis = w.redis
      rw [hp]
  · refine ⟨_, .inr ⟨hv, hno, rfl⟩, .idle ?_⟩
    show Undisturbed w (w.post fate t body).2
    rw [hp]
    exact .refl w

/-- Every reply to an allowed command is foreseen, while the record is the section's. -/
theorem foreseen {command : Command} (hallow : sectionAllows lossy command g)
    (hrec : g.stage = .inside → w.redis.record g.cart = g.fields) :
    Foreseen lossy fate command w g := by
  cases command with
  | randomUUID => exact ⟨_, rfl, .idle ⟨fun _ => rfl, fun _ h => h, rfl⟩⟩
  | dateNow => exact ⟨_, rfl, .idle (.refl w)⟩
  | lockSet key token => exact foreseen_lockSet hallow
  | lockRelease key token => exact foreseen_lockRelease hallow
  | hgetall cart =>
    obtain ⟨rfl, hstage⟩ := hallow
    refine ⟨_, ⟨rfl, ?_⟩, .idle (undisturbed_onRedis fate (fun c => rfl) fun c hc => hc)⟩
    rw [← hrec hstage]
    obtain h | h := onRedis_reply w fate fun r => (r.hgetall g.cart, r)
    · obtain he | he := Redis.hgetall_eq w.redis g.cart
      · exact .inl (h.trans (congrArg some he))
      · exact .inr (.inl (h.trans (congrArg some he)))
    · exact .inr (.inr h)
  | cartCommit cart writes removals sessionTtl itemsTtl dueAt =>
    obtain ⟨rfl, hstage⟩ := hallow
    obtain ⟨hv, ht, hs⟩ | ⟨hv, hr, hs⟩ := foreseen_write lossy fate
      (.cartCommit g.cart writes removals sessionTtl itemsTtl dueAt)
      (fun r => r.cartCommit g.cart writes removals sessionTtl itemsTtl dueAt) hstage
      (fun c => Redis.record_cartCommit _ g.cart c writes removals sessionTtl itemsTtl dueAt)
      (Redis.locks_cartCommit _ _ _ _ _ _ _)
    · refine ⟨_, .inl ⟨hv, ht, w.redis.hgetall g.cart, ?_, rfl⟩, hs⟩
      rw [← hrec hstage]
      exact Redis.hgetall_eq w.redis g.cart
    · exact ⟨_, .inr ⟨hv, hr, rfl⟩, hs⟩
  | cartTouch cart sessionTtl itemsTtl dueAt =>
    exact ⟨_, rfl, .idle (undisturbed_onRedis fate
      (fun c => Redis.record_cartTouch _ cart c sessionTtl itemsTtl dueAt) fun c hc => by
        rw [Redis.locks_cartTouch]; exact hc)⟩
  | startSession cart sessionTtl => exact hallow.elim
  | cartTake cart inFlight =>
    obtain ⟨rfl, hstage⟩ := hallow
    refine ⟨_, ⟨rfl, ?_⟩, .idle (undisturbed_onRedis fate
      (fun c => Redis.record_cartTake _ g.cart c inFlight) fun c hc => by
        rw [Redis.locks_cartTake]; exact hc)⟩
    rw [← hrec hstage]
    obtain h | h := onRedis_reply w fate fun r => r.cartTake g.cart inFlight
    · obtain he | he := Redis.cartTake_eq w.redis g.cart inFlight
      · exact .inl (h.trans (congrArg some he))
      · exact .inr (.inl (h.trans (congrArg some he)))
    · exact .inr (.inr h)
  | cartFinish cart =>
    obtain ⟨rfl, hstage⟩ := hallow
    obtain ⟨hv, ht, hs⟩ | ⟨hv, hr, hs⟩ := foreseen_write lossy fate
      (.cartFinish g.cart) (fun r => ((), r.cartFinish g.cart)) hstage
      (fun c => Redis.record_cartFinish _ g.cart c) rfl
    · exact ⟨_, .inl ⟨hv, ht, rfl⟩, hs⟩
    · exact ⟨_, .inr ⟨hv, hr, rfl⟩, hs⟩
  | cartDiscard cart =>
    obtain ⟨rfl, hstage⟩ := hallow
    obtain ⟨hv, ht, hs⟩ | ⟨hv, hr, hs⟩ := foreseen_write lossy fate
      (.cartDiscard g.cart) (fun r => ((), r.cartDiscard g.cart)) hstage
      (fun c => Redis.record_cartDiscard _ g.cart c) rfl
    · exact ⟨_, .inl ⟨hv, ht, rfl⟩, hs⟩
    · exact ⟨_, .inr ⟨hv, hr, rfl⟩, hs⟩
  | zrem cart =>
    exact ⟨_, rfl, .idle (undisturbed_onRedis fate (fun c => rfl) fun c hc => hc)⟩
  | zadd cart score =>
    exact ⟨_, rfl, .idle (undisturbed_onRedis fate (fun c => rfl) fun c hc => hc)⟩
  | dueBefore score limit => exact hallow.elim
  | pttl cart => exact hallow.elim
  | post t body => exact foreseen_post hallow
  | publish message => exact hallow.elim

end Foreseen

/-! ## The trace and the accounts -/

@[simp] theorem pastOf_performed (trace : List Event) (i j : Nat) (command : Command)
    (v : Verdict) : pastOf (.performed i command v :: trace) j =
      if i = j then (command, v) :: pastOf trace j else pastOf trace j := by
  by_cases h : i = j
  · simp [pastOf, h]
  · simp [pastOf, h]

theorem verdict_untold {command : Command} {fate : Fate} {w : World}
    (h : command.verdict fate w = .untold) : fate = .replyLost := by
  have hfate : fate.verdict = .untold → fate = .replyLost := by cases fate <;> simp [Fate.verdict]
  have hite : ∀ b : Bool, (if b = true then fate.verdict else .failed) = .untold →
      fate = .replyLost := by
    intro b hb
    cases b with
    | true => exact hfate hb
    | false => cases hb
  cases command with
  | randomUUID => cases h
  | dateNow => cases h
  | lockSet key token => exact hite _ h
  | post t body => exact hite _ h
  | _ => exact hfate h

section Accounts

variable (g : Section)

@[simp] theorem note_cart (command : Command) (v : Verdict) :
    (g.note command v).cart = g.cart := rfl

@[simp] theorem note_stage (command : Command) (v : Verdict) :
    (g.note command v).stage = g.stage := rfl

@[simp] theorem note_fields (command : Command) (v : Verdict) :
    (g.note command v).fields = g.fields := rfl

@[simp] theorem note_claim (command : Command) (v : Verdict) (p : String) :
    (g.note command v).claim p = g.claim p := rfl

@[simp] theorem note_origin (command : Command) (v : Verdict) :
    (g.note command v).origin = g.origin := rfl

@[simp] theorem note_cartNet (command : Command) (v : Verdict) :
    (g.note command v).cartNet = g.cartNet := rfl

@[simp] theorem note_past (command : Command) (v : Verdict) :
    (g.note command v).past = (command, v) :: g.past := rfl

@[simp] theorem move_cart (t : Transition) (body : BulkBody) : (g.move t body).cart = g.cart := by
  unfold Section.move
  split <;> rfl

@[simp] theorem move_stage (t : Transition) (body : BulkBody) :
    (g.move t body).stage = g.stage := by
  unfold Section.move
  split <;> rfl

@[simp] theorem move_fields (t : Transition) (body : BulkBody) :
    (g.move t body).fields = g.fields := by
  unfold Section.move
  split <;> rfl

@[simp] theorem move_origin (t : Transition) (body : BulkBody) :
    (g.move t body).origin = g.origin := by
  unfold Section.move
  split <;> rfl

/-- A batch moves the hold of the cart when it is made under its reference. -/
theorem move_cartNet (t : Transition) (body : BulkBody) (p : String) :
    (g.move t body).cartNet p = g.cartNet p +
      if g.cart.text = Inventory.trim body.reference then t.shift * units body.items p else 0 := by
  unfold Section.move
  by_cases h : Inventory.trim body.reference = g.cart.text
  · rw [if_pos h, if_pos h.symm]
    cases t with
    | reserve => simp only [Transition.shift]; omega
    | release => simp only [Transition.shift]; omega
  · rw [if_neg h, if_neg (Ne.symm h)]
    exact (Int.add_zero _).symm

@[simp] theorem move_past (t : Transition) (body : BulkBody) : (g.move t body).past = g.past := by
  unfold Section.move
  split <;> rfl

theorem move_claim (t : Transition) (body : BulkBody) (p : String) :
    (g.move t body).claim p = g.claim p + t.shift * units body.items p := by
  unfold Section.move
  split
  · cases t with
    | reserve => simp only [Section.claim, Transition.shift]; omega
    | release => simp only [Section.claim, Transition.shift]; omega
  · cases t with
    | reserve => simp only [Section.claim, Transition.shift]; omega
    | release => simp only [Section.claim, Transition.shift]; omega

end Accounts

/-- The lock a section holds is the one its past says. -/
theorem lockHeld_of_reply {v : Verdict} {command : Command} {g g' : Section} {reply : command.Reply}
    {lossy : Bool} (hallow : sectionAllows lossy command g)
    (hr : sectionReply v command g reply g')
    (h : lockHeld g.past = if g.stage = .inside then some g.cart else none) :
    lockHeld g'.past = if g'.stage = .inside then some g'.cart else none := by
  cases command with
  | lockSet key token =>
    cases key with
    | releaseLock cart =>
      obtain rfl := hr
      exact h
    | writeLock cart =>
      obtain ⟨rfl, hstage⟩ := hallow
      rcases hr with ⟨rfl, -, fields, -, rfl⟩ | ⟨hv, -, rfl⟩
      · rfl
      · show lockHeld ((.lockSet (.writeLock g.cart) token, v) :: g.past) = _
        cases v with
        | told => exact absurd rfl hv
        | untold => exact h
        | failed => exact h
  | lockRelease key token =>
    cases key with
    | releaseLock cart =>
      obtain rfl := hr
      exact h
    | writeLock cart =>
      obtain rfl := hr
      rfl
  | cartCommit cart writes removals sessionTtl itemsTtl dueAt =>
    rcases hr with ⟨-, -, base, -, rfl⟩ | ⟨-, -, rfl⟩
    · exact h
    · exact h
  | cartFinish cart =>
    rcases hr with ⟨-, -, rfl⟩ | ⟨-, -, rfl⟩
    · exact h
    · exact h
  | cartDiscard cart =>
    rcases hr with ⟨-, -, rfl⟩ | ⟨-, -, rfl⟩
    · exact h
    · exact h
  | post t body =>
    rcases hr with ⟨-, -, -, -, rfl⟩ | ⟨-, -, rfl⟩
    · rw [note_past, note_stage, note_cart, move_past, move_stage, move_cart]
      exact h
    · exact h
  | hgetall cart =>
    obtain ⟨rfl, -⟩ := hr
    exact h
  | cartTake cart inFlight =>
    obtain ⟨rfl, -⟩ := hr
    exact h
  | startSession cart sessionTtl => exact hallow.elim
  | dueBefore score limit => exact hallow.elim
  | pttl cart => exact hallow.elim
  | publish message => exact hallow.elim
  | _ =>
    obtain rfl := hr
    exact h

section Steps

variable {lossy : Bool} {command : Command} {v : Verdict} {w w' : World} {g g' : Section}

theorem SectionStep.cart (h : SectionStep lossy command v w w' g g') : g'.cart = g.cart := by
  cases h with
  | moved t body => exact (note_cart _ _ _).trans (move_cart g t body)
  | _ => rfl

theorem SectionStep.past (h : SectionStep lossy command v w w' g g') :
    g'.past = (command, v) :: g.past := by
  cases h with
  | moved t body => exact (note_past _ _ _).trans (congrArg _ (move_past g t body))
  | _ => rfl

end Steps

end PracticalMicroservice.Cart
