import PracticalMicroservice.Cart.System
import PracticalMicroservice.Inventory.Proofs.LedgerProofs

/-!
# What one command changes

The effect of a command on the part of the world it does not address is none; what it changes is
told by its verdict.
-/

namespace PracticalMicroservice.Cart

open Inventory (Transition BulkBody Database Moved)

/-! ## Redis -/

namespace Redis

variable (r : Redis) (cart c : SessionId)

theorem record_setItems (hash : Option ItemsHash) :
    (r.setItems cart hash).record c =
      if c = cart then (match hash with | some hash => hash.fields | none => []) else r.record c := by
  by_cases h : c = cart
  · subst h
    cases hash <;> simp only [record, setItems, if_true]
  · simp only [record, setItems, if_neg h]

@[simp] theorem record_setSession (expiresAt : Option Nat) :
    (r.setSession cart expiresAt).record c = r.record c := rfl

@[simp] theorem record_zadd (score : Nat) : (r.zadd cart score).record c = r.record c := rfl

@[simp] theorem record_zrem : (r.zrem cart).record c = r.record c := rfl

@[simp] theorem record_setLock (key : LockKey) (token : Option String) :
    (r.setLock key token).record c = r.record c := rfl

/-- A live hash reads as its record, an expired one as an empty one. -/
theorem hgetall_eq : r.hgetall cart = r.record cart ∨ r.hgetall cart = [] := by
  unfold hgetall liveItems record
  cases h : r.items cart with
  | none => exact .inr rfl
  | some hash =>
    by_cases hl : r.now < hash.expiresAt
    · simp [Option.filter, hl]
    · simp [Option.filter, hl]

theorem liveItems_some {r : Redis} {cart : SessionId} {hash : ItemsHash}
    (h : r.liveItems cart = some hash) : r.items cart = some hash ∧ r.now < hash.expiresAt := by
  unfold liveItems at h
  obtain ⟨hi, hl⟩ := Option.filter_eq_some_iff.mp h
  exact ⟨hi, by simpa using hl⟩

theorem record_of_items {r : Redis} {cart : SessionId} {hash : ItemsHash}
    (h : r.items cart = some hash) : r.record cart = hash.fields := by
  unfold record
  rw [h]

theorem record_distinct : Entries.Distinct (r.record cart) := by
  unfold record
  split
  · exact ItemsHash.distinct _
  · exact List.nodup_nil

theorem record_cartTouch (sessionTtl itemsTtl dueAt : Nat) :
    (r.cartTouch cart sessionTtl itemsTtl dueAt).2.record c = r.record c := by
  unfold cartTouch
  cases hs : r.liveSession cart with
  | none => rfl
  | some e =>
    cases hi : r.liveItems cart with
    | none => rfl
    | some hash =>
      show (((r.setSession cart _).setItems cart _).zadd cart dueAt).record c = r.record c
      rw [record_zadd, record_setItems, record_setSession]
      by_cases h : c = cart
      · subst h
        rw [if_pos rfl, record_of_items (liveItems_some hi).1]
      · rw [if_neg h]

theorem record_cartTake (inFlight : Nat) :
    (r.cartTake cart inFlight).2.record c = r.record c := by
  unfold cartTake
  cases hi : r.liveItems cart with
  | none => rfl
  | some hash =>
    by_cases hf : hash.fields ≠ []
    · simp only [if_pos hf]
      rw [record_setItems]
      by_cases h : c = cart
      · subst h
        rw [if_pos rfl, record_of_items (liveItems_some hi).1]
      · rw [if_neg h]
    · simp only [if_neg hf]

theorem cartTake_eq (inFlight : Nat) :
    (r.cartTake cart inFlight).1 = r.record cart ∨ (r.cartTake cart inFlight).1 = [] := by
  unfold cartTake
  cases hi : r.liveItems cart with
  | none => exact .inr rfl
  | some hash =>
    by_cases hf : hash.fields ≠ []
    · simp only [if_pos hf]
      exact .inl (record_of_items (liveItems_some hi).1).symm
    · simp only [if_neg hf]
      exact .inr trivial

theorem record_cartCommit (writes : List CartLine) (removals : List String)
    (sessionTtl itemsTtl dueAt : Nat) :
    (r.cartCommit cart writes removals sessionTtl itemsTtl dueAt).2.record c =
      if c = cart then committed (r.hgetall cart) writes removals else r.record c := by
  unfold cartCommit
  by_cases hf : committed (r.hgetall cart) writes removals ≠ []
  · simp only [if_pos hf, record_zadd, record_setSession, record_setItems]
  · simp only [if_neg hf, record_zrem, record_setSession, record_setItems]
    rw [not_not.mp hf]

theorem record_cartFinish :
    (r.cartFinish cart).record c = if c = cart then [] else r.record c := by
  unfold cartFinish
  rw [record_zrem, record_setItems]

theorem record_cartDiscard :
    (r.cartDiscard cart).record c = if c = cart then [] else r.record c := by
  unfold cartDiscard
  rw [record_zrem, record_setSession, record_setItems]

theorem record_lockSet (key : LockKey) (token : String) :
    (r.lockSet key token).2.record c = r.record c := by
  unfold lockSet
  split
  · rfl
  · rfl

theorem record_lockRelease (key : LockKey) (token : String) :
    (r.lockRelease key token).record c = r.record c := by
  unfold lockRelease
  split
  · rfl
  · rfl

end Redis

/-! ## A command under a fate -/

/-- What a Redis command does: it runs and replies, it runs, or nothing happens. -/
theorem onRedis_cases {α : Type} (w : World) (fate : Fate) (run : Redis → α × Redis) :
    (fate.verdict = .told ∧
      w.onRedis fate run = (some (run w.redis).1, { w with redis := (run w.redis).2 })) ∨
    (fate.verdict = .untold ∧ w.onRedis fate run = (none, { w with redis := (run w.redis).2 })) ∨
    (fate.verdict = .failed ∧ w.onRedis fate run = (none, w)) := by
  cases fate with
  | delivered => exact .inl ⟨rfl, rfl⟩
  | lost => exact .inr (.inr ⟨rfl, rfl⟩)
  | replyLost => exact .inr (.inl ⟨rfl, rfl⟩)
  | unavailable => exact .inr (.inr ⟨rfl, rfl⟩)

/-- What a request to a bulk route does, by its verdict. -/
theorem post_cases (w : World) (fate : Fate) (t : Transition) (body : BulkBody) :
    ((Command.post t body).verdict fate w ≠ .failed ∧ body.Accepted t w.inventory ∧
      ((Command.post t body).verdict fate w = .told ↔
        ∃ r, (w.post fate t body).1 = some r ∧ r.isOk = true) ∧
      ∃ db, (w.post fate t body).2 = { w with inventory := db } ∧
        Moved t body w.inventory db) ∨
    ((Command.post t body).verdict fate w = .failed ∧
      (∀ r, (w.post fate t body).1 = some r → r.isOk = false) ∧ (w.post fate t body).2 = w) := by
  have hverdict : (Command.post t body).verdict fate w =
      if (Inventory.bulkRoute t body w.inventory).1.isOk then fate.verdict else .failed := rfl
  obtain ⟨hacc, hok, hmoved⟩ | ⟨-, hok, hdb, -⟩ :=
    Inventory.bulkRoute_cases t body w.inventory
  · rw [hverdict, if_pos hok]
    cases fate with
    | delivered =>
      refine .inl ⟨by decide, hacc, ⟨fun _ => ⟨_, rfl, hok⟩, fun _ => rfl⟩, _, rfl, hmoved⟩
    | lost =>
      refine .inr ⟨rfl, ?_, rfl⟩
      intro r hr
      cases hr
    | replyLost =>
      refine .inl ⟨by decide, hacc, ⟨?_, ?_⟩, _, rfl, hmoved⟩
      · intro h
        cases h
      · rintro ⟨r, hr, -⟩
        cases hr
    | unavailable =>
      refine .inr ⟨rfl, ?_, rfl⟩
      intro r hr
      cases hr
      rfl
  · rw [hverdict, if_neg (by rw [hok]; exact Bool.false_ne_true)]
    have hsame : ({ w with inventory := (Inventory.bulkRoute t body w.inventory).2 } : World) = w :=
      by rw [hdb]
    refine .inr ⟨rfl, fun r hr => ?_, ?_⟩
    · cases fate with
      | delivered => cases hr; exact hok
      | lost => cases hr
      | replyLost => cases hr
      | unavailable => cases hr; rfl
    · cases fate with
      | delivered => exact hsame
      | lost => rfl
      | replyLost => exact hsame
      | unavailable => rfl

/-! ## One command of a call, seen from its account -/

section Frames

variable {α : Type} (w : World) (fate : Fate) (run : Redis → α × Redis)

@[simp] theorem onRedis_inventory : (w.onRedis fate run).2.inventory = w.inventory := by
  cases fate <;> rfl

theorem onRedis_redis :
    (w.onRedis fate run).2.redis = (run w.redis).2 ∨ (w.onRedis fate run).2.redis = w.redis := by
  cases fate with
  | delivered => exact .inl rfl
  | lost => exact .inr rfl
  | replyLost => exact .inl rfl
  | unavailable => exact .inr rfl

theorem onRedis_reply :
    (w.onRedis fate run).1 = some (run w.redis).1 ∨ (w.onRedis fate run).1 = none := by
  cases fate with
  | delivered => exact .inl rfl
  | lost => exact .inr rfl
  | replyLost => exact .inr rfl
  | unavailable => exact .inr rfl

end Frames

namespace Redis

variable (r : Redis) (cart : SessionId)

@[simp] theorem locks_cartTouch (sessionTtl itemsTtl dueAt : Nat) :
    (r.cartTouch cart sessionTtl itemsTtl dueAt).2.locks = r.locks := by
  unfold cartTouch
  cases r.liveSession cart with
  | none => rfl
  | some e =>
    cases r.liveItems cart with
    | none => rfl
    | some hash => rfl

@[simp] theorem locks_cartTake (inFlight : Nat) :
    (r.cartTake cart inFlight).2.locks = r.locks := by
  unfold cartTake
  cases r.liveItems cart with
  | none => rfl
  | some hash =>
    by_cases hf : hash.fields ≠ []
    · simp only [if_pos hf]
      rfl
    · simp only [if_neg hf]

@[simp] theorem locks_cartCommit (writes : List CartLine) (removals : List String)
    (sessionTtl itemsTtl dueAt : Nat) :
    (r.cartCommit cart writes removals sessionTtl itemsTtl dueAt).2.locks = r.locks := by
  unfold cartCommit
  dsimp only
  split
  · rfl
  · rfl

/-- Taking a lock never frees one. -/
theorem locks_lockSet (key k : LockKey) (token : String) (h : r.locks k ≠ none) :
    (r.lockSet key token).2.locks k ≠ none := by
  unfold lockSet
  cases hk : r.locks key with
  | none =>
    show (if k = key then some token else r.locks k) ≠ none
    by_cases he : k = key
    · rw [if_pos he]
      exact Option.some_ne_none token
    · rw [if_neg he]
      exact h
  | some owner => exact h

/-- Giving a lock back frees no other. -/
theorem locks_lockRelease {key k : LockKey} (token : String) (h : k ≠ key) :
    (r.lockRelease key token).locks k = r.locks k := by
  unfold lockRelease
  split
  · exact if_neg h
  · rfl

end Redis

end PracticalMicroservice.Cart
