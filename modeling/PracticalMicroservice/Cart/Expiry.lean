import PracticalMicroservice.Cart.System

/-!
# Carts judged to have expired, and how long a record lives

The watcher (`cart-expiry.watcher.ts`) judges a cart to have expired when it is notified or finds no
sentinel, and takes the cart's lines later, under two locks it may have to wait for.

The items hash, the session sentinel and the due index get their times from different scripts
(`cart.scripts.ts`, `cart.keys.ts`). The record of what to give back is to outlive the session, and
its release is to be due before it expires.
-/

namespace PracticalMicroservice.Cart

open Foundations (Contract)

/-- The watcher only takes the lines of the cart it judged last. The ghost state is that cart. -/
def watching : Contract Command Command.Reply (Option SessionId) where
  allows
    | .cartTake cart _, judged => judged = some cart
    | _, _ => True
  replies
    | .pttl cart, _, some ttlMs, judged' => judged' = if ttlMs < 0 then some cart else none
    | _, judged, _, judged' => judged' = judged

/-- What a command does to the store when it takes effect. -/
def Command.effect : Command → Redis → Redis
  | .lockSet key token, r => (r.lockSet key token).2
  | .lockRelease key token, r => r.lockRelease key token
  | .cartCommit cart writes removals sessionTtl itemsTtl dueAt, r =>
    (r.cartCommit cart writes removals sessionTtl itemsTtl dueAt).2
  | .cartTouch cart sessionTtl itemsTtl dueAt, r =>
    (r.cartTouch cart sessionTtl itemsTtl dueAt).2
  | .startSession cart sessionTtl, r => r.startSession cart sessionTtl
  | .cartTake cart inFlight, r => (r.cartTake cart inFlight).2
  | .cartFinish cart, r => r.cartFinish cart
  | .cartDiscard cart, r => r.cartDiscard cart
  | .zrem cart, r => r.zrem cart
  | .zadd cart score, r => r.zadd cart score
  | .randomUUID, r | .dateNow, r | .hgetall _, r | .dueBefore _ _, r | .pttl _, r | .post _ _, r
  | .publish _, r => r

/-- The cart whose lines a command takes. -/
def Command.taken : Command → Option SessionId
  | .cartTake cart _ => some cart
  | _ => none

/-- The watcher takes no lines of a cart whose session is live. -/
def sparesLive (s : System) : Label → Prop
  | .call i _ => ∀ t ∈ s.threads[i]?, t.watching = true → ∀ command ∈ s.nextCommand i,
      ∀ cart ∈ command.taken, s.world.redis.liveSession cart = none
  | _ => True

/-- When the watcher takes the lines of a cart, its session has not been armed since the watcher
judged it. -/
def unarmedSince (s : System) : Label → Prop
  | .call i _ => ∀ t ∈ s.threads[i]?, t.watching = true → ∀ command ∈ s.nextCommand i,
      ∀ cart ∈ command.taken, ∀ judged ∈ t.decided, judged.1 = cart → s.armed cart = judged.2
  | _ => True

instance (s : System) : DecidablePred (sparesLive s)
  | .call i _ => inferInstanceAs (Decidable (∀ t ∈ s.threads[i]?, t.watching = true →
      ∀ command ∈ s.nextCommand i, ∀ cart ∈ command.taken,
        s.world.redis.liveSession cart = none))
  | .spawn _ | .notify _ | .crash _ | .lapse _ | .tick _ | .expire _ | .other _ _
  | .consume _ _ => .isTrue trivial

instance (s : System) : DecidablePred (unarmedSince s)
  | .call i _ => inferInstanceAs (Decidable (∀ t ∈ s.threads[i]?, t.watching = true →
      ∀ command ∈ s.nextCommand i, ∀ cart ∈ command.taken, ∀ judged ∈ t.decided,
        judged.1 = cart → s.armed cart = judged.2))
  | .spawn _ | .notify _ | .crash _ | .lapse _ | .tick _ | .expire _ | .other _ _
  | .consume _ _ => .isTrue trivial

/-! ## The schedule of a record -/

namespace Redis

/-- The record outlives the session of the cart, and its release is due while it is there. -/
structure Scheduled (r : Redis) (cart : SessionId) (hash : ItemsHash) : Prop where
  outlives : ∀ expiresAt ∈ r.liveSession cart, expiresAt < hash.expiresAt
  due : ∃ score, Entries.get r.due cart = some score ∧ score < hash.expiresAt

/-- Every record that lists units is on schedule. -/
def OnSchedule (r : Redis) : Prop :=
  ∀ cart, ∀ hash ∈ r.liveItems cart, hash.fields ≠ [] → r.Scheduled cart hash

end Redis

/-- What a command that takes effect is to find: a take, that the session and the score of the cart
lie nearer than the time it holds the record for; a new score or session, that they come before the
record's end; a removal from the index, that there is no record. -/
def Command.Timely : Command → Redis → Prop
  | .cartTake cart inFlight, r => r.hgetall cart ≠ [] →
      (∀ expiresAt ∈ r.liveSession cart, expiresAt < r.expiryIn inFlight) ∧
        ∀ score ∈ Entries.get r.due cart, score < r.expiryIn inFlight
  | .zadd cart score, r => ∀ hash ∈ r.liveItems cart, hash.fields ≠ [] → score < hash.expiresAt
  | .startSession cart sessionTtl, r =>
    ∀ hash ∈ r.liveItems cart, hash.fields ≠ [] → r.expiryIn sessionTtl < hash.expiresAt
  | .zrem cart, r => r.hgetall cart = []
  | .randomUUID, _ | .dateNow, _ | .lockSet _ _, _ | .lockRelease _ _, _ | .hgetall _, _
  | .cartCommit _ _ _ _ _ _, _ | .cartTouch _ _ _ _, _ | .cartFinish _, _ | .cartDiscard _, _
  | .dueBefore _ _, _ | .pttl _, _ | .post _ _, _ | .publish _, _ => True

instance (r : Redis) : DecidablePred fun command : Command => command.Timely r
  | .cartTake cart inFlight => inferInstanceAs (Decidable (r.hgetall cart ≠ [] →
      (∀ expiresAt ∈ r.liveSession cart, expiresAt < r.expiryIn inFlight) ∧
        ∀ score ∈ Entries.get r.due cart, score < r.expiryIn inFlight))
  | .zadd cart score => inferInstanceAs (Decidable
      (∀ hash ∈ r.liveItems cart, hash.fields ≠ [] → score < hash.expiresAt))
  | .startSession cart sessionTtl => inferInstanceAs (Decidable
      (∀ hash ∈ r.liveItems cart, hash.fields ≠ [] → r.expiryIn sessionTtl < hash.expiresAt))
  | .zrem cart => inferInstanceAs (Decidable (r.hgetall cart = []))
  | .randomUUID | .dateNow | .lockSet _ _ | .lockRelease _ _ | .hgetall _
  | .cartCommit _ _ _ _ _ _ | .cartTouch _ _ _ _ | .cartFinish _ | .cartDiscard _
  | .dueBefore _ _ | .pttl _ | .post _ _ | .publish _ => .isTrue trivial

/-- A step whose command, if it takes effect, finds what it is to find. -/
def timely (s : System) : Label → Prop
  | .call i fate => fate.verdict ≠ .failed →
      ∀ command ∈ s.nextCommand i, command.Timely s.world.redis
  | _ => True

instance (s : System) : DecidablePred (timely s)
  | .call i fate => inferInstanceAs (Decidable (fate.verdict ≠ .failed →
      ∀ command ∈ s.nextCommand i, command.Timely s.world.redis))
  | .spawn _ | .notify _ | .crash _ | .lapse _ | .tick _ | .expire _ | .other _ _
  | .consume _ _ => .isTrue trivial

/-- What the scripts that arm a session are passed: the configured times, and a score counted from a
reading of the clock. The ghost state is the last reading. -/
def punctual (env : Env) : Contract Command Command.Reply Nat where
  allows
    | .cartCommit _ _ _ sessionTtl itemsTtl dueAt, now | .cartTouch _ sessionTtl itemsTtl dueAt, now =>
      sessionTtl = env.sessionTtlSeconds ∧ itemsTtl = env.itemsTtlSeconds ∧
        dueAt ≤ now + sessionTtl * 1000
    | _, _ => True
  replies
    | .dateNow, _, reply, now' => now' = reply
    | _, now, _, now' => now' = now

end PracticalMicroservice.Cart
