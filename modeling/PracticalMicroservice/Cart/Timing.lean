import PracticalMicroservice.Cart.Custody

/-!
# How long a critical section can take (`env.ts`, `redis.lock.ts`)

A lock lapses when its time is up, whether or not its holder is done. Commands to Redis take no time;
a call of inventory and a publish take at most as long as the configuration lets them.
-/

namespace PracticalMicroservice.Cart

open Foundations (Contract)

/-- The settings of `env.ts` that bound a section, in milliseconds and seconds. -/
structure Timeouts where
  INVENTORY_TIMEOUT_MS : Bounded 1 30000
  RABBITMQ_PUBLISH_TIMEOUT_MS : Bounded 1 30000
  CART_LOCK_TTL_MS : Bounded 1 120000
  CART_RELEASE_LOCK_SECONDS : Bounded 1 300

namespace Timeouts

theorem defaults_accepted : (1 ≤ 5000 ∧ 5000 ≤ 30000) ∧ (1 ≤ 15000 ∧ 15000 ≤ 120000) ∧
    1 ≤ 30 ∧ 30 ≤ 300 := by omega

/-- The schema's defaults. -/
def defaults : Timeouts where
  INVENTORY_TIMEOUT_MS := ⟨5000, defaults_accepted.1.1, defaults_accepted.1.2⟩
  RABBITMQ_PUBLISH_TIMEOUT_MS := ⟨5000, defaults_accepted.1.1, defaults_accepted.1.2⟩
  CART_LOCK_TTL_MS := ⟨15000, defaults_accepted.2.1.1, defaults_accepted.2.1.2⟩
  CART_RELEASE_LOCK_SECONDS := ⟨30, defaults_accepted.2.2.1, defaults_accepted.2.2.2⟩

variable (timeouts : Timeouts)

/-- The longest a command takes. -/
def cost : Command → Nat
  | .post _ _ => timeouts.INVENTORY_TIMEOUT_MS.value
  | .publish _ => timeouts.RABBITMQ_PUBLISH_TIMEOUT_MS.value
  | _ => 0

/-- The longest the dispatch of a release takes. -/
def dispatchCost (env : Env) : Nat :=
  match env.INVENTORY_DISPATCH_TRANSPORT with
  | .http => timeouts.INVENTORY_TIMEOUT_MS.value
  | .amqp => timeouts.RABBITMQ_PUBLISH_TIMEOUT_MS.value

/-- The longest a section takes: an update that reserves, releases, cannot be written and is taken
back, or a checkout that cannot reserve for the order and puts the hold back. -/
def longest (env : Env) : Nat :=
  max (2 * (timeouts.INVENTORY_TIMEOUT_MS.value + timeouts.dispatchCost env))
    (3 * timeouts.INVENTORY_TIMEOUT_MS.value)

/-- How long a lock lasts. -/
def ttl : LockKey → Nat
  | .writeLock _ => timeouts.CART_LOCK_TTL_MS.value
  | .releaseLock _ => timeouts.CART_RELEASE_LOCK_SECONDS.value * 1000

end Timeouts

/-! ## The system with its clock -/

/-- A state of the system, when each thread came to its next command, and when each lock lapses. -/
structure Timed where
  system : System
  since : Nat → Nat
  expiry : LockKey → Nat

namespace System

/-- A thread has work to do inside the critical section of a cart. -/
def working (s : System) (thread : Nat) (cart : SessionId) : Prop :=
  s.inSection thread cart ∧ (s.nextCommand thread).isSome

instance (s : System) (thread : Nat) (cart : SessionId) : Decidable (s.working thread cart) :=
  inferInstanceAs (Decidable (_ ∧ _))

end System

namespace Timed

variable (env : Env) (timeouts : Timeouts)

def now (s : Timed) : Nat := s.system.world.redis.now

def start (world : World) (others : String → Int) : Timed where
  system := .start world others []
  since := fun _ => world.redis.now
  expiry := fun _ => 0

/-- Time does not pass the end of the longest that the next command of a thread inside a section can
take, and a lock does not lapse before its time. -/
def permits (s : Timed) : Label → Prop
  | .tick ms => ∀ i < s.system.threads.length, (lockHeld (pastOf s.system.trace i)).isSome →
      ∀ command ∈ s.system.nextCommand i, s.now + ms ≤ s.since i + timeouts.cost command
  | .lapse key => s.expiry key ≤ s.now
  | _ => True

instance (s : Timed) : DecidablePred (s.permits timeouts)
  | .tick ms => inferInstanceAs (Decidable (∀ i < s.system.threads.length,
      (lockHeld (pastOf s.system.trace i)).isSome → ∀ command ∈ s.system.nextCommand i,
        s.now + ms ≤ s.since i + timeouts.cost command))
  | .lapse key => inferInstanceAs (Decidable (s.expiry key ≤ s.now))
  | .spawn _ | .notify _ | .call _ _ | .crash _ | .expire _ | .other _ _ | .consume _ _ =>
    .isTrue trivial

/-- The thread that a step brings to a next command. -/
def advanced (s : System) : Label → Option Nat
  | .spawn _ | .notify _ => some s.threads.length
  | .call i _ => some i
  | .crash _ | .lapse _ | .tick _ | .expire _ | .other _ _ | .consume _ _ => none

/-- A step of the system. A lock that is set lasts its time from now on. -/
def step (s : Timed) (l : Label) : Option Timed :=
  if s.permits timeouts l then
    (System.step env s.system l).map fun system =>
      { system
        since := fun i => if advanced s.system l = some i then s.now else s.since i
        expiry := fun key =>
          if s.system.world.redis.locks key = none ∧ system.world.redis.locks key ≠ none then
            s.now + timeouts.ttl key
          else s.expiry key }
  else none

/-- Whoever works inside a section still has the lock, and is alone there. -/
structure Exclusive (s : Timed) : Prop where
  unexpired : ∀ i cart, s.system.working i cart → s.now < s.expiry (.writeLock cart)
  alone : ∀ i j cart, s.system.working i cart → s.system.working j cart → i = j

end Timed

/-! ## The budget of a section -/

/-- What a call spends inside a section. The ghost state is the section, and the time left for it. -/
def budget (env : Env) (timeouts : Timeouts) :
    Contract Command Command.Reply (Option (SessionId × Nat)) where
  allows
    | .lockSet (.writeLock _) _, left => left = none
    | .lockRelease (.writeLock cart) _, left => ∃ ms, left = some (cart, ms)
    | command, left => ∀ section_ ∈ left, timeouts.cost command ≤ section_.2
  replies
    | .lockSet (.writeLock cart) _, left, reply, left' =>
      left' = if reply = some true then some (cart, timeouts.longest env) else left
    | .lockRelease (.writeLock _) _, _, _, left' => left' = none
    | command, left, _, left' =>
      left' = left.map fun section_ => (section_.1, section_.2 - timeouts.cost command)

end PracticalMicroservice.Cart
