import PracticalMicroservice.Email.Fencing

/-!
# Whose a claim is, and for how long

A cycle reads the clock, claims what is due, reads its claim back by worker and time, and delivers
the messages with so many runners. The claim is good for a fixed time from the reading of the clock;
how long the deliveries take depends on how many each runner gets. A deployment is paced when no
task exceeds its allowance and no runner waits.
-/

namespace PracticalMicroservice.Email

open Foundations (Pool)
open Inventory (jsLength)

/-- What `env.ts` accepts. -/
structure Env.Accepted (env : Env) : Prop where
  sender : 3 ≤ jsLength env.EMAIL_FROM ∧ jsLength env.EMAIL_FROM ≤ 320
  providerTimeout : 0 < env.EMAIL_PROVIDER_TIMEOUT_MS
  maxAttempts : 1 ≤ env.EMAIL_MAX_ATTEMPTS ∧ env.EMAIL_MAX_ATTEMPTS ≤ 50
  batchSize : 1 ≤ env.DISPATCHER_BATCH_SIZE ∧ env.DISPATCHER_BATCH_SIZE ≤ 500
  concurrency : 1 ≤ env.DISPATCHER_CONCURRENCY ∧ env.DISPATCHER_CONCURRENCY ≤ 50
  backoff : 0 < env.RETRY_BACKOFF_BASE_MS ∧ 0 < env.RETRY_BACKOFF_MAX_MS
  /-- Otherwise an in-flight send can be reclaimed and delivered twice. -/
  claimTimeout : env.EMAIL_PROVIDER_TIMEOUT_MS < env.DISPATCHER_CLAIM_TIMEOUT_MS

/-- How many deliveries in a row a runner can get from one batch. -/
def Env.rounds (env : Env) : Nat :=
  (env.DISPATCHER_BATCH_SIZE + env.DISPATCHER_CONCURRENCY - 1) / env.DISPATCHER_CONCURRENCY

/-! ## Paced runs -/

/-- The cycle a task delivers for. -/
def Task.cycle? : Task → Option Nat
  | deliver cycle _ _ => some cycle
  | _ => none

/-- How long a task may take: a cycle until it has its batch, and a delivery until it is done. -/
def Task.allowance (env : Env) (claimMs : Nat) : Task → Option Nat
  | runOnce _ => some claimMs
  | deliver _ _ _ => some env.EMAIL_PROVIDER_TIMEOUT_MS
  | _ => none

/-- The service, with the times at which its threads began. -/
structure Clocked where
  system : System
  began : List Nat

namespace Clocked

def start (world : World) : Clocked where
  system := Pool.start world
  began := []

def step (env : Env) (k : Clocked) (l : Label) : Option Clocked :=
  match l with
  | .spawn task => (k.system.step env (.spawn task)).map fun system =>
    { system, began := k.began ++ [k.system.world.now] }
  | l => (k.system.step env l).map fun system => { k with system }

/-- At a time, no thread that lives has exceeded its allowance. -/
def OnTime (env : Env) (claimMs : Nat) (k : Clocked) (now : Nat) : Prop :=
  ∀ i < k.system.threads.length, i ∉ k.system.world.stopped → (k.system.nextCommand i).isSome →
    ∀ task ∈ k.system.task i, ∀ allowance ∈ task.allowance env claimMs,
      ∀ began ∈ k.began[i]?, now ≤ began + allowance

/-- While a cycle has messages left, all its runners are at work. -/
def Busy (env : Env) (k : Clocked) : Prop :=
  ∀ cycle < k.system.threads.length, cycle ∉ k.system.world.stopped →
    k.system.cursor cycle < (k.system.batch cycle).length →
      env.DISPATCHER_CONCURRENCY ≤ k.system.inFlight cycle

/-- Time passes for a paced deployment; and a process dies as a whole. -/
def Paced (env : Env) (claimMs : Nat) (k : Clocked) : Label → Prop
  | .move (.tick ms) => k.OnTime env claimMs (k.system.world.now + ms) ∧ (0 < ms → k.Busy env)
  | .move (.stop thread) =>
    (k.system.task thread).any fun task => task.cycle?.all (· ∈ k.system.world.stopped)
  | _ => True

instance (env : Env) (claimMs : Nat) (k : Clocked) (now : Nat) :
    Decidable (k.OnTime env claimMs now) :=
  inferInstanceAs (Decidable (∀ i < k.system.threads.length, i ∉ k.system.world.stopped →
    (k.system.nextCommand i).isSome → ∀ task ∈ k.system.task i,
      ∀ allowance ∈ task.allowance env claimMs, ∀ began ∈ k.began[i]?, now ≤ began + allowance))

instance (env : Env) (k : Clocked) : Decidable (k.Busy env) :=
  inferInstanceAs (Decidable (∀ cycle < k.system.threads.length,
    cycle ∉ k.system.world.stopped → k.system.cursor cycle < (k.system.batch cycle).length →
      env.DISPATCHER_CONCURRENCY ≤ k.system.inFlight cycle))

instance (env : Env) (claimMs : Nat) (k : Clocked) : DecidablePred (k.Paced env claimMs)
  | .move (.tick ms) =>
    inferInstanceAs (Decidable (k.OnTime env claimMs (k.system.world.now + ms) ∧
      (0 < ms → k.Busy env)))
  | .move (.stop thread) =>
    inferInstanceAs (Decidable ((k.system.task thread).any fun task =>
      task.cycle?.all (· ∈ k.system.world.stopped)))
  | .spawn _ | .call _ _ => .isTrue trivial

end Clocked

/-! ## Claims told apart -/

/-- A claim was answered, or took a row. -/
def Stands (e : Event) : Prop :=
  e.command.claims ∧ ((claimed? e.told).isSome ∨ e.after.db ≠ e.before.db)

instance (e : Event) : Decidable (Stands e) := inferInstanceAs (Decidable (_ ∧ (_ ∨ _)))

namespace System

/-- A claim is the first of its worker at its time; and an operator's retry finds the row still as
it was when it was read. -/
def Apart (s : System) (_thread : Nat) (fate : Fate) : Command → Prop
  | .repository (.claimCandidates _ workerId now _) =>
    fate.takesEffect → ∀ e ∈ s.trace, e.command.lockedFor = (some workerId, some now) → ¬ Stands e
  | .repository (.requeue id _ _) =>
    fate.takesEffect → ∀ status ∈ s.world.db.status? id, status ∈ RETRYABLE_STATUSES
  | _ => True

instance (s : System) (thread : Nat) (fate : Fate) :
    (command : Command) → Decidable (s.Apart thread fate command)
  | .repository (.claimCandidates _ workerId now _) =>
    inferInstanceAs (Decidable (fate.takesEffect → ∀ e ∈ s.trace,
      e.command.lockedFor = (some workerId, some now) → ¬ Stands e))
  | .repository (.requeue id _ _) =>
    inferInstanceAs (Decidable
      (fate.takesEffect → ∀ status ∈ s.world.db.status? id, status ∈ RETRYABLE_STATUSES))
  | .repository (.insert _ _) | .repository (.findByIdempotencyKey _) | .repository (.findById _)
  | .repository (.findCandidates _ _ _) | .repository (.findClaimed _ _)
  | .repository (.markSent _ _ _ _) | .repository (.markForRetry _ _ _) | .repository (.markDead _ _)
  | .repository (.purgeSentBefore _) | .now | .random | .send _ => .isTrue trivial

/-- A cycle still has messages to deliver, or deliveries under way, in processes that live. -/
def Working (s : System) (cycle : Nat) : Prop :=
  ∃ i, i ∉ s.world.stopped ∧ s.pending i ≠ [] ∧
    (i = cycle ∨ ∃ task ∈ s.task i, task.deliversFor cycle = true)

end System

/-- The condition on the claims of a paced run. -/
def Clocked.Apart (k : Clocked) (l : Label) : Prop := Pool.calls System.Apart k.system l

instance (k : Clocked) : DecidablePred k.Apart :=
  fun l => inferInstanceAs (Decidable (Pool.calls System.Apart k.system l))

/-- Claims are exclusive. -/
structure Exclusive (env : Env) (s : System) : Prop where
  /-- What a cycle has it has claimed itself. -/
  own : ∀ cycle, ∀ message ∈ s.batch cycle, ∃ e ∈ s.trace, e.thread = cycle ∧
    ClaimsRow e message.id ∧ e.command.lockedFor = message.lockedFor
  /-- Everything a cycle has claimed it has, once it has read its claim back. -/
  whole : ∀ e ∈ s.trace, ∀ id, ClaimsRow e id → ∀ messages,
    s.result e.thread = some (.claimed (.ok messages)) →
    ∃ message ∈ messages, message.id = id ∧ message.lockedFor = e.command.lockedFor
  /-- No two cycles have one claim. -/
  once : ∀ cycle cycle', ∀ message ∈ s.batch cycle, ∀ message' ∈ s.batch cycle',
    message.id = message'.id → message.lockedFor = message'.lockedFor → cycle = cycle'
  /-- No message is being delivered, or left to be, in two places. -/
  alone : ∀ i, i ∉ s.world.stopped → ∀ j, j ∉ s.world.stopped → ∀ message ∈ s.pending i,
    ∀ message' ∈ s.pending j, message.id = message'.id → i = j
  /-- While a cycle works through its batch, none of its claims is taken over. -/
  kept : ∀ cycle, s.Working cycle → ∀ message ∈ s.batch cycle, Holds s.world.db message →
    ∀ l s' e, System.step env s l = some s' → s'.trace = e :: s.trace → ¬ ClaimsRow e message.id

end PracticalMicroservice.Email
