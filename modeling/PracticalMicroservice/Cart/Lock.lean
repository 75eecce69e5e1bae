import PracticalMicroservice.Cart.Repository
import PracticalMicroservice.Foundations.Courses

/-!
# Any number of callers of the locks (`redis.lock.ts`)

Each call of `RedisLock` is a thread of its own, and a lock may lapse between any two commands. Every
command is answered, apart from those of the work and the script that gives a lock back.
-/

namespace PracticalMicroservice.Cart

open Foundations (Contract Ensured Follows History Machine Pool Program)

/-! ## The calls -/

/-- How code that takes locks through `RedisLock` draws its tokens: a lock is only set to a token of
the thread's own, and to none that a lock was set to before. The ghost state is the tokens left. -/
def minting : Contract Command Command.Reply (List String) where
  allows
    | .lockSet _ token, fresh => token ∈ fresh
    | _, _ => True
  replies
    | .randomUUID, fresh, token, fresh' => fresh' = token :: fresh
    | .lockSet _ token, fresh, taken, fresh' =>
      fresh' = if taken = some false then fresh else fresh.filter (· ≠ token)
    | _, fresh, _, fresh' => fresh' = fresh

/-- What runs under a lock. It may take further locks, with tokens of its own. -/
structure Work (α : Type) where
  run : Promise α
  mints : ∀ fresh, Ensured minting run (fun _ _ => True) (fun _ _ => True) fresh

inductive LockCall (α : Type)
  | acquire (key : LockKey) (retries : Nat)
  | release (key : LockKey) (token : String)
  | withLock (key : LockKey) (retries : Nat) (work : Work α)

/-- What a call resolves with. -/
inductive LockReturn (α : Type)
  | acquired (token : Option String)
  | released
  | worked (result : Option α)
  deriving DecidableEq

def LockCall.run {α : Type} : LockCall α → Promise (LockReturn α)
  | acquire key retries => return .acquired (← RedisLock.acquire key retries)
  | release key token => do
    RedisLock.release key token
    return .released
  | withLock key retries work => return .worked (← RedisLock.withLock key retries work.run)

/-- The code of a call, as a program that resolves or rejects. -/
def LockCall.program {α : Type} (call : LockCall α) :
    Program Command Command.Reply (Except Exception (LockReturn α)) := call.run.run

/-! ## The system -/

/-- What happens besides the commands. -/
inductive Lapse
  | lapse (key : LockKey)
  | tick (ms : Nat)

/-- `SET key token NX` is answered; anything may happen to the other commands. -/
def Answered (fate : Fate) : Command → Prop
  | .lockSet _ _ => fate = .delivered
  | _ => True

instance (fate : Fate) : DecidablePred (Answered fate)
  | .lockSet _ _ => inferInstanceAs (Decidable (fate = .delivered))
  | .randomUUID | .dateNow | .lockRelease _ _ | .hgetall _ | .cartCommit _ _ _ _ _ _
  | .cartTouch _ _ _ _ | .startSession _ _ | .cartTake _ _ | .cartFinish _ | .cartDiscard _
  | .zrem _ | .zadd _ _ | .dueBefore _ _ | .pttl _ | .post _ _ | .publish _ => .isTrue trivial

def lockMachine : Machine Command Command.Reply World Fate Lapse where
  perform _ fate command w := if Answered fate command then some (w.perform fate command) else none
  move
    | .lapse key, w => some { w with redis := w.redis.setLock key none }
    | .tick ms, w => some { w with redis := { w.redis with now := w.redis.now + ms } }

abbrev LockPool (α : Type) :=
  Pool (LockCall α) Command Command.Reply (Except Exception (LockReturn α)) World

abbrev LockEvent := Foundations.Event Command Command.Reply World

/-! ## Who has a lock -/

/-- The token a lock was set to at an event, if it was. -/
def takenBy (key : LockKey) (e : LockEvent) : Option String :=
  match e.told with
  | ⟨.lockSet k token, some true⟩ => if k = key then some token else none
  | _ => none

/-- The last event at which a lock was taken. -/
def lastTaker (key : LockKey) (trace : List LockEvent) : Option LockEvent :=
  trace.find? fun e => (takenBy key e).isSome

/-- The acquisitions whose token the lock is set to. -/
def owners {α : Type} (s : LockPool α) (key : LockKey) : List LockEvent :=
  s.trace.filter fun e => (takenBy key e).isSome && takenBy key e == s.world.redis.locks key

/-! ## What a call goes through -/

/-- An attempt that found the lock taken. -/
def refusal (key : LockKey) (token : String) : (command : Command) × command.Reply :=
  ⟨.lockSet key token, some false⟩

/-- An attempt that took it. -/
def grant (key : LockKey) (token : String) : (command : Command) × command.Reply :=
  ⟨.lockSet key token, some true⟩

def mint (token : String) : (command : Command) × command.Reply := ⟨.randomUUID, token⟩

/-- An `acquire`, from its first command to its last, oldest first: every attempt refused, or one
granted after fewer refusals than there are attempts. -/
inductive Acquired (key : LockKey) (retries : Nat) :
    History Command Command.Reply → Option String → Prop
  | refused (token : String) :
    Acquired key retries (mint token :: List.replicate (retries + 1) (refusal key token)) none
  | granted (token : String) (n : Nat) (hn : n ≤ retries) :
    Acquired key retries
      (mint token :: (List.replicate n (refusal key token) ++ [grant key token])) (some token)

/-- A `withLock`: the work is skipped when the lock was not acquired. Otherwise it is run to its end,
then the lock is given back under the token it was acquired with, and the call comes to what the
work came to. -/
inductive Worked {α : Type} (key : LockKey) (retries : Nat) (work : Promise α) :
    History Command Command.Reply → Except Exception (Option α) → Prop
  | skipped {told : History Command Command.Reply} (h : Acquired key retries told none) :
    Worked key retries work told (.ok none)
  | released {told during : History Command Command.Reply} {token : String}
    {result : Except Exception α} (h : Acquired key retries told (some token))
    (hwork : Follows work.run during (.done result)) (reply : Option Unit) :
    Worked key retries work (told ++ (during ++ [⟨.lockRelease key token, reply⟩]))
      (result.map some)

/-- What a call that has returned went through. -/
inductive LockCall.Course {α : Type} :
    LockCall α → History Command Command.Reply → Except Exception (LockReturn α) → Prop
  | acquire {key : LockKey} {retries : Nat} {told : History Command Command.Reply}
    {token : Option String} (h : Acquired key retries told token) :
    Course (.acquire key retries) told (.ok (.acquired token))
  | release {key : LockKey} {token : String} (reply : Option Unit) :
    Course (.release key token) [⟨.lockRelease key token, reply⟩] (.ok .released)
  | withLock {key : LockKey} {retries : Nat} {work : Work α}
    {told : History Command Command.Reply} {result : Except Exception (Option α)}
    (h : Worked key retries work.run told result) :
    Course (.withLock key retries work) told (result.map .worked)

/-- What the locks promise of a state. -/
structure LockSafe {α : Type} (s : LockPool α) : Prop where
  /-- A lock that is taken has one owner, the last that took it. -/
  owner : ∀ key, (s.world.redis.locks key = none ∧ owners s key = []) ∨
    ∃ e, lastTaker key s.trace = some e ∧ s.world.redis.locks key = takenBy key e ∧
      owners s key = [e]
  /-- A release leaves every other lock, and one that was last taken by another, where it is. -/
  release : ∀ newer e older key token, s.trace = newer ++ e :: older →
    e.command = .lockRelease key token →
    (∀ other ≠ key, e.after.redis.locks other = e.before.redis.locks other) ∧
      ((lastTaker key older).bind (takenBy key) ≠ some token → e.after = e.before)
  /-- A call that has returned went through what its code says. -/
  course : ∀ i call result, s.task i = some call → s.result i = some result →
    call.Course (Foundations.pastOf i s.trace).reverse result
  /-- A `withLock` whose work has ended, one way or the other, gives the lock back next. -/
  exit : ∀ i key retries work told during token result,
    s.task i = some (.withLock key retries work) →
    (Foundations.pastOf i s.trace).reverse = told ++ during → Acquired key retries told (some token) →
    Follows work.run.run during (.done result) → s.nextCommand i = some (.lockRelease key token)

end PracticalMicroservice.Cart
