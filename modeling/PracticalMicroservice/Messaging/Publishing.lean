import PracticalMicroservice.Messaging.RabbitMqClient

/-!
# Publishing (`publish`, `channelBy`)

The calls of `publish` beside the client they are made on, and the clock. What follows a promise runs
in the turn the promise settles in, and a timer fires when it is due: the clock goes on only when
neither is left to happen.
-/

namespace PracticalMicroservice.Messaging

/-- What a `publish` rejects with. -/
inductive PublishError
  | brokerUnavailable (message : String)
  /-- Thrown by amqplib's `publish` on a channel that is closing or closed. -/
  | illegalOperation
  deriving DecidableEq, Repr

inductive Outcome
  | resolved
  | rejected (error : PublishError)
  deriving DecidableEq, Repr

/-- Where a call has got to. -/
inductive Stage
  /-- In `channelBy`, as one of the waiters. -/
  | waiting
  /-- In `channelBy`, woken. -/
  | woken
  /-- `channelBy` has returned the channel of a connection. -/
  | granted (c : Nat)
  /-- The message has been handed to the library. -/
  | confirming
  | settled (outcome : Outcome) (time : Nat)
  deriving DecidableEq, Repr

/-- The channel a call is about to hand its message to. -/
def Stage.channel : Stage → Option Nat
  | granted c => some c
  | _ => none

structure PublishCall where
  began : Nat
  deadline : Nat
  stage : Stage
  /-- When its timer is due, while one is armed. -/
  timer : Option Nat
  /-- The connection on whose channel its callback waits for the confirm. -/
  callback : Option Nat
  /-- Whether the broker has confirmed its message. -/
  confirmed : Bool
  deriving DecidableEq, Repr

namespace PublishCall

/-- It resolves or rejects, and clears its timer. -/
def settle (call : PublishCall) (outcome : Outcome) (now : Nat) : PublishCall :=
  { call with stage := .settled outcome now, timer := none }

def fails (call : PublishCall) (message : String) (now : Nat) : PublishCall :=
  call.settle (.rejected (.brokerUnavailable message)) now

/-- `waiter.resolve()` -/
def wake (call : PublishCall) : PublishCall := { call with stage := .woken, timer := none }

/-- What a confirm makes of the promise, if it has not settled before. -/
def confirm (error : Option String) : Outcome :=
  error.elim .resolved fun message =>
    .rejected (.brokerUnavailable ("broker did not confirm: " ++ message))

/-- The callback of `channel.publish`: on a `basic.ack`, on a `basic.nack`, or as the channel closes. -/
def answer (call : PublishCall) (error : Option String) (now : Nat) : PublishCall :=
  let heard :=
    { call with timer := none, callback := none, confirmed := call.confirmed || error.isNone }
  if call.stage = .confirming then heard.settle (confirm error) now else heard

/-- The executor: the timer is armed first, then the message handed over. -/
def hand (call : PublishCall) (c : Nat) (sendable : Bool) (now : Nat) : PublishCall :=
  let armed := { call with timer := some (now + (call.deadline - now)), callback := some c }
  if sendable then { armed with stage := .confirming }
  else { armed with stage := .settled (.rejected .illegalOperation) now }

/-- A timer fires. -/
def expire (timeout : Nat) (call : PublishCall) (now : Nat) : PublishCall :=
  match call.stage with
  | .waiting =>
    call.fails ("RabbitMQ is unreachable (no connection within " ++ toString timeout ++ "ms)") now
  | .confirming => call.fails ("no publisher confirm within " ++ toString timeout ++ "ms") now
  | _ => { call with timer := none }

/-- Nothing of the call is left to happen before a time. -/
def Quiet (call : PublishCall) (time : Nat) : Prop :=
  call.stage ≠ .woken ∧ call.stage.channel = none ∧ ∀ due ∈ call.timer, time ≤ due

instance (call : PublishCall) (time : Nat) : Decidable (call.Quiet time) :=
  inferInstanceAs (Decidable (_ ∧ _ ∧ ∀ due ∈ call.timer, time ≤ due))

end PublishCall

/-- The channel of a connection takes messages. -/
def Broker.Sendable (b : Broker) (c : Nat) : Prop :=
  (b.links c).connection = .up ∧ (b.links c).channel = .opened

instance (b : Broker) : DecidablePred b.Sendable := fun _ => inferInstanceAs (Decidable (_ ∧ _))

structure PublishSystem where
  core : ClientSystem
  now : Nat
  calls : List PublishCall
  /-- The calls that wait in `channelBy`. -/
  waiters : List Nat

namespace PublishSystem

def initial (url : Bool) : PublishSystem where
  core := .initial url
  now := 0
  calls := []
  waiters := []

/-- A call as it is when `publish` first awaits. -/
def begins (timeout : Nat) (s : PublishSystem) (stage : Stage) (timer : Option Nat) : PublishCall where
  began := s.now
  deadline := s.now + timeout
  stage
  timer
  callback := none
  confirmed := false

def unavailable (s : PublishSystem) (message : String) : Stage :=
  .settled (.rejected (.brokerUnavailable message)) s.now

/-- `publish`, and `channelBy` up to its `await`. -/
def publish (timeout : Nat) (s : PublishSystem) : PublishSystem :=
  let add (stage : Stage) := { s with calls := s.calls ++ [s.begins timeout stage none] }
  if s.core.client.state = .disabled then
    add (s.unavailable "RabbitMQ is not configured; set RABBITMQ_URL")
  else
    match s.core.client.channel with
    | some c => add (.granted c)
    | none =>
      if s.core.client.state = .closed then add (s.unavailable "RabbitMQ client is closed")
      else
        { s with
          calls := s.calls ++ [s.begins timeout .waiting (some (s.now + timeout))]
          waiters := s.waiters ++ [s.calls.length] }

/-- One call changes. -/
def update (s : PublishSystem) (k : Nat) (call : PublishCall) : PublishSystem :=
  { s with calls := s.calls.set k call }

/-- `for (const waiter of this.waiters.splice(0))` -/
def eachWaiter (s : PublishSystem) (f : PublishCall → PublishCall) : PublishSystem :=
  { s with
    calls := s.calls.mapIdx fun k call => if k ∈ s.waiters then f call else call
    waiters := [] }

/-- `channelBy` goes on, woken. -/
def resume (s : PublishSystem) (k : Nat) (call : PublishCall) : PublishSystem :=
  match s.core.client.channel with
  | some c => s.update k { call with stage := .granted c }
  | none => s.update k (call.fails "RabbitMQ connection was lost again" s.now)

/-- The channel of a connection closes: the callbacks that still wait there are called. -/
def closes (s : PublishSystem) (c : Nat) : PublishSystem :=
  { s with calls := s.calls.map fun call =>
      if call.callback = some c then call.answer (some "channel closed") s.now else call }

/-! ## Runs -/

inductive Label
  /-- What happens to the client and its connections. -/
  | core (l : ClientSystem.Label)
  | publish
  | resume (k : Nat)
  | hand (k : Nat)
  /-- The broker confirms a message. -/
  | ack (k : Nat)
  | nack (k : Nat)
  | expire (k : Nat)
  | tick (ms : Nat)
  deriving DecidableEq, Repr

/-- What a step of the client does to the calls. -/
def spread (s s' : PublishSystem) : ClientSystem.Label → PublishSystem
  | .goOn i =>
    if (s.core.adopting i).isSome ∧ s.core.client.state ≠ .closed then
      s'.eachWaiter PublishCall.wake
    else s'
  | .shutdown =>
    if s.core.client.state = .disabled then s'
    else s'.eachWaiter fun call => call.fails "RabbitMQ client is closed" s.now
  | .channelCloses c | .connectionCloses c => s'.closes c
  | _ => s'

/-- The broker answers for a message it was sent. -/
def hears (s : PublishSystem) (k : Nat) (error : Option String) : Option PublishSystem :=
  match s.calls[k]? with
  | none => none
  | some call =>
    match call.callback with
    | none => none
    | some c => if s.core.broker.Sendable c then some (s.update k (call.answer error s.now)) else none

def step (timeout : Nat) (s : PublishSystem) : Label → Option PublishSystem
  | .core l => (s.core.step l).map fun core => s.spread { s with core } l
  | .publish => some (s.publish timeout)
  | .resume k =>
    match s.calls[k]? with
    | none => none
    | some call => if call.stage = .woken then some (s.resume k call) else none
  | .hand k =>
    match s.calls[k]? with
    | none => none
    | some call => call.stage.channel.map fun c =>
      s.update k (call.hand c (s.core.broker.Sendable c) s.now)
  | .ack k => s.hears k none
  | .nack k => s.hears k (some "message nacked")
  | .expire k =>
    match s.calls[k]? with
    | none => none
    | some call =>
      match call.timer with
      | none => none
      | some due =>
        if due ≤ s.now then
          some { s.update k (call.expire timeout s.now) with waiters := s.waiters.erase k }
        else none
  | .tick ms =>
    if ∀ call ∈ s.calls, call.Quiet (s.now + ms) then some { s with now := s.now + ms } else none

/-- A message is handed to a channel only while that takes messages. -/
def HandsOver (s : PublishSystem) : Label → Prop
  | .hand k => ∀ call ∈ s.calls[k]?, ∀ c ∈ call.stage.channel, s.core.broker.Sendable c
  | _ => True

instance (s : PublishSystem) : DecidablePred s.HandsOver
  | .hand k => inferInstanceAs
      (Decidable (∀ call ∈ s.calls[k]?, ∀ c ∈ call.stage.channel, s.core.broker.Sendable c))
  | .core _ | .publish | .resume _ | .ack _ | .nack _ | .expire _ | .tick _ => .isTrue trivial

/-- What `publish` promises of a call. -/
structure Keeps (timeout : Nat) (s : PublishSystem) (k : Nat) (call : PublishCall) : Prop where
  /-- It settles in time. -/
  inTime : ∀ outcome time, call.stage = .settled outcome time → time ≤ call.began + timeout
  pending : (∀ outcome time, call.stage ≠ .settled outcome time) → s.now ≤ call.began + timeout
  confirmed : ∀ time, call.stage = .settled .resolved time → call.confirmed = true
  typed : ∀ error time, call.stage = .settled (.rejected error) time →
    ∃ message, error = .brokerUnavailable message
  /-- Nothing of it remains. -/
  clean : ∀ outcome time, call.stage = .settled outcome time → k ∉ s.waiters ∧ call.timer = none

def Promises (timeout : Nat) (s : PublishSystem) : Prop :=
  ∀ k call, s.calls[k]? = some call → s.Keeps timeout k call

/-- Something of a call is left to happen, or time goes on. -/
def GoesOn (timeout : Nat) (s : PublishSystem) : Prop :=
  (∃ k, (s.step timeout (.resume k)).isSome ∨ (s.step timeout (.hand k)).isSome ∨
    (s.step timeout (.expire k)).isSome) ∨ (s.step timeout (.tick 1)).isSome

end PublishSystem

end PracticalMicroservice.Messaging
