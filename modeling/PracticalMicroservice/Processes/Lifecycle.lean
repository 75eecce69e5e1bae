import PracticalMicroservice.Foundations.Runs

/-!
# The processes, from start to exit (`server.ts`, `dispatch.ts`)

A process serves requests, may run a loop of cycles beside them (`EmailDispatcher`, `AuthReaper`), and
has a database pool that both use. It is shut down by a signal, or by an error nobody caught. What
one step does is done between two turns of the event loop: a timer goes off, a promise settles and
what waits for it goes on, a connection closes. How long anything takes is left open.
-/

namespace PracticalMicroservice.Processes

/-! ## The loop of cycles (`start`, `stop`, `schedule` and `tick`) -/

structure PollingLoop where
  running : Bool := false
  /-- The timer that was set last. -/
  timer : Option Nat := none
  /-- The timers that are set and have not gone off. -/
  timers : List Nat := []
  /-- The cycle that was begun last. -/
  cycle : Option Nat := none
  /-- The cycles under way; a tick waits for each. -/
  inFlight : List Nat := []
  /-- The cycles that calls of `stop` wait for. -/
  stops : List Nat := []
  /-- Timers and cycles are numbered as they come. -/
  next : Nat := 0
  deriving DecidableEq, Repr

namespace PollingLoop

def schedule (loop : PollingLoop) : PollingLoop :=
  { loop with timer := some loop.next, timers := loop.next :: loop.timers, next := loop.next + 1 }

def start (loop : PollingLoop) : PollingLoop :=
  if loop.running then loop else { loop with running := true }.schedule

/-- Up to where it waits for the cycle, if that is under way. -/
def stop (loop : PollingLoop) : PollingLoop :=
  if loop.running then
    { loop with
      running := false
      timers := loop.timers.filter fun id => loop.timer ≠ some id
      stops := loop.stops ++ loop.cycle.toList.filter (· ∈ loop.inFlight) }
  else loop

/-- A timer goes off. -/
def tick (id : Nat) (loop : PollingLoop) : PollingLoop :=
  let loop := { loop with timers := loop.timers.filter (· ≠ id) }
  if loop.running then
    { loop with
      cycle := some loop.next, inFlight := loop.next :: loop.inFlight, next := loop.next + 1 }
  else loop

/-- A cycle ends; its tick goes on, and then the calls of `stop` that waited. -/
def settle (cycle : Nat) (loop : PollingLoop) : PollingLoop :=
  let loop :=
    { loop with
      inFlight := loop.inFlight.filter (· ≠ cycle), stops := loop.stops.filter (· ≠ cycle) }
  if loop.running then loop.schedule else loop

inductive Label
  | start
  | stop
  | fire (timer : Nat)
  | settle (cycle : Nat)
  deriving DecidableEq, Repr

def step (loop : PollingLoop) : Label → Option PollingLoop
  | .start => some loop.start
  | .stop => some loop.stop
  | .fire timer => if timer ∈ loop.timers then some (loop.tick timer) else none
  | .settle cycle => if cycle ∈ loop.inFlight then some (loop.settle cycle) else none

/-- The loop is not started again before it has stopped. -/
def Patient (loop : PollingLoop) : Label → Prop
  | .start => loop.stops = []
  | _ => True

instance : (loop : PollingLoop) → DecidablePred loop.Patient
  | loop, .start => inferInstanceAs (Decidable (loop.stops = []))
  | _, .stop | _, .fire _ | _, .settle _ => .isTrue trivial

/-- Nothing of the loop is left, and nothing will come of it. -/
def Idle (loop : PollingLoop) : Prop := loop.timers = [] ∧ loop.inFlight = []

end PollingLoop

/-! ### What the loop is for -/

/-- One cycle after another, until it is stopped. -/
inductive Mode
  | off
  /-- Until the next cycle. -/
  | waiting
  | working
  /-- Stopped, but for the cycle under way. -/
  | draining
  deriving DecidableEq, Repr

namespace Mode

def step : Mode → PollingLoop.Label → Option Mode
  | off, .start => some waiting
  | waiting, .start => some waiting
  | working, .start => some working
  | off, .stop => some off
  | waiting, .stop => some off
  | working, .stop => some draining
  | draining, .stop => some draining
  | waiting, .fire _ => some working
  | working, .settle _ => some waiting
  | draining, .settle _ => some off
  | _, _ => none

end Mode

/-- What there is of a loop in a mode. -/
inductive PollingLoop.InMode (loop : PollingLoop) : Mode → Prop
  | off (running : loop.running = false) (idle : loop.Idle) (stops : loop.stops = []) :
    loop.InMode .off
  | waiting (timer : Nat) (running : loop.running = true) (last : loop.timer = some timer)
    (timers : loop.timers = [timer]) (inFlight : loop.inFlight = []) (stops : loop.stops = []) :
    loop.InMode .waiting
  | working (cycle : Nat) (running : loop.running = true) (last : loop.cycle = some cycle)
    (timers : loop.timers = []) (inFlight : loop.inFlight = [cycle]) (stops : loop.stops = []) :
    loop.InMode .working
  | draining (cycle : Nat) (running : loop.running = false) (timers : loop.timers = [])
    (inFlight : loop.inFlight = [cycle]) (stops : loop.stops = [cycle]) : loop.InMode .draining

/-! ## A process -/

/-- What a process is made of. -/
structure Parts where
  server : Bool
  worker : Bool
  pool : Bool
  /-- There is a route that runs a cycle, beside those of the loop. -/
  dispatches : Bool := false

/-- `server.ts` of the auth service. -/
def workingServer : Parts where
  server := true
  worker := true
  pool := true

/-- `server.ts` of the email service, with its `POST /dispatch`. -/
def dispatchingServer : Parts where
  server := true
  worker := true
  pool := true
  dispatches := true

/-- `server.ts` of the user service and of the product service. -/
def plainServer : Parts where
  server := true
  worker := false
  pool := true

/-- `server.ts` of the gateway. -/
def gatewayServer : Parts where
  server := true
  worker := false
  pool := false

/-- `dispatch.ts` -/
def standaloneDispatcher : Parts where
  server := false
  worker := true
  pool := true

/-- How far the process is with its `shutdown`. -/
inductive Phase
  | serving
  /-- `server.close` has not called back. -/
  | closing
  /-- `worker.stop` has not returned. -/
  | stopping
  /-- `prisma.$disconnect` has not returned. -/
  | disconnecting
  | exited (code : Nat)
  deriving DecidableEq, Repr

structure Process where
  phase : Phase := .serving
  shuttingDown : Bool := false
  /-- The timer that forces the exit is set. -/
  forceExit : Bool := false
  listening : Bool
  /-- The connections that wait for a response. -/
  requests : Nat := 0
  /-- Those of them that wait for a cycle they have begun. -/
  dispatching : Nat := 0
  /-- The cycles begun so whose client has gone. -/
  unattended : Nat := 0
  connected : Bool
  loop : PollingLoop := {}
  deriving DecidableEq, Repr

inductive Event
  | request
  /-- A response has been sent, or the client has gone. -/
  | respond
  /-- A request that begins a cycle. -/
  | dispatch
  /-- Its cycle has ended, and the response has been sent. -/
  | dispatched
  /-- Its client goes, and the cycle goes on. -/
  | abandoned
  /-- Such a cycle has ended. -/
  | ended
  /-- Something happens to the loop. -/
  | timer (id : Nat)
  | settled (cycle : Nat)
  /-- `SIGTERM`, `SIGINT`, or an error or a rejection that nobody caught. -/
  | signal
  | closed (failed : Bool)
  | stopped
  | disconnected (failed : Bool)
  | timedOut
  | serverError
  deriving DecidableEq, Repr

/-- What ends of itself, and well. -/
def Event.Ends : Event → Prop
  | .respond | .dispatched | .ended | .settled _ | .closed false | .stopped | .disconnected false =>
    True
  | .request | .dispatch | .abandoned | .timer _ | .signal | .closed true | .disconnected true
  | .timedOut | .serverError => False

namespace Process

/-- `start`: the server listens, and the loop runs if it is enabled. -/
def boot (parts : Parts) (enabled : Bool) : Process where
  listening := parts.server
  connected := parts.pool
  loop := if parts.worker && enabled then PollingLoop.start {} else {}

def exit (code : Nat) (s : Process) : Process := { s with phase := .exited code }

def Exited (s : Process) : Prop := ∃ code, s.phase = .exited code

instance (s : Process) : Decidable s.Exited :=
  match h : s.phase with
  | .exited code => .isTrue ⟨code, h⟩
  | .serving | .closing | .stopping | .disconnecting =>
    .isFalse fun ⟨code, he⟩ => by rw [h] at he; cases he

/-- Where the shutdown goes on when nothing holds on to the database. -/
def disconnect (parts : Parts) (s : Process) : Process :=
  if parts.pool then { s with phase := .disconnecting, connected := false }
  else { s with forceExit := false }.exit 0

def stopWorker (parts : Parts) (s : Process) : Process :=
  if parts.worker then { s with phase := .stopping, loop := s.loop.stop } else s.disconnect parts

/-- A second signal changes nothing. -/
def shutdown (parts : Parts) (s : Process) : Process :=
  if s.shuttingDown then s
  else
    let s := { s with shuttingDown := true, forceExit := true }
    if parts.server then { s with phase := .closing, listening := false } else s.stopWorker parts

/-- A request can come in. A connection that is open may carry another while the server closes. -/
def Open (s : Process) : Prop := s.listening = true ∨ (s.phase = .closing ∧ 0 < s.requests)

instance (s : Process) : Decidable s.Open := inferInstanceAs (Decidable (_ ∨ _))

/-- What can happen to a process that has not exited. -/
def react (parts : Parts) (s : Process) : Event → Option Process
  | .request => if s.Open then some { s with requests := s.requests + 1 } else none
  | .respond =>
    if s.dispatching < s.requests then some { s with requests := s.requests - 1 } else none
  | .dispatch =>
    if parts.dispatches ∧ s.Open then
      some { s with requests := s.requests + 1, dispatching := s.dispatching + 1 }
    else none
  | .dispatched =>
    if 0 < s.dispatching then
      some { s with requests := s.requests - 1, dispatching := s.dispatching - 1 }
    else none
  | .abandoned =>
    if 0 < s.dispatching then
      some { s with
        requests := s.requests - 1
        dispatching := s.dispatching - 1
        unattended := s.unattended + 1 }
    else none
  | .ended => if 0 < s.unattended then some { s with unattended := s.unattended - 1 } else none
  | .timer id => (s.loop.step (.fire id)).map fun loop => { s with loop }
  | .settled cycle => (s.loop.step (.settle cycle)).map fun loop => { s with loop }
  | .signal => some (s.shutdown parts)
  | .closed failed =>
    if s.phase = .closing then
      if failed then some (s.exit 1)
      else if s.requests = 0 then some (s.stopWorker parts) else none
    else none
  | .stopped =>
    if s.phase = .stopping ∧ s.loop.stops = [] then some (s.disconnect parts) else none
  | .disconnected failed =>
    if s.phase = .disconnecting then
      if failed then some (s.exit 1) else some ({ s with forceExit := false }.exit 0)
    else none
  | .timedOut => if s.forceExit then some (s.exit 1) else none
  | .serverError => some (s.exit 1)

def step (parts : Parts) (s : Process) (e : Event) : Option Process :=
  if s.Exited then none else s.react parts e

/-- Nobody waits for a response, or for a cycle, and the loop has none under way. -/
structure Drained (s : Process) : Prop where
  listening : s.listening = false
  requests : s.requests = 0
  dispatching : s.dispatching = 0
  stopped : s.loop.running = false
  idle : s.loop.Idle

/-- How a process comes to its end. -/
structure Graceful (parts : Parts) (s : Process) : Prop where
  /-- Nobody loses the database who is still at work. -/
  drained : parts.pool = true → s.connected = false → s.Drained
  /-- Success is reported when nothing was cut off. -/
  success : s.phase = .exited 0 → s.Drained ∧ s.connected = false
  /-- A shutdown that stalls can be forced to an end. -/
  forced : s.shuttingDown = true → ¬ s.Exited → s.forceExit = true
  /-- The loop has one cycle at a time. -/
  single : s.loop.inFlight.length ≤ 1

/-- Once all that is under way has ended, the process exits with success. -/
def CanFinish (parts : Parts) (s : Process) : Prop :=
  ∃ s', Foundations.Reaches (Process.step parts) Event.Ends s s' ∧ s'.phase = .exited 0

end Process

end PracticalMicroservice.Processes
