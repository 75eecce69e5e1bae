import PracticalMicroservice.Email.Dispatcher
import PracticalMicroservice.Foundations.Runs

/-!
# The deliveries of a cycle (`mapWithConcurrency`)

The runners share one cursor. A runner goes through its loop until it awaits a call of the worker, and
nothing else happens meanwhile; which call completes next and which runner goes on next is open.
-/

namespace PracticalMicroservice.Email

variable {T R : Type}

/-- A call of the worker, with its result once it has completed. -/
structure WorkerCall (T R : Type) where
  item : T
  result : Option R := none
  deriving DecidableEq, Repr

/-- Where a runner's loop has got to. -/
inductive Runner
  | looping
  /-- At `results[index] = await worker(item)`, for the call of that number. -/
  | awaiting (index call : Nat)
  | returned
  deriving DecidableEq, Repr

/-- The variables of `mapWithConcurrency`, its runners, and the calls in order of starting. -/
structure Mapping (T R : Type) where
  cursor : Nat
  /-- The holes of `new Array(items.length)` are `none`. -/
  results : List (Option R)
  runners : List Runner
  calls : List (WorkerCall T R)
  deriving DecidableEq, Repr

/-- Where the cursor stands when the loop next has an item, and the index and the item. -/
def nextItem : List (Option T) → Nat → Nat × Option (Nat × T)
  | [], cursor => (cursor, none)
  | none :: rest, cursor => nextItem rest (cursor + 1)
  | some item :: _, cursor => (cursor + 1, some (cursor, item))

namespace Mapping

/-- `run`, from the head of a runner's loop to its next `await`. -/
def run (items : List (Option T)) (s : Mapping T R) (i : Nat) : Mapping T R :=
  match nextItem (items.drop s.cursor) s.cursor with
  | (cursor, none) => { s with cursor, runners := s.runners.set i .returned }
  | (cursor, some (index, item)) =>
    { s with
      cursor
      runners := s.runners.set i (.awaiting index s.calls.length)
      calls := s.calls ++ [{ item }] }

/-- The runners before the first of them is called. -/
def init (width length : Nat) : Mapping T R where
  cursor := 0
  results := List.replicate length none
  runners := List.replicate width .looping
  calls := []

/-- `Array.from({ length: Math.min(limit, items.length) }, () => run())`. -/
def start (limit : Nat) (items : List (Option T)) : Mapping T R :=
  let width := min limit items.length
  (List.range width).foldl (run items) (init width items.length)

inductive Label (R : Type)
  /-- A call of the worker completes. -/
  | completes (call : Nat) (result : R)
  /-- A runner goes on, the call it awaits having completed. -/
  | resumes (runner : Nat)
  deriving DecidableEq, Repr

/-- The result of a call, if it was made and has completed. -/
def resultOf (s : Mapping T R) (call : Nat) : Option R := s.calls[call]?.bind (·.result)

/-- `results[index] = …`, and the runner is back at the head of its loop. -/
def store (s : Mapping T R) (i index : Nat) (result : R) : Mapping T R :=
  { s with
    results := s.results.set index (some result)
    runners := s.runners.set i .looping }

def step (items : List (Option T)) (s : Mapping T R) : Label R → Option (Mapping T R)
  | .completes call result =>
    match s.calls[call]? with
    | some { item, result := none } =>
      some { s with calls := s.calls.set call { item, result } }
    | _ => none
  | .resumes i =>
    match s.runners[i]? with
    | some (.awaiting index call) => (s.resultOf call).map fun result =>
      run items (s.store i index result) i
    | _ => none

/-- What `Promise.all` waits for. -/
def returned (s : Mapping T R) : Option (List (Option R)) :=
  if s.runners.all (· = .returned) then some s.results else none

/-- The calls that were made and have not completed. -/
def inFlight (s : Mapping T R) : List Nat :=
  (List.range s.calls.length).filter fun call => (s.resultOf call).isNone

/-- Every item is handed out once, in its turn, and its result is returned at its index. -/
structure Serves (items : List T) (limit : Nat) (s : Mapping T R) : Prop where
  inTurn : s.calls.map (·.item) = items.take s.calls.length
  bounded : s.inFlight.length ≤ limit
  goesOn : s.returned = none →
    s.inFlight ≠ [] ∨ ∃ i, (s.step (items.map some) (.resumes i)).isSome = true
  complete : ∀ results, s.returned = some results →
    s.calls.map (·.item) = items ∧ results = s.calls.map (·.result) ∧
      ∀ result ∈ results, result.isSome = true

end Mapping

/-- Three items on two runners, the second call completing first. -/
def threeOnTwo : List (Mapping.Label Nat) :=
  [.completes 1 20, .resumes 1, .completes 0 10, .completes 2 30, .resumes 0, .resumes 1]

def threeServed : Mapping Nat Nat where
  cursor := 3
  results := [some 10, some 20, some 30]
  runners := [.returned, .returned]
  calls := [⟨1, some 10⟩, ⟨2, some 20⟩, ⟨3, some 30⟩]

/-! ## The summary of a cycle -/

/-- `DispatchSummary`. -/
structure DispatchSummary where
  claimed : Nat
  sent : Nat
  retrying : Nat
  dead : Nat
  deriving DecidableEq, Repr

namespace EmailDispatcher

/-- How `runOnce` ends. -/
def summary (claimed : List EmailMessage) (outcomes : List (Option DeliveryOutcome)) :
    DispatchSummary where
  claimed := claimed.length
  sent := (outcomes.filter (· = some .sent)).length
  retrying := (outcomes.filter (· = some .retrying)).length
  dead := (outcomes.filter (· = some .dead)).length

/-- What `runOnce` has its deliveries done by. -/
abbrev deliveries (env : Env) (claimed : List EmailMessage) : Mapping EmailMessage DeliveryOutcome :=
  Mapping.start env.DISPATCHER_CONCURRENCY (claimed.map some)

end EmailDispatcher

/-- A summary counts each claimed message once, as what became of it. -/
structure DispatchSummary.Counts (claimed : List EmailMessage)
    (calls : List (WorkerCall EmailMessage DeliveryOutcome)) (summary : DispatchSummary) : Prop where
  claimed : summary.claimed = claimed.length
  total : summary.sent + summary.retrying + summary.dead = summary.claimed
  sent : summary.sent = calls.countP (·.result = some .sent)
  retrying : summary.retrying = calls.countP (·.result = some .retrying)
  dead : summary.dead = calls.countP (·.result = some .dead)

end PracticalMicroservice.Email
