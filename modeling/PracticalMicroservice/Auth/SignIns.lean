import PracticalMicroservice.Auth.Guesses
import PracticalMicroservice.Auth.Reaper
import PracticalMicroservice.Foundations.Extensions

/-!
# Sessions and their sign-ins

An owner can see every session of the account, and looks in the login history for where each came
from. A login puts itself on record before it opens a session, a verification after. Sweeps take old
rows from the history, and a session that is refreshed lasts.
-/

namespace PracticalMicroservice.Auth

open Foundations (Pool)

/-- The account a command opens a session for, and the family it opens. -/
def opensFor : Command → Option (Nat × String)
  | .repository (.createRefreshToken input) => some (input.authUserId, input.familyId)
  | _ => none

/-- The event opens a family of an account. -/
def Opens (e : Event) (id : Nat) (familyId : String) : Prop :=
  opensFor e.command = some (id, familyId) ∧
    ∃ t ∈ e.after.db.tokens, t.id = e.before.db.nextKey

instance (e : Event) (id : Nat) (familyId : String) : Decidable (Opens e id familyId) :=
  inferInstanceAs (Decidable (_ ∧ _))

def recordsAttempt : Command → Bool
  | .repository (.recordLoginAttempt _) => true
  | _ => false

/-- The event wrote a row into the login history. -/
def Records (e : Event) (h : LoginHistory) : Prop :=
  recordsAttempt e.command = true ∧ h.id = e.before.db.nextKey ∧ h ∈ e.after.db.loginHistory

instance (e : Event) (h : LoginHistory) : Decidable (Records e h) :=
  inferInstanceAs (Decidable (_ ∧ _))

/-- The login history has a row, written by a request, of an account signing in. -/
def System.OnRecord (s : System) (thread id : Nat) : Prop :=
  ∃ e ∈ s.trace, e.thread = thread ∧ ∃ h ∈ s.world.db.loginHistory, Records e h ∧
    h.authUserId = some id ∧ h.success = true ∧ h.outcome = .SUCCESS

instance (s : System) (thread id : Nat) : Decidable (s.OnRecord thread id) :=
  inferInstanceAs (Decidable (∃ e ∈ _, _))

def Task.LogsIn : Task → Bool
  | .login _ _ _ => true
  | _ => false

def Task.Verifies : Task → Bool
  | .verifyEmail _ _ _ => true
  | _ => false

/-- The request is a verification that has yet to be answered. -/
def System.verifying (s : System) (thread : Nat) : Prop :=
  s.result thread = none ∧ (s.task thread).any Task.Verifies = true

instance (s : System) (thread : Nat) : Decidable (s.verifying thread) :=
  inferInstanceAs (Decidable (_ ∧ _))

/-- Every session there is was opened by a request that has its sign-in on record, or is a
verification still on its way there. -/
def SignInsOnRecord (s : System) : Prop :=
  ∀ t ∈ s.world.db.tokens, ∃ e ∈ s.trace, Opens e t.authUserId t.familyId ∧
    (s.OnRecord e.thread t.authUserId ∨ s.verifying e.thread)

instance (s : System) : Decidable (SignInsOnRecord s) :=
  inferInstanceAs (Decidable (∀ t ∈ s.world.db.tokens, ∃ e ∈ s.trace, _))

/-- The fate of a command that is answered with its result. -/
def Fate.isServed : Fate → Bool
  | .served => true
  | _ => false

def signs : Command → Bool
  | .signAccessToken _ => true
  | _ => false

/-- Only logins and verifications open sessions, and nothing fails a verification once it has opened
one. -/
def opensOnRecord (s : System) (thread : Nat) (fate : Fate) (command : Command) : Prop :=
  ((opensFor command).isSome = true → fate.isRefused = false → ∀ task ∈ s.task thread,
    task.LogsIn = true ∨ task.Verifies = true ∧ fate.isServed = true) ∧
  ∀ task ∈ s.task thread, task.Verifies = true →
    (signs command = true → fate.isServed = true) ∧
    (recordsAttempt command = true → fate.isRefused = false)

instance (s : System) (thread : Nat) (fate : Fate) (command : Command) :
    Decidable (opensOnRecord s thread fate command) := inferInstanceAs (Decidable (_ ∧ _))

/-! ## Beside the sweeps -/

/-- The requests, on the tables they share with the sweeps. -/
def Housekept.System.requests (s : Housekept.System) : Auth.System := s.over Pool.world

/-- What happens beside the sweeps. -/
def besideSweeps : Label → Housekept.Label
  | .spawn task => .spawn task
  | .call thread fate => .call thread fate
  | .move m => .move (.move m)

def SweepCommand.deletes : SweepCommand → Row → Bool
  | .deleteMany whose ids, row => whose.picks ids row
  | _, _ => false

/-- A request is done with, and no session it opened is left. -/
def System.Over (s : System) (thread : Nat) : Prop :=
  (s.result thread).isSome = true ∧ ∀ e ∈ s.trace, e.thread = thread →
    ∀ t ∈ s.world.db.tokens, ¬ Opens e t.authUserId t.familyId

instance (s : System) (thread : Nat) : Decidable (s.Over thread) :=
  inferInstanceAs (Decidable (_ ∧ _))

/-- A sign-in is only taken from the login history when the request that wrote it is over. -/
def sparesSignIns (s : Housekept.System) (fate : SweepFate) (command : SweepCommand) : Prop :=
  fate.isRefused = false → ∀ h ∈ s.tables.db.loginHistory, h.outcome = .SUCCESS →
    command.deletes (.history h) = true →
    ∀ e ∈ s.requests.trace, Records e h → s.requests.Over e.thread

instance (s : Housekept.System) (fate : SweepFate) (command : SweepCommand) :
    Decidable (sparesSignIns s fate command) := by
  unfold sparesSignIns
  infer_instance

/-- Sessions are opened on record, and stay on record as long as they are there. -/
def accountsForSessions (s : Housekept.System) : Housekept.Label → Prop
  | .spawn _ => True
  | .call thread fate => ∀ command ∈ s.nextCommand thread,
      opensOnRecord s.requests thread fate command
  | .move l => Pool.calls (fun _ _ fate command => sparesSignIns s fate command) s.world l

instance (s : Housekept.System) : DecidablePred (accountsForSessions s)
  | .spawn _ => .isTrue trivial
  | .call thread _ => inferInstanceAs (Decidable (∀ command ∈ s.nextCommand thread, _))
  | .move l => inferInstanceAs (Decidable
      (Pool.calls (fun _ _ fate command => sparesSignIns s fate command) s.world l))

end PracticalMicroservice.Auth
