import PracticalMicroservice.Auth.History

/-!
# Guesses at a one-time code

A wrong guess is compared in one step of its request and counted in a later one. The ceiling is on
the guesses compared, over the whole life of the code.
-/

namespace PracticalMicroservice.Auth

/-- The event compares a guess with a code. -/
def Compares (e : Event) (id : Nat) : Prop := ∃ v guess, e.command = .safeEqual v guess ∧ v.id = id

/-- What a request is told when its guess at a code is wrong. -/
def wrongGuess (id : Nat) : ((command : Command) × command.Reply) → Bool
  | ⟨.safeEqual v _, false⟩ => v.id = id
  | _ => false

/-- The wrong guesses a code has been compared with. -/
def wrongGuesses (trace : List Event) (id : Nat) : Nat := trace.countP fun e => wrongGuess id e.told

/-- The command counts a wrong guess at a code. -/
def countsGuess (id : Nat) : Command → Bool
  | .repository (.registerVerificationAttempt id' _) => id' = id
  | _ => false

/-- The wrong guesses at a code that are compared and not counted yet. -/
def System.uncounted (s : System) (id : Nat) : Nat :=
  s.threads.countP fun t => t.next.any (countsGuess id)

/-- The event consumes a code. -/
def Redeems (e : Event) (id : Nat) : Prop :=
  (e.before.db.verification? id).map (·.status) = some .PENDING ∧
    (e.after.db.verification? id).map (·.status) = some .VERIFIED

/-- No code is compared with more wrong guesses than it allows, and a guess compared with a code
that has had as many is rejected, right or wrong. -/
structure Ceiling (s : System) : Prop where
  bounded : ∀ v ∈ s.world.db.verifications, wrongGuesses s.trace v.id ≤ v.maxAttempts
  rejected : ∀ newer e older, s.trace = newer ++ e :: older → ∀ v ∈ s.world.db.verifications,
    Compares e v.id → v.maxAttempts ≤ wrongGuesses older v.id →
    (∀ a, s.result e.thread ≠ some (.ok a)) ∧
      ∀ e' ∈ s.trace, e'.thread = e.thread → ¬ Redeems e' v.id

/-- The fate of a command that has no effect. -/
def Fate.isRefused : Fate → Bool
  | .refused _ => true
  | _ => false

/-- The code a command compares, and the guess. -/
def guessOf : Command → Option (Verification × String)
  | .safeEqual v guess => some (v, guess)
  | _ => none

/-- A guess is compared while no other guess at its code is under way, that is while the row it read
still has the attempts stored and every wrong guess compared is counted, or the guess is right and
the code no longer pending; and no count of a wrong guess is lost. -/
def heedsCeiling (s : System) (_thread : Nat) (fate : Fate) (command : Command) : Prop :=
  (∀ g ∈ guessOf command, ∀ row ∈ s.world.db.verifications, row.id = g.1.id →
    row.attempts = g.1.attempts ∧ s.uncounted row.id = 0 ∨
      g.1.codeHash = g.2 ∧ row.status ≠ .PENDING) ∧
  ∀ row ∈ s.world.db.verifications, countsGuess row.id command = true → fate.isRefused = false

instance (s : System) (thread : Nat) (fate : Fate) (command : Command) :
    Decidable (heedsCeiling s thread fate command) := inferInstanceAs (Decidable (_ ∧ _))

end PracticalMicroservice.Auth
