import PracticalMicroservice.Auth.Enumeration
import PracticalMicroservice.Foundations.Tables

/-!
# Housekeeping (`auth.reaper.ts`), and tokens presented again

A sweep deletes a slice of the rows that have outlived their use, one table after the other. Any
number of sweeps run beside the requests, each of their statements a step of its own.

A token that was exchanged for another and comes back was stolen, from one end or the other, and
its family is to end. Housekeeping is not to make the service forget such a token.
-/

namespace PracticalMicroservice.Auth

open Foundations (Contract DatabaseError Fallible Machine Pool Program)

/-- `ReaperOptions`, the interval of the timer apart. -/
structure ReaperOptions where
  expiredGraceDays : Nat
  revokedRetentionDays : Nat
  verificationRetentionDays : Nat
  loginHistoryRetentionDays : Nat
  batchSize : Nat

def MS_PER_DAY : Nat := 24 * 60 * 60 * 1000

/-- The time so many days before. -/
def daysBefore (days now : Nat) : Nat := now - days * MS_PER_DAY

/-- The settings `env.ts` accepts, of those that bear on tokens: the bounds of each field, and what
`superRefine` adds. -/
structure EnvAccepted (env : Env) (options : ReaperOptions) : Prop where
  accessTtl : 1 ≤ env.ACCESS_TOKEN_TTL_MINUTES ∧ env.ACCESS_TOKEN_TTL_MINUTES ≤ 1440
  refreshTtl : 1 ≤ env.REFRESH_TOKEN_TTL_DAYS ∧ env.REFRESH_TOKEN_TTL_DAYS ≤ 365
  batchSize : 1 ≤ options.batchSize ∧ options.batchSize ≤ 50000
  expiredGrace : options.expiredGraceDays ≤ 365
  revokedRetention : options.revokedRetentionDays ≤ 365
  verificationRetention : options.verificationRetentionDays ≤ 365
  loginHistoryRetention : options.loginHistoryRetentionDays ≤ 3650
  /-- A session outlasts the access token it starts with. -/
  outlasts : env.ACCESS_TOKEN_TTL_MINUTES < env.REFRESH_TOKEN_TTL_DAYS * (60 * 24)
  /-- The record of a session cut short outlasts one that timed out. -/
  retained : options.expiredGraceDays ≤ options.revokedRetentionDays

/-- The `where` of a sweep's deletion. -/
inductive Purge
  | expiredTokens (expiredBefore : Nat)
  | revokedTokens (revokedBefore expiredBefore : Nat)
  | verifications (before : Nat)
  | loginHistory (before : Nat)
  deriving DecidableEq, Repr

namespace Purge

def fits : Purge → Row → Bool
  | expiredTokens expiredBefore, .token t => t.expiresAt < expiredBefore
  | revokedTokens revokedBefore expiredBefore, .token t =>
    t.revokedAt.any (· < revokedBefore) && expiredBefore ≤ t.expiresAt
  | verifications before, .verification v => v.status ≠ .PENDING && v.expiresAt < before
  | loginHistory before, .history h => h.loginAt < before
  | _, _ => false

/-- The row is of the table the deletion is about. -/
def table : Purge → Row → Bool
  | expiredTokens _, .token _ | revokedTokens _ _, .token _ => true
  | verifications _, .verification _ => true
  | loginHistory _, .history _ => true
  | _, _ => false

end Purge

/-- The statements of a sweep. -/
inductive SweepCommand
  | now
  | findMany (whose : Purge) (take : Nat)
  | deleteMany (whose : Purge) (ids : List Nat)
  deriving DecidableEq, Repr

def SweepCommand.Reply : SweepCommand → Type
  | now => Nat
  | findMany _ _ => Except AppError (List Nat)
  | deleteMany _ _ => Except AppError Nat

abbrev Sweeping (α : Type) := Fallible AppError SweepCommand SweepCommand.Reply α

namespace Sweeping

def call (command : SweepCommand) : Sweeping command.Reply := ExceptT.lift (Program.request command)

def unpack {α : Type} (result : Except AppError α) : Sweeping α := ExceptT.mk (pure result)

end Sweeping

namespace PrismaAuthRepository

/-- `deleteRefreshTokensWhere`, and its like for the other tables: selects up to `limit` matching
ids, then deletes exactly those rows. -/
def deleteWhere (whose : Purge) (limit : Nat) : Sweeping Nat := do
  let ids : List Nat ← Sweeping.unpack (← Sweeping.call (.findMany whose limit))
  if ids.length = 0 then return 0
  else Sweeping.unpack (← Sweeping.call (.deleteMany whose ids))

def purgeRefreshTokens (expiredBefore revokedBefore limit : Nat) : Sweeping (Nat × Nat) := do
  let expired ← deleteWhere (.expiredTokens expiredBefore) limit
  let revoked ← deleteWhere (.revokedTokens revokedBefore expiredBefore) limit
  return (expired, revoked)

def purgeVerifications (before limit : Nat) : Sweeping Nat := deleteWhere (.verifications before) limit

def purgeLoginHistory (before limit : Nat) : Sweeping Nat := deleteWhere (.loginHistory before) limit

end PrismaAuthRepository

/-- `ReapSummary`. -/
structure ReapSummary where
  expiredTokens : Nat
  revokedTokens : Nat
  verifications : Nat
  loginHistory : Nat
  deriving DecidableEq, Repr

namespace AuthReaper

/-- A sweep that a retention of zero days disables. -/
def unlessDisabled (days : Nat) (sweep : Sweeping Nat) : Sweeping Nat :=
  if days > 0 then sweep else return 0

/-- One sweep across every table with a retention policy. -/
def runOnce (options : ReaperOptions) : Sweeping ReapSummary := do
  let now : Nat ← Sweeping.call .now
  let tokens ← PrismaAuthRepository.purgeRefreshTokens
    (daysBefore options.expiredGraceDays now) (daysBefore options.revokedRetentionDays now)
    options.batchSize
  let verifications ← unlessDisabled options.verificationRetentionDays
    (PrismaAuthRepository.purgeVerifications
      (daysBefore options.verificationRetentionDays now) options.batchSize)
  let loginHistory ← unlessDisabled options.loginHistoryRetentionDays
    (PrismaAuthRepository.purgeLoginHistory
      (daysBefore options.loginHistoryRetentionDays now) options.batchSize)
  return { expiredTokens := tokens.1, revokedTokens := tokens.2, verifications, loginHistory }

end AuthReaper

/-! ## The statements on the tables -/

/-- The ids of some of the matching rows: all of them, or as many as may be taken. -/
def Database.selects (db : Database) (whose : Purge) (take : Nat) (ids : List Nat) : Prop :=
  ids.Nodup ∧ (∀ id ∈ ids, ∃ row ∈ db.rows, whose.fits row = true ∧ row.id = id) ∧
    ids.length = min take (db.rows.countP whose.fits)

instance (db : Database) (whose : Purge) (take : Nat) (ids : List Nat) :
    Decidable (db.selects whose take ids) := by
  unfold Database.selects
  infer_instance

/-- The row is among those a deletion is about. -/
def Purge.picks (whose : Purge) (ids : List Nat) (row : Row) : Bool :=
  whose.table row && decide (row.id ∈ ids)

def Database.delete (db : Database) (whose : Purge) (ids : List Nat) : Database :=
  { db with rows := db.rows.filter fun row => !whose.picks ids row }

/-- What becomes of a statement: a select that is served finds these ids. -/
inductive SweepFate
  | served (ids : List Nat)
  | refused (error : DatabaseError)
  | unanswered (error : DatabaseError)

/-- The fate of a statement that has no effect. -/
def SweepFate.isRefused : SweepFate → Bool
  | .refused _ => true
  | _ => false

/-- Performs a statement. -/
def World.sweep (fate : SweepFate) : (command : SweepCommand) → World →
    Option (command.Reply × World)
  | .now, w => some (w.now, w)
  | .findMany whose take, w =>
    match fate with
    | .served ids => if w.db.selects whose take ids then some (.ok ids, w) else none
    | .refused e | .unanswered e => some (.error (toAppError e), w)
  | .deleteMany whose ids, w =>
    match fate with
    | .served _ =>
      some (.ok (w.db.rows.countP (whose.picks ids)), { w with db := w.db.delete whose ids })
    | .refused e => some (.error (toAppError e), w)
    | .unanswered e => some (.error (toAppError e), { w with db := w.db.delete whose ids })

/-! ## Sweeps beside the requests -/

def reaper : Machine SweepCommand SweepCommand.Reply World SweepFate Move where
  perform _ fate command w := w.sweep fate command
  move := World.move

/-- The sweeps under way on the tables. -/
abbrev Sweeps := Pool Unit SweepCommand SweepCommand.Reply (Except AppError ReapSummary) World

abbrev SweepLabel := Pool.Label Unit SweepFate Move

def Sweeps.step (options : ReaperOptions) : Sweeps → SweepLabel → Option Sweeps :=
  Pool.step reaper fun _ => (AuthReaper.runOnce options).run

/-- The requests run on the tables the sweeps run on. -/
def housekept (env : Env) (options : ReaperOptions) :
    Machine Command Command.Reply Sweeps Fate SweepLabel where
  perform _ fate command s :=
    (World.perform env fate command s.world).map fun done => (done.1, { s with world := done.2 })
  move l s := s.step options l

namespace Housekept

abbrev System := Pool Task Command Command.Reply Outcome Sweeps
abbrev Label := Pool.Label Task Fate SweepLabel

def System.step (env : Env) (options : ReaperOptions) : System → Label → Option System :=
  Pool.step (housekept env options) (Task.run env)

/-- The tables, with no request and no sweep under way. -/
def System.start (w : World) : System := Pool.start (Pool.start w)

/-- The tables and the clock. -/
def System.tables (s : System) : World := s.world.world

def System.withTables (s : System) (w : World) : System :=
  { s with world := { s.world with world := w } }

end Housekept

/-! ## Tokens presented again -/

section

open Foundations (Ends KeyedTable runs)
open PrismaAuthRepository

/-- A request amid everything else that goes on: the others take any steps before each command but
its first. No call of the repository fails. -/
def amid (env : Env) (options : ReaperOptions) :
    Contract Command Command.Reply (Bool × Housekept.System) where
  allows _ _ := True
  replies command g reply g' := ∃ labels s fate w',
    runs (Housekept.System.step env options) g.2 labels = some s ∧ (g.1 = false → labels = []) ∧
    unhindered (fun _ => true) command fate = true ∧
    World.perform env fate command s.tables = some (reply, w') ∧ g' = (true, s.withTables w')

/-- The token, presented as a refresh token while other requests and sweeps go on, is answered as a
stolen one, when every token of its family is revoked. -/
def EndsFamily (env : Env) (options : ReaperOptions) (s : Housekept.System) (t : RefreshToken) :
    Prop :=
  ∀ token info, env.hashRefreshToken token = t.tokenHash →
    (∃ answer g, Ends (amid env options) (Task.run env (.refresh token info)) (false, s) answer g) ∧
    ∀ answer g, Ends (amid env options) (Task.run env (.refresh token info)) (false, s) answer g →
      answer = .error AuthService.reuseError ∧
      ∀ t' ∈ g.2.tables.db.tokens, t'.familyId = t.familyId → isLive t' = false

/-- The token may be used. -/
def Usable (w : World) (t : RefreshToken) : Prop := isLive t = true ∧ w.now < t.expiresAt

/-- Presenting the token would revoke nothing that may be used. -/
def Spent (env : Env) (w : World) (t : RefreshToken) : Prop :=
  ∀ token info answer w', env.hashRefreshToken token = t.tokenHash →
    Ends (unattended env fun _ => true) (Task.run env (.refresh token info)) w answer w' →
    ∀ t' ∈ w.db.tokens, Usable w t' → t' ∈ w'.db.tokens

/-- A sweep takes such a token at this time. -/
def ReaperOptions.takes (options : ReaperOptions) (now : Nat) (t : RefreshToken) : Bool :=
  t.expiresAt < daysBefore options.expiredGraceDays now ||
    t.revokedAt.any (· < daysBefore options.revokedRetentionDays now)

/-- No family with a token that may be used has a revoked one that a sweep takes. -/
def Spares (options : ReaperOptions) (w : World) : Prop :=
  ∀ t ∈ w.db.tokens, ∀ t' ∈ w.db.tokens, t'.familyId = t.familyId → Usable w t' →
    isLive t = false → options.takes w.now t = false

/-- No token outlives the lifetime tokens have: a live one counted from now, an exchanged one from
its exchange. -/
structure Lifelong (env : Env) (now : Nat) (t : RefreshToken) : Prop where
  live : isLive t = true → t.expiresAt ≤ now + env.refreshTokenTtlMs
  rotated : t.revokedReason = some .ROTATED →
    ∃ r, t.revokedAt = some r ∧ t.expiresAt ≤ r + env.refreshTokenTtlMs

/-- The table of tokens: unique keys and hashes, and no token outlives its lifetime. -/
structure WellKept (env : Env) (w : World) : Prop where
  keyed : KeyedTable RefreshToken.id w.db.nextKey w.db.tokens
  hashes : (w.db.tokens.map (·.tokenHash)).Nodup
  lifelong : ∀ t ∈ w.db.tokens, Lifelong env w.now t

/-- A step removed the token. -/
def Removed (s s' : Housekept.System) (t : RefreshToken) : Prop :=
  t ∈ s.tables.db.tokens ∧ ∀ t' ∈ s'.tables.db.tokens, t'.id ≠ t.id

end

end PracticalMicroservice.Auth
