import PracticalMicroservice.Auth.Accesses
import PracticalMicroservice.Foundations.Undertakings

/-!
# The requests, their transactions side by side

The same requests, with each transaction under READ COMMITTED: a call of the repository is made, its
statements access the tables one row after another, and its reply reaches the service; in between,
any other request may go on.
-/

namespace PracticalMicroservice.Auth

open Foundations (Access Accesses DatabaseError Discipline History Machine Pool Program Session Slot
  Traffic Undertaking Unended Versions pastOf)

/-- What a request does, piece by piece. -/
inductive Piece
  /-- A call of the repository is made, and told the clock. -/
  | called (call : Call)
  | access (a : Access Row)
  /-- The reply to a call reaches the service. -/
  | replied (call : Call) (result : Except DatabaseError call.Result)
  /-- A command that is no call of the repository. -/
  | other (command : Command)

abbrev Piece.Reply : Piece → Type
  | called _ => Except DatabaseError Nat
  | access a => a.Reply
  | replied call _ => Except AppError call.Result
  | other command => command.Reply

def Piece.request (piece : Piece) : Program Piece Piece.Reply piece.Reply := Program.request piece

/-- The accesses of a call's transaction. -/
def accessesOf (call : Call) (now : Nat) :
    Program Piece Piece.Reply (Except DatabaseError call.Result) :=
  (Session.transact (call.transaction now)).interpret fun a => Piece.request (.access a)

/-- What a call does, once it has been made or not. -/
def serveCall (call : Call) :
    Except DatabaseError Nat → Program Piece Piece.Reply (Except AppError call.Result)
  | .error e => Piece.request (.replied call (.error e))
  | .ok now => do
    let result ← accessesOf call now
    Piece.request (.replied call result)

def piecesOf : (command : Command) → Program Piece Piece.Reply command.Reply
  | .repository call => do
    let made : Except DatabaseError Nat ← Piece.request (.called call)
    serveCall call made
  | command => Piece.request (.other command)

abbrev PieceCode := Program Piece Piece.Reply Outcome

def Task.pieces (env : Env) (task : Task) : PieceCode := (task.run env).interpret piecesOf

structure SharedWorld where
  tables : Versions Row
  now : Nat
  draws : Nat
  signed : List AccessTokenClaims

namespace SharedWorld

/-- The world as it would be if nothing were under way. -/
def settled (w : SharedWorld) : World where
  db := { rows := w.tables.rows, nextKey := w.tables.nextKey }
  now := w.now
  draws := w.draws
  signed := w.signed

end SharedWorld

/-- What becomes of a piece, and the order an update visits its rows in. -/
structure PieceFate where
  fate : Fate := .served
  order : List Nat := []

namespace Piece

def perform (env : Env) (thread : Nat) (fate : PieceFate) :
    (piece : Piece) → SharedWorld → Option (piece.Reply × SharedWorld)
  | .called _, w =>
    match fate.fate with
    | .served => some (.ok w.now, w)
    | .refused e => some (.error e, w)
    | _ => none
  | .access a, w =>
    (w.tables.perform thread fate.order a).map fun (reply, tables) => (reply, { w with tables })
  | .replied _ result, w =>
    match fate.fate with
    | .served => some (result.mapError toAppError, w)
    | .unanswered e => some (.error (toAppError e), w)
    | _ => none
  | .other (.repository _), _ => none
  | .other command, w =>
    (w.settled.perform env fate.fate command).map fun (reply, world) =>
      (reply, { w with now := world.now, draws := world.draws, signed := world.signed })

end Piece

/-- The status of an account set on its row, once no transaction holds it. -/
def setStatus (id : Nat) (status : AuthUserStatus) (slot : Slot Row) : Slot Row :=
  { slot with committed := slot.committed.map fun row =>
      if Row.isUser (·.id = id) row then Row.onUser ({ · with status }) row else row }

def SharedWorld.move : Move → SharedWorld → Option SharedWorld
  | .tick ms, w => some { w with now := w.now + ms }
  | .setStatus id status, w =>
    if w.tables.slots.any fun slot =>
        slot.written.isSome && slot.versions.any (Row.isUser (·.id = id)) then none
    else some { w with tables := { w.tables with slots := w.tables.slots.map (setStatus id status) } }

def interleaving (env : Env) : Machine Piece Piece.Reply SharedWorld PieceFate Move where
  perform := Piece.perform env
  move := SharedWorld.move

/-- The requests under way. -/
abbrev Interleaved := Pool Task Piece Piece.Reply Outcome SharedWorld

namespace Interleaved

abbrev Label := Pool.Label Task PieceFate Move
abbrev Event := Foundations.Event Piece Piece.Reply SharedWorld

def step (env : Env) : Interleaved → Label → Option Interleaved :=
  Pool.step (interleaving env) (Task.pieces env)

end Interleaved

/-! ## What the trace tells of the transactions -/

abbrev Transacting := Undertaking Row (Call × Nat)

/-- The transaction of a thread after one of its events. -/
def Transacting.after (u : Option Transacting) : Interleaved.Event → Option Transacting
  | ⟨_, .called call, .ok now, before, _⟩ => some ⟨(call, now), before.tables, []⟩
  | ⟨_, .access a, reply, _, _⟩ => u.map (Traffic.push · a reply)
  | ⟨_, .replied _ _, _, _, _⟩ => none
  | _ => u

/-- The transactions under way. -/
def underway : List Interleaved.Event → Nat → Option Transacting
  | [], _ => none
  | e :: trace, i =>
    if e.thread = i then Transacting.after (underway trace i) e else underway trace i

/-- The transactions that have committed, newest first. -/
def committed : List Interleaved.Event → List Transacting
  | [] => []
  | ⟨thread, .access .commit, _, _, _⟩ :: trace =>
    (underway trace thread).toList ++ committed trace
  | _ :: trace => committed trace

def Interleaved.traffic (s : Interleaved) : Traffic Row (Call × Nat) where
  tables := s.world.tables
  under := underway s.trace
  done := committed s.trace

/-! ## What a request has been told, piece by piece -/

/-- What a request has done and found, newest first. -/
abbrev Pieces := History Piece Piece.Reply

/-- What the service has been told. -/
def toldBy : Pieces → Told
  | [] => []
  | ⟨.replied call _, reply⟩ :: past => ⟨.repository call, reply⟩ :: toldBy past
  | ⟨.other command, reply⟩ :: past => ⟨command, reply⟩ :: toldBy past
  | ⟨.called _, _⟩ :: past => toldBy past
  | ⟨.access _, _⟩ :: past => toldBy past

/-- The call that is under way, and its accesses. -/
def openCall : Pieces → Option ((Call × Nat) × Accesses Row)
  | [] => none
  | ⟨.called call, .ok now⟩ :: _ => some ((call, now), [])
  | ⟨.called _, .error _⟩ :: past => openCall past
  | ⟨.access a, reply⟩ :: past => (openCall past).map fun u => (u.1, ⟨a, reply⟩ :: u.2)
  | ⟨.replied _ _, _⟩ :: _ => none
  | ⟨.other _, _⟩ :: past => openCall past

/-- When a request may do a piece. -/
def Permits (env : Env) (task : Task) (past : Pieces) : Piece → Prop
  | .called call => openCall past = none ∧ Justified env task (toldBy past) (.repository call)
  | .access a => ∃ u, openCall past = some u ∧ Unended u.2 ∧ Fits u.1 u.2 a
  | .replied call result =>
    (∀ u, openCall past = some u → ¬ Unended u.2) ∧
      ∀ r, result = .ok r → ∃ now made, openCall past = some ((call, now), made) ∧
        Answers made call r
  | .other command => Justified env task (toldBy past) command

/-- What a piece can come to. -/
def Credible : (piece : Piece) → piece.Reply → Prop
  | .called _, _ => True
  | .access a, reply => a.Sound reply
  | .replied _ result, reply =>
    reply = result.mapError toAppError ∨ ∃ e, reply = .error (toAppError e)
  | .other command, reply => Plausible command reply

/-- A row the service has been told of. -/
def Told.Read (past : Told) : Row → Prop
  | .user u => past.Found u
  | .token t => ∃ hash, past.Heard (.repository (.findRefreshTokenByHash hash)) (.ok (some t))
  | _ => False

/-! ## What the transactions keep to -/

/-- An operator sets the status of an account, and leaves everything else about the row. -/
def StatusChanges (slot slot' : Slot Row) : Prop :=
  slot' = slot ∨ ∃ (u : AuthUser) (status : AuthUserStatus), slot.committed = some (.user u) ∧
    slot' = { slot with committed := some (.user { u with status }) }

/-- The calls access what fits them, and what a condition lets them. -/
def discipline (ok : Traffic Row (Call × Nat) → Nat → Transacting → Access Row → Prop) :
    Discipline Row (Call × Nat) RowKey where
  key := Row.key
  number := RowKey.id
  needs task := task.1.needs
  allows c i u a := Fits u.task u.made a ∧ ok c i u a
  changes := StatusChanges

/-- The access a request makes next meets a condition. -/
def AccessMeets (ok : Traffic Row (Call × Nat) → Nat → Transacting → Access Row → Prop)
    (s : Interleaved) (i : Nat) : Piece → Prop
  | .access a => ∀ u ∈ underway s.trace i, ok (Interleaved.traffic s) i u a
  | _ => True

instance (ok : Traffic Row (Call × Nat) → Nat → Transacting → Access Row → Prop)
    [∀ c i u, DecidablePred (ok c i u)] (s : Interleaved) (i : Nat) :
    DecidablePred (AccessMeets ok s i)
  | .access a => inferInstanceAs (Decidable (∀ u ∈ underway s.trace i, ok (Interleaved.traffic s) i u a))
  | .called _ | .replied _ _ | .other _ => .isTrue trivial

/-- Every access of the requests meets a condition. -/
def heeding (ok : Traffic Row (Call × Nat) → Nat → Transacting → Access Row → Prop) :
    Interleaved → Interleaved.Label → Prop :=
  Pool.calls fun s i _ piece => AccessMeets ok s i piece

instance (ok : Traffic Row (Call × Nat) → Nat → Transacting → Access Row → Prop)
    [∀ c i u, DecidablePred (ok c i u)] (s : Interleaved) : DecidablePred (heeding ok s) :=
  inferInstanceAs (DecidablePred (Pool.calls (fun s i _ piece => AccessMeets ok s i piece) s))

/-- The tables with nothing under way, as the database keeps them: ids are handed out once. -/
structure AtRest (v : Versions Row) : Prop where
  quiet : ∀ slot ∈ v.slots, slot.written = none
  distinct : (v.rows.map Row.id).Nodup
  numbered : ∀ row ∈ v.rows, row.id < v.nextKey

/-! ## One transaction at a time -/

/-- A world with nothing under way. -/
def World.shared (w : World) : SharedWorld where
  tables := { slots := w.db.rows.map fun row => ⟨some row, none⟩, nextKey := w.db.nextKey }
  now := w.now
  draws := w.draws
  signed := w.signed

/-- A call whose transaction, should it fail, has handed out no id by then. -/
def KeepsKeys (s : System) : Command → Prop
  | .repository call =>
    (s.world.db.atomically (call.transaction s.world.now)).2.nextKey =
      (s.world.db.run (call.transaction s.world.now)).2.nextKey
  | _ => True

instance (s : System) : DecidablePred (KeepsKeys s)
  | .repository call => inferInstanceAs (Decidable
      ((s.world.db.atomically (call.transaction s.world.now)).2.nextKey =
        (s.world.db.run (call.transaction s.world.now)).2.nextKey))
  | .now | .randomUUID | .randomToken | .generateCode | .hashPassword _ | .verifyPassword _ _
  | .safeEqual _ _ | .signAccessToken _ | .verifyAccessToken _ | .enqueue _ _ _ | .createProfile _
  | .findByAuthUserId _ => .isTrue trivial

/-- No transaction that fails takes an insert back. -/
def keepingKeys : System → Label → Prop := Pool.calls fun s _ _ command => KeepsKeys s command

instance (s : System) : DecidablePred (keepingKeys s) :=
  inferInstanceAs (DecidablePred (Pool.calls (fun s _ _ command => KeepsKeys s command) s))

/-- Nothing is under way, and the requests are where they are when every call is one step. -/
structure Mirrors (p : Interleaved) (s : System) : Prop where
  quiet : ∀ slot ∈ p.world.tables.slots, slot.written = none
  world : p.world.settled = s.world
  threads : p.threads = s.threads.map fun t => ⟨t.task, t.program.interpret piecesOf⟩

/-- A request goes on only while no other is in the middle of a call, and whatever else happens
comes between the calls. -/
def oneAtATime (p : Interleaved) : Interleaved.Label → Prop
  | .spawn _ => True
  | .call i _ => ∀ j, j ≠ i → underway p.trace j = none
  | .move _ => ∀ j, underway p.trace j = none

/-! ## Runs, piece by piece -/

/-- The next pieces of a request, every one served. -/
def piecewise (thread pieces : Nat) : List Interleaved.Label :=
  List.replicate pieces (.call thread {})

/-- A request takes the snapshot of an update. -/
def aiming (thread : Nat) (order : List Nat) : Interleaved.Label := .call thread { order }

end PracticalMicroservice.Auth
