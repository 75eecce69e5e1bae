import PracticalMicroservice.Email.Retention
import PracticalMicroservice.Foundations.Extensions

/-!
# From the outbox to the provider (`resend.provider.ts`)

The email service beside Resend. A request for a mail is answered, or no answer is heard: whether it
arrives all the same, and when, is left open. Resend is known by what it is asked and answers alone.
-/

namespace PracticalMicroservice.Email

open EmailDispatcher (outbound)
open Foundations (Machine Pool)

/-- The body of `POST /emails`. -/
structure ResendPayload where
  sender : String
  to_ : List String
  subject : String
  html : Option String
  text : Option String
  deriving DecidableEq, Repr

structure ResendRequest where
  /-- The header `Idempotency-Key`. -/
  idempotencyKey : Nat
  payload : ResendPayload
  deriving DecidableEq, Repr

/-- What is read of a response. -/
structure ResendResponse where
  status : Nat
  id : Option String := none
  name : Option String := none
  message : Option String := none
  statusText : String
  deriving DecidableEq, Repr

/-- Whether a status is worth trying again. -/
def isRetryableStatus (status : Nat) : Bool := status = 408 || status = 429 || status ≥ 500

namespace ResendProvider

def request (message : OutboundEmail) : ResendRequest where
  idempotencyKey := message.id
  payload :=
    { sender := message.sender
      to_ := [message.to_]
      subject := message.subject
      html := if message.bodyType = .HTML then some message.body else none
      text := if message.bodyType = .HTML then none else some message.body }

/-- The mail a response names, if it is a success. -/
def mailId? (response : ResendResponse) : Option String :=
  if 200 ≤ response.status ∧ response.status < 300 then response.id.filter (· ≠ "") else none

/-- `send`, once there is a response, or an error in its place; `none` is one without a message. -/
def send (reply : Except (Option String) ResendResponse) : SendOutcome :=
  match reply with
  | .error error =>
    let reason := error.getD "unknown error"
    .refused s!"Resend request failed: {reason}" true
  | .ok response =>
    match mailId? response with
    | some id => .accepted "resend" id
    | none =>
      let detail := (response.message.orElse fun _ => response.name).getD response.statusText
      .refused s!"Resend rejected the message ({response.status}): {detail}"
        (isRetryableStatus response.status)

end ResendProvider

/-! ## Resend -/

/-- A mail Resend has taken. -/
structure Mail where
  id : String
  request : ResendRequest
  deriving DecidableEq, Repr

structure Resend where
  State : Type
  /-- What Resend settles by itself: the id of a mail, whether a request is let through. -/
  Choice : Type
  /-- The mails it has taken. -/
  mails : State → List Mail
  /-- What a request that arrives at a time is answered, and what it leaves. -/
  post : Choice → Nat → ResendRequest → State → ResendResponse × State

/-- What the service relies on. -/
structure Resend.Documented (resend : Resend) : Prop where
  /-- A mail that is taken stays taken. -/
  keeps : ∀ choice now request state, ∀ mail ∈ resend.mails state,
    mail ∈ resend.mails (resend.post choice now request state).2
  /-- Nothing is taken but what is asked for. -/
  asked : ∀ choice now request state, ∀ mail ∈ resend.mails (resend.post choice now request state).2,
    mail ∈ resend.mails state ∨ mail.request = request
  /-- A success names a mail there is, taken under the key it was asked for. -/
  names : ∀ choice now request state id,
    ResendProvider.mailId? (resend.post choice now request state).1 = some id →
    ∃ mail ∈ resend.mails (resend.post choice now request state).2,
      mail.id = id ∧ mail.request.idempotencyKey = request.idempotencyKey

variable {resend : Resend}

/-- Resend, and what is on the way to it. -/
structure Wire (resend : Resend) where
  state : resend.State
  /-- The requests that may arrive yet, though nobody waits for them. -/
  underWay : List ResendRequest := []

namespace Wire

def mails (wire : Wire resend) : List Mail := resend.mails wire.state

def post (choice : resend.Choice) (now : Nat) (request : ResendRequest) (wire : Wire resend) :
    ResendResponse × Wire resend :=
  let (response, state) := resend.post choice now request wire.state
  (response, { wire with state })

/-- Nobody waits for a request any more. -/
def giveUp (request : ResendRequest) (wire : Wire resend) : Wire resend :=
  { wire with underWay := request :: wire.underWay }

end Wire

/-! ## The two side by side -/

structure Mailing (resend : Resend) where
  outbox : World
  wire : Wire resend

/-- What becomes of a command. -/
inductive MailFate (resend : Resend)
  | here (fate : Fate)
  /-- The request arrives, and its answer too. -/
  | posted (choice : resend.Choice)
  /-- Something on the way answers, and not with a mail. -/
  | answered (response : ResendResponse)
  /-- No answer is heard. -/
  | unheard (error : Option String)

inductive MailMove (resend : Resend)
  | here (move : Move)
  /-- A request arrives that nobody waits for. -/
  | late (request : ResendRequest) (choice : resend.Choice)

namespace Mailing

/-- What a delivery is told, and what it leaves. -/
def handOver (w : Mailing resend) (message : OutboundEmail) :
    MailFate resend → Option (SendOutcome × Wire resend)
  | .here _ => none
  | .posted choice =>
    let (response, wire) := w.wire.post choice w.outbox.now (ResendProvider.request message)
    some (ResendProvider.send (.ok response), wire)
  | .answered response =>
    if ResendProvider.mailId? response = none then
      some (ResendProvider.send (.ok response), w.wire.giveUp (ResendProvider.request message))
    else none
  | .unheard error =>
    some (ResendProvider.send (.error error), w.wire.giveUp (ResendProvider.request message))

/-- A command that does not concern Resend. -/
def performHere (thread : Nat) (fate : MailFate resend) (command : Command) (w : Mailing resend) :
    Option (command.Reply × Mailing resend) :=
  match fate with
  | .here fate =>
    (machine.perform thread fate command w.outbox).map
      fun (reply, outbox) => (reply, { w with outbox })
  | .posted _ | .answered _ | .unheard _ => none

def perform (thread : Nat) (fate : MailFate resend) :
    (command : Command) → Mailing resend → Option (command.Reply × Mailing resend)
  | .send message, w =>
    (w.handOver message fate).bind fun (outcome, wire) =>
      (machine.perform thread (.sending outcome) (.send message) w.outbox).map
        fun (reply, outbox) => (reply, { outbox, wire })
  | command, w => performHere thread fate command w

def move : MailMove resend → Mailing resend → Option (Mailing resend)
  | .here move, w => (World.move move w.outbox).map fun outbox => { w with outbox }
  | .late request choice, w =>
    if request ∈ w.wire.underWay then
      let wire := { w.wire with underWay := w.wire.underWay.erase request }
      some { w with wire := (wire.post choice w.outbox.now request).2 }
    else none

end Mailing

def mailMachine (resend : Resend) :
    Machine Command Command.Reply (Mailing resend) (MailFate resend) (MailMove resend) where
  perform := Mailing.perform
  move := Mailing.move

abbrev MailSystem (resend : Resend) := Pool Task Command Command.Reply Answer (Mailing resend)
abbrev MailLabel (resend : Resend) := Pool.Label Task (MailFate resend) (MailMove resend)

namespace MailSystem

/-- The email service alone. -/
def service (s : MailSystem resend) : System := s.over Mailing.outbox

/-- A delivery begins as in the service alone. -/
def Begins (env : Env) (s : MailSystem resend) : MailLabel resend → Prop
  | .spawn task => s.service.Begins env (.spawn task)
  | _ => True

instance (env : Env) (s : MailSystem resend) :
    (l : MailLabel resend) → Decidable (Begins env s l)
  | .spawn task => inferInstanceAs (Decidable (s.service.Begins env (.spawn task)))
  | .call _ _ | .move _ => .isTrue trivial

/-- One step of the two. -/
def step (env : Env) (s : MailSystem resend) (l : MailLabel resend) : Option (MailSystem resend) :=
  if Begins env s l then Pool.step (mailMachine resend) (Task.run env) s l else none

end MailSystem

/-! ## What is to come of it -/

/-- A row at some moment of a run. -/
def System.Seen (world : World) (s : System) (m : EmailMessage) : Prop :=
  m ∈ world.db.emailMessages ∨ ∃ e ∈ s.trace, m ∈ e.after.db.emailMessages

/-- The mail of a message, as the message was accepted. -/
def Mail.Carries (env : Env) (mail : Mail) (m : EmailMessage) : Prop :=
  mail.request = ResendProvider.request (outbound env m)

/-- What has come of a run from a world. -/
structure Posted (env : Env) (world : World) (s : MailSystem resend) : Prop where
  /-- What a request was answered with has been mailed, or it is in the outbox and not called sent. -/
  accepted : ∀ i result, s.result i = some (.enqueued (.ok result)) →
    (∃ mail ∈ s.world.wire.mails, mail.Carries env result.message) ∨
      ∃ row ∈ s.world.outbox.db.emailMessages, SameMessage result.message row ∧ row.status ≠ .SENT
  /-- What is called sent has been mailed, under the id on the row. -/
  sent : ∀ row ∈ s.world.outbox.db.emailMessages, row.status = .SENT →
    ∃ mail ∈ s.world.wire.mails, mail.Carries env row ∧ row.providerMessageId = some mail.id
  /-- Nothing is mailed but what was in the outbox. -/
  genuine : ∀ mail ∈ s.world.wire.mails, ∃ m, s.service.Seen world m ∧ mail.Carries env m
  /-- A key is never asked for with two contents, whoever repeats it. -/
  repeatable : ∀ mail ∈ s.world.wire.mails, ∀ request ∈ s.world.wire.underWay ++
      s.world.wire.mails.map (·.request),
    request.idempotencyKey = mail.request.idempotencyKey → request = mail.request

/-! ## What a delivery goes by -/

/-- A delivery hands over its own message, and records as sent what it was told is taken. -/
def HandsOver (env : Env) (task : Task) (past : Told) (command : Command) : Prop :=
  (∀ message, command = .send message →
    ∃ cycle index m, task = .deliver cycle index m ∧ message = outbound env m) ∧
  ∀ id provider providerMessageId now,
    command = .repository (.markSent id provider providerMessageId now) →
      ∃ cycle index m, task = .deliver cycle index m ∧ id = m.id ∧
        ⟨.send (outbound env m), .accepted provider providerMessageId⟩ ∈ past

end PracticalMicroservice.Email
