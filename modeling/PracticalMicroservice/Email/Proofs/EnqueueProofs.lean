import PracticalMicroservice.Email.Proofs.OutboxProofs

/-!
# Proofs: the requests, phase by phase

Where a request stands is a phase; each access and the reply to it lead to the next. The program of
a request keeps to its phases, whatever it is told that the database can tell it.
-/

namespace PracticalMicroservice.Email

open Foundations (Access Contract DatabaseError Ensured Fallible Meets Session Stated Transaction
  ensured_bind ensured_pure meets_bind meets_transact stated_bind stated_create
  stated_findMany)

/-! ## Phases -/

inductive Phase
  /-- The key is to be looked up. -/
  | looking
  /-- The message is to be written. -/
  | drafting
  /-- Its key is. -/
  | keying (m : EmailMessage)
  | committing (m : EmailMessage)
  /-- The key was taken, and the message is to be taken back. -/
  | losing (m : EmailMessage)
  | lookingAgain
  /-- The message of a key is to be read. -/
  | found (record : IdempotencyKey)
  /-- The lookup is to be ended. -/
  | closing (record : IdempotencyKey) (m : EmailMessage)
  | ended (result : Except AppError EnqueueResult)

section Phases

variable (env : Env) (r : SendRequest)

def SendRequest.record? : Option IdempotencyRecord :=
  EmailService.idempotencyRecord (fingerprint env r.properties) r.idempotencyKey

def SendRequest.draft : NewEmailRecord where
  recipient := r.input.recipient
  subject := r.input.subject
  body := r.input.body
  bodyType := r.input.bodyType
  source := r.input.source
  maxAttempts := env.EMAIL_MAX_ATTEMPTS

/-- What a request is answered with that finds its key taken. -/
def SendRequest.replay (record : IdempotencyKey) (m : EmailMessage) :
    Except AppError EnqueueResult :=
  if record.requestFingerprint = fingerprint env r.properties then
    .ok { message := m, replayed := true }
  else .error (.ConflictError ("Idempotency-Key '" ++ r.idempotencyKey.getD "undefined" ++
    "' was already used for a different message"))

namespace Phase

def start : Phase := if (r.record? env).isSome then looking else drafting

def command : Phase → Option (Access Row)
  | looking | lookingAgain =>
    (r.record? env).map fun record => .select (Row.isKey (·.key = record.key))
  | drafting => some (.insert fun id => .message (Outbox.newMessage r.at_ (r.draft env) id))
  | keying m => (r.record? env).map fun record => .insert fun _ => .key (Outbox.newKey record m)
  | found record => some (.select (Row.isMessage (·.id = record.emailMessageId)))
  | committing _ | closing _ _ => some .commit
  | losing _ => some .rollback
  | ended _ => none

/-- Where a lookup leads. -/
def lookedUp (absent : Option Phase) (rows : List Row) : Option Phase :=
  match rows.filterMap Row.key? with
  | [] => absent
  | record :: _ => some (found record)

/-- Where a reply leads, if it is one the database can give there. -/
def after : Phase → (a : Access Row) → a.Reply → Option Phase
  | looking, .select _, rows => lookedUp (some drafting) rows
  | lookingAgain, .select _, rows => lookedUp none rows
  | found record, .select _, rows =>
    match rows.filterMap Row.message? with
    | [] => none
    | m :: _ => some (closing record m)
  | drafting, .insert _, .ok (.message m) =>
    some (if (r.record? env).isSome then keying m else committing m)
  | keying m, .insert _, .ok _ => some (committing m)
  | keying m, .insert _, .error (.P2002 _) => some (losing m)
  | committing m, .commit, _ => some (ended (.ok { message := m, replayed := false }))
  | closing record m, .commit, _ => some (ended (r.replay env record m))
  | losing _, .rollback, _ => some lookingAgain
  | _, _, _ => none

end Phase

end Phases

/-- A request in a phase. -/
structure Turn where
  request : SendRequest
  phase : Phase

def turns (env : Env) : Contract (Access Row) Access.Reply (Option Turn) where
  allows a g := ∃ t ∈ g, t.phase.command env t.request = some a
  replies a g reply g' := ∃ t ∈ g, ∃ phase, t.phase.after env t.request a reply = some phase ∧
    g' = some { t with phase }

/-! ## The program of a request -/

section Meeting

variable {env : Env} {r : SendRequest} {α : Type}

/-- The turn of a request. -/
abbrev turn (r : SendRequest) (phase : Phase) : Option Turn := some { request := r, phase }

theorem allows_iff {phase : Phase} {a : Access Row} :
    (turns env).allows a (turn r phase) ↔ phase.command env r = some a := by
  refine ⟨fun ⟨t, ht, hc⟩ => ?_, fun hc => ⟨_, rfl, hc⟩⟩
  obtain rfl := Option.some.inj ht
  exact hc

theorem replies_iff {phase : Phase} {a : Access Row} {reply : a.Reply} {g : Option Turn} :
    (turns env).replies a (turn r phase) reply g ↔
      ∃ next, phase.after env r a reply = some next ∧ g = turn r next := by
  refine ⟨fun ⟨t, ht, next, hn, hg⟩ => ?_, fun ⟨next, hn, hg⟩ => ⟨_, rfl, next, hn, hg⟩⟩
  obtain rfl := Option.some.inj ht
  exact ⟨next, hn, hg⟩

/-- What a lookup finds, and where it leads. -/
def Looked (r : SendRequest) (absent : Option Phase) (found : Option (EmailMessage × String))
    (g : Option Turn) : Prop :=
  (found = none ∧ ∃ phase ∈ absent, g = turn r phase) ∨
    ∃ record m, found = some (m, record.requestFingerprint) ∧ g = turn r (.closing record m)

theorem stated_findRecord {record : IdempotencyRecord} (phase : Phase) (absent : Option Phase)
    (hc : phase.command env r = some (.select (Row.isKey (·.key = record.key))))
    (ha : ∀ rows, phase.after env r (.select (Row.isKey (·.key = record.key))) rows =
      Phase.lookedUp absent rows) :
    Stated (turns env) (Outbox.findRecord record.key) (Looked r absent) (fun _ _ => False)
      (turn r phase) := by
  unfold Outbox.findRecord
  rw [stated_bind, stated_findMany]
  refine ⟨allows_iff.mpr hc, fun rows g hg => ?_⟩
  obtain ⟨next, hnext, rfl⟩ := replies_iff.mp hg
  rw [ha] at hnext
  unfold Phase.lookedUp at hnext
  cases hrows : rows.filterMap Row.key? with
  | nil =>
    rw [hrows] at hnext
    exact .inl ⟨rfl, next, hnext, rfl⟩
  | cons key more =>
    rw [hrows] at hnext
    obtain rfl := Option.some.inj hnext
    dsimp only
    rw [stated_bind, stated_findMany]
    refine ⟨allows_iff.mpr rfl, fun rows' g hg => ?_⟩
    obtain ⟨next, hnext, rfl⟩ := replies_iff.mp hg
    simp only [Phase.after] at hnext
    cases hmessages : rows'.filterMap Row.message? with
    | nil =>
      rw [hmessages] at hnext
      cases hnext
    | cons m more' =>
      rw [hmessages] at hnext
      obtain rfl := Option.some.inj hnext
      exact .inr ⟨key, m, rfl, rfl⟩

/-- What the transaction of a request returns before its commit. -/
def Drafted (r : SendRequest) (outcome : EnqueueOutcome) (g : Option Turn) : Prop :=
  (∃ m, outcome.message = m ∧ outcome.replayed = false ∧ g = turn r (.committing m)) ∨
    ∃ record m, outcome = ⟨m, true, some record.requestFingerprint⟩ ∧ g = turn r (.closing record m)

/-- And what it throws before its rollback. -/
def Lost (env : Env) (r : SendRequest) (e : DatabaseError) (g : Option Turn) : Prop :=
  (toAppError e).statusCode = 409 ∧ (r.record? env).isSome = true ∧ ∃ m, g = turn r (.losing m)

theorem stated_existing :
    Stated (turns env) (Outbox.existing (r.record? env)) (Looked r (some .drafting))
      (fun _ _ => False) (turn r (Phase.start env r)) := by
  unfold Phase.start
  cases hr : r.record? env with
  | none => exact .inl ⟨rfl, _, rfl, rfl⟩
  | some record =>
    refine stated_findRecord .looking _ ?_ fun _ => rfl
    simp only [Phase.command, hr]
    rfl

theorem stated_insert :
    Stated (turns env) (Outbox.insert r.at_ (r.draft env) (r.record? env)) (Drafted r) (Lost env r)
      (turn r (Phase.start env r)) := by
  unfold Outbox.insert
  rw [stated_bind]
  refine stated_existing.mono ?_ fun _ _ h => h.elim
  rintro found g (⟨rfl, phase, hphase, rfl⟩ | ⟨record, m, rfl, rfl⟩)
  · obtain rfl := Option.some.inj hphase
    dsimp only
    rw [stated_bind]
    unfold Outbox.createMessage
    rw [stated_bind]
    refine stated_create (allows_iff.mpr rfl) (fun new g hg => ?_) fun e g hg => ?_
    · obtain ⟨next, hnext, rfl⟩ := replies_iff.mp hg
      cases new with
      | key record => cases hnext
      | message m =>
        dsimp only
        obtain rfl := Option.some.inj hnext
        cases hr : r.record? env with
        | none =>
          have hend : Drafted r ⟨m, false, none⟩ (turn r (.committing m)) := .inl ⟨m, rfl, rfl, rfl⟩
          exact hend
        | some record =>
          show Stated _ (Outbox.createKey m (some record) >>= _) _ _ _
          unfold Outbox.createKey
          rw [stated_bind, stated_bind]
          refine stated_create (allows_iff.mpr ?_) (fun new g hg => ?_) fun e g hg => ?_
          · simp only [Option.isSome_some, if_true, Phase.command, hr]
            rfl
          · obtain ⟨next, hnext, rfl⟩ := replies_iff.mp hg
            obtain rfl := Option.some.inj hnext
            exact .inl ⟨m, rfl, rfl, rfl⟩
          · obtain ⟨next, hnext, rfl⟩ := replies_iff.mp hg
            cases e with
            | P2002 fields =>
              obtain rfl := Option.some.inj hnext
              exact ⟨rfl, by rw [hr]; rfl, m, rfl⟩
            | P2025 => cases hnext
            | P1001 => cases hnext
            | unexpected => cases hnext
    · obtain ⟨next, hnext, rfl⟩ := replies_iff.mp hg
      cases hnext
  · exact .inr ⟨record, m, rfl, rfl⟩

/-- A session that returns answers as its transaction, and one that fails as its error. -/
theorem meets_attempt {tx : Transaction Row α} {ok : α → Option Turn → Prop}
    {err : DatabaseError → Option Turn → Prop} {post : Except AppError α → Option Turn → Prop}
    {g : Option Turn} (h : Stated (turns env) tx ok err g)
    (hok : ∀ a g', ok a g' → (turns env).allows .commit g' ∧
      ∀ g'', (turns env).replies .commit g' () g'' → post (.ok a) g'')
    (herr : ∀ e g', err e g' → (turns env).allows .rollback g' ∧
      ∀ g'', (turns env).replies .rollback g' () g'' → post (.error (toAppError e)) g'') :
    Meets (turns env) (Outbox.attempt tx) post g := by
  unfold Outbox.attempt
  rw [meets_bind]
  refine meets_transact (h.mono (fun a g' ha => ?_) fun e g' he => ?_)
  · exact ⟨(hok a g' ha).1, fun _ => (hok a g' ha).2⟩
  · exact ⟨(herr e g' he).1, fun _ => (herr e g' he).2⟩

/-- The outcome of the repository, and what the request will be answered with. -/
def Settled (env : Env) (r : SendRequest) (outcome : EnqueueOutcome) (g : Option Turn) : Prop :=
  (outcome.replayed = false ∧
    g = turn r (.ended (.ok { message := outcome.message, replayed := false }))) ∨
  ∃ record m, outcome = ⟨m, true, some record.requestFingerprint⟩ ∧
    g = turn r (.ended (r.replay env record m))

theorem meets_insert :
    Meets (turns env) ((Outbox.repository r.at_).insert (r.draft env) (r.record? env))
      (Foundations.outcome (Settled env r) fun e g =>
        e.statusCode = 409 ∧ (r.record? env).isSome = true ∧ g = turn r .lookingAgain)
      (turn r (Phase.start env r)) := by
  refine meets_attempt stated_insert ?_ ?_
  · rintro outcome g (⟨m, rfl, hfresh, rfl⟩ | ⟨record, m, rfl, rfl⟩)
    · refine ⟨allows_iff.mpr rfl, fun g' hg => ?_⟩
      obtain ⟨next, hnext, rfl⟩ := replies_iff.mp hg
      obtain rfl := Option.some.inj hnext
      exact .inl ⟨hfresh, rfl⟩
    · refine ⟨allows_iff.mpr rfl, fun g' hg => ?_⟩
      obtain ⟨next, hnext, rfl⟩ := replies_iff.mp hg
      obtain rfl := Option.some.inj hnext
      exact .inr ⟨record, m, rfl, rfl⟩
  · rintro e g ⟨hstatus, hrecord, m, rfl⟩
    refine ⟨allows_iff.mpr rfl, fun g' hg => ?_⟩
    obtain ⟨next, hnext, rfl⟩ := replies_iff.mp hg
    obtain rfl := Option.some.inj hnext
    exact ⟨hstatus, hrecord, rfl⟩

theorem meets_findAgain {record : IdempotencyRecord} (hr : r.record? env = some record) :
    Meets (turns env) ((Outbox.repository r.at_).findByIdempotencyKey record.key)
      (Foundations.outcome (fun found g => ∃ key m, found = some (m, key.requestFingerprint) ∧
        g = turn r (.ended (r.replay env key m))) fun _ _ => False)
      (turn r .lookingAgain) := by
  refine meets_attempt (stated_findRecord _ none ?_ fun _ => rfl) ?_ fun _ _ h => h.elim
  · simp only [Phase.command, hr]
    rfl
  · rintro found g (⟨-, phase, hphase, -⟩ | ⟨key, m, rfl, rfl⟩)
    · cases hphase
    · refine ⟨allows_iff.mpr rfl, fun g' hg => ?_⟩
      obtain ⟨next, hnext, rfl⟩ := replies_iff.mp hg
      obtain rfl := Option.some.inj hnext
      exact ⟨key, m, rfl, rfl⟩

theorem ensured_enqueueOnce :
    Ensured (turns env)
      (EmailService.enqueueOnce (Outbox.repository r.at_) (r.draft env) (r.record? env))
      (Settled env r) (fun _ _ => False) (turn r (Phase.start env r)) := by
  unfold EmailService.enqueueOnce
  rw [ensured_bind]
  refine Foundations.ensured_lift.mpr (meets_insert.mono fun inserted g hg => ?_)
  cases inserted with
  | ok outcome => exact hg
  | error e =>
    obtain ⟨hstatus, hrecord, rfl⟩ := hg
    obtain ⟨record, hr⟩ := Option.isSome_iff_exists.mp hrecord
    rw [hr]
    dsimp only
    rw [if_pos hstatus, ensured_bind]
    refine (meets_findAgain hr).mono fun found g hg => ?_
    cases found with
    | error e => exact hg.elim
    | ok found =>
      obtain ⟨key, m, rfl, rfl⟩ := hg
      exact .inr ⟨key, m, rfl, rfl⟩

/-- The program of a request goes through its phases, to its answer. -/
theorem meets_run :
    Meets (turns env) (r.run env) (fun result g => g = turn r (.ended result))
      (turn r (Phase.start env r)) := by
  have h : Ensured (turns env)
      (EmailService.enqueue (Outbox.repository r.at_) env r.input r.properties r.idempotencyKey)
      (fun result g => g = turn r (.ended (.ok result)))
      (fun e g => g = turn r (.ended (.error e))) (turn r (Phase.start env r)) := by
    unfold EmailService.enqueue
    rw [ensured_bind]
    refine ensured_enqueueOnce.mono ?_ fun _ _ h => h.elim
    rintro outcome g (⟨hfresh, rfl⟩ | ⟨record, m, rfl, rfl⟩)
    · rw [if_neg fun h => Bool.false_ne_true (hfresh.symm.trans h.1), hfresh]
      exact ensured_pure.mpr rfl
    · unfold SendRequest.replay
      by_cases hf : record.requestFingerprint = fingerprint env r.properties
      · rw [if_pos hf, if_neg fun h => h.2 (congrArg some hf)]
        exact rfl
      · rw [if_neg hf, if_pos ⟨rfl, fun h => hf (Option.some.inj h)⟩]
        exact rfl
  exact h.meets (fun _ _ h => h) fun _ _ h => h

end Meeting

end PracticalMicroservice.Email
