import PracticalMicroservice.Email.Retention
import PracticalMicroservice.Email.Proofs.ScheduleProofs

/-!
# Proofs: nothing is lost before its time

What a call makes of a row is a row of the same message, or nothing, when it is a purge and the row
is one it may take. A key goes when the row it names goes.
-/

namespace PracticalMicroservice.Email

open Foundations (Called Meets Performed Pool Recounted Tells recounting runs tells_bind tells_pure
  tells_request tells_result tells_throw)
open EmailDispatcher (MS_PER_DAY)
open PrismaEmailRepository

variable {env : Env} {s s' : System} {l : Label} {world : World}

/-! ## Rows of one message -/

section SameMessage

variable {m m' m'' : EmailMessage}

theorem SameMessage.refl (m : EmailMessage) : SameMessage m m := ⟨rfl, rfl, rfl, rfl⟩

theorem SameMessage.trans (h : SameMessage m m') (h' : SameMessage m' m'') : SameMessage m m'' :=
  ⟨h'.id.trans h.id, h'.payload.trans h.payload, h'.maxAttempts.trans h.maxAttempts,
    h'.createdAt.trans h.createdAt⟩

/-- A row that is only changed on a condition. -/
theorem SameMessage.of_ite {p : Prop} [Decidable p] (h : SameMessage m m') :
    SameMessage m (if p then m' else m) := by
  split
  · exact h
  · exact .refl m

/-- What a call leaves of a row is of the same message. -/
theorem Call.onRow_same {c : Call} (h : c.onRow m = some m') : SameMessage m m' := by
  cases c with
  | claimCandidates ids workerId now claimTimeoutMs =>
    obtain rfl := Option.some.inj h
    exact .of_ite ⟨rfl, rfl, rfl, rfl⟩
  | markSent id provider providerMessageId now =>
    obtain rfl := Option.some.inj h
    exact .of_ite ⟨rfl, rfl, rfl, rfl⟩
  | markForRetry id error nextAttemptAt =>
    obtain rfl := Option.some.inj h
    exact .of_ite ⟨rfl, rfl, rfl, rfl⟩
  | markDead id error =>
    obtain rfl := Option.some.inj h
    exact .of_ite ⟨rfl, rfl, rfl, rfl⟩
  | requeue id resetAttempts now =>
    obtain rfl := Option.some.inj h
    exact .of_ite ⟨rfl, rfl, rfl, rfl⟩
  | purgeSentBefore cutoff =>
    have h : (if purgeable cutoff m then none else some m) = some m' := h
    split at h
    · cases h
    · obtain rfl := Option.some.inj h
      exact .refl m
  | insert input idempotency =>
    obtain rfl := Option.some.inj h
    exact .refl m
  | findByIdempotencyKey key =>
    obtain rfl := Option.some.inj h
    exact .refl m
  | findById id =>
    obtain rfl := Option.some.inj h
    exact .refl m
  | findCandidates limit now claimTimeoutMs =>
    obtain rfl := Option.some.inj h
    exact .refl m
  | findClaimed workerId now =>
    obtain rfl := Option.some.inj h
    exact .refl m

/-- Only a purge takes a row. -/
theorem Call.onRow_none {c : Call} (h : c.onRow m = none) :
    ∃ cutoff, c = .purgeSentBefore cutoff ∧ purgeable cutoff m = true := by
  cases c with
  | purgeSentBefore cutoff =>
    refine ⟨cutoff, rfl, ?_⟩
    have h : (if purgeable cutoff m then none else some m) = none := h
    by_contra hp
    rw [if_neg hp] at h
    cases h
  | insert input idempotency => cases h
  | findByIdempotencyKey key => cases h
  | findById id => cases h
  | findCandidates limit now claimTimeoutMs => cases h
  | claimCandidates ids workerId now claimTimeoutMs => cases h
  | findClaimed workerId now => cases h
  | markSent id provider providerMessageId now => cases h
  | markForRetry id error nextAttemptAt => cases h
  | markDead id error => cases h
  | requeue id resetAttempts now => cases h

end SameMessage

/-! ## The keys and their messages -/

section Keys

variable {db : Database} {at_ : Nat} {c : Call}

theorem Database.Linked.sound (h : db.Linked) : db.Sound := ⟨h.below, h.distinct⟩

theorem findByIdempotencyKey_eq_some {key fingerprint : String} {m : EmailMessage}
    (h : findByIdempotencyKey key db = some (m, fingerprint)) : m ∈ db.emailMessages := by
  unfold findByIdempotencyKey at h
  obtain ⟨record, -, h⟩ := Option.bind_eq_some_iff.mp h
  obtain ⟨m', hm, h⟩ := Option.bind_eq_some_iff.mp h
  cases h
  exact (mem_of_message? hm).1

/-- A key that leads to no message is not there. -/
theorem Database.Linked.unused (h : db.Linked) {key : String}
    (hnone : findByIdempotencyKey key db = none) : ∀ record ∈ db.idempotencyKeys, record.key ≠ key := by
  intro record hrecord hkey
  obtain ⟨found, hfound⟩ : ∃ found, db.idempotencyKeys.find? (·.key = key) = some found :=
    Option.isSome_iff_exists.mp (List.find?_isSome.mpr ⟨record, hrecord, decide_eq_true hkey⟩)
  obtain ⟨m, hm⟩ := Option.isSome_iff_exists.mp (h.linked found (List.mem_of_find?_eq_some hfound))
  unfold findByIdempotencyKey at hnone
  rw [hfound] at hnone
  simp [hm] at hnone

/-- An insert finds the message of its key, or writes a row and its key. -/
theorem insert_replays_or_writes (at_ : Nat) (input : NewEmailRecord)
    (idempotency : Option IdempotencyRecord) (db : Database) :
    ((insert at_ input idempotency db).2 = db ∧
      (insert at_ input idempotency db).1.message ∈ db.emailMessages) ∨
    ((∀ record ∈ idempotency, findByIdempotencyKey record.key db = none) ∧
      ∃ m, m.id = db.nextId ∧ (insert at_ input idempotency db).1.message = m ∧
        (insert at_ input idempotency db).2 =
          { emailMessages := db.emailMessages ++ [m]
            idempotencyKeys := db.idempotencyKeys ++ idempotency.toList.map fun record =>
              { key := record.key, requestFingerprint := record.fingerprint,
                emailMessageId := m.id }
            nextId := db.nextId + 1 }) := by
  unfold PrismaEmailRepository.insert
  cases hfound : idempotency.bind fun record => findByIdempotencyKey record.key db with
  | some found =>
    obtain ⟨message, fingerprint⟩ := found
    obtain ⟨record, -, hrecord⟩ := Option.bind_eq_some_iff.mp hfound
    exact .inl ⟨rfl, findByIdempotencyKey_eq_some hrecord⟩
  | none =>
    refine .inr ⟨fun record hrecord => ?_, _, rfl, rfl, rfl⟩
    obtain rfl : idempotency = some record := hrecord
    exact hfound

/-- A call that leaves the keys, takes some of them, or adds one. -/
inductive KeysAfter (db : Database) (c : Call) (db' : Database) : Prop
  | same (hc : ∀ cutoff, c ≠ .purgeSentBefore cutoff)
    (h : db'.idempotencyKeys = db.idempotencyKeys)
  | purged (cutoff : Nat) (hc : c = .purgeSentBefore cutoff)
    (h : db'.idempotencyKeys = db.idempotencyKeys.filter fun record =>
      ! (db.message? record.emailMessageId).any (purgeable cutoff))
  | added (record : IdempotencyKey) (hc : ∀ cutoff, c ≠ .purgeSentBefore cutoff)
    (h : db'.idempotencyKeys = db.idempotencyKeys ++ [record])
    (unused : ∀ old ∈ db.idempotencyKeys, old.key ≠ record.key)
    (id : record.emailMessageId = db.nextId)
    (message : (db'.message? record.emailMessageId).isSome)

theorem keys_serve (h : db.Linked) (at_ : Nat) (c : Call) : KeysAfter db c (c.serve at_ db).2 := by
  have hupdate : ∀ {id : Nat} {change : EmailMessage → EmailMessage},
      (updateById id change db).2.idempotencyKeys = db.idempotencyKeys := by
    intro id change
    rw [updateById_rows]
    rfl
  cases c with
  | insert input idempotency =>
    show KeysAfter db _ (insert at_ input idempotency db).2
    rcases insert_replays_or_writes at_ input idempotency db with ⟨he, -⟩ | ⟨hnone, m, hid, -, he⟩
    · exact .same (by simp) (by rw [he])
    · rw [he]
      cases idempotency with
      | none => exact .same (by simp) (List.append_nil _)
      | some key =>
        refine .added _ (by simp) rfl (h.unused (hnone key rfl)) hid ?_
        rw [Option.isSome_iff_ne_none, Ne, message?_eq_none]
        exact fun hall => hall m (List.mem_append_right _ (List.mem_singleton_self m)) rfl
  | purgeSentBefore cutoff => exact .purged cutoff rfl rfl
  | markSent id provider providerMessageId now => exact .same (by simp) hupdate
  | markForRetry id error nextAttemptAt => exact .same (by simp) hupdate
  | markDead id error => exact .same (by simp) hupdate
  | requeue id resetAttempts now => exact .same (by simp) hupdate
  | claimCandidates ids workerId now claimTimeoutMs => exact .same (by simp) rfl
  | findByIdempotencyKey key => exact .same (by simp) rfl
  | findById id => exact .same (by simp) rfl
  | findCandidates limit now claimTimeoutMs => exact .same (by simp) rfl
  | findClaimed workerId now => exact .same (by simp) rfl

/-- A call that is no purge leaves every row there. -/
theorem message?_isSome_serve (h : db.Linked) (hc : ∀ cutoff, c ≠ .purgeSentBefore cutoff) {id : Nat}
    (hm : (db.message? id).isSome) : ((c.serve at_ db).2.message? id).isSome := by
  obtain ⟨row, hrow⟩ := Option.isSome_iff_exists.mp hm
  rw [message?_serve h.sound hrow, Option.isSome_iff_ne_none]
  intro hnone
  obtain ⟨cutoff, he, -⟩ := Call.onRow_none hnone
  exact hc cutoff he

theorem message?_purge (h : db.Linked) {cutoff id : Nat} :
    (((Call.purgeSentBefore cutoff).serve at_ db).2.message? id).isSome =
      ((db.message? id).isSome && ! (db.message? id).any (purgeable cutoff)) := by
  cases hm : db.message? id with
  | none =>
    have hgone : ((Call.purgeSentBefore cutoff).serve at_ db).2.message? id = none :=
      message?_eq_none.mpr fun m hmem =>
        message?_eq_none.mp hm m (List.mem_filter.mp hmem).1
    rw [hgone]
    rfl
  | some row =>
    have hafter : ((Call.purgeSentBefore cutoff).serve at_ db).2.message? id =
        if purgeable cutoff row then none else some row := message?_serve h.sound hm
    rw [hafter]
    by_cases hp : purgeable cutoff row = true
    · simp [hp]
    · simp [hp]

theorem Database.Linked.serve (h : db.Linked) : (c.serve at_ db).2.Linked := by
  have hsound : (c.serve at_ db).2.Sound := sound_serve h.sound
  refine ⟨hsound.below, hsound.distinct, ?_, ?_⟩
  · cases keys_serve h at_ c with
    | same hc hkeys =>
      rw [hkeys]
      exact h.unique
    | purged cutoff hc hkeys =>
      rw [hkeys]
      exact h.unique.sublist (List.filter_sublist.map _)
    | added record hc hkeys unused id message =>
      rw [hkeys, List.map_append, List.map_singleton]
      refine List.Nodup.append h.unique (List.nodup_singleton _) fun key hkey hnew => ?_
      obtain ⟨old, hold, rfl⟩ := List.mem_map.mp hkey
      exact unused old hold (List.mem_singleton.mp hnew)
  · intro record hrecord
    cases keys_serve h at_ c with
    | same hc hkeys =>
      rw [hkeys] at hrecord
      exact message?_isSome_serve h hc (h.linked record hrecord)
    | purged cutoff hc hkeys =>
      rw [hkeys] at hrecord
      obtain ⟨hmem, hkept⟩ := List.mem_filter.mp hrecord
      rw [hc, message?_purge h, h.linked record hmem, hkept]
      rfl
    | added new hc hkeys unused id message =>
      rw [hkeys] at hrecord
      rcases List.mem_append.mp hrecord with hold | hnew
      · exact message?_isSome_serve h hc (h.linked record hold)
      · rw [List.mem_singleton.mp hnew]
        exact message

/-- A key stays exactly as long as its message. -/
structure KeyKept (db : Database) (record : IdempotencyKey) : Prop where
  below : record.emailMessageId < db.nextId
  together : record ∈ db.idempotencyKeys ↔ (db.message? record.emailMessageId).isSome

theorem Database.Linked.keyKept (h : db.Linked) {record : IdempotencyKey}
    (hrecord : record ∈ db.idempotencyKeys) : KeyKept db record := by
  have hlinked := h.linked record hrecord
  obtain ⟨row, hrow⟩ := Option.isSome_iff_exists.mp hlinked
  obtain ⟨hmem, hid⟩ := mem_of_message? hrow
  exact ⟨hid ▸ h.below row hmem, iff_of_true hrecord hlinked⟩

theorem KeyKept.serve {record : IdempotencyKey} (hk : KeyKept db record) (h : db.Linked) :
    KeyKept (c.serve at_ db).2 record := by
  refine ⟨Nat.lt_of_lt_of_le hk.below nextId_serve, fun hmem => h.serve.linked record hmem,
    fun hsome => ?_⟩
  have hbefore : (db.message? record.emailMessageId).isSome := by
    by_contra hnone
    rw [message?_serve_gone (Option.not_isSome_iff_eq_none.mp hnone) hk.below] at hsome
    cases hsome
  have hold := hk.together.mpr hbefore
  cases keys_serve h at_ c with
  | same hc hkeys =>
    rw [hkeys]
    exact hold
  | purged cutoff hc hkeys =>
    rw [hc, message?_purge h, Bool.and_eq_true] at hsome
    rw [hkeys]
    exact List.mem_filter.mpr ⟨hold, hsome.2⟩
  | added new hc hkeys unused id message =>
    rw [hkeys]
    exact List.mem_append_left _ hold

end Keys

/-! ## What the tasks go by -/

section Tasks

variable {past : Told} {task : Task}

/-- Where only the purge of a task would purge, another keeps no date. -/
theorem dated_of_does (htask : task ≠ .purgeExpired) {command : Command}
    (hd : task.Does env command) : Dated env task past command := by
  rintro cutoff rfl
  cases task with
  | purgeExpired => exact absurd rfl htask
  | enqueue input idempotencyKey => exact absurd hd id
  | runOnce workerId => exact absurd hd id
  | deliver cycle index message => exact absurd hd id
  | retry id' => exact absurd hd id

theorem dated_of_ne {command : Command}
    (h : ∀ cutoff, command ≠ .repository (.purgeSentBefore cutoff)) :
    Dated env task past command := fun cutoff he => absurd he (h cutoff)

theorem dated_enqueue {input : SendEmailInput} {idempotencyKey : Option String} :
    Tells (Dated env) Credible (.enqueue input idempotencyKey)
      (EmailService.enqueue .calls env input input.properties idempotencyKey)
      (fun result past => ∃ x ∈ past, stored? x = some result.message) (fun _ _ => True) [] := by
  have honce : ∀ (record : NewEmailRecord) (idempotency : Option IdempotencyRecord),
      Tells (Dated env) Credible (.enqueue input idempotencyKey)
        (EmailService.enqueueOnce .calls record idempotency)
        (fun outcome past => ∃ x ∈ past, stored? x = some outcome.message) (fun _ _ => True) [] := by
    intro record idempotency
    unfold EmailService.enqueueOnce
    refine tells_bind (tells_request (dated_of_ne fun _ => by simp) fun inserted _ => ?_)
    cases inserted with
    | ok outcome => exact tells_pure ⟨_, List.mem_cons_self, rfl⟩
    | error e =>
      cases idempotency with
      | none => exact tells_throw trivial
      | some key =>
        dsimp only
        split
        · refine tells_bind (tells_bind (tells_request (dated_of_ne fun _ => by simp)
            fun reply _ => ?_))
          refine tells_result (fun found hfound => ?_) fun _ _ => trivial
          subst hfound
          cases found with
          | some found => exact tells_pure ⟨_, List.mem_cons_self, rfl⟩
          | none => exact tells_throw trivial
        · exact tells_throw trivial
  unfold EmailService.enqueue
  refine tells_bind ((honce _ _).mono (fun outcome past hstored => ?_) fun _ _ _ => trivial)
  split
  · exact tells_throw trivial
  · exact tells_pure hstored

theorem dated_purgeExpired :
    Tells (Dated env) Credible .purgeExpired (EmailDispatcher.purgeExpired env)
      (fun _ _ => True) (fun _ _ => True) [] := by
  unfold EmailDispatcher.purgeExpired
  split
  · exact tells_pure trivial
  · rename_i henabled
    refine tells_bind (tells_request (dated_of_ne fun _ => by simp) fun now _ => ?_)
    refine tells_bind (tells_request ?_ fun reply _ =>
      tells_result (fun _ _ => trivial) fun _ _ => trivial)
    intro cutoff he
    cases he
    exact ⟨henabled, _, List.mem_cons_self, now, rfl, rfl⟩

/-- The programs of the tasks. -/
theorem dated_run (env : Env) (task : Task) :
    Meets (recounting (Dated env) Credible) (task.run env) ToldOf (task, []) := by
  have hother : ∀ {answer : Answer} {g : Task × Told},
      (∀ result, answer ≠ .enqueued (.ok result)) → ToldOf answer g :=
    fun h result he => absurd he (h result)
  have hdoes : ∀ {task : Task}, task ≠ .purgeExpired → ∀ past command,
      Justified env task past command → Dated env task past command :=
    fun htask past command hj => dated_of_does htask hj.does
  cases task with
  | enqueue input idempotencyKey =>
    refine dated_enqueue.meets (fun result past hstored => ?_) fun _ _ _ => hother (by simp)
    intro result' he
    cases he
    exact hstored
  | runOnce workerId =>
    exact (tells_runOnce.recount (hdoes (by simp))).meets (fun _ _ _ => hother (by simp))
      fun _ _ _ => hother (by simp)
  | deliver cycle index message =>
    exact (tells_deliver.recount (hdoes (by simp))).meets (fun _ _ _ => hother (by simp))
      fun _ _ _ => hother (by simp)
  | retry id =>
    exact (tells_retry.recount (hdoes (by simp))).meets (fun _ _ _ => hother (by simp))
      fun _ _ _ => hother (by simp)
  | purgeExpired =>
    exact dated_purgeExpired.meets (fun _ _ _ => hother (by simp)) fun _ _ _ => hother (by simp)

end Tasks

/-! ## What a run keeps -/

/-- A message a request was told of was a row then. -/
theorem mem_of_stored {i : Nat} {fate : Fate} {command : Command} {w w' : World}
    {reply : command.Reply} (h : machine.perform i fate command w = some (reply, w'))
    {m : EmailMessage} (hm : stored? ⟨command, reply⟩ = some m) : m ∈ w'.db.emailMessages := by
  unfold stored? at hm
  split at hm
  · rename_i input idempotency outcome heq
    cases heq
    obtain rfl := Option.some.inj hm
    unfold machine at h
    dsimp only at h
    split at h
    · cases h
    · cases fate with
      | served =>
        cases h
        show (insert w.now input idempotency w.db).1.message ∈
          (insert w.now input idempotency w.db).2.emailMessages
        rcases insert_replays_or_writes w.now input idempotency w.db with
          ⟨he, hmem⟩ | ⟨-, m, -, hm, he⟩
        · rw [he]
          exact hmem
        · rw [he, hm]
          exact List.mem_append_right _ (List.mem_singleton_self m)
      | unanswered e => cases h
      | refused e => cases h
      | drawn random => cases h
      | sending outcome => cases h
  · rename_i key found heq
    cases heq
    obtain rfl := Option.some.inj hm
    unfold machine at h
    dsimp only at h
    split at h
    · cases h
    · cases fate with
      | served =>
        obtain ⟨hfound, rfl⟩ := Prod.mk.inj (Option.some.inj h)
        have hfound : findByIdempotencyKey key w.db = some (found.1, found.2) := Except.ok.inj hfound
        exact findByIdempotencyKey_eq_some hfound
      | unanswered e => cases h
      | refused e => cases h
      | drawn random => cases h
      | sending outcome => cases h
  · cases hm

/-- What every step preserves. -/
structure Keeping (env : Env) (world : World) (s : System) : Prop where
  tables : s.world.db.Linked
  recounted : Recounted (Dated env) Credible ToldOf s
  performed : Performed machine s
  clock : ∀ e ∈ s.trace, ∀ at_, clock? e.told = some at_ → at_ ≤ s.world.now
  rows : ∀ m, (m ∈ world.db.emailMessages ∨ ∃ e ∈ s.trace, m ∈ e.after.db.emailMessages) →
    s.Keeps env m
  keys : ∀ record,
    (record ∈ world.db.idempotencyKeys ∨ ∃ e ∈ s.trace, record ∈ e.after.db.idempotencyKeys) →
    KeyKept s.world.db record

theorem keeping_start (h : world.db.Linked) : Keeping env world (Pool.start world : System) where
  tables := h
  recounted := Foundations.recounted_start
  performed := Foundations.performed_start
  clock e he := absurd he List.not_mem_nil
  rows m hm := by
    rcases hm with hm | ⟨e, he, -⟩
    · exact .inl ⟨m, hm, .refl m⟩
    · cases he
  keys record hrecord := by
    rcases hrecord with hrecord | ⟨e, he, -⟩
    · exact h.keyKept hrecord
    · cases he

section Call

variable {i : Nat} {fate : Fate} {task : Task} {command : Command} {next : command.Reply → Code}
  {reply : command.Reply}

/-- A row is left to its message, or it is purged and the clock allows it. -/
theorem Keeping.keeps_call (h : Keeping env world s)
    (hc : Called machine s s' i fate task command next reply) {m : EmailMessage}
    (hk : s.Keeps env m) : s'.Keeps env m := by
  rcases hk with ⟨row, hrow, hsame⟩ | ⟨e, he, hp⟩
  · obtain ⟨-, -, hdb | ⟨c, rfl, -, hdb⟩⟩ := perform_cases hc.perform
    · exact .inl ⟨row, by rw [hdb]; exact hrow, hsame⟩
    · have hbefore := h.tables.sound.message?_of_mem hrow
      have hafter : s'.world.db.message? row.id = c.onRow row := by
        rw [hdb]
        exact message?_serve h.tables.sound hbefore
      cases hleft : c.onRow row with
      | some row' =>
        rw [hleft] at hafter
        exact .inl ⟨row', (mem_of_message? hafter).1, hsame.trans (Call.onRow_same hleft)⟩
      | none =>
        obtain ⟨cutoff, rfl, hp⟩ := Call.onRow_none hleft
        obtain ⟨henabled, x, hx, now, hnow, hcutoff⟩ := h.recounted.allowed hc.thread cutoff rfl
        obtain ⟨e, he, -, rfl⟩ := Foundations.mem_pastOf hx
        have hle := h.clock e he now hnow
        unfold purgeable at hp
        rw [Bool.and_eq_true, decide_eq_true_eq, decide_eq_true_eq] at hp
        refine .inr ⟨_, hc.trace ▸ List.mem_cons_self, row, hsame.id ▸ hbefore, hsame,
          ⟨henabled, hp.1, ?_⟩, hsame.id ▸ hafter.trans hleft⟩
        show row.createdAt + env.EMAIL_RETENTION_DAYS * MS_PER_DAY < s.world.now
        have hlt := hp.2
        omega
  · exact .inr ⟨e, hc.trace ▸ List.mem_cons_of_mem _ he, hp⟩

theorem Keeping.call (h : Keeping env world s)
    (hs : Pool.step machine (Task.run env) s (.call i fate) = some s')
    (hc : Called machine s s' i fate task command next reply) : Keeping env world s' := by
  obtain ⟨hnow, hread⟩ := clock_of_perform hc.perform
  obtain ⟨-, -, hdb⟩ := perform_cases hc.perform
  have htables : s'.world.db.Linked := by
    rcases hdb with hdb | ⟨c, -, -, hdb⟩
    · rw [hdb]
      exact h.tables
    · rw [hdb]
      exact h.tables.serve
  refine ⟨htables,
    h.recounted.step (dated_run env) (fun _ _ _ _ _ _ => credible_of_perform) hs,
    h.performed.step hs, fun e he at_ hat => ?_, fun m hm => ?_, fun record hrecord => ?_⟩
  · rw [hnow]
    rw [hc.trace] at he
    rcases List.mem_cons.mp he with rfl | he
    · exact Nat.le_of_eq (hread at_ hat)
    · exact h.clock e he at_ hat
  · rcases hm with hfirst | ⟨e, he, hmem⟩
    · exact h.keeps_call hc (h.rows m (.inl hfirst))
    · rw [hc.trace] at he
      rcases List.mem_cons.mp he with rfl | he
      · exact .inl ⟨m, hmem, .refl m⟩
      · exact h.keeps_call hc (h.rows m (.inr ⟨e, he, hmem⟩))
  · have hkept : ∀ {record : IdempotencyKey}, KeyKept s.world.db record →
        KeyKept s'.world.db record := by
      intro record hk
      rcases hdb with hdb | ⟨c, -, -, hdb⟩
      · rw [hdb]
        exact hk
      · rw [hdb]
        exact hk.serve h.tables
    rcases hrecord with hfirst | ⟨e, he, hmem⟩
    · exact hkept (h.keys record (.inl hfirst))
    · rw [hc.trace] at he
      rcases List.mem_cons.mp he with rfl | he
      · exact htables.keyKept hmem
      · exact hkept (h.keys record (.inr ⟨e, he, hmem⟩))

end Call

theorem keeping_step (hs : System.step env s l = some s') (h : Keeping env world s) :
    Keeping env world s' := by
  obtain ⟨-, hs⟩ := step_eq_some hs
  have hrecounted := h.recounted.step (dated_run env)
    (fun _ _ _ _ _ _ => credible_of_perform) hs
  cases l with
  | spawn task =>
    obtain rfl : _ = s' := Option.some.inj hs
    exact ⟨h.tables, hrecounted, h.performed, h.clock, h.rows, h.keys⟩
  | call i fate =>
    obtain ⟨task, command, next, reply, hc⟩ := Foundations.called_of_call hs
    exact h.call hs hc
  | move m =>
    obtain ⟨later, hw, rfl⟩ := Option.map_eq_some_iff.mp hs
    have hdb := (world_of_move hw).1
    have hnow : s.world.now ≤ later.now := by
      cases m with
      | tick ms =>
        cases hw
        exact Nat.le_add_right _ _
      | stop thread =>
        cases hw
        exact Nat.le_refl _
    refine ⟨?_, hrecounted, h.performed,
      fun e he at_ hat => Nat.le_trans (h.clock e he at_ hat) hnow, fun m hm => ?_,
      fun record hrecord => ?_⟩
    · show later.db.Linked
      rw [hdb]
      exact h.tables
    · refine (h.rows m hm).imp_left ?_
      show (∃ row ∈ s.world.db.emailMessages, SameMessage m row) →
        ∃ row ∈ later.db.emailMessages, SameMessage m row
      rw [hdb]
      exact id
    · show KeyKept later.db record
      rw [hdb]
      exact h.keys record hrecord

/-- Whatever happens to the dispatchers, what was accepted is in the outbox until it has been sent
and its window is over, and its key with it. -/
theorem outbox_lossless (env : Env) {world : World} (hlinked : world.db.Linked) {ls : List Label}
    {s : System} (hrun : runs (System.step env) (Pool.start world) ls = some s) :
    Lossless env world s := by
  have h : Keeping env world s := Foundations.invariant_of_steps
    (fun _ _ _ hs hp => keeping_step hs hp) hrun (keeping_start hlinked)
  refine ⟨fun i result hr => ?_, h.rows, fun record hrecord => (h.keys record hrecord).together,
    h.tables⟩
  obtain ⟨task, ht⟩ := Foundations.result_eq_some hr
  obtain ⟨x, hx, hstored⟩ := h.recounted.returned ht result rfl
  obtain ⟨e, he, -, rfl⟩ := Foundations.mem_pastOf hx
  obtain ⟨fate, hp⟩ := h.performed e he
  exact h.rows _ (.inr ⟨e, he, mem_of_stored hp hstored⟩)

/-- An outbox with nothing in it. -/
def emptyWorld : World where
  db := { emailMessages := [], idempotencyKeys := [], nextId := 0 }
  now := 0
  stopped := []

/-- What is asked for. -/
def greeting : SendEmailInput where
  recipient := "ada@example.com"
  subject := "Welcome"
  body := "Hello Ada"
  bodyType := .TEXT
  source := "auth-service"

/-- A request is accepted under a key, its message sent, and purged when its window is over. -/
def acceptedThenPurged : List Label :=
  [.spawn (.enqueue greeting (some "k1")), .call 0 .served] ++
    claiming 1 "a" ++ [.spawn (.deliver 1 0 (claimedBy "a" 0 1))] ++ accepting 2 ++
    [.move (.tick 2592000001), .spawn .purgeExpired, .call 3 .served, .call 3 .served]

theorem outbox_lossless_purged :
    ∃ s, runs (System.step sampleEnv) (Pool.start emptyWorld) acceptedThenPurged = some s ∧
      s.result 0 = some (.enqueued (.ok { message := welcome, replayed := false })) ∧
      s.world.db.emailMessages = [] ∧ s.Keeps sampleEnv welcome := by
  have hrun : (runs (System.step sampleEnv) (Pool.start emptyWorld) acceptedThenPurged).any
      (fun s => s.result 0 = some (.enqueued (.ok { message := welcome, replayed := false })) ∧
        s.world.db.emailMessages = []) = true := by
    decide +kernel
  obtain ⟨s, hs, hall⟩ := (Option.any_eq_true _ _).mp hrun
  obtain ⟨hresult, hempty⟩ := of_decide_eq_true hall
  have hlinked : emptyWorld.db.Linked := ⟨by decide, by decide, by decide, by decide⟩
  have hlossless := outbox_lossless sampleEnv hlinked hs
  exact ⟨s, hs, hresult, hempty, hlossless.accepted 0 _ hresult⟩

end PracticalMicroservice.Email
