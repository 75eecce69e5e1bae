import PracticalMicroservice.Email.Attempts
import PracticalMicroservice.Email.Proofs.BatchProofs
import Mathlib.Data.List.Perm.Subperm

/-!
# Proofs: attempts are bounded while stale claims leave some

Every row in hand, and every message about to be handed over, goes back to a claim made since the
message was last put back in the queue; each such claim was counted, and no two messages handed over
go back to one.
-/

namespace PracticalMicroservice.Email

open Foundations (Accounted AllSteps Called KeyedTable Pool Recounted runs)
open PrismaEmailRepository (claimable due findClaimed lock)

/-! ## Traces since a retry -/

section Since

variable {id : Nat} {e : Event} {trace : List Event}

theorem sinceRequeue_of_requeues (h : Requeues e id) : sinceRequeue id (e :: trace) = [] := by
  unfold sinceRequeue
  rw [List.takeWhile_cons_of_neg (by simpa using h)]

theorem sinceRequeue_of_not (h : ¬ Requeues e id) :
    sinceRequeue id (e :: trace) = e :: sinceRequeue id trace := by
  unfold sinceRequeue
  rw [List.takeWhile_cons_of_pos (by simpa using h)]

theorem sinceRequeue_sublist : (sinceRequeue id trace).Sublist trace :=
  (List.takeWhile_prefix _).sublist

theorem claimsOf_cons_le :
    (claimsOf id (e :: trace)).length ≤
      (claimsOf id trace).length + if ClaimsRow e id then 1 else 0 := by
  unfold claimsOf
  by_cases hr : Requeues e id
  · rw [sinceRequeue_of_requeues hr]
    exact Nat.zero_le _
  · rw [sinceRequeue_of_not hr, List.filter_cons]
    by_cases hc : ClaimsRow e id
    · simp [hc]
    · simp [hc]

theorem claimsOf_of_requeues (h : Requeues e id) : claimsOf id (e :: trace) = [] := by
  unfold claimsOf
  rw [sinceRequeue_of_requeues h]
  rfl

theorem mem_claimsOf_cons {e' : Event} (h : ¬ Requeues e id) (he : e' ∈ claimsOf id trace) :
    e' ∈ claimsOf id (e :: trace) := by
  unfold claimsOf at he ⊢
  rw [sinceRequeue_of_not h]
  obtain ⟨hmem, hclaims⟩ := List.mem_filter.mp he
  exact List.mem_filter.mpr ⟨List.mem_cons_of_mem _ hmem, hclaims⟩

end Since

/-! ## What a claim leaves on a row -/

/-- A row goes back to a claim made since it was last put back in the queue. -/
def Backed (trace : List Event) (m : EmailMessage) : Prop :=
  ∃ e ∈ claimsOf m.id trace, e.command.lockedFor = m.lockedFor

theorem Backed.cons {trace : List Event} {m : EmailMessage} {e : Event} (h : Backed trace m)
    (hr : ¬ Requeues e m.id) : Backed (e :: trace) m := by
  obtain ⟨e', he', hlocked⟩ := h
  exact ⟨e', mem_claimsOf_cons hr he', hlocked⟩

/-- No attempts are counted beyond what a row allows, and some are left while it waits. -/
structure Within (row : EmailMessage) : Prop where
  positive : 0 < row.maxAttempts
  counted : row.attempts ≤ row.maxAttempts
  left : row.status ∈ CLAIMABLE_STATUSES → row.attempts < row.maxAttempts

section Row

variable {c : Call} {row row' : EmailMessage}

/-- What a call makes of a row, as far as attempts go: a claim, an outcome, a retry, or nothing. -/
inductive Affects (c : Call) (row : EmailMessage) : EmailMessage → Prop
  | kept : Affects c row row
  | claimed (ids : List Nat) (workerId : String) (now claimTimeoutMs : Nat)
    (call : c = .claimCandidates ids workerId now claimTimeoutMs)
    (free : claimable ids now claimTimeoutMs row = true) : Affects c row (lock workerId now row)
  | retried (error : String) (nextAttemptAt : Nat)
    (call : c = .markForRetry row.id error nextAttemptAt) :
    Affects c row (PrismaEmailRepository.failed error nextAttemptAt row)
  | ended (row' : EmailMessage) (final : row'.status = .SENT ∨ row'.status = .DEAD)
    (unclaimed : (Command.repository c).claims = false)
    (attempts : row'.attempts = row.attempts) (id : row'.id = row.id)
    (limit : row'.maxAttempts = row.maxAttempts) : Affects c row row'
  | requeued (resetAttempts : Bool) (now : Nat) (call : c = .requeue row.id resetAttempts now) :
    Affects c row (PrismaEmailRepository.revived resetAttempts now row)

/-- A row that a call has written anew. -/
structure Inserted (c : Call) (db : Database) (row : EmailMessage) : Prop where
  call : ∃ input idempotency, c = .insert input idempotency ∧ row.maxAttempts = input.maxAttempts
  id : row.id = db.nextId
  status : row.status = .PENDING
  attempts : row.attempts = 0

/-- Where the rows after a call come from. -/
theorem affects_of_mem {at_ : Nat} {db : Database}
    (hm : row' ∈ (c.serve at_ db).2.emailMessages) :
    (∃ row ∈ db.emailMessages, Affects c row row') ∨ Inserted c db row' := by
  have hkept : row' ∈ db.emailMessages → (∃ row ∈ db.emailMessages, Affects c row row') ∨
      Inserted c db row' := fun h => .inl ⟨row', h, .kept⟩
  have hchanged : ∀ {whose : EmailMessage → Bool} {change : EmailMessage → EmailMessage},
      row' ∈ (PrismaEmailRepository.changeRows whose change db).emailMessages →
      (∀ row, whose row = true → Affects c row (change row)) →
      (∃ row ∈ db.emailMessages, Affects c row row') ∨ Inserted c db row' := by
    intro whose change h haffects
    obtain ⟨row, hrow, rfl⟩ := List.mem_map.mp h
    refine .inl ⟨row, hrow, ?_⟩
    split
    · rename_i hw
      exact haffects row hw
    · exact .kept
  have hupdated : ∀ {id : Nat} {change : EmailMessage → EmailMessage},
      row' ∈ (PrismaEmailRepository.updateById id change db).2.emailMessages →
      (∀ row, row.id = id → Affects c row (change row)) →
      (∃ row ∈ db.emailMessages, Affects c row row') ∨ Inserted c db row' := by
    intro id change h haffects
    rw [updateById_rows] at h
    exact hchanged h fun row hw => haffects row (of_decide_eq_true hw)
  cases c with
  | insert input idempotency =>
    have hm : row' ∈ (PrismaEmailRepository.insert at_ input idempotency db).2.emailMessages := hm
    unfold PrismaEmailRepository.insert at hm
    split at hm
    · exact hkept hm
    · rcases List.mem_append.mp hm with hold | hnew
      · exact hkept hold
      · obtain rfl := List.mem_singleton.mp hnew
        exact .inr ⟨⟨input, idempotency, rfl, rfl⟩, rfl, rfl, rfl⟩
  | claimCandidates ids workerId now claimTimeoutMs =>
    exact hchanged hm fun row hw => .claimed ids workerId now claimTimeoutMs rfl hw
  | markSent id provider providerMessageId now =>
    exact hupdated hm fun row _ => .ended _ (.inl rfl) rfl rfl rfl rfl
  | markForRetry id error nextAttemptAt =>
    exact hupdated hm fun row hid => .retried error nextAttemptAt (by rw [hid])
  | markDead id error => exact hupdated hm fun row _ => .ended _ (.inr rfl) rfl rfl rfl rfl
  | requeue id resetAttempts now =>
    exact hupdated hm fun row hid => .requeued resetAttempts now (by rw [hid])
  | purgeSentBefore cutoff => exact hkept (List.mem_filter.mp hm).1
  | findByIdempotencyKey key => exact hkept hm
  | findById id => exact hkept hm
  | findCandidates limit now claimTimeoutMs => exact hkept hm
  | findClaimed workerId now => exact hkept hm

theorem Affects.keeps (h : Affects c row row') :
    row'.id = row.id ∧ row'.maxAttempts = row.maxAttempts := by
  cases h with
  | ended row' final unclaimed attempts id limit => exact ⟨id, limit⟩
  | kept => exact ⟨rfl, rfl⟩
  | claimed ids workerId now claimTimeoutMs call free => exact ⟨rfl, rfl⟩
  | retried error nextAttemptAt call => exact ⟨rfl, rfl⟩
  | requeued resetAttempts now call => exact ⟨rfl, rfl⟩

/-- A row stays within its limit, if the calls that could exceed it find attempts left. -/
theorem Within.affected (h : Within row) (ha : Affects c row row')
    (hclaim : ∀ ids workerId now claimTimeoutMs,
      c = .claimCandidates ids workerId now claimTimeoutMs → claimable ids now claimTimeoutMs row →
      row.status = .SENDING → row.attempts < row.maxAttempts)
    (hretry : ∀ error nextAttemptAt, c = .markForRetry row.id error nextAttemptAt →
      row.attempts < row.maxAttempts)
    (hrequeue : ∀ id resetAttempts now, c = .requeue id resetAttempts now → resetAttempts = true) :
    Within row' := by
  cases ha with
  | kept => exact h
  | claimed ids workerId now claimTimeoutMs call free =>
    have hleft : row.attempts < row.maxAttempts := by
      have hdue : due now claimTimeoutMs row = true := by
        unfold claimable at free
        rw [Bool.and_eq_true] at free
        exact free.2
      unfold due at hdue
      rw [Bool.or_eq_true, Bool.and_eq_true, Bool.and_eq_true] at hdue
      rcases hdue with ⟨hwaits, -⟩ | ⟨hsending, -⟩
      · exact h.left (of_decide_eq_true hwaits)
      · exact hclaim ids workerId now claimTimeoutMs call free (of_decide_eq_true hsending)
    refine ⟨h.positive, ?_, fun hs => ?_⟩
    · show row.attempts + 1 ≤ row.maxAttempts
      omega
    · simp [lock, CLAIMABLE_STATUSES] at hs
  | retried error nextAttemptAt call =>
    have hleft := hretry error nextAttemptAt call
    exact ⟨h.positive, h.counted, fun _ => hleft⟩
  | ended _ final unclaimed attempts id limit =>
    refine ⟨limit ▸ h.positive, ?_, fun hs => ?_⟩
    · rw [attempts, limit]
      exact h.counted
    · rcases final with hf | hf
      · rw [hf] at hs
        simp [CLAIMABLE_STATUSES] at hs
      · rw [hf] at hs
        simp [CLAIMABLE_STATUSES] at hs
  | requeued resetAttempts now call =>
    obtain rfl := hrequeue _ _ _ call
    exact ⟨h.positive, Nat.zero_le _, fun _ => h.positive⟩

end Row

/-! ## What sparing steps preserve -/

structure Limited (env : Env) (s : System) : Prop extends Batched env s where
  within : ∀ row ∈ s.world.db.emailMessages, Within row
  counted : ∀ row ∈ s.world.db.emailMessages, (claimsOf row.id s.trace).length ≤ row.attempts
  known : ∀ e ∈ s.trace, ∀ id, ClaimsRow e id → id < s.world.db.nextId
  /-- A message a cycle has read has the limit of its row. -/
  same : ∀ cycle, ∀ message ∈ s.batch cycle, message.id < s.world.db.nextId ∧
    ∀ row ∈ s.world.db.emailMessages, row.id = message.id → row.maxAttempts = message.maxAttempts
  backed : ∀ row ∈ s.world.db.emailMessages, row.status = .SENDING → Backed s.trace row
  awaited : ∀ i, i ∉ s.world.stopped → ∀ message ∈ s.waiting i, Backed s.trace message
  handed : ∀ id, ∀ e ∈ sinceRequeue id s.trace, e.command.handed? = some id →
    ∃ cycle index message, s.task e.thread = some (.deliver cycle index message) ∧
      message.id = id ∧ Backed s.trace message

variable {env : Env} {s s' : System} {l : Label}

theorem limited_start {world : World} (hq : world.db.Queued) :
    Limited env (Pool.start world : System) where
  toBatched := batched_start ⟨hq.below, hq.distinct⟩
  within row hrow := ⟨hq.positive row hrow, (hq.left row hrow).1, (hq.left row hrow).2⟩
  counted row _ := Nat.zero_le _
  known _ he := nomatch he
  same cycle message h := by simp [System.batch, Pool.result, Pool.start] at h
  backed row hrow hsending := absurd hsending (hq.unclaimed row hrow)
  awaited i _ message h := by simp [System.waiting, System.pending, Pool.start] at h
  handed id e he := nomatch he

/-- What a thread waits to hand over. -/
theorem mem_waiting {i : Nat} {message : EmailMessage} (h : message ∈ s.waiting i) :
    message ∈ s.pending i ∧ ∀ command ∈ s.nextCommand i, command.handed?.isSome := by
  unfold System.waiting at h
  split at h
  · rename_i hall
    refine ⟨h, fun command hc => ?_⟩
    rw [hc] at hall
    exact hall
  · cases h

theorem waiting_of_pending {i : Nat} {message : EmailMessage} (h : message ∈ s.pending i)
    (hall : ∀ command ∈ s.nextCommand i, command.handed?.isSome) : message ∈ s.waiting i := by
  unfold System.waiting
  rw [if_pos]
  · exact h
  · cases hn : s.nextCommand i with
    | none => rfl
    | some command => exact hall command hn

/-- The rest of a batch waits. -/
theorem waiting_cycle {i : Nat} {message : EmailMessage}
    (h : message ∈ (s.batch i).drop (s.cursor i)) : message ∈ s.waiting i := by
  have hr := result_of_batch (List.mem_of_mem_drop h)
  obtain ⟨t, ht⟩ := Foundations.result_eq_some hr
  refine waiting_of_pending ?_ fun command hc => ?_
  · rw [pending_cycle hr]
    exact h
  · obtain ⟨task, next, ht'⟩ := Foundations.nextCommand_eq_some hc
    rw [ht] at ht'
    cases ht'

theorem mem_unsent {message : EmailMessage} :
    message ∈ s.unsent ↔ ∃ i, i ∉ s.world.stopped ∧ message ∈ s.waiting i := by
  unfold System.unsent
  rw [List.mem_flatMap]
  constructor
  · rintro ⟨i, -, hi⟩
    split at hi
    · cases hi
    · rename_i hs
      exact ⟨i, hs, hi⟩
  · rintro ⟨i, hs, hi⟩
    refine ⟨i, List.mem_range.mpr ?_, ?_⟩
    · by_contra hlt
      have hnone : s.threads[i]? = none := List.getElem?_eq_none (by omega)
      have hpending := (mem_waiting hi).1
      unfold System.pending at hpending
      rw [hnone] at hpending
      cases hpending
    · rw [if_neg hs]
      exact hi

/-! ## A task begins -/

theorem Limited.spawn {task : Task} (h : Limited env s) (hb : s.Begins env (.spawn task))
    (hs : Pool.step machine (Task.run env) s (.spawn task) = some s') : Limited env s' := by
  have hbatched := h.toBatched.spawn hb hs
  have htasks : ∀ i t, s.task i = some t → s'.task i = some t :=
    fun i t ht => Foundations.task_of_step hs ht
  obtain rfl : { s with threads := s.threads ++ [⟨task, task.run env⟩] } = s' := Option.some.inj hs
  refine ⟨hbatched, h.within, h.counted, h.known, ?_, h.backed, ?_, ?_⟩
  · intro cycle message hm
    have hr := result_spawn_of_batch (List.ne_nil_of_mem hm) (result_of_batch hm)
    refine h.same cycle message ?_
    rw [batch_of_result hr]
    exact hm
  · intro i hi message hm
    obtain ⟨hpending, hnext⟩ := mem_waiting hm
    rcases pending_spawn hb hpending with ⟨hlt, hold⟩ | ⟨cycle, hlive, hrest⟩
    · refine h.awaited i hi message (waiting_of_pending hold fun command hc => hnext command ?_)
      unfold Pool.nextCommand at hc ⊢
      dsimp only
      rw [List.getElem?_append_left hlt]
      exact hc
    · exact h.awaited cycle hlive message (waiting_cycle hrest)
  · intro id e he hhanded
    obtain ⟨cycle, index, message, ht, hid, hbacked⟩ := h.handed id e he hhanded
    exact ⟨cycle, index, message, htasks _ _ ht, hid, hbacked⟩

theorem Limited.move (h : Limited env s) {m : Move}
    (hs : Pool.step machine (Task.run env) s (.move m) = some s') : Limited env s' := by
  have hbatched := h.toBatched.move hs
  obtain ⟨world, hw, rfl⟩ := Option.map_eq_some_iff.mp hs
  obtain ⟨hdb, hstopped⟩ := world_of_move hw
  refine ⟨hbatched, ?_, ?_, ?_, ?_, ?_, fun i hi => h.awaited i fun hi' => hi (hstopped i hi'),
    h.handed⟩
  · show ∀ row ∈ world.db.emailMessages, _
    rw [hdb]
    exact h.within
  · show ∀ row ∈ world.db.emailMessages, _
    rw [hdb]
    exact h.counted
  · show ∀ e ∈ s.trace, ∀ id, ClaimsRow e id → id < world.db.nextId
    rw [hdb]
    exact h.known
  · show ∀ cycle, ∀ message ∈ s.batch cycle, message.id < world.db.nextId ∧
      ∀ row ∈ world.db.emailMessages, _
    rw [hdb]
    exact h.same
  · show ∀ row ∈ world.db.emailMessages, _
    rw [hdb]
    exact h.backed

/-! ## A command is performed -/

section Call

variable {i : Nat} {fate : Fate} {task : Task} {command : Command} {next : command.Reply → Code}
  {reply : command.Reply}

/-- Where the rows after a command come from. -/
theorem affects_of_called (hc : Called machine s s' i fate task command next reply)
    {row' : EmailMessage} (hm : row' ∈ s'.world.db.emailMessages) :
    row' ∈ s.world.db.emailMessages ∨ ∃ c, command = .repository c ∧ fate.takesEffect = true ∧
      ((∃ row ∈ s.world.db.emailMessages, Affects c row row') ∨ Inserted c s.world.db row') := by
  obtain ⟨-, -, hdb | ⟨c, hcommand, heffect, hdb⟩⟩ := perform_cases hc.perform
  · rw [hdb] at hm
    exact .inl hm
  · rw [hdb] at hm
    exact .inr ⟨c, hcommand, heffect, affects_of_mem hm⟩

/-- A retry that changes a row takes effect. -/
theorem effect_of_requeues (hc : Called machine s s' i fate task command next reply) {id : Nat}
    (hr : Requeues ⟨i, command, reply, s.world, s'.world⟩ id) :
    ∃ resetAttempts now, command = .repository (.requeue id resetAttempts now) ∧
      fate.takesEffect = true := by
  obtain ⟨hid, hchanged⟩ := hr
  unfold Command.requeued? at hid
  split at hid
  · rename_i id' resetAttempts now heq
    obtain rfl := Option.some.inj hid
    obtain rfl : command = _ := heq
    refine ⟨resetAttempts, now, rfl, ?_⟩
    obtain ⟨-, -, hdb | ⟨c, -, heffect, -⟩⟩ := perform_cases hc.perform
    · exact absurd (congrArg (·.message? id') hdb) hchanged
    · exact heffect
  · cases hid

section Row

variable {row row' : EmailMessage}

/-- A row that was there and still is was not changed. -/
theorem unchanged_of_mem (hs : s.world.db.Sound) (hs' : s'.world.db.Sound)
    (hrow : row ∈ s.world.db.emailMessages) (hrow' : row ∈ s'.world.db.emailMessages) :
    s'.world.db.message? row.id = s.world.db.message? row.id := by
  rw [hs.message?_of_mem hrow, hs'.message?_of_mem hrow']

/-- A row is changed when it is another. -/
theorem changed_of_ne (hs : s.world.db.Sound) (hs' : s'.world.db.Sound)
    (hrow : row ∈ s.world.db.emailMessages) (hrow' : row' ∈ s'.world.db.emailMessages)
    (hid : row'.id = row.id) (hne : row' ≠ row) :
    s'.world.db.message? row.id ≠ s.world.db.message? row.id := by
  rw [hs.message?_of_mem hrow, ← hid, hs'.message?_of_mem hrow']
  exact fun he => hne (Option.some.inj he)

theorem Limited.within_call (h : Limited env s) (hok : s.Sparing i fate command)
    (hc : Called machine s s' i fate task command next reply) (henv : 0 < env.EMAIL_MAX_ATTEMPTS)
    (hrow' : row' ∈ s'.world.db.emailMessages) : Within row' := by
  have hdoes := (h.recounted.allowed hc.thread).does
  rcases affects_of_called hc hrow' with hold | ⟨c, rfl, heffect, ⟨row, hrow, ha⟩ | hnew⟩
  · exact h.within row' hold
  · refine (h.within row hrow).affected ha ?_ ?_ ?_
    · rintro ids workerId now claimTimeoutMs rfl hfree hsending
      exact hok.1 heffect row hrow hfree hsending
    · rintro error nextAttemptAt rfl
      obtain ⟨cycle, index, message, rfl, hid⟩ := deliver_of_recorded hdoes rfl
      have hmessage : message ∈ s.delivering i := by
        unfold System.delivering
        rw [hc.task_self]
        rfl
      -- a failure recorded under the claim itself is one the delivery found attempts left for
      by_cases hagain : message.attempts < row.attempts
      · exact hok heffect row hrow rfl message hmessage hagain
      · have hget := (h.inTurn i cycle index message hc.task_self).2
        have hsame := (h.same cycle message (List.mem_of_getElem? hget)).2 row hrow hid.symm
        have hleft := hdoes.2
        omega
    · rintro id resetAttempts now rfl
      cases task with
      | retry id' => exact hdoes.2
      | enqueue input idempotencyKey => cases hdoes
      | runOnce workerId => cases hdoes
      | deliver cycle index message => cases hdoes
      | purgeExpired => cases hdoes
  · obtain ⟨input, idempotency, rfl, hmax⟩ := hnew.call
    have hlimit : row'.maxAttempts = env.EMAIL_MAX_ATTEMPTS := by
      rw [hmax]
      cases task with
      | enqueue input' idempotencyKey => exact hdoes
      | retry id' => cases hdoes
      | runOnce workerId => cases hdoes
      | deliver cycle index message => cases hdoes
      | purgeExpired => cases hdoes
    have hnone := hnew.attempts
    exact ⟨by omega, by omega, fun _ => by omega⟩

theorem Limited.counted_call (h : Limited env s) (hs' : s'.world.db.Sound)
    (hc : Called machine s s' i fate task command next reply)
    (hrow' : row' ∈ s'.world.db.emailMessages) :
    (claimsOf row'.id s'.trace).length ≤ row'.attempts := by
  rw [hc.trace]
  have hmore : (claimsOf row'.id (⟨i, command, reply, s.world, s'.world⟩ :: s.trace)).length ≤
      (claimsOf row'.id s.trace).length +
        if ClaimsRow ⟨i, command, reply, s.world, s'.world⟩ row'.id then 1 else 0 :=
    claimsOf_cons_le
  have hkept : row' ∈ s.world.db.emailMessages →
      (claimsOf row'.id (⟨i, command, reply, s.world, s'.world⟩ :: s.trace)).length ≤
        row'.attempts := by
    intro hold
    have hcounted := h.counted row' hold
    have hnot : ¬ ClaimsRow ⟨i, command, reply, s.world, s'.world⟩ row'.id :=
      fun hcl => hcl.2 (unchanged_of_mem h.sound hs' hold hrow')
    rw [if_neg hnot] at hmore
    omega
  rcases affects_of_called hc hrow' with hold | ⟨c, rfl, -, ⟨row, hrow, ha⟩ | hnew⟩
  · exact hkept hold
  · have hcounted := h.counted row hrow
    have hid := ha.keeps.1
    rw [hid] at hmore ⊢
    cases ha with
    | kept => exact hkept hrow
    | claimed ids workerId now claimTimeoutMs call free =>
      show _ ≤ row.attempts + 1
      split at hmore
      · omega
      · omega
    | retried error nextAttemptAt call =>
      subst call
      rw [if_neg (fun hcl => nomatch hcl.1)] at hmore
      show _ ≤ row.attempts
      omega
    | ended _ final unclaimed attempts _ limit =>
      rw [if_neg (fun hcl => Bool.false_ne_true (unclaimed.symm.trans hcl.1))] at hmore
      omega
    | requeued resetAttempts now call =>
      subst call
      by_cases he : PrismaEmailRepository.revived resetAttempts now row = row
      · rw [he] at hrow' hkept ⊢
        exact hkept hrow
      · rw [claimsOf_of_requeues ⟨rfl, changed_of_ne h.sound hs' hrow hrow' hid he⟩]
        exact Nat.zero_le _
  · obtain ⟨input, idempotency, rfl, -⟩ := hnew.call
    have hnone : claimsOf row'.id s.trace = [] := by
      refine List.filter_eq_nil_iff.mpr fun e he hcl => ?_
      have := h.known e (sinceRequeue_sublist.subset he) row'.id (of_decide_eq_true hcl)
      rw [hnew.id] at this
      omega
    rw [hnone, if_neg (fun hcl => nomatch hcl.1)] at hmore
    exact Nat.le_trans hmore (Nat.zero_le _)

theorem backed_call (hs : s.world.db.Sound) (hs' : s'.world.db.Sound)
    (hb : ∀ row ∈ s.world.db.emailMessages, row.status = .SENDING → Backed s.trace row)
    (hc : Called machine s s' i fate task command next reply)
    (hrow' : row' ∈ s'.world.db.emailMessages) (hsending : row'.status = .SENDING) :
    Backed s'.trace row' := by
  rw [hc.trace]
  have hkept : row' ∈ s.world.db.emailMessages →
      Backed (⟨i, command, reply, s.world, s'.world⟩ :: s.trace) row' := fun hold =>
    (hb row' hold hsending).cons fun hr =>
      hr.2 (unchanged_of_mem hs hs' hold hrow')
  rcases affects_of_called hc hrow' with hold | ⟨c, rfl, -, ⟨row, hrow, ha⟩ | hnew⟩
  · exact hkept hold
  · cases ha with
    | kept => exact hkept hrow
    | claimed ids workerId now claimTimeoutMs call free =>
      subst call
      have hne : lock workerId now row ≠ row := by
        intro he
        have hattempts : row.attempts + 1 = row.attempts := congrArg EmailMessage.attempts he
        omega
      have hchanged := changed_of_ne hs hs' hrow hrow' rfl hne
      have hnot : ¬ Requeues ⟨i, .repository (.claimCandidates ids workerId now claimTimeoutMs),
          reply, s.world, s'.world⟩ row.id := by
        rintro ⟨hid, -⟩
        cases hid
      refine ⟨⟨i, _, reply, s.world, s'.world⟩, ?_, rfl⟩
      show _ ∈ claimsOf row.id _
      unfold claimsOf
      rw [sinceRequeue_of_not hnot]
      exact List.mem_filter.mpr ⟨List.mem_cons_self, decide_eq_true ⟨rfl, hchanged⟩⟩
    | retried error nextAttemptAt call => cases hsending
    | ended _ final unclaimed attempts _ limit =>
      rw [hsending] at final
      rcases final with hf | hf
      · cases hf
      · cases hf
    | requeued resetAttempts now call => cases hsending
  · rw [hnew.status] at hsending
    cases hsending

end Row

/-- A delivery about to send has been told nothing yet. -/
theorem next_unsent (hrec : Recounted (Justified env) Credible Concluded s')
    (hc : Called machine s s' i fate task command next reply) {command' : Command}
    {next' : command'.Reply → Code} (hn : next reply = .perform command' next') :
    command'.handed? = none := by
  have ht : s'.threads[i]? = some ⟨task, .perform command' next'⟩ := by
    rw [hc.getElem?, if_pos rfl, hn]
  have hj := hrec.allowed ht
  rw [hc.pastOf_self] at hj
  cases hh : command'.handed? with
  | none => rfl
  | some id => exact absurd (hj.first id hh) (List.cons_ne_nil _ _)

/-- What a thread waits to hand over after a command, it waited for before, or has just read. -/
theorem waiting_call (hrec : Recounted (Justified env) Credible Concluded s')
    (hc : Called machine s s' i fate task command next reply) {j : Nat} {message : EmailMessage}
    (hm : message ∈ s'.waiting j) :
    message ∈ s.waiting j ∨ (j = i ∧ ∃ workerId now,
      message ∈ findClaimed workerId now s.world.db ∧ s'.world.db = s.world.db) := by
  obtain ⟨hpending, hnext⟩ := mem_waiting hm
  refine (pending_call hrec hc hpending).imp_left fun ⟨hold, hself⟩ => ?_
  have hji : j ≠ i := by
    intro hji
    obtain ⟨command', next', hn⟩ := hself hji
    have hcommand : s'.nextCommand j = some command' := by
      unfold Pool.nextCommand
      rw [hc.getElem?, if_pos hji, hn]
    have hsome := hnext command' hcommand
    rw [next_unsent hrec hc hn] at hsome
    cases hsome
  refine waiting_of_pending hold fun command' hcommand => hnext command' ?_
  unfold Pool.nextCommand at hcommand ⊢
  rw [hc.getElem?, if_neg hji]
  exact hcommand

theorem Limited.same_call (h : Limited env s)
    (hrec : Recounted (Justified env) Credible Concluded s')
    (hc : Called machine s s' i fate task command next reply) {cycle : Nat}
    {message : EmailMessage} (hm : message ∈ s'.batch cycle) :
    message.id < s'.world.db.nextId ∧ ∀ row ∈ s'.world.db.emailMessages, row.id = message.id →
      row.maxAttempts = message.maxAttempts := by
  by_cases hci : cycle = i
  · subst hci
    obtain ⟨t, ht⟩ := Foundations.result_eq_some (result_of_batch hm)
    rw [hc.getElem?, if_pos rfl] at ht
    have hn : next reply = .done (.claimed (.ok (s'.batch cycle))) :=
      congrArg Foundations.Thread.program (Option.some.inj ht)
    rcases readBack_of_done hrec hc hn with ⟨hnil, -⟩ | ⟨workerId, now, hback, hsame, -⟩
    · exact absurd hnil (List.ne_nil_of_mem hm)
    · rw [hback] at hm
      have hmem := (mem_findClaimed.mp hm).1
      rw [hsame]
      refine ⟨h.sound.below message hmem, fun row hrow hid => ?_⟩
      rw [h.sound.eq_of_key hrow hmem hid]
  · rw [batch_congr (hc.result_of_ne hci)] at hm
    obtain ⟨hlt, hlimit⟩ := h.same cycle message hm
    refine ⟨?_, fun row' hrow' hid => ?_⟩
    · obtain ⟨-, -, hdb | ⟨c, -, -, hdb⟩⟩ := perform_cases hc.perform
      · rw [hdb]
        exact hlt
      · rw [hdb]
        exact Nat.lt_of_lt_of_le hlt nextId_serve
    · rcases affects_of_called hc hrow' with hold | ⟨c, -, -, ⟨row, hrow, ha⟩ | hnew⟩
      · exact hlimit row' hold hid
      · rw [ha.keeps.2]
        exact hlimit row hrow (ha.keeps.1.symm.trans hid)
      · have := hnew.id
        omega

theorem Limited.awaited_call (h : Limited env s) (hok : s.Sparing i fate command)
    (hrec : Recounted (Justified env) Credible Concluded s')
    (hc : Called machine s s' i fate task command next reply) {j : Nat} {message : EmailMessage}
    (hj : j ∉ s.world.stopped) (hm : message ∈ s'.waiting j) : Backed s'.trace message := by
  rw [hc.trace]
  rcases waiting_call hrec hc hm with hold | ⟨-, workerId, now, hback, hsame⟩
  · refine (h.awaited j hj message hold).cons fun hr => ?_
    obtain ⟨resetAttempts, now, rfl, heffect⟩ := effect_of_requeues hc hr
    exact hok heffect message (mem_unsent.mpr ⟨j, hj, hold⟩) rfl
  · obtain ⟨hmem, hheld⟩ := mem_findClaimed.mp hback
    have hsending : message.status = .SENDING := by
      unfold PrismaEmailRepository.heldBy at hheld
      rw [Bool.and_eq_true, Bool.and_eq_true] at hheld
      exact of_decide_eq_true hheld.1.1
    refine (h.backed message hmem hsending).cons fun hr => hr.2 ?_
    rw [hsame]

theorem Limited.handed_call (h : Limited env s)
    (hc : Called machine s s' i fate task command next reply) {id : Nat} {e : Event}
    (he : e ∈ sinceRequeue id s'.trace) (hhanded : e.command.handed? = some id) :
    ∃ cycle index message, s'.task e.thread = some (.deliver cycle index message) ∧
      message.id = id ∧ Backed s'.trace message := by
  rw [hc.trace] at he ⊢
  by_cases hr : Requeues ⟨i, command, reply, s.world, s'.world⟩ id
  · rw [sinceRequeue_of_requeues hr] at he
    cases he
  · rw [sinceRequeue_of_not hr] at he
    rw [hc.task]
    rcases List.mem_cons.mp he with rfl | he
    · obtain ⟨hlive, -, -⟩ := perform_cases hc.perform
      obtain ⟨cycle, index, message, rfl, rfl⟩ :=
        deliver_of_handed (h.recounted.allowed hc.thread).does hhanded
      refine ⟨cycle, index, message, hc.task_self, rfl, ?_⟩
      refine (h.awaited i hlive message (waiting_of_pending ?_ fun command' hn => ?_)).cons hr
      · rw [pending_deliver hc.thread]
        exact List.mem_singleton_self _
      · obtain rfl : command = command' := Option.some.inj (hc.nextCommand.symm.trans hn)
        exact Option.isSome_iff_exists.mpr ⟨_, hhanded⟩
    · obtain ⟨cycle, index, message, ht, rfl, hbacked⟩ := h.handed id e he hhanded
      exact ⟨cycle, index, message, ht, rfl, hbacked.cons hr⟩

theorem System.Sparing.singly (h : s.Sparing i fate command) : s.Singly i fate command := by
  unfold System.Singly
  split
  · exact h.2
  · trivial

theorem Limited.call (h : Limited env s) (henv : 0 < env.EMAIL_MAX_ATTEMPTS)
    (hok : s.Sparing i fate command)
    (hs : Pool.step machine (Task.run env) s (.call i fate) = some s')
    (hc : Called machine s s' i fate task command next reply) : Limited env s' := by
  have hbatched := h.toBatched.call hok.singly hs hc
  obtain ⟨-, hstopped, hdb⟩ := perform_cases hc.perform
  refine ⟨hbatched, fun row hrow => h.within_call hok hc henv hrow,
    fun row hrow => h.counted_call hbatched.sound hc hrow, fun e he id hclaims => ?_,
    fun cycle message hm => h.same_call hbatched.recounted hc hm,
    fun row hrow => backed_call h.sound hbatched.sound h.backed hc hrow,
    fun j hj message hm => ?_, fun id e he => h.handed_call hc he⟩
  · rw [hc.trace] at he
    have hgrows : s.world.db.nextId ≤ s'.world.db.nextId := by
      rcases hdb with hdb | ⟨c, -, -, hdb⟩
      · rw [hdb]
      · rw [hdb]
        exact nextId_serve
    rcases List.mem_cons.mp he with rfl | he
    · -- a row that a claim changes is there before it or after it
      by_contra hge
      have hbefore : s.world.db.message? id = none :=
        message?_eq_none.mpr fun m hm he => by
          have := h.sound.below m hm
          omega
      have hafter : s'.world.db.message? id = none :=
        message?_eq_none.mpr fun m hm he => by
          have := hbatched.sound.below m hm
          omega
      exact hclaims.2 (hafter.trans hbefore.symm)
    · exact Nat.lt_of_lt_of_le (h.known e he id hclaims) hgrows
  · rw [hstopped] at hj
    exact h.awaited_call hok hbatched.recounted hc hj hm

end Call

/-- One step that is sparing. -/
theorem limited_step (henv : 0 < env.EMAIL_MAX_ATTEMPTS) (hok : Pool.calls System.Sparing s l)
    (hs : System.step env s l = some s') (h : Limited env s) : Limited env s' := by
  obtain ⟨hb, hs⟩ := step_eq_some hs
  cases l with
  | spawn task => exact h.spawn hb hs
  | call i fate =>
    obtain ⟨task, command, next, reply, hc⟩ := Foundations.called_of_call hs
    exact h.call henv (hok command hc.nextCommand) hs hc
  | move m => exact h.move hs

/-! ## Messages handed over, against claims -/

/-- A thread hands its message over once. -/
theorem handed_once {tasks : Nat → Option Task} {trace : List Event}
    (h : Accounted tasks (Justified env) Credible trace) :
    trace.Pairwise fun e e' => e.command.handed?.isSome → e'.thread ≠ e.thread := by
  induction trace with
  | nil => exact List.Pairwise.nil
  | cons e trace ih =>
    obtain ⟨⟨task, -, hj⟩, -, hrest⟩ := h
    refine List.Pairwise.cons (fun e' he' hsome hsame => ?_) (ih hrest)
    obtain ⟨id, hid⟩ := Option.isSome_iff_exists.mp hsome
    have hmem := Foundations.mem_pastOf_of_mem he'
    rw [hsame, hj.first id hid] at hmem
    cases hmem

/-- The lock on the row that the thread of an event delivers. -/
def System.lockOf (s : System) (e : Event) : Option String × Option Nat :=
  ((s.delivering e.thread).map EmailMessage.lockedFor).getD (none, none)

theorem lockOf_deliver {e : Event} {cycle index : Nat} {message : EmailMessage}
    (h : s.task e.thread = some (.deliver cycle index message)) :
    s.lockOf e = message.lockedFor := by
  unfold System.lockOf System.delivering
  rw [h]
  rfl

/-- Every time a message is handed over goes back to a claim of its own. -/
theorem Limited.handings_le (h : Limited env s) (id : Nat) :
    (handingsOf id s.trace).length ≤ (claimsOf id s.trace).length := by
  have hmem : ∀ e ∈ handingsOf id s.trace, ∃ cycle index message,
      s.task e.thread = some (.deliver cycle index message) ∧ message.id = id ∧
        Backed s.trace message := fun e he =>
    h.handed id e (List.mem_filter.mp he).1 (of_decide_eq_true (List.mem_filter.mp he).2)
  have hnodup : ((handingsOf id s.trace).map s.lockOf).Nodup := by
    rw [List.Nodup, List.pairwise_map]
    have honce := (handed_once h.recounted.accounted).sublist
      (List.filter_sublist.trans sinceRequeue_sublist :
        (handingsOf id s.trace).Sublist s.trace)
    refine honce.imp_of_mem fun {e e'} he he' hdistinct hlock => ?_
    obtain ⟨cycle, index, message, ht, hid, -⟩ := hmem e he
    obtain ⟨cycle', index', message', ht', hid', -⟩ := hmem e' he'
    rw [lockOf_deliver ht, lockOf_deliver ht'] at hlock
    obtain ⟨hby, hat⟩ := Prod.mk.inj hlock
    obtain ⟨rfl, rfl⟩ := h.place (h.inTurn _ _ _ _ ht).2 (h.inTurn _ _ _ _ ht').2
      (hid.trans hid'.symm) hby hat
    refine hdistinct ?_ (h.inTurn.unique ht' ht)
    exact Option.isSome_iff_exists.mpr ⟨id, of_decide_eq_true (List.mem_filter.mp he).2⟩
  have hsubset : (handingsOf id s.trace).map s.lockOf ⊆
      (claimsOf id s.trace).map fun e => e.command.lockedFor := by
    intro lock hlock
    obtain ⟨e, he, rfl⟩ := List.mem_map.mp hlock
    obtain ⟨cycle, index, message, ht, rfl, e', he', hlocked⟩ := hmem e he
    rw [lockOf_deliver ht, ← hlocked]
    exact List.mem_map_of_mem he'
  have hle := (hnodup.subperm hsubset).length_le
  rw [List.length_map, List.length_map] at hle
  exact hle

/-! ## From one moment to a later one -/

/-- The rows of a moment, later on: what is claimed of them stays within their limits. -/
structure Remembered (rows : List EmailMessage) (s : System) : Prop where
  below : ∀ row ∈ rows, row.id < s.world.db.nextId
  limit : ∀ row ∈ rows, ∀ row' ∈ s.world.db.emailMessages, row'.id = row.id →
    row'.maxAttempts = row.maxAttempts
  claims : ∀ row ∈ rows, (claimsOf row.id s.trace).length ≤ row.maxAttempts

theorem Limited.remembered (h : Limited env s) : Remembered s.world.db.emailMessages s where
  below := h.sound.below
  limit row hrow row' hrow' hid := by rw [h.sound.eq_of_key hrow' hrow hid]
  claims row hrow := Nat.le_trans (h.counted row hrow) (h.within row hrow).counted

theorem remembered_step {rows : List EmailMessage} (hs : System.step env s l = some s')
    (h : Limited env s) (h' : Limited env s') (hr : Remembered rows s) : Remembered rows s' := by
  obtain ⟨hb, hs⟩ := step_eq_some hs
  cases l with
  | spawn task =>
    obtain rfl : _ = s' := Option.some.inj hs
    exact ⟨hr.below, hr.limit, hr.claims⟩
  | move m =>
    obtain ⟨world, hw, rfl⟩ := Option.map_eq_some_iff.mp hs
    obtain ⟨hdb, -⟩ := world_of_move hw
    refine ⟨?_, ?_, hr.claims⟩
    · show ∀ row ∈ rows, row.id < world.db.nextId
      rw [hdb]
      exact hr.below
    · show ∀ row ∈ rows, ∀ row' ∈ world.db.emailMessages, _
      rw [hdb]
      exact hr.limit
  | call i fate =>
    obtain ⟨task, command, next, reply, hc⟩ := Foundations.called_of_call hs
    have hlimit : ∀ row ∈ rows, ∀ row' ∈ s'.world.db.emailMessages, row'.id = row.id →
        row'.maxAttempts = row.maxAttempts := by
      intro row hrow row' hrow' hid
      rcases affects_of_called hc hrow' with hold | ⟨c, -, -, ⟨row₀, hrow₀, ha⟩ | hnew⟩
      · exact hr.limit row hrow row' hold hid
      · rw [ha.keeps.2]
        exact hr.limit row hrow row₀ hrow₀ (ha.keeps.1.symm.trans hid)
      · have hlt := hr.below row hrow
        have := hnew.id
        omega
    refine ⟨fun row hrow => ?_, hlimit, fun row hrow => ?_⟩
    · obtain ⟨-, -, hdb | ⟨c, -, -, hdb⟩⟩ := perform_cases hc.perform
      · rw [hdb]
        exact hr.below row hrow
      · rw [hdb]
        exact Nat.lt_of_lt_of_le (hr.below row hrow) nextId_serve
    · by_cases hclaims : ClaimsRow ⟨i, command, reply, s.world, s'.world⟩ row.id
      · -- what is claimed now is there, and its attempts are counted
        cases hafter : s'.world.db.message? row.id with
        | some row' =>
          obtain ⟨hrow', hid⟩ := mem_of_message? hafter
          rw [← hlimit row hrow row' hrow' hid, ← hid]
          exact Nat.le_trans (h'.counted row' hrow') (h'.within row' hrow').counted
        | none =>
          obtain ⟨-, -, hdb | ⟨c, rfl, -, hdb⟩⟩ := perform_cases hc.perform
          · exact absurd (congrArg (·.message? row.id) hdb) hclaims.2
          · refine absurd ?_ hclaims.2
            show s'.world.db.message? row.id = s.world.db.message? row.id
            cases hbefore : s.world.db.message? row.id with
            | none => exact hafter
            | some row₀ =>
              have hgone : (c.serve s.world.now s.world.db).2.message? row.id = c.onRow row₀ :=
                message?_serve h.sound hbefore
              rw [← hdb, hafter] at hgone
              obtain ⟨ids, workerId, now, claimTimeoutMs, hcommand⟩ := claim_of_claims hclaims.1
              cases hcommand
              cases hgone
      · rw [hc.trace]
        have hle : (claimsOf row.id (⟨i, command, reply, s.world, s'.world⟩ :: s.trace)).length ≤
            (claimsOf row.id s.trace).length +
              if ClaimsRow ⟨i, command, reply, s.world, s'.world⟩ row.id then 1 else 0 :=
          claimsOf_cons_le
        rw [if_neg hclaims] at hle
        exact Nat.le_trans hle (hr.claims row hrow)

theorem limited_run {ls : List Label} (henv : 0 < env.EMAIL_MAX_ATTEMPTS) (h : Limited env s)
    (hall : AllSteps (System.step env) (Pool.calls System.Sparing) s ls)
    (hrun : runs (System.step env) s ls = some s') : Limited env s' :=
  Foundations.invariant_of_allSteps (fun _ _ _ hok hs hp => limited_step henv hok hs hp) hall hrun h

/-- In a run whose steps are all sparing, a message is claimed and handed to the provider at most as
often as its attempts allow between two retries of an operator. -/
theorem attempts_bounded (env : Env) (henv : 0 < env.EMAIL_MAX_ATTEMPTS) {world : World}
    (hqueued : world.db.Queued) {ls ls' : List Label} {s s' : System}
    (hall : AllSteps (System.step env) (Pool.calls System.Sparing) (Pool.start world) ls)
    (hrun : runs (System.step env) (Pool.start world) ls = some s)
    (hall' : AllSteps (System.step env) (Pool.calls System.Sparing) s ls')
    (hrun' : runs (System.step env) s ls' = some s') : Bounded s s' := by
  have hlimited := limited_run henv (limited_start hqueued) hall hrun
  have hlater := Foundations.invariant_of_allSteps
    (P := fun s' => Limited env s' ∧ Remembered s.world.db.emailMessages s')
    (fun _ _ _ hok hs hp =>
      have hnext := limited_step henv hok hs hp.1
      ⟨hnext, remembered_step hs hp.1 hnext hp.2⟩)
    hall' hrun' ⟨hlimited, hlimited.remembered⟩
  intro row hrow
  have hclaims := hlater.2.claims row hrow
  exact ⟨hclaims, Nat.le_trans (hlater.1.handings_le row.id) hclaims⟩

/-- A worker dies with a claim, and another takes it over when it is stale. -/
def orphanClaimed : List Label :=
  claiming 0 "a" ++ [.spawn (.deliver 0 0 (claimedBy "a" 0 1)), .move (.stop 0), .move (.stop 1),
    .move (.tick 120001)] ++ claiming 2 "b"

/-- The provider refuses the message for now, and the next cycle has it again. -/
def refusedThenSent : List Label :=
  [.spawn (.deliver 2 0 (claimedBy "b" 120001 2)),
    .call 3 (.sending (.refused "rate limited" true)), .call 3 .served, .call 3 (.drawn 0),
    .call 3 .served, .move (.tick 4000)] ++ claiming 4 "b"

theorem sampleWorld_queued : sampleWorld.db.Queued :=
  ⟨by decide, by decide, by decide, by decide, by decide⟩

theorem attempts_bounded_orphan :
    ∃ s s', runs (System.step sampleEnv) (Pool.start sampleWorld) orphanClaimed = some s ∧
      runs (System.step sampleEnv) s refusedThenSent = some s' ∧
      (claimsOf 0 s'.trace).length = 3 ∧ Bounded s s' := by
  have hrun : (runs (System.step sampleEnv) (Pool.start sampleWorld) orphanClaimed).any (fun s =>
      AllSteps (System.step sampleEnv) (Pool.calls System.Sparing) s refusedThenSent ∧
        (runs (System.step sampleEnv) s refusedThenSent).any fun s' =>
          (claimsOf 0 s'.trace).length = 3) = true := by
    decide +kernel
  obtain ⟨s, hs, hall⟩ := (Option.any_eq_true _ _).mp hrun
  obtain ⟨hsparing, hlater⟩ := of_decide_eq_true hall
  obtain ⟨s', hs', hthree⟩ := (Option.any_eq_true _ _).mp hlater
  exact ⟨s, s', hs, hs', of_decide_eq_true hthree,
    attempts_bounded sampleEnv (by decide) sampleWorld_queued (by decide +kernel) hs hsparing hs'⟩

/-- A message that may be tried once. -/
def lastChance : EmailMessage := { welcome with maxAttempts := 1 }

def lastChanceWorld : World :=
  { sampleWorld with db := { sampleWorld.db with emailMessages := [lastChance] } }

/-- The message crashes the worker that hands it over, and is handed over again when the claim is
stale. -/
def crashing : List Label :=
  claiming 0 "a" ++ [.spawn (.deliver 0 0 { claimedBy "a" 0 1 with maxAttempts := 1 }),
    .call 1 (.sending (.threw "out of memory")), .move (.stop 0), .move (.stop 1),
    .move (.tick 120001)] ++ claiming 2 "b" ++
    [.spawn (.deliver 2 0 { claimedBy "b" 120001 2 with maxAttempts := 1 }),
      .call 3 (.sending (.threw "out of memory"))]

/-- A message that crashes its worker is claimed and handed over beyond its limit. -/
theorem crashing_message_retried :
    lastChanceWorld.db.Queued ∧
      ∃ s, runs (System.step { sampleEnv with EMAIL_MAX_ATTEMPTS := 1 })
        (Pool.start lastChanceWorld) crashing = some s ∧ ¬ Bounded s s := by
  have hrun : (runs (System.step { sampleEnv with EMAIL_MAX_ATTEMPTS := 1 })
      (Pool.start lastChanceWorld) crashing).any (fun s =>
        ∃ row ∈ s.world.db.emailMessages, row.maxAttempts < (claimsOf row.id s.trace).length ∧
          row.maxAttempts < (handingsOf row.id s.trace).length) = true := by
    decide +kernel
  refine ⟨⟨by decide, by decide, by decide, by decide, by decide⟩, ?_⟩
  obtain ⟨s, hs, hexceeds⟩ := (Option.any_eq_true _ _).mp hrun
  obtain ⟨row, hrow, hlt, -⟩ := of_decide_eq_true hexceeds
  refine ⟨s, hs, fun h => ?_⟩
  have hle := (h row hrow).1
  omega

end PracticalMicroservice.Email
