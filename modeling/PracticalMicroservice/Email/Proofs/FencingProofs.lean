import PracticalMicroservice.Email.Fencing
import PracticalMicroservice.Email.Proofs.BatchProofs

/-!
# Proofs: while claims are not taken over, outcomes are fenced

In a run whose steps are timely, a delivery under way has its claim: its row is locked by the worker
and since the time its message was read back with, and no other delivery is of the same message.
Outcomes, claims and sends then only meet rows of their own.
-/

namespace PracticalMicroservice.Email

open Foundations (AllSteps Called KeyedTable Pool Recounted runs)
open PrismaEmailRepository (findClaimed heldBy)

/-- What timely steps preserve. -/
structure Orderly (env : Env) (s : System) : Prop extends Batched env s where
  held : ∀ i, i ∉ s.world.stopped → ∀ message ∈ s.pending i, Holds s.world.db message
  recorded : ∀ e ∈ s.trace, ∀ cycle index message,
    s.task e.thread = some (.deliver cycle index message) → Holds e.before.db message

variable {env : Env} {s s' : System} {l : Label}

theorem orderly_start {world : World} (hs : world.db.Sound) :
    Orderly env (Pool.start world : System) where
  toBatched := batched_start hs
  held i _ message h := by simp [System.pending, Pool.start] at h
  recorded _ he := nomatch he

/-! ## One delivery for a message -/

/-- The place in a batch a thread is to deliver a message of. -/
theorem place_of_pending (h : InTurn s) {i : Nat} {message : EmailMessage}
    (hm : message ∈ s.pending i) :
    ∃ cycle index, (s.batch cycle)[index]? = some message ∧
      (s.task i = some (.deliver cycle index message) ∨ (i = cycle ∧ s.cursor cycle ≤ index)) := by
  rcases mem_pending hm with ⟨cycle, index, command, next, ht⟩ | hrest
  · have htask : s.task i = some (.deliver cycle index message) := by
      unfold Pool.task
      rw [ht]
      rfl
    exact ⟨cycle, index, (h i cycle index message htask).2, .inl htask⟩
  · obtain ⟨k, hk⟩ := List.getElem?_of_mem hrest
    rw [List.getElem?_drop] at hk
    exact ⟨i, s.cursor i + k, hk, .inr ⟨rfl, Nat.le_add_right _ _⟩⟩

/-- No two threads are to deliver one message. -/
theorem Orderly.distinct (h : Orderly env s) {i j : Nat} {message message' : EmailMessage}
    (hi : i ∉ s.world.stopped) (hj : j ∉ s.world.stopped) (hm : message ∈ s.pending i)
    (hm' : message' ∈ s.pending j) (hid : message.id = message'.id) : i = j := by
  obtain ⟨cycle, index, hb, hplace⟩ := place_of_pending h.inTurn hm
  obtain ⟨cycle', index', hb', hplace'⟩ := place_of_pending h.inTurn hm'
  obtain ⟨row, hrow, -, hby, hat⟩ := h.held i hi message hm
  obtain ⟨row', hrow', -, hby', hat'⟩ := h.held j hj message' hm'
  obtain rfl : row = row' := Option.some.inj (hrow.symm.trans (hid ▸ hrow'))
  -- one row is under one claim, and one claim was answered to one cycle
  obtain ⟨rfl, rfl⟩ := h.place hb hb' hid (hby.symm.trans hby') (hat.symm.trans hat')
  rcases hplace with ht | ⟨rfl, hle⟩
  · rcases hplace' with ht' | ⟨rfl, hle'⟩
    · exact h.inTurn.unique ht ht'
    · have := h.inTurn.lt_cursor ht
      omega
  · rcases hplace' with ht' | ⟨rfl, -⟩
    · have := h.inTurn.lt_cursor ht'
      omega
    · rfl

/-! ## A task begins -/

section Spawn

variable {task : Task}

theorem Orderly.spawn (h : Orderly env s) (hb : s.Begins env (.spawn task))
    (hs : Pool.step machine (Task.run env) s (.spawn task) = some s') : Orderly env s' := by
  have hbatched := h.toBatched.spawn hb hs
  have htasks : ∀ e ∈ s.trace, (s.task e.thread).isSome := by
    intro e he
    obtain ⟨newer, older, ht⟩ := List.append_of_mem he
    obtain ⟨⟨t, htask, -⟩, -⟩ := h.recounted.accounted.split ht
    rw [htask]
    rfl
  obtain rfl : { s with threads := s.threads ++ [⟨task, task.run env⟩] } = s' := Option.some.inj hs
  refine ⟨hbatched, ?_, ?_⟩
  · intro i hi message hm
    rcases pending_spawn hb hm with ⟨-, hold⟩ | ⟨cycle, hlive, hrest⟩
    · exact h.held i hi message hold
    · refine h.held cycle hlive message ?_
      rw [pending_cycle (result_of_batch (List.mem_of_mem_drop hrest))]
      exact hrest
  · intro e he cycle index message ht
    obtain ⟨t, hold⟩ := Option.isSome_iff_exists.mp (htasks e he)
    have hsame := Foundations.task_of_step hs hold
    rw [hsame] at ht
    cases ht
    exact h.recorded e he cycle index message hold

end Spawn

/-! ## A command is performed -/

section Call

variable {i : Nat} {fate : Fate} {task : Task} {command : Command} {next : command.Reply → Code}
  {reply : command.Reply}

/-- A thread that has recorded an outcome has nothing left to do. -/
theorem Orderly.ends (h : Recounted (Justified env) Credible Concluded s')
    (hc : Called machine s s' i fate task command next reply) {command' : Command}
    {next' : command'.Reply → Code} (hn : next reply = .perform command' next') :
    command.recorded? = none := by
  have ht : s'.threads[i]? = some ⟨task, .perform command' next'⟩ := by
    rw [hc.getElem?, if_pos rfl, hn]
  have hj := h.allowed ht
  rw [hc.pastOf_self] at hj
  exact hj.unrecorded _ List.mem_cons_self

/-- A command leaves the claim of a delivery as it is, unless it records that delivery. -/
theorem Orderly.holds_call (h : Orderly env s) (htimely : s.Timely i fate command)
    (hc : Called machine s s' i fate task command next reply) {j : Nat} {message : EmailMessage}
    (hj : j ∉ s.world.stopped) (hm : message ∈ s.pending j)
    (hrecord : j = i → command.recorded? = none) : Holds s'.world.db message := by
  have hh := h.held j hj message hm
  obtain ⟨hi, -, hdb | ⟨c, rfl, heffect, hdb⟩⟩ := perform_cases hc.perform
  · rw [hdb]
    exact hh
  · rw [hdb]
    refine hh.serve h.sound ?_ ?_ ?_
    · rintro ids workerId now claimTimeoutMs rfl row hrow hclaimable hsending
      exact htimely.1 heffect row hrow hclaimable hsending message
        (mem_underWay.mpr ⟨j, hj, hm⟩)
    · intro he
      obtain ⟨cycle, index, own, rfl, hid⟩ :=
        deliver_of_recorded (h.recounted.allowed hc.thread).does he
      have hpending := pending_deliver hc.thread
      have hij := h.distinct hi hj (by rw [hpending]; exact List.mem_singleton_self _) hm hid
      rw [hrecord hij.symm] at he
      cases he
    · rintro id resetAttempts now rfl rfl
      have hretry := htimely heffect _ hh.status
      simp [RETRYABLE_STATUSES] at hretry

/-- Timely claims are told apart. -/
theorem System.Timely.singly (h : s.Timely i fate command) : s.Singly i fate command := by
  unfold System.Singly
  split
  · exact h.2
  · trivial

theorem Orderly.call (h : Orderly env s) (htimely : s.Timely i fate command)
    (hs : Pool.step machine (Task.run env) s (.call i fate) = some s')
    (hc : Called machine s s' i fate task command next reply) : Orderly env s' := by
  have hbatched := h.toBatched.call htimely.singly hs hc
  have hrec := hbatched.recounted
  obtain ⟨hi, hstopped, -⟩ := perform_cases hc.perform
  refine ⟨hbatched, ?_, ?_⟩
  · intro j hj message hm
    rw [hstopped] at hj
    rcases pending_call hrec hc hm with ⟨hold, hnext⟩ | ⟨-, workerId, now, hback, hsame⟩
    · refine h.holds_call htimely hc hj hold fun hji => ?_
      obtain ⟨command', next', hn⟩ := hnext hji
      exact Orderly.ends hrec hc hn
    · rw [hsame]
      exact (holds_of_findClaimed h.sound hback).1
  · intro e he cycle index message ht
    rw [hc.task] at ht
    rw [hc.trace] at he
    rcases List.mem_cons.mp he with rfl | he
    · have htask : some task = some (Task.deliver cycle index message) :=
        hc.task_self.symm.trans ht
      cases htask
      refine h.held i hi message ?_
      rw [pending_deliver hc.thread]
      exact List.mem_singleton_self _
    · exact h.recorded e he cycle index message ht

end Call

/-! ## Every step -/

theorem Orderly.move (h : Orderly env s) {m : Move}
    (hs : Pool.step machine (Task.run env) s (.move m) = some s') : Orderly env s' := by
  have hbatched := h.toBatched.move hs
  obtain ⟨world, hw, rfl⟩ := Option.map_eq_some_iff.mp hs
  obtain ⟨hdb, hstopped⟩ := world_of_move hw
  refine ⟨hbatched, fun i hi message hm => ?_, h.recorded⟩
  show Holds world.db message
  rw [hdb]
  exact h.held i (fun hi' => hi (hstopped i hi')) message hm

/-- One step that is timely. -/
theorem orderly_step (hok : Pool.calls System.Timely s l) (hs : System.step env s l = some s')
    (h : Orderly env s) : Orderly env s' := by
  obtain ⟨hb, hs⟩ := step_eq_some hs
  cases l with
  | spawn task => exact h.spawn hb hs
  | call i fate =>
    obtain ⟨task, command, next, reply, hc⟩ := Foundations.called_of_call hs
    exact h.call (hok command hc.nextCommand) hs hc
  | move m => exact h.move hs

/-! ## What was sent -/

/-- Since a state, nothing has happened to a message that was sent by then. -/
def Untouched (s : System) (id : Nat) (s' : System) : Prop :=
  Delivered s'.world.db id ∧ ∃ newer, s'.trace = newer ++ s.trace ∧
    ∀ e ∈ newer, ¬ ClaimsRow e id ∧ e.command.handed? ≠ some id

/-- A delivery under way is of no message that was sent. -/
theorem Orderly.not_delivered (h : Orderly env s) {i cycle index : Nat} {message : EmailMessage}
    {command : Command} {next : command.Reply → Code} (hi : i ∉ s.world.stopped)
    (ht : s.threads[i]? = some ⟨.deliver cycle index message, .perform command next⟩) :
    ¬ Delivered s.world.db message.id := by
  intro hdelivered
  refine hdelivered.not_holds rfl (h.held i hi message ?_)
  rw [pending_deliver ht]
  exact List.mem_singleton_self _

theorem untouched_step {s₀ : System} {id : Nat} (hok : Pool.calls System.Timely s l)
    (hs : System.step env s l = some s') (h : Orderly env s) (hu : Untouched s₀ id s) :
    Untouched s₀ id s' := by
  obtain ⟨hdelivered, newer, htrace, hquiet⟩ := hu
  obtain ⟨-, hs⟩ := step_eq_some hs
  cases l with
  | spawn task =>
    obtain rfl : _ = s' := Option.some.inj hs
    exact ⟨hdelivered, newer, htrace, hquiet⟩
  | move m =>
    obtain ⟨world, hw, rfl⟩ := Option.map_eq_some_iff.mp hs
    refine ⟨?_, newer, htrace, hquiet⟩
    show Delivered world.db id
    rw [(world_of_move hw).1]
    exact hdelivered
  | call i fate =>
    obtain ⟨task, command, next, reply, hc⟩ := Foundations.called_of_call hs
    obtain ⟨hi, -, hdb⟩ := perform_cases hc.perform
    have hdoes := (h.recounted.allowed hc.thread).does
    have hkept : Delivered s'.world.db id ∧
        (command.claims = true → s'.world.db.message? id = s.world.db.message? id) := by
      rcases hdb with hdb | ⟨c, rfl, heffect, hdb⟩
      · rw [hdb]
        exact ⟨hdelivered, fun _ => rfl⟩
      · rw [hdb]
        refine hdelivered.serve h.sound (fun he => ?_) ?_
        · obtain ⟨cycle, index, message, rfl, rfl⟩ := deliver_of_recorded hdoes he
          exact h.not_delivered hi hc.thread hdelivered
        · rintro id' resetAttempts now rfl hsent
          have hretry := hok _ hc.nextCommand heffect _ hsent
          simp [RETRYABLE_STATUSES] at hretry
    refine ⟨hkept.1, ⟨i, command, reply, s.world, s'.world⟩ :: newer, ?_, fun e he => ?_⟩
    · rw [hc.trace, htrace]
      rfl
    · rcases List.mem_cons.mp he with rfl | he
      · refine ⟨fun hclaims => hclaims.2 (hkept.2 hclaims.1), fun hhanded => ?_⟩
        obtain ⟨cycle, index, message, rfl, rfl⟩ := deliver_of_handed hdoes hhanded
        exact h.not_delivered hi hc.thread hdelivered
      · exact hquiet e he

theorem orderly_run {ls : List Label} (h : Orderly env s)
    (hall : AllSteps (System.step env) (Pool.calls System.Timely) s ls)
    (hrun : runs (System.step env) s ls = some s') : Orderly env s' :=
  Foundations.invariant_of_allSteps (fun _ _ _ hok hs hp => orderly_step hok hs hp) hall hrun h

theorem untouched_run {id : Nat} {ls : List Label} (h : Orderly env s)
    (hdelivered : Delivered s.world.db id)
    (hall : AllSteps (System.step env) (Pool.calls System.Timely) s ls)
    (hrun : runs (System.step env) s ls = some s') : Untouched s id s' := by
  refine (Foundations.invariant_of_allSteps (P := fun s' => Orderly env s' ∧ Untouched s id s')
    (fun _ _ _ hok hs hp => ⟨orderly_step hok hs hp.1, untouched_step hok hs hp.1 hp.2⟩) hall hrun
    ⟨h, hdelivered, [], rfl, fun _ he => nomatch he⟩).2

/-- In a run whose steps are all timely, a message that was sent stays sent, and what a delivery
records takes effect only under its claim. -/
theorem sent_is_final (env : Env) {world : World} (hsound : world.db.Sound) {ls ls' : List Label}
    {s s' : System}
    (hall : AllSteps (System.step env) (Pool.calls System.Timely) (Pool.start world) ls)
    (hrun : runs (System.step env) (Pool.start world) ls = some s)
    (hall' : AllSteps (System.step env) (Pool.calls System.Timely) s ls')
    (hrun' : runs (System.step env) s ls' = some s') : Fenced s s' := by
  have horderly := orderly_run (orderly_start hsound) hall hrun
  refine ⟨fun id hsent => ?_, fun id hsent newer htrace e he => ?_, fun e he => ?_⟩
  · exact (untouched_run horderly (.inl hsent) hall' hrun').1.status
  · obtain ⟨-, newer', htrace', hquiet⟩ := untouched_run horderly (.inl hsent) hall' hrun'
    rw [htrace', List.append_cancel_right_eq] at htrace
    exact hquiet e (htrace ▸ he)
  · intro cycle index message ht _
    exact (orderly_run horderly hall' hrun').recorded e he cycle index message ht

/-- A worker dies with a claim; when it is stale another delivers the message. -/
def orphanSent : List Label :=
  claiming 0 "a" ++ [.move (.stop 0), .move (.tick 120001)] ++ claiming 1 "b" ++
    [.spawn (.deliver 1 0 (claimedBy "b" 120001 2))] ++ accepting 2

/-- An operator asks for a retry. -/
def retried : List Label := [.spawn (.retry 0), .call 3 .served]

theorem sampleWorld_sound : sampleWorld.db.Sound := ⟨by decide, by decide⟩

theorem sent_is_final_orphan :
    ∃ s s', runs (System.step sampleEnv) (Pool.start sampleWorld) orphanSent = some s ∧
      runs (System.step sampleEnv) s retried = some s' ∧ s.world.db.status? 0 = some .SENT ∧
      Fenced s s' := by
  have hrun : (runs (System.step sampleEnv) (Pool.start sampleWorld) orphanSent).any (fun s =>
      s.world.db.status? 0 = some .SENT ∧
        AllSteps (System.step sampleEnv) (Pool.calls System.Timely) s retried ∧
        (runs (System.step sampleEnv) s retried).isSome) = true := by
    decide +kernel
  obtain ⟨s, hs, hall⟩ := (Option.any_eq_true _ _).mp hrun
  obtain ⟨hsent, htimely, hsome⟩ := of_decide_eq_true hall
  obtain ⟨s', hs'⟩ := Option.isSome_iff_exists.mp hsome
  exact ⟨s, s', hs, hs', hsent,
    sent_is_final sampleEnv sampleWorld_sound (by decide +kernel) hs htimely hs'⟩

/-- The claim of a worker that is still at it goes stale, and another delivers the message. -/
def overtaken : List Label :=
  claiming 0 "a" ++ [.spawn (.deliver 0 0 (claimedBy "a" 0 1)), .move (.tick 120001)] ++
    claiming 2 "b" ++ [.spawn (.deliver 2 0 (claimedBy "b" 120001 2))] ++ accepting 3

/-- The send of the first worker fails, and it records that. -/
def failingLate : List Label :=
  [.call 1 (.sending (.refused "timeout" true)), .call 1 .served, .call 1 (.drawn 0),
    .call 1 .served]

/-- A late failure puts a message that was sent back in the queue. -/
theorem late_failure_reopens_sent :
    ∃ s s', runs (System.step sampleEnv) (Pool.start sampleWorld) overtaken = some s ∧
      runs (System.step sampleEnv) s failingLate = some s' ∧ ¬ Fenced s s' := by
  have hrun : (runs (System.step sampleEnv) (Pool.start sampleWorld) overtaken).any (fun s =>
      s.world.db.status? 0 = some .SENT ∧
        (runs (System.step sampleEnv) s failingLate).any fun s' =>
          s'.world.db.status? 0 = some .FAILED) = true := by
    decide +kernel
  obtain ⟨s, hs, hall⟩ := (Option.any_eq_true _ _).mp hrun
  obtain ⟨hsent, hlate⟩ := of_decide_eq_true hall
  obtain ⟨s', hs', hfailed⟩ := (Option.any_eq_true _ _).mp hlate
  refine ⟨s, s', hs, hs', fun h => ?_⟩
  have hstill := h.terminal 0 hsent
  rw [of_decide_eq_true hfailed] at hstill
  rcases hstill with hstill | hstill
  · cases hstill
  · cases hstill

end PracticalMicroservice.Email
