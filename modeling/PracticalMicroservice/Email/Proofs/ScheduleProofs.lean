import PracticalMicroservice.Email.Exclusivity
import PracticalMicroservice.Email.Proofs.BatchProofs

/-!
# Proofs: how long a batch takes

Runners take the messages of a batch in turn and none waits: the delivery at an index begins when a
runner has been through as many rounds as fit before it, and while time passes the first of the
deliveries under way is a whole round ahead of the cursor.
-/

namespace PracticalMicroservice.Email

open Foundations (Called Pool)

/-- The first of the members that have a property, and how many others can come after it. -/
theorem exists_first {α : Type} {p q : α → Bool} (hpq : ∀ a, p a = true → q a = true)
    {xs : List α} (h : 0 < xs.countP p) :
    ∃ i a, xs[i]? = some a ∧ p a = true ∧ xs.countP p + (xs.take i).countP q ≤ xs.countP q := by
  induction xs with
  | nil => simp at h
  | cons x xs ih =>
    by_cases hx : p x = true
    · refine ⟨0, x, rfl, hx, ?_⟩
      rw [List.take_zero, List.countP_nil, Nat.add_zero]
      exact List.countP_mono_left fun a _ => hpq a
    · rw [List.countP_cons_of_neg hx] at h ⊢
      obtain ⟨i, a, hget, ha, hle⟩ := ih h
      refine ⟨i + 1, a, hget, ha, ?_⟩
      rw [List.take_succ_cons, List.countP_cons, List.countP_cons]
      omega

variable {env : Env} {claimMs : Nat} {k k' : Clocked} {l : Label}

/-- A step of the clocked service is a step of the service; a thread that begins is clocked. -/
theorem clocked_step (h : k.step env l = some k') :
    System.step env k.system l = some k'.system ∧
      ((∃ task, l = .spawn task ∧ k'.began = k.began ++ [k.system.world.now]) ∨
        ((∀ task, l ≠ .spawn task) ∧ k'.began = k.began)) := by
  unfold Clocked.step at h
  split at h
  · rename_i task
    obtain ⟨system, hs, rfl⟩ := Option.map_eq_some_iff.mp h
    exact ⟨hs, .inl ⟨task, rfl, rfl⟩⟩
  · rename_i l hl
    obtain ⟨system, hs, rfl⟩ := Option.map_eq_some_iff.mp h
    exact ⟨hs, .inr ⟨hl, rfl⟩⟩

/-- The clock reads the time, and no command moves it. -/
theorem clock_of_perform {i : Nat} {fate : Fate} {command : Command} {w w' : World}
    {reply : command.Reply} (h : machine.perform i fate command w = some (reply, w')) :
    w'.now = w.now ∧ ∀ at_, clock? ⟨command, reply⟩ = some at_ → at_ = w.now := by
  unfold machine at h
  dsimp only at h
  split at h
  · cases h
  · cases command with
    | now =>
      cases h
      exact ⟨rfl, fun at_ ht => (Option.some.inj ht).symm⟩
    | repository c =>
      refine ⟨?_, fun _ ht => nomatch ht⟩
      cases fate <;> cases h <;> rfl
    | random =>
      refine ⟨?_, fun _ ht => nomatch ht⟩
      cases fate <;> cases h
      rfl
    | send message =>
      refine ⟨?_, fun _ ht => nomatch ht⟩
      cases fate <;> cases h
      rfl

/-- Only a cycle claims. -/
theorem runOnce_of_claims {task : Task} {command : Command} (hd : task.Does env command)
    (hc : command.claims = true) : ∃ workerId, task = .runOnce workerId := by
  unfold Command.claims at hc
  split at hc
  · cases task with
    | runOnce workerId => exact ⟨workerId, rfl⟩
    | enqueue input idempotencyKey => cases hd
    | deliver cycle index message => cases hd
    | retry id => cases hd
    | purgeExpired => cases hd
  · cases hc

theorem claims_of_claimed {x : (command : Command) × command.Reply} {claim : String × Nat}
    (h : claimed? x = some claim) : x.1.claims = true := by
  unfold claimed? at h
  split at h
  · rfl
  · cases h

/-! ## The schedule of a paced run -/

structure Scheduled (env : Env) (claimMs : Nat) (k : Clocked) : Prop where
  length : k.began.length = k.system.threads.length
  stops : ∀ i ∈ k.system.world.stopped, i < k.system.threads.length
  /-- A process that has died has no cycle that goes on. -/
  dead : ∀ i ∈ k.system.world.stopped, ∀ cycle index message,
    k.system.task i = some (.deliver cycle index message) → cycle ∈ k.system.world.stopped
  past : ∀ began ∈ k.began, began ≤ k.system.world.now
  told : ∀ e ∈ k.system.trace, ∀ at_, clock? e.told = some at_ →
    (∀ began, k.began[e.thread]? = some began → began ≤ at_) ∧ at_ ≤ k.system.world.now
  onTime : k.OnTime env claimMs k.system.world.now
  /-- When the deliveries of a batch have begun. -/
  turns : ∀ i cycle index message began began₀,
    k.system.task i = some (.deliver cycle index message) → k.began[i]? = some began →
    k.began[cycle]? = some began₀ →
    began ≤ began₀ + claimMs +
      index / env.DISPATCHER_CONCURRENCY * env.EMAIL_PROVIDER_TIMEOUT_MS
  /-- When the next of them begins at the latest. -/
  left : ∀ cycle began₀, cycle ∉ k.system.world.stopped →
    k.system.cursor cycle < (k.system.batch cycle).length → k.began[cycle]? = some began₀ →
    k.system.world.now ≤ began₀ + claimMs +
      k.system.cursor cycle / env.DISPATCHER_CONCURRENCY * env.EMAIL_PROVIDER_TIMEOUT_MS

theorem scheduled_start {world : World} (hs : world.stopped = []) :
    Scheduled env claimMs (Clocked.start world) where
  length := rfl
  stops i hi := by
    have hi : i ∈ world.stopped := hi
    rw [hs] at hi
    cases hi
  dead i hi := by
    have hi : i ∈ world.stopped := hi
    rw [hs] at hi
    cases hi
  past _ h := nomatch h
  told _ h := nomatch h
  onTime i hi := absurd hi (Nat.not_lt_zero i)
  turns i cycle index message began began₀ ht := by
    simp [Pool.task, Clocked.start, Pool.start] at ht
  left cycle began₀ _ hlt hb := by simp [Clocked.start] at hb

/-- Every event is of a thread there is. -/
theorem Batched.known {s : System} (h : Batched env s) {e : Event} (he : e ∈ s.trace) :
    ∃ task, s.task e.thread = some task := by
  obtain ⟨newer, older, ht⟩ := List.append_of_mem he
  obtain ⟨⟨task, htask, -⟩, -⟩ := h.recounted.accounted.split ht
  exact ⟨task, htask⟩

theorem lt_of_task {s : System} {i : Nat} {task : Task} (h : s.task i = some task) :
    i < s.threads.length := by
  obtain ⟨thread, hget, -⟩ := Option.map_eq_some_iff.mp h
  exact (List.getElem?_eq_some_iff.mp hget).1

/-- The cycle of a batch. -/
theorem Batched.runOnce {s : System} (h : Batched env s) {cycle : Nat} {message : EmailMessage}
    (hm : message ∈ s.batch cycle) : ∃ workerId, s.task cycle = some (.runOnce workerId) := by
  rcases h.batches cycle _ (result_of_batch hm) with hnil | ⟨workerId, now, ⟨e, he, rfl, hclaim⟩, -⟩
  · exact absurd hnil (List.ne_nil_of_mem hm)
  · obtain ⟨newer, older, ht⟩ := List.append_of_mem he
    obtain ⟨⟨task, htask, hj⟩, -⟩ := h.recounted.accounted.split ht
    obtain ⟨workerId', rfl⟩ := runOnce_of_claims hj.does (claims_of_claimed hclaim)
    exact ⟨workerId', htask⟩

/-- A thread with a batch is there. -/
theorem lt_of_batch {s : System} {cycle : Nat} {message : EmailMessage}
    (hm : message ∈ s.batch cycle) : cycle < s.threads.length := by
  obtain ⟨t, ht⟩ := Foundations.result_eq_some (result_of_batch hm)
  exact (List.getElem?_eq_some_iff.mp ht).1

/-! ## What a step preserves -/

section Spawn

variable {task : Task}

theorem Scheduled.spawn (h : Scheduled env claimMs k) (hb : Batched env k.system)
    (hbegins : k.system.Begins env (.spawn task))
    (hs : Pool.step machine (Task.run env) k.system (.spawn task) = some k'.system)
    (hbegan : k'.began = k.began ++ [k.system.world.now]) : Scheduled env claimMs k' := by
  obtain ⟨s', began'⟩ := k'
  obtain rfl : { k.system with threads := k.system.threads ++ [⟨task, task.run env⟩] } = s' :=
    Option.some.inj hs
  obtain rfl : began' = _ := hbegan
  have hold : ∀ {i : Nat}, i < k.system.threads.length →
      (k.began ++ [k.system.world.now])[i]? = k.began[i]? := fun hi =>
    List.getElem?_append_left (h.length ▸ hi)
  have hnew : ∀ {began : Nat},
      (k.began ++ [k.system.world.now])[k.system.threads.length]? = some began →
      began = k.system.world.now := by
    intro began hget
    rw [List.getElem?_append_right (by rw [h.length]), h.length, Nat.sub_self] at hget
    exact (Option.some.inj hget).symm
  have hgrows : ∀ cycle, k.system.cursor cycle ≤ System.cursor
      { k.system with threads := k.system.threads ++ [⟨task, task.run env⟩] } cycle := by
    intro cycle
    unfold System.cursor
    rw [List.map_append, List.countP_append]
    exact Nat.le_add_right _ _
  refine ⟨?_, fun i hi => ?_, fun i hi cycle index message ht => ?_, fun began hm => ?_,
    fun e he at_ hat => ?_, fun i hi hlive hnext t ht allowance ha began hm => ?_, ?_, ?_⟩
  · rw [List.length_append, List.length_append, h.length]
    rfl
  · rw [List.length_append]
    exact Nat.lt_add_right _ (h.stops i hi)
  · rcases task_spawn ht with hold' | ⟨rfl, -⟩
    · exact h.dead i hi cycle index message hold'
    · exact absurd (h.stops _ hi) (Nat.lt_irrefl _)
  · rcases List.mem_append.mp hm with hm | hm
    · exact h.past began hm
    · rw [List.mem_singleton.mp hm]
  · obtain ⟨t, ht⟩ := hb.known he
    obtain ⟨hfrom, hto⟩ := h.told e he at_ hat
    refine ⟨fun began hm => hfrom began ?_, hto⟩
    rw [← hold (lt_of_task ht)]
    exact hm
  · rcases Nat.lt_or_ge i k.system.threads.length with hlt | hge
    · refine h.onTime i hlt hlive ?_ t ?_ allowance ha began ?_
      · unfold Pool.nextCommand at hnext ⊢
        dsimp only at hnext
        rw [List.getElem?_append_left hlt] at hnext
        exact hnext
      · rcases task_spawn ht with hold' | ⟨rfl, -⟩
        · exact hold'
        · exact absurd hlt (Nat.lt_irrefl _)
      · rw [← hold hlt]
        exact hm
    · rw [List.length_append, List.length_singleton] at hi
      obtain rfl : i = k.system.threads.length := by omega
      obtain rfl := hnew hm
      exact Nat.le_add_right _ _
  · intro i cycle index message began began₀ ht hm hm₀
    rcases task_spawn ht with hold' | ⟨rfl, rfl⟩
    · have hget := (hb.inTurn i cycle index message hold').2
      rw [hold (lt_of_task hold')] at hm
      rw [hold (lt_of_batch (List.mem_of_getElem? hget))] at hm₀
      exact h.turns i cycle index message began began₀ hold' hm hm₀
    · -- a delivery that begins does so when its turn has come at the latest
      obtain ⟨hlive, hcursor, hget, -⟩ := hbegins
      obtain rfl := hnew hm
      rw [hold (lt_of_batch (List.mem_of_getElem? hget))] at hm₀
      rw [← hcursor]
      refine h.left cycle began₀ hlive ?_ hm₀
      rw [hcursor]
      exact (List.getElem?_eq_some_iff.mp hget).1
  · intro cycle began₀ hlive hlt hm₀
    have hne : System.batch { k.system with
        threads := k.system.threads ++ [⟨task, task.run env⟩] } cycle ≠ [] := by
      intro hnil
      rw [hnil] at hlt
      exact absurd hlt (Nat.not_lt_zero _)
    obtain ⟨message, hmem⟩ := List.exists_mem_of_ne_nil _ hne
    have hbatch := batch_of_result (result_spawn_of_batch hne (result_of_batch hmem))
    rw [← hbatch] at hlt hmem
    rw [hold (lt_of_batch hmem)] at hm₀
    have hbefore := h.left cycle began₀ hlive (Nat.lt_of_le_of_lt (hgrows cycle) hlt) hm₀
    exact Nat.le_trans hbefore (Nat.add_le_add_left
      (Nat.mul_le_mul_right _ (Nat.div_le_div_right (hgrows cycle))) _)

end Spawn

section Call

variable {i : Nat} {fate : Fate} {task : Task} {command : Command} {next : command.Reply → Code}
  {reply : command.Reply}

theorem Scheduled.call (h : Scheduled env claimMs k) (hb : Batched env k'.system)
    (hc : Called machine k.system k'.system i fate task command next reply)
    (hbegan : k'.began = k.began) : Scheduled env claimMs k' := by
  obtain ⟨s', began'⟩ := k'
  obtain rfl : began' = k.began := hbegan
  obtain ⟨hi, hstopped, -⟩ := perform_cases hc.perform
  obtain ⟨hnow, hclock⟩ := clock_of_perform hc.perform
  have hnow : s'.world.now = k.system.world.now := hnow
  have hstopped : s'.world.stopped = k.system.world.stopped := hstopped
  have hlength : s'.threads.length = k.system.threads.length := hc.length
  have htask : ∀ j, s'.task j = k.system.task j := hc.task
  have hcursor : ∀ cycle, s'.cursor cycle = k.system.cursor cycle := by
    intro cycle
    unfold System.cursor
    rw [show s'.threads.map (·.task) = k.system.threads.map (·.task) from hc.tasks]
  refine ⟨?_, ?_, ?_, ?_, fun e he at_ hat => ?_, ?_, ?_, ?_⟩
  · rw [hlength]
    exact h.length
  · rw [hlength, hstopped]
    exact h.stops
  · intro j hj cycle index message ht
    rw [hstopped] at hj ⊢
    rw [htask] at ht
    exact h.dead j hj cycle index message ht
  · rw [hnow]
    exact h.past
  · rw [hnow]
    have he : e ∈ s'.trace := he
    rw [show s'.trace = _ from hc.trace] at he
    rcases List.mem_cons.mp he with rfl | he
    · obtain rfl := hclock at_ hat
      exact ⟨fun began hm => h.past began (List.mem_of_getElem? hm), Nat.le_refl _⟩
    · exact h.told e he at_ hat
  · intro j hj hlive hnext t ht allowance ha began hm
    rw [hnow]
    rw [hlength] at hj
    rw [hstopped] at hlive
    rw [htask] at ht
    refine h.onTime j hj hlive ?_ t ht allowance ha began hm
    by_cases hji : j = i
    · rw [hji, hc.nextCommand]
      rfl
    · unfold Pool.nextCommand at hnext ⊢
      rw [show s'.threads[j]? = _ from hc.getElem? j, if_neg hji] at hnext
      exact hnext
  · intro j cycle index message began began₀ ht
    rw [htask] at ht
    exact h.turns j cycle index message began began₀ ht
  · intro cycle began₀ hlive hlt hm₀
    rw [hnow, hcursor]
    rw [hstopped] at hlive
    by_cases hci : cycle = i
    · -- a cycle has its batch within its allowance
      subst hci
      obtain ⟨message, hmem⟩ : ∃ message, message ∈ s'.batch cycle := by
        refine List.exists_mem_of_ne_nil _ fun hnil => ?_
        rw [hnil] at hlt
        exact absurd hlt (Nat.not_lt_zero _)
      obtain ⟨workerId, hrun⟩ := hb.runOnce hmem
      rw [htask] at hrun
      have hnext : (k.system.nextCommand cycle).isSome := by
        rw [hc.nextCommand]
        rfl
      have htime := h.onTime cycle hc.lt hi hnext _ hrun claimMs rfl began₀ hm₀
      exact Nat.le_trans htime (Nat.le_add_right _ _)
    · rw [hcursor, batch_congr (hc.result_of_ne hci)] at hlt
      exact h.left cycle began₀ hlive hlt hm₀

end Call

section Move

/-- A round of deliveries, at the pace of the provider. -/
theorem round_le {index cursor concurrency timeout : Nat} (hc : 0 < concurrency)
    (h : index + concurrency ≤ cursor) :
    index / concurrency * timeout + timeout ≤ cursor / concurrency * timeout := by
  have hnext : index / concurrency + 1 = (index + concurrency) / concurrency :=
    (Nat.add_div_right index hc).symm
  have hle : index / concurrency + 1 ≤ cursor / concurrency := by
    rw [hnext]
    exact Nat.div_le_div_right h
  calc index / concurrency * timeout + timeout = (index / concurrency + 1) * timeout := by
        rw [Nat.succ_mul]
    _ ≤ cursor / concurrency * timeout := Nat.mul_le_mul_right _ hle

/-- While every runner is at work, the first delivery under way is a round ahead of the cursor. -/
theorem ahead_of_busy {s : System} {concurrency cycle : Nat} (ht : InTurn s)
    (hc : 0 < concurrency) (hbusy : concurrency ≤ s.inFlight cycle) :
    ∃ i index message, s.task i = some (.deliver cycle index message) ∧
      (s.nextCommand i).isSome ∧ index + concurrency ≤ s.cursor cycle := by
  have hpos : 0 < s.threads.countP fun t => t.task.deliversFor cycle && t.next.isSome :=
    Nat.lt_of_lt_of_le hc hbusy
  obtain ⟨i, t, hget, hp, hle⟩ := exists_first (q := fun t => t.task.deliversFor cycle)
    (fun t ht => (Bool.and_eq_true _ _ ▸ ht).1) hpos
  obtain ⟨hdelivers, hnext⟩ := Bool.and_eq_true _ _ ▸ hp
  have hcursor : s.threads.countP (fun t => t.task.deliversFor cycle) = s.cursor cycle := by
    unfold System.cursor
    rw [List.countP_map]
    rfl
  obtain ⟨task, program⟩ := t
  have htask : s.task i = some task := by
    unfold Pool.task
    rw [hget]
    rfl
  cases task with
  | deliver cycle' index message =>
    obtain rfl : cycle' = cycle := of_decide_eq_true hdelivers
    refine ⟨i, index, message, htask, ?_, ?_⟩
    · unfold Pool.nextCommand
      rw [hget]
      cases program with
      | perform command next => rfl
      | done a => cases hnext
    · have hindex := (ht i cycle' index message htask).1
      rw [← List.map_take, List.countP_map] at hindex
      have hbusy : concurrency ≤ s.threads.countP fun t =>
        t.task.deliversFor cycle' && t.next.isSome := hbusy
      have hsame : (s.threads.take i).countP (fun t => t.task.deliversFor cycle') = index := hindex
      omega
  | enqueue input idempotencyKey => cases hdelivers
  | runOnce workerId => cases hdelivers
  | retry id => cases hdelivers
  | purgeExpired => cases hdelivers

theorem Scheduled.tick (h : Scheduled env claimMs k) (hb : Batched env k.system)
    (hc : 0 < env.DISPATCHER_CONCURRENCY) {ms : Nat}
    (hpaced : k.Paced env claimMs (.move (.tick ms)))
    (hw : k'.system = { k.system with
      world := { k.system.world with now := k.system.world.now + ms } })
    (hbegan : k'.began = k.began) : Scheduled env claimMs k' := by
  obtain ⟨s', began'⟩ := k'
  obtain rfl : began' = k.began := hbegan
  obtain rfl : s' = _ := hw
  obtain ⟨honTime, hbusy⟩ := hpaced
  refine ⟨h.length, h.stops, h.dead, fun began hm => ?_, fun e he at_ hat => ?_, honTime, h.turns,
    fun cycle began₀ hlive hlt hm₀ => ?_⟩
  · exact Nat.le_trans (h.past began hm) (Nat.le_add_right _ _)
  · obtain ⟨hfrom, hto⟩ := h.told e he at_ hat
    exact ⟨hfrom, Nat.le_trans hto (Nat.le_add_right _ _)⟩
  · show k.system.world.now + ms ≤ began₀ + claimMs +
      k.system.cursor cycle / env.DISPATCHER_CONCURRENCY * env.EMAIL_PROVIDER_TIMEOUT_MS
    have hbefore : k.system.world.now ≤ began₀ + claimMs +
        k.system.cursor cycle / env.DISPATCHER_CONCURRENCY * env.EMAIL_PROVIDER_TIMEOUT_MS :=
      h.left cycle began₀ hlive hlt hm₀
    rcases Nat.eq_zero_or_pos ms with rfl | hpos
    · exact hbefore
    · have hlength : cycle < k.system.threads.length := by
        rw [← h.length]
        exact (List.getElem?_eq_some_iff.mp hm₀).1
      obtain ⟨i, index, message, htask, hnext, hahead⟩ :=
        ahead_of_busy hb.inTurn hc (hbusy hpos cycle hlength hlive hlt)
      have hi : i ∉ k.system.world.stopped :=
        fun hi => hlive (h.dead i hi cycle index message htask)
      have hib : i < k.began.length := by
        rw [h.length]
        exact lt_of_task htask
      have hget : k.began[i]? = some k.began[i] := List.getElem?_eq_getElem hib
      have hdone := honTime i (lt_of_task htask) hi hnext _ htask env.EMAIL_PROVIDER_TIMEOUT_MS rfl
        _ hget
      have hturn := h.turns i cycle index message _ began₀ htask hget hm₀
      have hround : index / env.DISPATCHER_CONCURRENCY * env.EMAIL_PROVIDER_TIMEOUT_MS +
          env.EMAIL_PROVIDER_TIMEOUT_MS ≤ k.system.cursor cycle / env.DISPATCHER_CONCURRENCY *
            env.EMAIL_PROVIDER_TIMEOUT_MS := round_le hc hahead
      omega

theorem Scheduled.stop (h : Scheduled env claimMs k) {thread : Nat}
    (hpaced : k.Paced env claimMs (.move (.stop thread)))
    (hw : k'.system = { k.system with
      world := { k.system.world with stopped := thread :: k.system.world.stopped } })
    (hbegan : k'.began = k.began) : Scheduled env claimMs k' := by
  obtain ⟨s', began'⟩ := k'
  obtain rfl : began' = k.began := hbegan
  obtain rfl : s' = _ := hw
  obtain ⟨task, htask, hcycle⟩ := (Option.any_eq_true _ _).mp hpaced
  refine ⟨h.length, fun i hi => ?_, fun i hi cycle index message ht => ?_, h.past, h.told,
    fun i hi hlive => h.onTime i hi fun hs => hlive (List.mem_cons_of_mem _ hs), h.turns,
    fun cycle began₀ hlive => h.left cycle began₀ fun hs => hlive (List.mem_cons_of_mem _ hs)⟩
  · rcases List.mem_cons.mp hi with rfl | hi
    · exact lt_of_task htask
    · exact h.stops i hi
  · rcases List.mem_cons.mp hi with rfl | hi
    · obtain rfl : task = .deliver cycle index message := Option.some.inj (htask.symm.trans ht)
      exact List.mem_cons_of_mem _ (of_decide_eq_true hcycle)
    · exact List.mem_cons_of_mem _ (h.dead i hi cycle index message ht)

end Move

/-- One step of a paced run. -/
theorem scheduled_step (hc : 0 < env.DISPATCHER_CONCURRENCY) (hpaced : k.Paced env claimMs l)
    (hs : k.step env l = some k') (hb : Batched env k.system) (hb' : Batched env k'.system)
    (h : Scheduled env claimMs k) : Scheduled env claimMs k' := by
  obtain ⟨hstep, hbegan⟩ := clocked_step hs
  obtain ⟨hbegins, hstep⟩ := step_eq_some hstep
  rcases hbegan with ⟨task, rfl, hbegan⟩ | ⟨hne, hbegan⟩
  · exact h.spawn hb hbegins hstep hbegan
  · cases l with
    | spawn task => exact absurd rfl (hne task)
    | call i fate =>
      obtain ⟨task, command, next, reply, hcalled⟩ := Foundations.called_of_call hstep
      exact h.call hb' hcalled hbegan
    | move m =>
      obtain ⟨world, hw, hk⟩ := Option.map_eq_some_iff.mp hstep
      cases m with
      | tick ms =>
        cases hw
        exact h.tick hb hc hpaced hk.symm hbegan
      | stop thread =>
        cases hw
        exact h.stop hpaced hk.symm hbegan

/-! ## How long a cycle is at work -/

/-- A cycle that still works through its batch has begun no longer ago than its rounds take. -/
theorem Scheduled.working (h : Scheduled env claimMs k) (hb : Batched env k.system)
    (hc : 0 < env.DISPATCHER_CONCURRENCY) {cycle began₀ : Nat}
    (hsize : (k.system.batch cycle).length ≤ env.DISPATCHER_BATCH_SIZE)
    (hw : k.system.Working cycle) (hne : k.system.batch cycle ≠ [])
    (hm₀ : k.began[cycle]? = some began₀) :
    k.system.world.now ≤
      began₀ + claimMs + env.rounds * env.EMAIL_PROVIDER_TIMEOUT_MS := by
  have hrounds : ∀ index, index < (k.system.batch cycle).length →
      index / env.DISPATCHER_CONCURRENCY * env.EMAIL_PROVIDER_TIMEOUT_MS +
        env.EMAIL_PROVIDER_TIMEOUT_MS ≤ env.rounds * env.EMAIL_PROVIDER_TIMEOUT_MS :=
    fun index hlt => round_le hc (by omega)
  obtain ⟨i, hi, hpending, hwhose⟩ := hw
  obtain ⟨message, hm⟩ := List.exists_mem_of_ne_nil _ hpending
  obtain ⟨message₀, hmem₀⟩ := List.exists_mem_of_ne_nil _ hne
  obtain ⟨workerId, hrun⟩ := hb.runOnce hmem₀
  rcases mem_pending hm with ⟨cycle', index, command, next, ht⟩ | hrest
  · have htask : k.system.task i = some (.deliver cycle' index message) := by
      unfold Pool.task
      rw [ht]
      rfl
    have hcycle : cycle' = cycle := by
      rcases hwhose with rfl | ⟨task, htask', hdelivers⟩
      · rw [hrun] at htask
        cases htask
      · obtain rfl := Option.some.inj (htask.symm.trans htask')
        exact of_decide_eq_true hdelivers
    subst hcycle
    have hnext : (k.system.nextCommand i).isSome := by
      unfold Pool.nextCommand
      rw [ht]
      rfl
    have hib : i < k.began.length := by
      rw [h.length]
      exact lt_of_task htask
    have hget : k.began[i]? = some k.began[i] := List.getElem?_eq_getElem hib
    have hdone := h.onTime i (lt_of_task htask) hi hnext _ htask env.EMAIL_PROVIDER_TIMEOUT_MS rfl
      _ hget
    have hturn := h.turns i cycle' index message _ began₀ htask hget hm₀
    have hround := hrounds index
      (List.getElem?_eq_some_iff.mp (hb.inTurn i cycle' index message htask).2).1
    omega
  · have hcycle : i = cycle := by
      rcases hwhose with rfl | ⟨task, htask', hdelivers⟩
      · rfl
      · obtain ⟨workerId', hrun'⟩ := hb.runOnce (List.mem_of_mem_drop hrest)
        obtain rfl := Option.some.inj (hrun'.symm.trans htask')
        cases hdelivers
    subst hcycle
    have hlt : k.system.cursor i < (k.system.batch i).length := by
      by_contra hge
      rw [List.drop_eq_nil_of_le (by omega)] at hrest
      cases hrest
    have hleft := h.left i began₀ hi hlt hm₀
    have hround := hrounds _ hlt
    omega

end PracticalMicroservice.Email
