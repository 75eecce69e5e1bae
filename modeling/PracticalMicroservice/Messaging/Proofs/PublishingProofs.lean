import Mathlib.Data.List.Nodup
import PracticalMicroservice.Messaging.Publishing
import PracticalMicroservice.Messaging.Proofs.RecoveryProofs

/-!
# Proofs: a publish settles in time, as the broker confirmed or not

What a step can make of one call is said once. While messages are handed only to channels that take
them, a call has its timer armed for as long as it waits, and nothing once it has settled.
-/

namespace PracticalMicroservice.Messaging

open Foundations (AllSteps invariant_of_allSteps invariant_of_steps runs runs_append)

namespace PublishSystem

variable {timeout : Nat} {s s' : PublishSystem} {l : Label} {k : Nat} {call call' : PublishCall}

/-! ## What a step makes of a call -/

/-- The step takes no time, and leaves the call a waiter or not. -/
structure Beside (s s' : PublishSystem) (k : Nat) : Prop where
  now : s'.now = s.now
  waiters : k ∈ s'.waiters ↔ k ∈ s.waiters

/-- The step takes no time, and the call is no waiter any more. -/
structure Leaves (s s' : PublishSystem) (k : Nat) : Prop where
  now : s'.now = s.now
  before : k ∈ s.waiters
  after : k ∉ s'.waiters

/-- What becomes of a call in a step. -/
inductive Became (timeout : Nat) (s : PublishSystem) (l : Label) (s' : PublishSystem) (k : Nat) (call : PublishCall) :
    PublishCall → Prop
  | same (h : Beside s s' k) : Became timeout s l s' k call call
  | later (ms : Nat) (hnow : s'.now = s.now + ms) (hwaiters : s'.waiters = s.waiters)
    (hquiet : call.Quiet s'.now) : Became timeout s l s' k call call
  | woken (h : Leaves s s' k) : Became timeout s l s' k call call.wake
  | shut (h : Leaves s s' k) (message : String) :
    Became timeout s l s' k call (call.fails message s.now)
  | lost (h : Beside s s' k) (hstage : call.stage = .woken) (message : String) :
    Became timeout s l s' k call (call.fails message s.now)
  | granted (h : Beside s s' k) (hstage : call.stage = .woken) (c : Nat) :
    Became timeout s l s' k call { call with stage := .granted c }
  | handed (h : Beside s s' k) (hl : l = .hand k) {c : Nat} (hc : call.stage.channel = some c) :
    Became timeout s l s' k call (call.hand c (s.core.broker.Sendable c) s.now)
  | answered (h : Beside s s' k) {c : Nat} (hc : call.callback = some c) (error : Option String) :
    Became timeout s l s' k call (call.answer error s.now)
  | expired (hnow : s'.now = s.now) (hwaiters : s'.waiters = s.waiters.erase k) {due : Nat}
    (htimer : call.timer = some due) (hdue : due ≤ s.now) :
    Became timeout s l s' k call (call.expire timeout s.now)

theorem beside_update {j : Nat} {changed : PublishCall} : Beside s (s.update j changed) k :=
  ⟨rfl, Iff.rfl⟩

/-- Another call changes. -/
theorem became_other {j : Nat} {changed : PublishCall} (hne : k ≠ j)
    (hk : s.calls[k]? = some call) :
    (s.update j changed).calls[k]? = some call :=
  (List.getElem?_set_ne (Ne.symm hne)).trans hk

theorem getElem?_update {changed : PublishCall} (hk : s.calls[k]? = some call) :
    (s.update k changed).calls[k]? = some changed :=
  List.getElem?_set_self (List.getElem?_eq_some_iff.mp hk).1

/-- One call changes, and no waiter comes or goes. -/
theorem became_update {j : Nat} {old changed : PublishCall} (hj : s.calls[j]? = some old)
    (hchanged : Became timeout s l (s.update j changed) j old changed) (hk : s.calls[k]? = some call) :
    ∃ call', (s.update j changed).calls[k]? = some call' ∧
      Became timeout s l (s.update j changed) k call call' := by
  by_cases he : k = j
  · subst he
    obtain rfl : old = call := Option.some.inj (hj.symm.trans hk)
    exact ⟨changed, getElem?_update hk, hchanged⟩
  · exact ⟨call, became_other he hk, .same beside_update⟩

/-- All waiters are settled or woken. -/
theorem became_eachWaiter {core : ClientSystem} {f : PublishCall → PublishCall}
    (hk : s.calls[k]? = some call)
    (hf : ∀ after, Leaves s after k → Became timeout s l after k call (f call)) :
    ∃ call', (eachWaiter { s with core } f).calls[k]? = some call' ∧
      Became timeout s l (eachWaiter { s with core } f) k call call' := by
  have hget : (eachWaiter { s with core } f).calls[k]? =
      some (if k ∈ s.waiters then f call else call) := by
    unfold eachWaiter
    rw [List.getElem?_mapIdx, hk]
    rfl
  refine ⟨_, hget, ?_⟩
  split
  next hw => exact hf _ ⟨rfl, hw, List.not_mem_nil⟩
  next hw => exact .same ⟨rfl, iff_of_false List.not_mem_nil hw⟩

/-- The callbacks on a closing channel are called. -/
theorem became_closes {core : ClientSystem} {c : Nat} (hk : s.calls[k]? = some call) :
    ∃ call', (closes { s with core } c).calls[k]? = some call' ∧
      Became timeout s l (closes { s with core } c) k call call' := by
  have hget : (closes { s with core } c).calls[k]? =
      some (if call.callback = some c then call.answer (some "channel closed") s.now else call) := by
    unfold closes
    rw [List.getElem?_map, hk]
    rfl
  have hbeside : Beside s (closes { s with core } c) k := ⟨rfl, Iff.rfl⟩
  refine ⟨_, hget, ?_⟩
  split
  next hc => exact .answered hbeside hc _
  next => exact .same hbeside

/-- A step of the client wakes or fails the waiters, or fails the callbacks of a channel. -/
theorem became_spread {core : ClientSystem} (event : ClientSystem.Label)
    (hk : s.calls[k]? = some call) :
    ∃ call', (s.spread { s with core } event).calls[k]? = some call' ∧
      Became timeout s l (s.spread { s with core } event) k call call' := by
  have hsame : Became timeout s l { s with core } k call call := .same ⟨rfl, Iff.rfl⟩
  cases event with
  | goOn i =>
    simp only [spread]
    split
    · exact became_eachWaiter hk fun _ h => .woken h
    · exact ⟨call, hk, hsame⟩
  | shutdown =>
    simp only [spread]
    split
    · exact ⟨call, hk, hsame⟩
    · exact became_eachWaiter hk fun _ h => .shut h _
  | channelCloses c => exact became_closes hk
  | connectionCloses c => exact became_closes hk
  | connect => exact ⟨call, hk, hsame⟩
  | timer => exact ⟨call, hk, hsame⟩
  | registerTopology replies => exact ⟨call, hk, hsame⟩
  | settle i fulfilled => exact ⟨call, hk, hsame⟩

/-- A new call begins. -/
theorem became_publish (hk : s.calls[k]? = some call) :
    ∃ call', (s.publish timeout).calls[k]? = some call' ∧
      Became timeout s l (s.publish timeout) k call call' := by
  obtain ⟨hlt, -⟩ := List.getElem?_eq_some_iff.mp hk
  have hold : ∀ new, (s.calls ++ [new])[k]? = some call := by
    intro new
    rw [List.getElem?_append_left hlt]
    exact hk
  unfold publish
  dsimp only
  split
  · exact ⟨call, hold _, .same ⟨rfl, Iff.rfl⟩⟩
  · split
    · exact ⟨call, hold _, .same ⟨rfl, Iff.rfl⟩⟩
    · split
      · exact ⟨call, hold _, .same ⟨rfl, Iff.rfl⟩⟩
      · refine ⟨call, hold _, .same ⟨rfl, ?_⟩⟩
        have hne : k ≠ s.calls.length := Nat.ne_of_lt hlt
        simp [hne]

theorem became_hears {j : Nat} {error : Option String} (hs : s.hears j error = some s')
    (hk : s.calls[k]? = some call) :
    ∃ call', s'.calls[k]? = some call' ∧ Became timeout s l s' k call call' := by
  unfold hears at hs
  split at hs
  next => cases hs
  next old hj =>
    split at hs
    next => cases hs
    next c hc =>
      split at hs
      · cases hs
        exact became_update hj (.answered beside_update hc error) hk
      · cases hs

/-- What becomes of a call in a step. -/
theorem became (hs : s.step timeout l = some s') (hk : s.calls[k]? = some call) :
    ∃ call', s'.calls[k]? = some call' ∧ Became timeout s l s' k call call' := by
  cases l with
  | core l =>
    obtain ⟨core, -, rfl⟩ := Option.map_eq_some_iff.mp hs
    exact became_spread l hk
  | publish =>
    cases hs
    exact became_publish hk
  | resume j =>
    simp only [step] at hs
    split at hs
    next => cases hs
    next old hj =>
      split at hs
      next hstage =>
        cases hs
        unfold resume
        split
        next c _ => exact became_update hj (.granted beside_update hstage c) hk
        next => exact became_update hj (.lost beside_update hstage _) hk
      next => cases hs
  | hand j =>
    simp only [step] at hs
    split at hs
    next => cases hs
    next old hj =>
      obtain ⟨c, hc, rfl⟩ := Option.map_eq_some_iff.mp hs
      exact became_update hj (.handed beside_update rfl hc) hk
  | ack j => exact became_hears hs hk
  | nack j => exact became_hears hs hk
  | expire j =>
    simp only [step] at hs
    split at hs
    next => cases hs
    next old hj =>
      split at hs
      next => cases hs
      next due htimer =>
        split at hs
        next hdue =>
          cases hs
          by_cases he : k = j
          · subst he
            obtain rfl : old = call := Option.some.inj (hj.symm.trans hk)
            exact ⟨_, getElem?_update hk, .expired rfl rfl htimer hdue⟩
          · exact ⟨call, became_other he hk, .same ⟨rfl, List.mem_erase_of_ne he⟩⟩
        next => cases hs
  | tick ms =>
    simp only [step] at hs
    split at hs
    next hquiet =>
      cases hs
      exact ⟨call, hk, .later ms rfl rfl (hquiet call (List.mem_of_getElem? hk))⟩
    next => cases hs

/-! ## The waiters -/

/-- The waiters are the calls that wait, each of them once. -/
structure Lined (s : PublishSystem) : Prop where
  nodup : s.waiters.Nodup
  waiting : ∀ k ∈ s.waiters, ∃ call, s.calls[k]? = some call ∧ call.stage = .waiting

/-- What a call begins as, and who waits from then on. -/
inductive Born (timeout : Nat) (s : PublishSystem) : PublishCall → List Nat → Prop
  | refused (message : String) :
    Born timeout s (s.begins timeout (s.unavailable message) none) s.waiters
  | granted (c : Nat) : Born timeout s (s.begins timeout (.granted c) none) s.waiters
  | waiting : Born timeout s (s.begins timeout .waiting (some (s.now + timeout)))
      (s.waiters ++ [s.calls.length])

theorem publish_eq (timeout : Nat) (s : PublishSystem) :
    ∃ call waiters, Born timeout s call waiters ∧
      s.publish timeout = { s with calls := s.calls ++ [call], waiters } := by
  unfold publish
  dsimp only
  split
  · exact ⟨_, _, .refused _, rfl⟩
  · split
    · exact ⟨_, _, .granted _, rfl⟩
    · split
      · exact ⟨_, _, .refused _, rfl⟩
      · exact ⟨_, _, .waiting, rfl⟩

theorem length_spread {core : ClientSystem} (l : ClientSystem.Label) :
    (s.spread { s with core } l).calls.length = s.calls.length := by
  cases l with
  | goOn i =>
    simp only [spread]
    split
    · exact List.length_mapIdx
    · rfl
  | shutdown =>
    simp only [spread]
    split
    · rfl
    · exact List.length_mapIdx
  | channelCloses c => exact List.length_map _
  | connectionCloses c => exact List.length_map _
  | connect => rfl
  | timer => rfl
  | registerTopology replies => rfl
  | settle i fulfilled => rfl

theorem length_hears {j : Nat} {error : Option String} (hs : s.hears j error = some s') :
    s'.calls.length = s.calls.length := by
  unfold hears at hs
  split at hs
  next => cases hs
  next =>
    split at hs
    next => cases hs
    next =>
      split at hs
      · cases hs
        exact List.length_set
      · cases hs

/-- Only `publish` begins a call. -/
theorem length_of_step (hs : s.step timeout l = some s') :
    l = .publish ∨ s'.calls.length = s.calls.length := by
  cases l with
  | core l =>
    obtain ⟨core, -, rfl⟩ := Option.map_eq_some_iff.mp hs
    exact .inr (length_spread l)
  | publish => exact .inl rfl
  | ack j => exact .inr (length_hears hs)
  | nack j => exact .inr (length_hears hs)
  | resume j =>
    right
    simp only [step] at hs
    split at hs
    next => cases hs
    next =>
      split at hs
      · cases hs
        unfold resume
        split
        · exact List.length_set
        · exact List.length_set
      · cases hs
  | hand j =>
    right
    simp only [step] at hs
    split at hs
    next => cases hs
    next =>
      obtain ⟨c, -, rfl⟩ := Option.map_eq_some_iff.mp hs
      exact List.length_set
  | expire j =>
    right
    simp only [step] at hs
    split at hs
    next => cases hs
    next =>
      split at hs
      next => cases hs
      next =>
        split at hs
        · cases hs
          exact List.length_set
        · cases hs
  | tick ms =>
    right
    simp only [step] at hs
    split at hs
    · cases hs
      rfl
    · cases hs

/-- Every call was there before, or has just begun. -/
theorem born (hs : s.step timeout l = some s') (hk : s'.calls[k]? = some call') :
    (∃ call, s.calls[k]? = some call ∧ Became timeout s l s' k call call') ∨
      (k = s.calls.length ∧ s'.now = s.now ∧ Born timeout s call' s'.waiters) := by
  cases hold : s.calls[k]? with
  | some call =>
    obtain ⟨call'', hk', hbecame⟩ := became hs hold
    obtain rfl : call'' = call' := Option.some.inj (hk'.symm.trans hk)
    exact .inl ⟨call, rfl, hbecame⟩
  | none =>
    right
    have hlt := (List.getElem?_eq_some_iff.mp hk).1
    have hle := List.getElem?_eq_none_iff.mp hold
    rcases length_of_step hs with rfl | hlength
    · obtain ⟨call, waiters, hborn, heq⟩ := publish_eq timeout s
      cases hs
      rw [heq] at hk hlt ⊢
      dsimp only at hk hlt ⊢
      rw [List.length_append, List.length_singleton] at hlt
      have hnew : k = s.calls.length := by omega
      subst hnew
      rw [List.getElem?_concat_length] at hk
      cases hk
      exact ⟨rfl, rfl, hborn⟩
    · omega

/-- The waiters all leave, one of them leaves, or a new call joins them. -/
inductive Queued (timeout : Nat) (s s' : PublishSystem) : Prop
  | same (h : s'.waiters = s.waiters)
  | all (h : s'.waiters = [])
  | one (k : Nat) (h : s'.waiters = s.waiters.erase k)
  | joined (h : s'.waiters = s.waiters ++ [s.calls.length])
    (hcalls : s'.calls = s.calls ++ [s.begins timeout .waiting (some (s.now + timeout))])

theorem queued_spread {core : ClientSystem} (event : ClientSystem.Label) :
    Queued timeout s (s.spread { s with core } event) := by
  cases event with
  | goOn i =>
    simp only [spread]
    split
    · exact .all rfl
    · exact .same rfl
  | shutdown =>
    simp only [spread]
    split
    · exact .same rfl
    · exact .all rfl
  | channelCloses c => exact .same rfl
  | connectionCloses c => exact .same rfl
  | connect => exact .same rfl
  | timer => exact .same rfl
  | registerTopology replies => exact .same rfl
  | settle i fulfilled => exact .same rfl

theorem queued_hears {j : Nat} {error : Option String} (hs : s.hears j error = some s') :
    Queued timeout s s' := by
  unfold hears at hs
  split at hs
  next => cases hs
  next =>
    split at hs
    next => cases hs
    next =>
      split at hs
      · cases hs
        exact .same rfl
      · cases hs

theorem queued (hs : s.step timeout l = some s') : Queued timeout s s' := by
  cases l with
  | core event =>
    obtain ⟨core, -, rfl⟩ := Option.map_eq_some_iff.mp hs
    exact queued_spread event
  | publish =>
    obtain ⟨call, waiters, hborn, heq⟩ := publish_eq timeout s
    cases hs
    rw [heq]
    cases hborn with
    | refused => exact .same rfl
    | granted => exact .same rfl
    | waiting => exact .joined rfl rfl
  | ack j => exact queued_hears hs
  | nack j => exact queued_hears hs
  | resume j =>
    simp only [step] at hs
    split at hs
    next => cases hs
    next =>
      split at hs
      · cases hs
        unfold resume
        split
        · exact .same rfl
        · exact .same rfl
      · cases hs
  | hand j =>
    simp only [step] at hs
    split at hs
    next => cases hs
    next =>
      obtain ⟨c, -, rfl⟩ := Option.map_eq_some_iff.mp hs
      exact .same rfl
  | expire j =>
    simp only [step] at hs
    split at hs
    next => cases hs
    next =>
      split at hs
      next => cases hs
      next =>
        split at hs
        · cases hs
          exact .one j rfl
        · cases hs
  | tick ms =>
    simp only [step] at hs
    split at hs
    · cases hs
      exact .same rfl
    · cases hs

theorem Lined.fresh (h : Lined s) : s.calls.length ∉ s.waiters := by
  intro hmem
  obtain ⟨call, hcall, -⟩ := h.waiting _ hmem
  exact Nat.lt_irrefl _ (List.getElem?_eq_some_iff.mp hcall).1

/-- A call that still waits after a step waited before it, and has not changed its stage. -/
theorem Lined.stays (h : Lined s) (hw : k ∈ s.waiters) (hw' : k ∈ s'.waiters)
    (hk : s.calls[k]? = some call) (hb : Became timeout s l s' k call call') :
    call'.stage = .waiting := by
  obtain ⟨call₀, hcall, hstage⟩ := h.waiting k hw
  obtain rfl : call₀ = call := Option.some.inj (hcall.symm.trans hk)
  cases hb with
  | same => exact hstage
  | later => exact hstage
  | woken hleaves => exact absurd hw' hleaves.after
  | shut hleaves => exact absurd hw' hleaves.after
  | lost _ hwoken =>
    rw [hstage] at hwoken
    cases hwoken
  | granted _ hwoken =>
    rw [hstage] at hwoken
    cases hwoken
  | handed _ _ hc =>
    rw [hstage] at hc
    cases hc
  | answered _ _ error =>
    unfold PublishCall.answer
    rw [if_neg (by rw [hstage]; simp)]
    exact hstage
  | expired _ hwaiters =>
    rw [hwaiters] at hw'
    exact absurd hw' (List.Nodup.not_mem_erase h.nodup)

theorem Lined.step (h : Lined s) (hs : s.step timeout l = some s') : Lined s' := by
  have hstays : ∀ k ∈ s.waiters, k ∈ s'.waiters →
      ∃ call, s'.calls[k]? = some call ∧ call.stage = .waiting := by
    intro k hw hw'
    obtain ⟨call, hcall, -⟩ := h.waiting k hw
    obtain ⟨call', hk', hb⟩ := became hs hcall
    exact ⟨call', hk', h.stays hw hw' hcall hb⟩
  cases queued hs with
  | same hwaiters =>
    refine ⟨hwaiters ▸ h.nodup, fun k hk => hstays k (hwaiters ▸ hk) hk⟩
  | all hwaiters =>
    refine ⟨hwaiters ▸ List.nodup_nil, fun k hk => ?_⟩
    rw [hwaiters] at hk
    cases hk
  | one j hwaiters =>
    refine ⟨hwaiters ▸ h.nodup.erase j, fun k hk => ?_⟩
    exact hstays k (List.mem_of_mem_erase (hwaiters ▸ hk)) hk
  | joined hwaiters hcalls =>
    refine ⟨?_, fun k hk => ?_⟩
    · rw [hwaiters]
      exact List.nodup_append.mpr ⟨h.nodup, List.nodup_singleton _, fun a ha b hb hab =>
        h.fresh (List.mem_singleton.mp hb ▸ hab ▸ ha)⟩
    · have hk' := hk
      rw [hwaiters] at hk'
      rcases List.mem_append.mp hk' with hold | hnew
      · exact hstays k hold hk
      · rw [List.mem_singleton.mp hnew, hcalls, List.getElem?_concat_length]
        exact ⟨_, rfl, rfl⟩

/-! ## One call -/

/-- What an outcome says of its call. -/
def Outcome.Right (call : PublishCall) : Outcome → Prop
  | .resolved => call.confirmed = true
  | .rejected error => ∃ message, error = .brokerUnavailable message

/-- What a call has and where it is listed, by how far it has got. -/
def Stands (s : PublishSystem) (k : Nat) (call : PublishCall) : Stage → Prop
  | .waiting =>
    k ∈ s.waiters ∧ call.timer = some call.deadline ∧ call.callback = none ∧ s.now ≤ call.deadline
  | .woken | .granted _ =>
    k ∉ s.waiters ∧ call.timer = none ∧ call.callback = none ∧ s.now ≤ call.deadline
  | .confirming => k ∉ s.waiters ∧ call.timer = some call.deadline ∧ s.now ≤ call.deadline
  | .settled outcome time =>
    k ∉ s.waiters ∧ call.timer = none ∧ time ≤ call.deadline ∧ Outcome.Right call outcome

structure Sound (timeout : Nat) (s : PublishSystem) (k : Nat) (call : PublishCall) : Prop where
  deadline : call.deadline = call.began + timeout
  stands : s.Stands k call call.stage

/-- Before it has settled, time has not passed its deadline. -/
theorem Sound.pending (h : Sound timeout s k call)
    (hopen : ∀ outcome time, call.stage ≠ .settled outcome time) : s.now ≤ call.deadline := by
  have hstands := h.stands
  cases hstage : call.stage with
  | waiting => rw [hstage] at hstands; exact hstands.2.2.2
  | woken => rw [hstage] at hstands; exact hstands.2.2.2
  | granted c => rw [hstage] at hstands; exact hstands.2.2.2
  | confirming => rw [hstage] at hstands; exact hstands.2.2
  | settled outcome time => exact absurd hstage (hopen outcome time)

theorem Sound.keeps (h : Sound timeout s k call) : s.Keeps timeout k call := by
  have hsettled : ∀ outcome time, call.stage = .settled outcome time →
      k ∉ s.waiters ∧ call.timer = none ∧ time ≤ call.deadline ∧ Outcome.Right call outcome := by
    intro outcome time hstage
    have hstands := h.stands
    rw [hstage] at hstands
    exact hstands
  exact {
    inTime := fun outcome time hstage => h.deadline ▸ (hsettled outcome time hstage).2.2.1
    pending := fun hopen => h.deadline ▸ h.pending hopen
    confirmed := fun time hstage => (hsettled _ time hstage).2.2.2
    typed := fun error time hstage => (hsettled _ time hstage).2.2.2
    clean := fun outcome time hstage =>
      ⟨(hsettled outcome time hstage).1, (hsettled outcome time hstage).2.1⟩ }

/-- A call that rejects as it should, and is no waiter any more. -/
theorem Sound.fails (hdeadline : call.deadline = call.began + timeout) (hw : k ∉ s'.waiters)
    {now : Nat} (htime : now ≤ call.deadline) (message : String) :
    Sound timeout s' k (call.fails message now) :=
  ⟨hdeadline, hw, rfl, htime, message, rfl⟩

theorem Sound.of_settled (h : Sound timeout s k call) {outcome : Outcome} {time : Nat}
    (hstage : call.stage = .settled outcome time) :
    k ∉ s.waiters ∧ call.timer = none ∧ time ≤ call.deadline ∧ Outcome.Right call outcome := by
  have hstands := h.stands
  rw [hstage] at hstands
  exact hstands

theorem Sound.of_waiting (h : Sound timeout s k call) (hstage : call.stage = .waiting) :
    k ∈ s.waiters ∧ call.timer = some call.deadline ∧ call.callback = none ∧
      s.now ≤ call.deadline := by
  have hstands := h.stands
  rw [hstage] at hstands
  exact hstands

theorem Sound.of_woken (h : Sound timeout s k call) (hstage : call.stage = .woken) :
    k ∉ s.waiters ∧ call.timer = none ∧ call.callback = none ∧ s.now ≤ call.deadline := by
  have hstands := h.stands
  rw [hstage] at hstands
  exact hstands

theorem Sound.of_granted (h : Sound timeout s k call) {c : Nat} (hstage : call.stage = .granted c) :
    k ∉ s.waiters ∧ call.timer = none ∧ call.callback = none ∧ s.now ≤ call.deadline := by
  have hstands := h.stands
  rw [hstage] at hstands
  exact hstands

theorem Sound.of_confirming (h : Sound timeout s k call) (hstage : call.stage = .confirming) :
    k ∉ s.waiters ∧ call.timer = some call.deadline ∧ s.now ≤ call.deadline := by
  have hstands := h.stands
  rw [hstage] at hstands
  exact hstands

/-- Nothing happens to the call in a step that takes no time. -/
theorem Stands.beside {stage : Stage} (h : Stands s k call stage) (hbeside : Beside s s' k) :
    Stands s' k call stage := by
  cases stage with
  | waiting => exact ⟨hbeside.waiters.mpr h.1, h.2.1, h.2.2.1, hbeside.now ▸ h.2.2.2⟩
  | woken => exact ⟨mt hbeside.waiters.mp h.1, h.2.1, h.2.2.1, hbeside.now ▸ h.2.2.2⟩
  | granted c => exact ⟨mt hbeside.waiters.mp h.1, h.2.1, h.2.2.1, hbeside.now ▸ h.2.2.2⟩
  | confirming => exact ⟨mt hbeside.waiters.mp h.1, h.2.1, hbeside.now ▸ h.2.2⟩
  | settled outcome time => exact ⟨mt hbeside.waiters.mp h.1, h.2⟩

/-- Time goes on no further than a call's timer, and not while the call has something to do. -/
theorem Sound.later (h : Sound timeout s k call) (hwaiters : s'.waiters = s.waiters)
    (hquiet : call.Quiet s'.now) : Sound timeout s' k call := by
  obtain ⟨hwoken, hchannel, htimer⟩ := hquiet
  refine ⟨h.deadline, ?_⟩
  cases hstage : call.stage with
  | waiting =>
    obtain ⟨hw, harmed, hcallback, -⟩ := h.of_waiting hstage
    exact ⟨hwaiters ▸ hw, harmed, hcallback, htimer _ harmed⟩
  | woken => exact absurd hstage hwoken
  | granted c =>
    rw [hstage] at hchannel
    cases hchannel
  | confirming =>
    obtain ⟨hw, harmed, -⟩ := h.of_confirming hstage
    exact ⟨hwaiters ▸ hw, harmed, htimer _ harmed⟩
  | settled outcome time =>
    obtain ⟨hw, hrest⟩ := h.of_settled hstage
    exact ⟨hwaiters ▸ hw, hrest⟩

/-- The message is handed to a channel that takes it: the timer is armed for the deadline. -/
theorem Sound.handed (h : Sound timeout s k call) (hbeside : Beside s s' k) {c : Nat}
    (hc : call.stage.channel = some c) : Sound timeout s' k (call.hand c true s.now) := by
  cases hstage : call.stage with
  | granted d =>
    obtain ⟨hw, -, -, hnow⟩ := h.of_granted hstage
    refine ⟨h.deadline, mt hbeside.waiters.mp hw, ?_, hbeside.now ▸ hnow⟩
    exact congrArg some (Nat.add_sub_of_le hnow)
  | waiting => rw [hstage] at hc; cases hc
  | woken => rw [hstage] at hc; cases hc
  | confirming => rw [hstage] at hc; cases hc
  | settled outcome time => rw [hstage] at hc; cases hc

/-- The callback settles a call that has not settled before, and leaves any other as it is. -/
theorem Sound.answered (h : Sound timeout s k call) (hbeside : Beside s s' k) {c : Nat}
    (hc : call.callback = some c) (error : Option String) :
    Sound timeout s' k (call.answer error s.now) := by
  have hnone : call.callback ≠ none := by simp [hc]
  cases hstage : call.stage with
  | waiting => exact absurd (h.of_waiting hstage).2.2.1 hnone
  | woken => exact absurd (h.of_woken hstage).2.2.1 hnone
  | granted d => exact absurd (h.of_granted hstage).2.2.1 hnone
  | confirming =>
    obtain ⟨hw, -, hnow⟩ := h.of_confirming hstage
    unfold PublishCall.answer
    rw [if_pos hstage]
    refine ⟨h.deadline, mt hbeside.waiters.mp hw, rfl, hnow, ?_⟩
    cases error with
    | none => exact Bool.or_true _
    | some message => exact ⟨_, rfl⟩
  | settled outcome time =>
    obtain ⟨hw, -, htime, hright⟩ := h.of_settled hstage
    unfold PublishCall.answer
    rw [if_neg (by rw [hstage]; simp)]
    refine ⟨h.deadline, ?_⟩
    show Stands s' k _ call.stage
    rw [hstage]
    refine ⟨mt hbeside.waiters.mp hw, rfl, htime, ?_⟩
    cases outcome with
    | resolved =>
      show (call.confirmed || error.isNone) = true
      rw [show call.confirmed = true from hright]
      rfl
    | rejected _ => exact hright

/-- A timer that fires is one the call waits by. -/
theorem Sound.expired (h : Sound timeout s k call) (hlined : Lined s)
    (hwaiters : s'.waiters = s.waiters.erase k) {due : Nat} (htimer : call.timer = some due) :
    Sound timeout s' k (call.expire timeout s.now) := by
  have hout : k ∉ s'.waiters := hwaiters ▸ hlined.nodup.not_mem_erase
  have harmed : call.timer ≠ none := by simp [htimer]
  cases hstage : call.stage with
  | waiting =>
    unfold PublishCall.expire
    rw [hstage]
    exact .fails h.deadline hout (h.of_waiting hstage).2.2.2 _
  | woken => exact absurd (h.of_woken hstage).2.1 harmed
  | granted c => exact absurd (h.of_granted hstage).2.1 harmed
  | confirming =>
    unfold PublishCall.expire
    rw [hstage]
    exact .fails h.deadline hout (h.of_confirming hstage).2.2 _
  | settled outcome time => exact absurd (h.of_settled hstage).2.1 harmed

theorem Sound.became (h : Sound timeout s k call) (hlined : Lined s) (hok : s.HandsOver l)
    (hk : s.calls[k]? = some call) (hb : Became timeout s l s' k call call') :
    Sound timeout s' k call' := by
  have hwaits (hw : k ∈ s.waiters) : call.stage = .waiting := by
    obtain ⟨call₀, hcall, hstage⟩ := hlined.waiting k hw
    obtain rfl : call₀ = call := Option.some.inj (hcall.symm.trans hk)
    exact hstage
  cases hb with
  | same hbeside => exact ⟨h.deadline, h.stands.beside hbeside⟩
  | later ms _ hwaiters hquiet => exact h.later hwaiters hquiet
  | woken hleaves =>
    obtain ⟨-, -, hcallback, hnow⟩ := h.of_waiting (hwaits hleaves.before)
    exact ⟨h.deadline, hleaves.after, rfl, hcallback, hleaves.now ▸ hnow⟩
  | shut hleaves message =>
    exact .fails h.deadline hleaves.after (h.of_waiting (hwaits hleaves.before)).2.2.2 message
  | lost hbeside hstage message =>
    obtain ⟨hw, -, -, hnow⟩ := h.of_woken hstage
    exact .fails h.deadline (mt hbeside.waiters.mp hw) hnow message
  | granted hbeside hstage c =>
    obtain ⟨hw, htimer, hcallback, hnow⟩ := h.of_woken hstage
    exact ⟨h.deadline, mt hbeside.waiters.mp hw, htimer, hcallback, hbeside.now ▸ hnow⟩
  | handed hbeside hl hc =>
    subst hl
    rw [decide_eq_true (hok call hk _ hc)]
    exact h.handed hbeside hc
  | answered hbeside hc error => exact h.answered hbeside hc error
  | expired _ hwaiters htimer => exact h.expired hlined hwaiters htimer

/-- A call begins with a timer if it waits, and fails at once if it cannot wait. -/
theorem sound_born (hlined : Lined s) (hnow : s'.now = s.now)
    {waiters : List Nat} (hwaiters : s'.waiters = waiters) (hborn : Born timeout s call waiters) :
    Sound timeout s' s.calls.length call := by
  cases hborn with
  | refused message =>
    refine ⟨rfl, ?_, rfl, Nat.le_add_right _ _, message, rfl⟩
    rw [hwaiters]
    exact hlined.fresh
  | granted c =>
    refine ⟨rfl, ?_, rfl, rfl, hnow ▸ Nat.le_add_right _ _⟩
    rw [hwaiters]
    exact hlined.fresh
  | waiting =>
    have htime : s'.now ≤ s.now + timeout := by omega
    refine ⟨rfl, ?_, rfl, rfl, htime⟩
    rw [hwaiters]
    exact List.mem_append_right _ (List.mem_singleton.mpr rfl)

/-! ## Runs -/

/-- What steps that hand messages over to open channels preserve. -/
structure Orderly (timeout : Nat) (s : PublishSystem) : Prop where
  lined : Lined s
  sound : ∀ k call, s.calls[k]? = some call → Sound timeout s k call

theorem orderly_initial (url : Bool) : Orderly timeout (initial url) where
  lined := ⟨List.nodup_nil, fun _ h => nomatch h⟩
  sound _ _ h := nomatch h

theorem Orderly.step (h : Orderly timeout s) (hok : s.HandsOver l)
    (hs : s.step timeout l = some s') : Orderly timeout s' := by
  refine ⟨h.lined.step hs, fun k call' hk' => ?_⟩
  rcases born hs hk' with ⟨call, hk, hb⟩ | ⟨rfl, hnow, hborn⟩
  · exact (h.sound k call hk).became h.lined hok hk hb
  · exact sound_born h.lined hnow rfl hborn

/-- A promise settles once. -/
theorem Lined.settled (h : Lined s) (hs : s.step timeout l = some s') (hk : s.calls[k]? = some call)
    {outcome : Outcome} {time : Nat} (hstage : call.stage = .settled outcome time) :
    ∃ call', s'.calls[k]? = some call' ∧ call'.stage = .settled outcome time := by
  obtain ⟨call', hk', hb⟩ := became hs hk
  have hout : k ∉ s.waiters := by
    intro hw
    obtain ⟨call₀, hcall, hwaiting⟩ := h.waiting k hw
    obtain rfl : call₀ = call := Option.some.inj (hcall.symm.trans hk)
    rw [hstage] at hwaiting
    cases hwaiting
  refine ⟨call', hk', ?_⟩
  cases hb with
  | same => exact hstage
  | later => exact hstage
  | woken hleaves => exact absurd hleaves.before hout
  | shut hleaves => exact absurd hleaves.before hout
  | lost _ hwoken =>
    rw [hstage] at hwoken
    cases hwoken
  | granted _ hwoken =>
    rw [hstage] at hwoken
    cases hwoken
  | handed _ _ hc =>
    rw [hstage] at hc
    cases hc
  | answered _ _ error =>
    unfold PublishCall.answer
    rw [if_neg (by rw [hstage]; simp)]
    exact hstage
  | expired =>
    unfold PublishCall.expire
    rw [hstage]

theorem settled_run {labels : List Label} (h : Lined s)
    (hrun : runs (step timeout) s labels = some s') (hk : s.calls[k]? = some call)
    {outcome : Outcome} {time : Nat} (hstage : call.stage = .settled outcome time) :
    ∃ call', s'.calls[k]? = some call' ∧ call'.stage = .settled outcome time := by
  refine (invariant_of_steps (P := fun s => Lined s ∧
    ∃ call', s.calls[k]? = some call' ∧ call'.stage = .settled outcome time) ?_ hrun
    ⟨h, call, hk, hstage⟩).2
  rintro mid l after hs ⟨hlined, call', hk', hstage'⟩
  exact ⟨hlined.step hs, hlined.settled hs hk' hstage'⟩

/-- Until nothing of any call is left to happen, something of one can happen; then time goes on. -/
theorem goesOn_always (timeout : Nat) (s : PublishSystem) : s.GoesOn timeout := by
  by_cases hall : ∀ call ∈ s.calls, call.Quiet (s.now + 1)
  · right
    rw [step, if_pos hall]
    rfl
  · left
    push Not at hall
    obtain ⟨call, hmem, hbusy⟩ := hall
    obtain ⟨k, hk⟩ := List.getElem?_of_mem hmem
    refine ⟨k, ?_⟩
    by_cases hwoken : call.stage = .woken
    · left
      simp [step, hk, hwoken]
    · right
      cases hc : call.stage.channel with
      | some c =>
        left
        simp [step, hk, hc]
      | none =>
        right
        have hdue : ∃ due ∈ call.timer, due < s.now + 1 := by
          by_contra hno
          push Not at hno
          refine hbusy ⟨hwoken, hc, fun due hdue => ?_⟩
          have hlate := hno due hdue
          omega
        obtain ⟨due, htimer, hlt⟩ := hdue
        simp [step, hk, show call.timer = some due from htimer, Nat.le_of_lt_succ hlt]

/-- A message handed to a channel that does not take it rejects with the library's own error. -/
theorem promises_broken (hs : s.step timeout l = some s') (hbad : ¬ s.HandsOver l) :
    ¬ s'.Promises timeout := by
  cases l with
  | hand k =>
    simp only [HandsOver] at hbad
    push Not at hbad
    obtain ⟨call, hk, c, hc, hclosed⟩ := hbad
    have hk : s.calls[k]? = some call := hk
    have hc : call.stage.channel = some c := hc
    simp only [step, hk, hc] at hs
    cases hs
    intro hpromises
    have hbroken : (call.hand c (s.core.broker.Sendable c) s.now).stage =
        .settled (.rejected .illegalOperation) s.now := by
      rw [decide_eq_false hclosed]
      rfl
    obtain ⟨message, herror⟩ := (hpromises k _ (getElem?_update hk)).typed _ _ hbroken
    cases herror
  | core _ | publish | resume _ | ack _ | nack _ | expire _ | tick _ => exact absurd trivial hbad

/-- The client connects; no topology is registered. -/
def connects : List Label :=
  [.core .connect, .core (.settle 0 true), .core (.goOn 0), .core (.settle 0 true), .core (.goOn 0)]

/-- The client shuts down in the turn a `publish` is called in. -/
def shutDownInTurn : List Label := connects ++ [.publish, .core .shutdown, .hand 0]

/-- The channel of the first connection closes before it is adopted. -/
def adoptedDead : List Label :=
  connects.dropLast ++ [.core (.channelCloses 0), .core (.goOn 0), .publish, .hand 0]

end PublishSystem

end PracticalMicroservice.Messaging
