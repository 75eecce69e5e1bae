import Mathlib.Data.List.Nodup
import Mathlib.Data.List.Perm.Subperm
import PracticalMicroservice.Email.Concurrency
import PracticalMicroservice.Email.System
import PracticalMicroservice.Foundations.Courses

/-!
# Proofs: every item is handed out once, and its result is returned in its place

The invariant ties the runners, the calls and the results together: a runner that awaits a call awaits
the one made for its index, nobody else does, and the result is still missing there; every other
call has completed and its result is in place.
-/

namespace PracticalMicroservice.Email

open Foundations (Follows History follows_done follows_perform runs runs_cons)

namespace Mapping

variable {T R : Type} {items : List T} {limit : Nat} {s s' : Mapping T R}

/-- The runner awaits the call, to store its result at the index. -/
def Awaits (s : Mapping T R) (i index call : Nat) : Prop :=
  s.runners[i]? = some (.awaiting index call)

/-- What holds between any two steps of any runner. -/
structure Serving (items : List T) (s : Mapping T R) : Prop where
  started : s.calls.map (·.item) = items.take s.cursor
  within : s.cursor ≤ items.length
  wide : s.results.length = items.length
  fresh : ∀ index, s.cursor ≤ index → index < items.length → s.results[index]? = some none
  awaited : ∀ i index call, s.Awaits i index call →
    index = call ∧ call < s.cursor ∧ s.results[call]? = some none
  distinct : ∀ i j index index' call, s.Awaits i index call → s.Awaits j index' call → i = j
  settled : ∀ call c, s.calls[call]? = some c →
    (∃ i index, s.Awaits i index call) ∨
      (c.result.isSome = true ∧ s.results[call]? = some c.result)
  idle : ∀ i : Nat, s.runners[i]? = some .returned → s.cursor = items.length

/-! ## Going through the loop -/

/-- With items that are all defined the loop takes the one under the cursor. -/
theorem nextItem_defined {cursor : Nat} {item : T} (h : items[cursor]? = some item) :
    nextItem ((items.map some).drop cursor) cursor = (cursor + 1, some (cursor, item)) := by
  obtain ⟨hlt, hitem⟩ := List.getElem?_eq_some_iff.mp h
  rw [← List.map_drop, List.drop_eq_getElem_cons hlt, hitem]
  rfl

theorem nextItem_ended {cursor : Nat} (h : items.length ≤ cursor) :
    nextItem ((items.map some).drop cursor) cursor = (cursor, none) := by
  rw [← List.map_drop, List.drop_eq_nil_of_le h]
  rfl

theorem Serving.length_calls (h : Serving items s) : s.calls.length = s.cursor := by
  rw [← List.length_map (f := (·.item)), h.started, List.length_take, Nat.min_eq_left h.within]

/-- What a pass of the loop leads to. -/
inductive Passed (items : List T) (s : Mapping T R) (i : Nat) : Mapping T R → Prop
  | ended (hend : items.length ≤ s.cursor) :
    Passed items s i { s with runners := s.runners.set i .returned }
  | started {item : T} (hitem : items[s.cursor]? = some item) :
    Passed items s i { s with
      cursor := s.cursor + 1
      runners := s.runners.set i (.awaiting s.cursor s.calls.length)
      calls := s.calls ++ [{ item }] }

theorem passed_run (items : List T) (s : Mapping T R) (i : Nat) :
    Passed items s i (s.run (items.map some) i) := by
  unfold run
  cases hitem : items[s.cursor]? with
  | none =>
    have hend := List.getElem?_eq_none_iff.mp hitem
    rw [nextItem_ended hend]
    exact .ended hend
  | some item =>
    rw [nextItem_defined hitem]
    exact .started hitem

theorem looping_init {width length i : Nat} {runner : Runner}
    (h : (init width length : Mapping T R).runners[i]? = some runner) : runner = .looping := by
  unfold init at h
  rw [List.getElem?_replicate] at h
  split at h
  · exact (Option.some.inj h).symm
  · cases h

theorem serving_init {width : Nat} : Serving items (init width items.length : Mapping T R) where
  started := rfl
  within := Nat.zero_le _
  wide := List.length_replicate
  fresh _ _ h := List.getElem?_replicate_of_lt h
  awaited _ _ _ h := nomatch looping_init h
  distinct _ _ _ _ _ h := nomatch looping_init h
  settled _ _ h := nomatch h
  idle _ h := nomatch looping_init h

/-- Only the runner at the head of its loop changes, and it awaited nothing. -/
theorem awaits_set {i : Nat} (hi : s.runners[i]? = some .looping) {runner : Runner} {j index call : Nat}
    {cursor : Nat} {results : List (Option R)} {calls : List (WorkerCall T R)} :
    Awaits { cursor, results, calls, runners := s.runners.set i runner } j index call ↔
      (j = i ∧ runner = .awaiting index call) ∨ s.Awaits j index call := by
  unfold Awaits
  obtain ⟨hlt, -⟩ := List.getElem?_eq_some_iff.mp hi
  by_cases he : j = i
  · subst he
    rw [List.getElem?_set_self hlt, hi]
    simp
  · rw [List.getElem?_set_ne (Ne.symm he)]
    simp [he]

/-- A pass of the loop by a runner at the head of it. -/
theorem Serving.passed (h : Serving items s) {i : Nat} (hi : s.runners[i]? = some .looping)
    (hp : Passed items s i s') : Serving items s' := by
  obtain ⟨hlt, -⟩ := List.getElem?_eq_some_iff.mp hi
  cases hp with
  | ended hend =>
    have hsame : ∀ {j index call}, Awaits { s with runners := s.runners.set i .returned } j index call ↔
        s.Awaits j index call := by
      intro j index call
      rw [awaits_set hi]
      simp
    exact {
      started := h.started
      within := h.within
      wide := h.wide
      fresh := h.fresh
      awaited := fun j index call hj => h.awaited j index call (hsame.mp hj)
      distinct := fun j k index index' call hj hk =>
        h.distinct j k index index' call (hsame.mp hj) (hsame.mp hk)
      settled := by
        intro call c hc
        rcases h.settled call c hc with ⟨j, index, hj⟩ | hdone
        · exact .inl ⟨j, index, hsame.mpr hj⟩
        · exact .inr hdone
      idle := fun _ _ => Nat.le_antisymm h.within hend }
  | @started item hitem =>
    obtain ⟨hcursor, hat⟩ := List.getElem?_eq_some_iff.mp hitem
    have hmine : ∀ {j index call}, Awaits { s with
        cursor := s.cursor + 1
        runners := s.runners.set i (.awaiting s.cursor s.calls.length)
        calls := s.calls ++ [{ item }] } j index call ↔
        (j = i ∧ index = s.cursor ∧ call = s.cursor) ∨ s.Awaits j index call := by
      intro j index call
      rw [awaits_set hi, h.length_calls]
      simp [eq_comm]
    refine
      { started := ?_, within := hcursor, wide := h.wide, fresh := ?_, awaited := ?_, distinct := ?_,
        settled := ?_, idle := ?_ }
    · dsimp only
      rw [List.map_append, h.started, List.take_add_one, hitem]
      rfl
    · intro index hle hindex
      exact h.fresh index (Nat.le_of_succ_le hle) hindex
    · intro j index call hj
      rcases hmine.mp hj with ⟨-, rfl, rfl⟩ | hj
      · exact ⟨rfl, Nat.lt_succ_self _, h.fresh _ (Nat.le_refl _) hcursor⟩
      · obtain ⟨hindex, hcall, hnone⟩ := h.awaited j index call hj
        exact ⟨hindex, Nat.lt_succ_of_lt hcall, hnone⟩
    · intro j k index index' call hj hk
      rcases hmine.mp hj with ⟨rfl, -, rfl⟩ | hj'
      · rcases hmine.mp hk with ⟨rfl, -, -⟩ | hk'
        · rfl
        · -- the call that is being started was awaited by nobody
          exact absurd (h.awaited k index' _ hk').2.1 (Nat.lt_irrefl _)
      · rcases hmine.mp hk with ⟨rfl, -, rfl⟩ | hk'
        · exact absurd (h.awaited j index _ hj').2.1 (Nat.lt_irrefl _)
        · exact h.distinct j k index index' call hj' hk'
    · intro call c hc
      by_cases hnew : call = s.cursor
      · exact .inl ⟨i, s.cursor, hmine.mpr (.inl ⟨rfl, rfl, hnew⟩)⟩
      · have hold : s.calls[call]? = some c := by
          dsimp only at hc
          have hbound := (List.getElem?_eq_some_iff.mp hc).1
          rw [List.length_append, List.length_singleton, h.length_calls] at hbound
          rwa [List.getElem?_append_left (by rw [h.length_calls]; omega)] at hc
        rcases h.settled call c hold with ⟨j, index, hj⟩ | hdone
        · exact .inl ⟨j, index, hmine.mpr (.inr hj)⟩
        · exact .inr hdone
    · intro j hj
      dsimp only at hj
      by_cases he : j = i
      · subst he
        rw [List.getElem?_set_self hlt] at hj
        cases hj
      · rw [List.getElem?_set_ne (Ne.symm he)] at hj
        have := h.idle j hj
        omega

/-- A completed call's result is stored, and the runner goes back to the head of its loop. -/
theorem Serving.store (h : Serving items s) {i index call : Nat} (hi : s.Awaits i index call)
    {result : R} (hresult : s.resultOf call = some result) :
    Serving items (s.store i index result) := by
  obtain ⟨rfl, hcall, hnone⟩ := h.awaited i index call hi
  obtain ⟨hlt, -⟩ := List.getElem?_eq_some_iff.mp hi
  have hothers : ∀ {j index' call'}, (s.store i index result).Awaits j index' call' →
      call' ≠ index ∧ s.Awaits j index' call' := by
    intro j index' call' hj
    unfold Awaits Mapping.store at hj
    by_cases he : j = i
    · subst he
      rw [List.getElem?_set_self hlt] at hj
      cases hj
    · rw [List.getElem?_set_ne (Ne.symm he)] at hj
      exact ⟨fun hc => he (h.distinct j i index' index index (hc ▸ hj) hi), hj⟩
  refine
    { started := h.started, within := h.within, wide := (List.length_set ..).trans h.wide, fresh := ?_,
      awaited := ?_, distinct := ?_, settled := ?_, idle := ?_ }
  · intro index' hle hlt'
    have hle : s.cursor ≤ index' := hle
    show (s.results.set index (some result))[index']? = _
    rw [List.getElem?_set_ne (by omega)]
    exact h.fresh index' hle hlt'
  · intro j index' call' hj
    obtain ⟨hne, hj⟩ := hothers hj
    obtain ⟨hindex, hlt', hnone'⟩ := h.awaited j index' call' hj
    refine ⟨hindex, hlt', ?_⟩
    show (s.results.set index (some result))[call']? = _
    rw [List.getElem?_set_ne (Ne.symm hne)]
    exact hnone'
  · intro j k index' index'' call' hj hk
    exact h.distinct j k index' index'' call' (hothers hj).2 (hothers hk).2
  · intro call' c hc
    by_cases hmine : call' = index
    · subst hmine
      right
      have hc' : s.calls[call']? = some c := hc
      have hdone : c.result = some result := by
        unfold resultOf at hresult
        rw [hc'] at hresult
        exact hresult
      refine ⟨by rw [hdone]; rfl, ?_⟩
      show (s.results.set call' (some result))[call']? = _
      rw [List.getElem?_set_self (by rw [h.wide]; exact Nat.lt_of_lt_of_le hcall h.within), hdone]
    · rcases h.settled call' c hc with ⟨j, index', hj⟩ | ⟨hdone, hstored⟩
      · left
        refine ⟨j, index', ?_⟩
        have hne : j ≠ i := by
          rintro rfl
          unfold Awaits at hi hj
          rw [hi] at hj
          cases hj
          exact hmine rfl
        unfold Awaits Mapping.store
        rw [List.getElem?_set_ne (Ne.symm hne)]
        exact hj
      · right
        refine ⟨hdone, ?_⟩
        show (s.results.set index (some result))[call']? = _
        rw [List.getElem?_set_ne (Ne.symm hmine)]
        exact hstored
  · intro j hj
    unfold Mapping.store at hj
    by_cases he : j = i
    · subst he
      rw [List.getElem?_set_self hlt] at hj
      cases hj
    · rw [List.getElem?_set_ne (Ne.symm he)] at hj
      exact h.idle j hj

/-- A call completes; its runner has yet to notice. -/
def complete (s : Mapping T R) (call : Nat) (item : T) (result : R) : Mapping T R :=
  { s with calls := s.calls.set call { item, result } }

theorem Serving.complete (h : Serving items s) {call : Nat} {item : T}
    (hc : s.calls[call]? = some { item }) (result : R) :
    Serving items (s.complete call item result) where
  started := by
    show (s.calls.set call { item, result }).map (·.item) = items.take s.cursor
    rw [← h.started]
    refine List.ext_getElem? fun k => ?_
    obtain ⟨hlt, -⟩ := List.getElem?_eq_some_iff.mp hc
    by_cases hk : k = call
    · subst hk
      rw [List.getElem?_map, List.getElem?_map, List.getElem?_set_self hlt, hc]
      rfl
    · rw [List.getElem?_map, List.getElem?_map, List.getElem?_set_ne (Ne.symm hk)]
  within := h.within
  wide := h.wide
  fresh := h.fresh
  awaited := h.awaited
  distinct := h.distinct
  settled := by
    intro call' c hc'
    have hc' : (s.calls.set call { item, result })[call']? = some c := hc'
    by_cases hmine : call' = call
    · subst hmine
      rcases h.settled call' _ hc with hawaited | ⟨hdone, -⟩
      · exact .inl hawaited
      · cases hdone
    · rw [List.getElem?_set_ne (Ne.symm hmine)] at hc'
      exact h.settled call' c hc'
  idle := h.idle

/-! ## The start and the steps -/

/-- Every runner awaits or has returned, and there are as many as were asked for. -/
structure Working (items : List T) (limit : Nat) (s : Mapping T R) : Prop extends Serving items s where
  width : s.runners.length = min limit items.length
  busy : ∀ i : Nat, s.runners[i]? ≠ some .looping

/-- The runner that went through its loop is not at the head of it any more. -/
theorem Passed.runners {i : Nat} (h : Passed items s i s') :
    ∃ runner, runner ≠ .looping ∧ s'.runners = s.runners.set i runner := by
  cases h with
  | ended => exact ⟨.returned, nofun, rfl⟩
  | started => exact ⟨.awaiting s.cursor s.calls.length, nofun, rfl⟩

theorem Passed.length_runners {i : Nat} (h : Passed items s i s') :
    s'.runners.length = s.runners.length := by
  obtain ⟨runner, -, hset⟩ := h.runners
  rw [hset, List.length_set]

/-- A runner at the head of its loop now was there before, and is another one. -/
theorem Passed.looping {i j : Nat} (h : Passed items s i s') (hj : s'.runners[j]? = some .looping) :
    j ≠ i ∧ s.runners[j]? = some .looping := by
  obtain ⟨runner, hrunner, hset⟩ := h.runners
  rw [hset] at hj
  by_cases he : j = i
  · subst he
    have hlt := (List.getElem?_eq_some_iff.mp hj).1
    rw [List.length_set] at hlt
    rw [List.getElem?_set_self hlt] at hj
    exact absurd (Option.some.inj hj) hrunner
  · rw [List.getElem?_set_ne (Ne.symm he)] at hj
    exact ⟨he, hj⟩

/-- The runners called so far have begun, the others are still to be called. -/
theorem serving_spawned {width k : Nat} (hk : k ≤ width) {s : Mapping T R}
    (hs : s = (List.range k).foldl (run (items.map some)) (init width items.length)) :
    Serving items s ∧ s.runners.length = width ∧
      (∀ i, k ≤ i → i < width → s.runners[i]? = some .looping) ∧
      ∀ i : Nat, s.runners[i]? = some .looping → k ≤ i := by
  induction k generalizing s with
  | zero =>
    subst hs
    refine ⟨serving_init, List.length_replicate, fun i _ hi => ?_, fun i _ => Nat.zero_le i⟩
    exact List.getElem?_replicate_of_lt hi
  | succ k ih =>
    rw [List.range_succ, List.foldl_append] at hs
    obtain ⟨hserving, hwidth, hahead, hbehind⟩ := ih (by omega) rfl
    have hp := passed_run items ((List.range k).foldl (run (items.map some))
      (init width items.length : Mapping T R)) k
    obtain rfl : s = _ := hs
    refine ⟨hserving.passed (hahead k (Nat.le_refl k) hk) hp, hp.length_runners.trans hwidth, ?_, ?_⟩
    · intro i hle hlt
      obtain ⟨runner, -, hset⟩ := hp.runners
      show (Mapping.run _ _ k).runners[i]? = _
      rw [hset, List.getElem?_set_ne (by omega)]
      exact hahead i (by omega) hlt
    · intro i hi
      obtain ⟨hne, hi⟩ := hp.looping hi
      have := hbehind i hi
      omega

theorem working_start : Working items limit (start limit (items.map some) : Mapping T R) := by
  have hs : (start limit (items.map some) : Mapping T R) =
      (List.range (min limit items.length)).foldl (run (items.map some))
        (init (min limit items.length) items.length) := by
    unfold start
    rw [List.length_map]
  obtain ⟨hserving, hwidth, -, hbehind⟩ := serving_spawned (Nat.le_refl _) hs
  refine ⟨hserving, hwidth, fun i hi => ?_⟩
  have hlt := (List.getElem?_eq_some_iff.mp hi).1
  have := hbehind i hi
  omega

/-- What a step does. -/
inductive Stepped (items : List T) (s : Mapping T R) : Label R → Mapping T R → Prop
  | completes {call : Nat} {item : T} {result : R} (hc : s.calls[call]? = some { item }) :
    Stepped items s (.completes call result) (s.complete call item result)
  | resumes {i index call : Nat} {result : R} (hi : s.Awaits i index call)
    {after : Mapping T R} (hresult : s.resultOf call = some result)
    (hp : Passed items (s.store i index result) i after) : Stepped items s (.resumes i) after

theorem stepped {l : Label R} (hs : step (items.map some) s l = some s') : Stepped items s l s' := by
  cases l with
  | completes call result =>
    simp only [step] at hs
    split at hs
    next item hc =>
      cases hs
      exact .completes hc
    next => cases hs
  | resumes i =>
    simp only [step] at hs
    split at hs
    next index call hi =>
      obtain ⟨result, hresult, rfl⟩ := Option.map_eq_some_iff.mp hs
      exact .resumes hi hresult (passed_run items _ i)
    next => cases hs

theorem Working.step {l : Label R} (h : Working items limit s)
    (hs : step (items.map some) s l = some s') : Working items limit s' := by
  cases stepped hs with
  | completes hc => exact ⟨h.toServing.complete hc _, h.width, h.busy⟩
  | @resumes i index call result hi _ hresult hp =>
    obtain ⟨hlt, -⟩ := List.getElem?_eq_some_iff.mp hi
    refine ⟨(h.toServing.store hi hresult).passed (List.getElem?_set_self hlt) hp, ?_, fun j hj => ?_⟩
    · exact hp.length_runners.trans ((List.length_set ..).trans h.width)
    · obtain ⟨hne, hj⟩ := hp.looping hj
      refine h.busy j ?_
      rwa [show (s.store i index result).runners = s.runners.set i .looping from rfl,
        List.getElem?_set_ne (Ne.symm hne)] at hj

/-! ## How long it takes -/

/-- The calls that have completed and the results that are stored. -/
def done (s : Mapping T R) : Nat :=
  s.calls.countP (·.result.isSome) + s.results.countP Option.isSome

theorem done_passed {i : Nat} (h : Passed items s i s') : s'.done = s.done := by
  cases h with
  | ended => rfl
  | started => simp [done, List.countP_append]

theorem done_step {l : Label R} (h : Serving items s) (hs : step (items.map some) s l = some s') :
    s'.done = s.done + 1 := by
  cases stepped hs with
  | @completes call item result hc =>
    obtain ⟨hlt, hat⟩ := List.getElem?_eq_some_iff.mp hc
    unfold done complete
    rw [List.countP_set hlt, hat]
    simp
    omega
  | @resumes i index call result hi _ hresult hp =>
    obtain ⟨rfl, -, hnone⟩ := h.awaited i index call hi
    obtain ⟨hlt, hat⟩ := List.getElem?_eq_some_iff.mp hnone
    rw [done_passed hp]
    unfold done Mapping.store
    rw [List.countP_set hlt, hat]
    simp
    omega

theorem Serving.done_le (h : Serving items s) : s.done ≤ 2 * items.length := by
  have hcalls := List.countP_le_length (p := fun c : WorkerCall T R => c.result.isSome) (l := s.calls)
  have hresults := List.countP_le_length (p := Option.isSome) (l := s.results)
  have := h.length_calls
  have := h.within
  have := h.wide
  unfold done
  omega

theorem working_run {labels : List (Label R)} (hw : Working items limit s)
    (hrun : runs (step (items.map some)) s labels = some s') :
    Working items limit s' ∧ s'.done = s.done + labels.length := by
  induction labels generalizing s with
  | nil =>
    cases hrun
    exact ⟨hw, rfl⟩
  | cons l labels ih =>
    obtain ⟨mid, hmid, hrest⟩ := runs_cons hrun
    obtain ⟨hw', hdone⟩ := ih (hw.step hmid) hrest
    have := done_step hw.toServing hmid
    refine ⟨hw', ?_⟩
    rw [List.length_cons]
    omega

/-! ## What is promised -/

theorem mem_inFlight {call : Nat} :
    call ∈ s.inFlight ↔ ∃ item, s.calls[call]? = some { item } := by
  unfold inFlight resultOf
  rw [List.mem_filter, List.mem_range]
  constructor
  · rintro ⟨hlt, hnone⟩
    rw [List.getElem?_eq_getElem hlt] at hnone ⊢
    cases hc : s.calls[call] with
    | mk item result =>
      rw [hc] at hnone
      cases result with
      | none => exact ⟨item, rfl⟩
      | some result => cases hnone
  · rintro ⟨item, hc⟩
    refine ⟨(List.getElem?_eq_some_iff.mp hc).1, ?_⟩
    rw [hc]
    rfl

/-- The calls the runners await. -/
def awaitedCall : Runner → Option Nat
  | .awaiting _ call => some call
  | _ => none

/-- There are no more calls under way than runners to await them. -/
theorem Working.bounded (h : Working items limit s) : s.inFlight.length ≤ limit := by
  have hsub : s.inFlight ⊆ s.runners.filterMap awaitedCall := by
    intro call hcall
    obtain ⟨item, hc⟩ := mem_inFlight.mp hcall
    rcases h.settled call _ hc with ⟨i, index, hi⟩ | ⟨hdone, -⟩
    · exact List.mem_filterMap.mpr ⟨_, List.mem_of_getElem? hi, rfl⟩
    · cases hdone
  have hnodup : s.inFlight.Nodup := List.nodup_range.filter _
  calc s.inFlight.length ≤ (s.runners.filterMap awaitedCall).length :=
        (hnodup.subperm hsub).length_le
    _ ≤ s.runners.length := List.length_filterMap_le ..
    _ ≤ limit := by rw [h.width]; exact Nat.min_le_left ..

theorem returned_eq_some {results : List (Option R)} :
    s.returned = some results ↔ (∀ runner ∈ s.runners, runner = .returned) ∧ s.results = results := by
  unfold returned
  split
  next hall =>
    have hall : ∀ runner ∈ s.runners, runner = .returned := by simpa using hall
    rw [Option.some.injEq]
    exact ⟨fun hresults => ⟨hall, hresults⟩, And.right⟩
  next hall =>
    constructor
    · intro h
      cases h
    · intro h
      exact absurd (by simpa using h.1) hall

/-- Until every runner has returned, a call is under way or the runner of a completed one goes on. -/
theorem Working.goesOn (h : Working items limit s) (hopen : s.returned = none) :
    s.inFlight ≠ [] ∨ ∃ i, (s.step (items.map some) (.resumes i)).isSome = true := by
  have hrunner : ∃ runner ∈ s.runners, runner ≠ .returned := by
    unfold returned at hopen
    simpa using hopen
  obtain ⟨runner, hmem, hne⟩ := hrunner
  obtain ⟨i, hi⟩ := List.getElem?_of_mem hmem
  cases runner with
  | looping => exact absurd hi (h.busy i)
  | returned => exact absurd rfl hne
  | awaiting index call =>
    obtain ⟨-, hcall, -⟩ := h.awaited i index call hi
    rw [← h.length_calls] at hcall
    cases hresult : s.resultOf call with
    | none =>
      left
      have hin : call ∈ s.inFlight := by
        unfold inFlight
        rw [List.mem_filter, List.mem_range, hresult]
        exact ⟨hcall, rfl⟩
      exact List.ne_nil_of_mem hin
    | some result =>
      right
      refine ⟨i, ?_⟩
      simp only [Mapping.step, hi, hresult]
      rfl

theorem Working.complete (hlimit : 1 ≤ limit) (h : Working items limit s) {results : List (Option R)}
    (hret : s.returned = some results) :
    s.calls.map (·.item) = items ∧ results = s.calls.map (·.result) ∧
      ∀ result ∈ results, result.isSome = true := by
  obtain ⟨hall, rfl⟩ := returned_eq_some.mp hret
  have hend : s.cursor = items.length := by
    cases hrunners : s.runners with
    | nil =>
      have := h.width
      have := h.within
      rw [hrunners, List.length_nil] at *
      omega
    | cons runner more =>
      refine h.idle 0 ?_
      rw [hrunners, hall runner (by rw [hrunners]; exact List.mem_cons_self)]
      rfl
  have hidle : ∀ (call : Nat) (c : WorkerCall T R), s.calls[call]? = some c →
      c.result.isSome = true ∧ s.results[call]? = some c.result := by
    intro call c hc
    rcases h.settled call c hc with ⟨i, index, hi⟩ | hdone
    · cases hall _ (List.mem_of_getElem? hi)
    · exact hdone
  have hresults : s.results = s.calls.map (·.result) := by
    refine List.ext_getElem? fun k => ?_
    rw [List.getElem?_map]
    cases hc : s.calls[k]? with
    | none =>
      have hle := List.getElem?_eq_none_iff.mp hc
      rw [h.length_calls, hend, ← h.wide] at hle
      exact List.getElem?_eq_none hle
    | some c => exact (hidle k c hc).2
  refine ⟨?_, hresults, ?_⟩
  · rw [h.started, hend, List.take_length]
  · intro result hmem
    rw [hresults] at hmem
    obtain ⟨c, hc, rfl⟩ := List.mem_map.mp hmem
    obtain ⟨k, hk⟩ := List.getElem?_of_mem hc
    exact (hidle k c hk).1

theorem Working.serves (hlimit : 1 ≤ limit) (h : Working items limit s) : s.Serves items limit where
  inTurn := by rw [h.started, h.length_calls]
  bounded := h.bounded
  goesOn := h.goesOn
  complete _ hret := h.complete hlimit hret

/-- A runner starts a call with the next item, and while fewer than `limit` calls are under way. -/
theorem Working.begins {i : Nat} (h : Working items limit s)
    (hs : Mapping.step (items.map some) s (.resumes i) = some s') :
    s'.calls = s.calls ∨ ∃ item, items[s.calls.length]? = some item ∧
      s'.calls = s.calls ++ [⟨item, none⟩] ∧ s.inFlight.length < limit := by
  have h' := h.step hs
  cases stepped hs with
  | resumes hi hresult hp =>
    cases hp with
    | ended => exact .inl rfl
    | @started item hitem =>
      right
      have hnext : items[s.calls.length]? = some item := h.length_calls ▸ hitem
      refine ⟨item, hnext, rfl, Nat.lt_of_lt_of_le ?_ h'.bounded⟩
      -- the calls under way before it, and the new one
      have hnew : s.calls.length ∉ s.inFlight := by
        intro hmem
        obtain ⟨_, hc⟩ := mem_inFlight.mp hmem
        exact Nat.lt_irrefl _ (List.getElem?_eq_some_iff.mp hc).1
      have hnodup : (s.calls.length :: s.inFlight).Nodup :=
        List.nodup_cons.mpr ⟨hnew, List.nodup_range.filter _⟩
      refine (hnodup.subperm ?_).length_le
      intro call hcall
      refine mem_inFlight.mpr ?_
      dsimp only
      rcases List.mem_cons.mp hcall with rfl | hmem
      · exact ⟨item, List.getElem?_concat_length ..⟩
      · obtain ⟨item', hc⟩ := mem_inFlight.mp hmem
        refine ⟨item', ?_⟩
        show (s.calls ++ [⟨item, none⟩])[call]? = _
        rw [List.getElem?_append_left (List.getElem?_eq_some_iff.mp hc).1, hc]

end Mapping

/-! ## The deliveries of a cycle -/

variable {env : Env}

theorem recordFailure_settles {message : EmailMessage} {reason : String} {retryable : Bool}
    {told : History Command Command.Reply} {answer : Except AppError DeliveryOutcome}
    (h : Follows (EmailDispatcher.recordFailure env message reason retryable).run told
      (.done answer)) : ∃ outcome, answer = .ok outcome := by
  unfold EmailDispatcher.recordFailure at h
  by_cases hdead : (!retryable || decide (message.attempts ≥ message.maxAttempts)) = true
  · rw [if_pos hdead] at h
    obtain ⟨_, _, -, h⟩ := follows_perform h
    obtain ⟨-, hanswer⟩ := follows_done h
    cases hanswer
    exact ⟨.dead, rfl⟩
  · rw [if_neg hdead] at h
    obtain ⟨now, _, -, h⟩ := follows_perform h
    obtain ⟨random, _, -, h⟩ := follows_perform h
    obtain ⟨_, _, -, h⟩ := follows_perform h
    obtain ⟨-, hanswer⟩ := follows_done h
    cases hanswer
    exact ⟨.retrying, rfl⟩

/-- A delivery does not reject: whatever it is told, it comes out one way or another. -/
theorem deliver_settles {message : EmailMessage} {told : History Command Command.Reply}
    {answer : Except AppError DeliveryOutcome}
    (h : Follows (EmailDispatcher.deliver env message).run told (.done answer)) :
    ∃ outcome, answer = .ok outcome := by
  obtain ⟨sending, _, -, h⟩ := follows_perform h
  cases sending with
  | threw crash => exact recordFailure_settles h
  | refused reason retryable => exact recordFailure_settles h
  | accepted provider providerMessageId =>
    obtain ⟨now, _, -, h⟩ := follows_perform h
    obtain ⟨_, _, -, h⟩ := follows_perform h
    obtain ⟨-, hanswer⟩ := follows_done h
    cases hanswer
    exact ⟨.sent, rfl⟩

/-- The results of calls that have all completed fall into the three outcomes. -/
theorem outcomes_total {outcomes : List (Option DeliveryOutcome)}
    (hall : ∀ outcome ∈ outcomes, outcome.isSome = true) :
    (outcomes.filter (· = some .sent)).length + (outcomes.filter (· = some .retrying)).length +
      (outcomes.filter (· = some .dead)).length = outcomes.length := by
  induction outcomes with
  | nil => rfl
  | cons outcome outcomes ih =>
    have ih := ih fun o ho => hall o (List.mem_cons_of_mem _ ho)
    obtain ⟨o, rfl⟩ := Option.isSome_iff_exists.mp (hall outcome List.mem_cons_self)
    cases o <;> simp <;> omega

theorem came_out {calls : List (WorkerCall EmailMessage DeliveryOutcome)}
    (outcome : DeliveryOutcome) :
    ((calls.map (·.result)).filter (· = some outcome)).length =
      calls.countP (·.result = some outcome) := by
  rw [List.countP_eq_length_filter, List.filter_map, List.length_map]
  rfl

theorem summary_counts {claimed : List EmailMessage}
    {calls : List (WorkerCall EmailMessage DeliveryOutcome)}
    (hitems : calls.map (·.item) = claimed)
    (hall : ∀ outcome ∈ calls.map (·.result), outcome.isSome = true) :
    (EmailDispatcher.summary claimed (calls.map (·.result))).Counts claimed calls where
  claimed := rfl
  total := by
    refine (outcomes_total hall).trans ?_
    rw [List.length_map, ← List.length_map (f := (·.item)), hitems]
    rfl
  sent := came_out .sent
  retrying := came_out .retrying
  dead := came_out .dead

/-- `mapWithConcurrency` loses and duplicates nothing, whatever order its calls complete in, and is
done after as many steps as there are items to complete and to store; so the summary of a cycle
counts every message it claimed once. -/
theorem mapWithConcurrency_serves {T R : Type} {items : List T} {limit : Nat}
    {labels : List (Mapping.Label R)} {s : Mapping T R} {env : Env} {claimed : List EmailMessage}
    {deliveries : List (Mapping.Label DeliveryOutcome)}
    {cycle : Mapping EmailMessage DeliveryOutcome}
    (hlimit : 1 ≤ limit) (hconcurrency : 1 ≤ env.DISPATCHER_CONCURRENCY)
    (hrun : runs (Mapping.step (items.map some)) (Mapping.start limit (items.map some)) labels =
      some s)
    (hcycle : runs (Mapping.step (claimed.map some)) (EmailDispatcher.deliveries env claimed)
      deliveries = some cycle) :
    s.Serves items limit ∧ labels.length ≤ 2 * items.length ∧
      ∀ outcomes, cycle.returned = some outcomes →
        (EmailDispatcher.summary claimed outcomes).Counts claimed cycle.calls := by
  obtain ⟨hworking, hdone⟩ := Mapping.working_run Mapping.working_start hrun
  refine ⟨hworking.serves hlimit, ?_, fun outcomes hret => ?_⟩
  · have := hworking.done_le
    omega
  · obtain ⟨hdelivering, -⟩ := Mapping.working_run Mapping.working_start hcycle
    obtain ⟨hitems, rfl, hall⟩ := (hdelivering.serves hconcurrency).complete outcomes hret
    exact summary_counts hitems hall

theorem mapWithConcurrency_serves_three :
    threeServed.Serves [1, 2, 3] 2 ∧ threeOnTwo.length ≤ 2 * 3 ∧
      (EmailDispatcher.summary [welcome] [some .sent]).Counts [welcome] [⟨welcome, some .sent⟩] := by
  obtain ⟨hserves, hlength, hcounts⟩ :=
    @mapWithConcurrency_serves Nat Nat [1, 2, 3] 2 threeOnTwo threeServed sampleEnv [welcome]
      [.completes 0 .sent, .resumes 0] ⟨1, [some .sent], [.returned], [⟨welcome, some .sent⟩]⟩
      (by decide) (by decide) (by decide) (by decide +kernel)
  exact ⟨hserves, hlength, hcounts [some .sent] rfl⟩

end PracticalMicroservice.Email
