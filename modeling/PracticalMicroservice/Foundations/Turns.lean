import PracticalMicroservice.Foundations.Threads

/-!
# Threads that take turns

When a thread starts only after every other has returned, at most one is under way, and nothing has
happened since it began but what it did itself.
-/

namespace PracticalMicroservice.Foundations

variable {T C : Type} {R : C → Type} {α W F M : Type} {m : Machine C R W F M}
  {run : T → Program C R α} {s s' : Pool T C R α W} {l : Pool.Label T F M}

/-- At most one thread has not returned, and the latest events are its own. -/
structure InTurns (s : Pool T C R α W) : Prop where
  known : ∀ e ∈ s.trace, e.thread < s.threads.length
  alone : ∀ i < s.threads.length, ∀ j < s.threads.length, s.result i = none → s.result j = none →
    i = j
  latest : ∀ newer e older, s.trace = newer ++ e :: older → s.result e.thread = none →
    ∀ e' ∈ newer, e'.thread = e.thread

theorem inTurns_start {world : W} : InTurns (Pool.start world : Pool T C R α W) where
  known e he := nomatch he
  alone i hi := absurd hi (Nat.not_lt_zero i)
  latest newer e older ht := by
    have hnil : ([] : List (Event C R W)) = newer ++ e :: older := ht
    simp at hnil

theorem InTurns.spawn (h : InTurns s) (hidle : ∀ i < s.threads.length, s.result i ≠ none)
    (t : Thread T C R α) : InTurns { s with threads := s.threads ++ [t] } := by
  have hlast : ∀ {j}, j < (s.threads ++ [t]).length →
      Pool.result { s with threads := s.threads ++ [t] } j = none → j = s.threads.length := by
    intro j hj hout
    rw [List.length_append, List.length_singleton] at hj
    rcases Nat.lt_or_ge j s.threads.length with hlt | hge
    · rw [result_spawn t hlt] at hout
      exact absurd hout (hidle j hlt)
    · omega
  refine ⟨fun e he => ?_, fun j hj k hk hj' hk' => ?_, fun newer e older ht hout => ?_⟩
  · have := h.known e he
    rw [List.length_append]
    omega
  · rw [hlast hj hj', hlast hk hk']
  · have hlt : e.thread < s.threads.length := by
      refine h.known e ?_
      rw [show s.trace = newer ++ e :: older from ht]
      exact List.mem_append_right _ List.mem_cons_self
    rw [result_spawn t hlt] at hout
    exact absurd hout (hidle e.thread hlt)

theorem InTurns.call {i : Nat} {fate : F} {task : T} {command : C}
    {next : R command → Program C R α} {reply : R command} (h : InTurns s)
    (hc : Called m s s' i fate task command next reply) : InTurns s' := by
  refine ⟨fun e he => ?_, fun j hj k hk hj' hk' => ?_, fun newer e older ht hout => ?_⟩
  · rw [hc.length]
    rw [hc.trace] at he
    rcases List.mem_cons.mp he with rfl | he
    · exact hc.lt
    · exact h.known e he
  · rw [hc.length] at hj hk
    exact h.alone j hj k hk (hc.result_none hj') (hc.result_none hk')
  · have hbefore := hc.result_none hout
    rw [hc.trace] at ht
    cases newer with
    | nil => exact fun _ he' => nomatch he'
    | cons e₀ newer =>
      obtain ⟨rfl, hrest⟩ := List.cons.inj ht
      have hmem : e ∈ s.trace := by
        rw [hrest]
        exact List.mem_append_right _ List.mem_cons_self
      intro e' he'
      rcases List.mem_cons.mp he' with rfl | he'
      · exact h.alone i hc.lt e.thread (h.known e hmem) hc.result_self hbefore
      · exact h.latest newer e older hrest hbefore e' he'

/-- A step keeps the turns, if a thread starts only when all others have returned. -/
theorem InTurns.step (h : InTurns s)
    (hidle : ∀ task, l = .spawn task → ∀ i < s.threads.length, s.result i ≠ none)
    (hs : Pool.step m run s l = some s') : InTurns s' := by
  rcases pool_step_cases hs with ⟨task, rfl, rfl⟩ | ⟨i, fate, task, command, next, reply, -, hc⟩ |
    ⟨move, world, -, -, rfl⟩
  · exact h.spawn (hidle task rfl) _
  · exact h.call hc
  · exact ⟨h.known, h.alone, h.latest⟩

/-- What another thread did came before everything the one under way did. -/
theorem InTurns.earlier (h : InTurns s) {newer older : List (Event C R W)} {e e' : Event C R W}
    (ht : s.trace = newer ++ e :: older) (hout : s.result e.thread = none) (he' : e' ∈ s.trace)
    (hne : e'.thread ≠ e.thread) : e' ∈ older := by
  rw [ht] at he'
  rcases List.mem_append.mp he' with hnewer | hrest
  · exact absurd (h.latest newer e older ht hout e' hnewer) hne
  · rcases List.mem_cons.mp hrest with rfl | holder
    · exact absurd rfl hne
    · exact holder

end PracticalMicroservice.Foundations
