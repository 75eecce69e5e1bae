import PracticalMicroservice.Foundations.Histories

/-!
# What a program has been through

A program told one reply after the other is left with the rest of itself. The history of a thread
leads its task to the program the thread has left, so that what a call has done can be read off the
code of the call.
-/

namespace PracticalMicroservice.Foundations

section Programs

variable {C : Type} {R : C → Type} {α β : Type}

/-- The program performs its commands, is told the replies, oldest first, and is left with a rest. -/
inductive Follows : Program C R α → History C R → Program C R α → Prop
  | here (p : Program C R α) : Follows p [] p
  | perform {command : C} {next : R command → Program C R α} {reply : R command}
    {told : History C R} {rest : Program C R α} (h : Follows (next reply) told rest) :
    Follows (.perform command next) (⟨command, reply⟩ :: told) rest

theorem follows_nil {p rest : Program C R α} (h : Follows p [] rest) : rest = p := by
  cases h
  rfl

theorem follows_done {a : α} {told : History C R} {rest : Program C R α}
    (h : Follows (.done a) told rest) : told = [] ∧ rest = .done a := by
  cases h
  exact ⟨rfl, rfl⟩

/-- A program that performs was told the reply first. -/
theorem follows_perform {command : C} {next : R command → Program C R α} {told : History C R}
    {a : α} (h : Follows (.perform command next) told (.done a)) :
    ∃ reply told', told = ⟨command, reply⟩ :: told' ∧ Follows (next reply) told' (.done a) := by
  cases h with
  | perform h => exact ⟨_, _, rfl, h⟩

theorem Follows.trans {p q r : Program C R α} {told told' : History C R} (h : Follows p told q)
    (h' : Follows q told' r) : Follows p (told ++ told') r := by
  induction h with
  | here p => exact h'
  | perform _ ih => exact .perform (ih h')

/-- One command more. -/
theorem Follows.snoc {p : Program C R α} {command : C} {next : R command → Program C R α}
    {told : History C R} (h : Follows p told (.perform command next)) (reply : R command) :
    Follows p (told ++ [⟨command, reply⟩]) (next reply) :=
  h.trans (.perform (.here _))

/-- What is left of a program is determined by what it was told. -/
theorem Follows.unique {p q q' : Program C R α} {told : History C R} (h : Follows p told q)
    (h' : Follows p told q') : q = q' := by
  induction h with
  | here p => exact (follows_nil h').symm
  | perform _ ih =>
    cases h' with
    | perform h' => exact ih h'

theorem Follows.bind {p : Program C R α} {f : α → Program C R β} {told : History C R}
    {rest : Program C R α} (h : Follows p told rest) : Follows (p.bind f) told (rest.bind f) := by
  induction h with
  | here p => exact .here _
  | perform _ ih => exact .perform ih

/-- A program that went on with the result of another has been through both. -/
theorem follows_bind {p : Program C R α} {f : α → Program C R β} {told : History C R} {b : β}
    (h : Follows (p.bind f) told (.done b)) :
    ∃ a told₁ told₂, told = told₁ ++ told₂ ∧ Follows p told₁ (.done a) ∧
      Follows (f a) told₂ (.done b) := by
  induction p generalizing told with
  | done a => exact ⟨a, [], told, rfl, .here _, h⟩
  | perform command next ih =>
    obtain ⟨reply, told', rfl, h'⟩ := follows_perform h
    obtain ⟨a, told₁, told₂, rfl, h₁, h₂⟩ := ih reply h'
    exact ⟨a, ⟨command, reply⟩ :: told₁, told₂, rfl, .perform h₁, h₂⟩

/-- A fallible program that returned went on from what its first part returned. -/
theorem follows_bind_ok {ε : Type} {p : Fallible ε C R α} {f : α → Fallible ε C R β}
    {told : History C R} {b : β} (h : Follows (p >>= f).run told (.done (.ok b))) :
    ∃ a told₁ told₂, told = told₁ ++ told₂ ∧ Follows p.run told₁ (.done (.ok a)) ∧
      Follows (f a).run told₂ (.done (.ok b)) := by
  obtain ⟨result, told₁, told₂, rfl, hp, hf⟩ := follows_bind h
  cases result with
  | ok a => exact ⟨a, told₁, told₂, rfl, hp, hf⟩
  | error e => cases (follows_done hf).2

/-- A `try` that returned did so itself, or its handler did. -/
theorem follows_tryCatch {ε : Type} {p : Fallible ε C R α} {handler : ε → Fallible ε C R α}
    {told : History C R} {result : Except ε α}
    (h : Follows (tryCatch p handler).run told (.done result)) :
    (∃ a, result = .ok a ∧ Follows p.run told (.done (.ok a))) ∨
      ∃ e told₁ told₂, told = told₁ ++ told₂ ∧ Follows p.run told₁ (.done (.error e)) ∧
        Follows (handler e).run told₂ (.done result) := by
  obtain ⟨attempted, told₁, told₂, rfl, hp, hrest⟩ := follows_bind h
  cases attempted with
  | ok a =>
    obtain ⟨rfl, hresult⟩ := follows_done hrest
    cases hresult
    exact .inl ⟨a, rfl, by rwa [List.append_nil]⟩
  | error e => exact .inr ⟨e, told₁, told₂, rfl, hp, hrest⟩

/-- A handler that throws at its end does not return. -/
theorem follows_throw {ε : Type} {e : ε} {told : History C R} {result : Except ε α}
    (h : Follows (throw e : Fallible ε C R α).run told (.done result)) :
    told = [] ∧ result = .error e := by
  obtain ⟨rfl, hresult⟩ := follows_done h
  cases hresult
  exact ⟨rfl, rfl⟩

end Programs

/-! ## The threads of a pool -/

section Pools

variable {T C : Type} {R : C → Type} {α W F M : Type} {m : Machine C R W F M}
  {run : T → Program C R α} {s s' : Pool T C R α W} {l : Pool.Label T F M}

/-- Every thread has what is left of its task after its history. -/
structure OnCourse (run : T → Program C R α) (s : Pool T C R α W) : Prop where
  follows : ∀ i t, s.threads[i]? = some t →
    Follows (run t.task) (pastOf i s.trace).reverse t.program
  unborn : ∀ i, s.threads.length ≤ i → pastOf i s.trace = []

theorem onCourse_start {world : W} : OnCourse run (Pool.start world : Pool T C R α W) where
  follows i t hi := by simp [Pool.start] at hi
  unborn _ _ := rfl

theorem OnCourse.step (h : OnCourse run s) (hs : Pool.step m run s l = some s') :
    OnCourse run s' := by
  rcases pool_step_cases hs with ⟨task, -, rfl⟩ | ⟨i, fate, task, command, next, reply, -, hc⟩ |
    ⟨move, world, -, -, rfl⟩
  · refine ⟨fun i t hi => ?_, fun i hi => ?_⟩
    · by_cases he : i = s.threads.length
      · subst he
        rw [List.getElem?_append_right (Nat.le_refl _), Nat.sub_self] at hi
        cases hi
        dsimp only
        rw [h.unborn _ (Nat.le_refl _)]
        exact .here _
      · obtain ⟨hlt, -⟩ := List.getElem?_eq_some_iff.mp hi
        rw [List.length_append, List.length_singleton] at hlt
        rw [List.getElem?_append_left (by omega)] at hi
        exact h.follows i t hi
    · dsimp only at hi
      rw [List.length_append, List.length_singleton] at hi
      exact h.unborn i (by omega)
  · refine ⟨fun j t hj => ?_, fun j hj => ?_⟩
    · rw [hc.getElem?] at hj
      by_cases he : j = i
      · subst he
        rw [if_pos rfl] at hj
        cases hj
        rw [hc.pastOf_self, List.reverse_cons]
        exact (h.follows j _ hc.thread).snoc reply
      · rw [if_neg he] at hj
        rw [hc.pastOf_of_ne he]
        exact h.follows j t hj
    · have hlt := hc.lt
      rw [hc.length] at hj
      rw [hc.pastOf_of_ne (by omega)]
      exact h.unborn j hj
  · exact ⟨h.follows, h.unborn⟩

/-- What a thread that has returned has been through. -/
theorem OnCourse.returned (h : OnCourse run s) {i : Nat} {task : T} {a : α}
    (ht : s.task i = some task) (hr : s.result i = some a) :
    Follows (run task) (pastOf i s.trace).reverse (.done a) := by
  obtain ⟨task', hi⟩ := result_eq_some hr
  unfold Pool.task at ht
  rw [hi] at ht
  obtain rfl := Option.some.inj ht
  exact h.follows i _ hi

/-- What a thread does next, after a history that leads its task there. -/
theorem OnCourse.next (h : OnCourse run s) {i : Nat} {task : T} {command : C}
    {next : R command → Program C R α} (ht : s.task i = some task)
    (hf : Follows (run task) (pastOf i s.trace).reverse (.perform command next)) :
    s.nextCommand i = some command := by
  obtain ⟨t, hi, rfl⟩ := Option.map_eq_some_iff.mp ht
  obtain ⟨task, program⟩ := t
  obtain rfl := (h.follows i _ hi).unique hf
  unfold Pool.nextCommand
  rw [hi]

end Pools

end PracticalMicroservice.Foundations
