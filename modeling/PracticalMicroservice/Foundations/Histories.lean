import PracticalMicroservice.Foundations.Threads

/-!
# Threads and their own histories

What a thread does depends on its task and on what it has been told so far. A program is analysed
once, against the contract whose ghost state is that history; a run of the pool then tells of every
command performed that the history of its thread accounts for it.
-/

namespace PracticalMicroservice.Foundations

/-- The commands of one thread with the replies it got, newest first. -/
abbrev History (C : Type) (R : C → Type) := List ((command : C) × R command)

section

variable {T C : Type} {R : C → Type} {α W F M : Type}

/-- What a thread was told at an event. -/
def Event.told (e : Event C R W) : (command : C) × R command := ⟨e.command, e.reply⟩

/-- The history of a thread in a trace. -/
def pastOf (thread : Nat) : List (Event C R W) → History C R
  | [] => []
  | e :: trace =>
    if e.thread = thread then e.told :: pastOf thread trace else pastOf thread trace

/-- A contract about histories: when a thread of a task may perform a command, and which replies to
it are possible. -/
def recounting (allows : T → History C R → C → Prop) (credible : (command : C) → R command → Prop) :
    Contract C R (T × History C R) where
  allows command g := allows g.1 g.2 command
  replies command g reply g' := credible command reply ∧ g' = (g.1, ⟨command, reply⟩ :: g.2)

/-- Every event of a trace is accounted for by the history of its thread before it. -/
def Accounted (tasks : Nat → Option T) (allows : T → History C R → C → Prop)
    (credible : (command : C) → R command → Prop) : List (Event C R W) → Prop
  | [] => True
  | e :: trace =>
    (∃ task, tasks e.thread = some task ∧ allows task (pastOf e.thread trace) e.command) ∧
      credible e.command e.reply ∧ Accounted tasks allows credible trace

/-- The threads of a pool go on as the analysis of their programs says, and the trace is accounted
for. -/
structure Recounted (allows : T → History C R → C → Prop)
    (credible : (command : C) → R command → Prop) (post : α → T × History C R → Prop)
    (s : Pool T C R α W) : Prop where
  meets : ∀ i t, s.threads[i]? = some t →
    Meets (recounting allows credible) t.program post (t.task, pastOf i s.trace)
  unborn : ∀ i, s.threads.length ≤ i → pastOf i s.trace = []
  accounted : Accounted s.task allows credible s.trace

variable {allows : T → History C R → C → Prop} {credible : (command : C) → R command → Prop}
  {post : α → T × History C R → Prop} {m : Machine C R W F M} {run : T → Program C R α}
  {s s' : Pool T C R α W} {l : Pool.Label T F M}

theorem pastOf_cons_self {e : Event C R W} {trace : List (Event C R W)} :
    pastOf e.thread (e :: trace) = e.told :: pastOf e.thread trace := if_pos rfl

theorem pastOf_cons_of_ne {e : Event C R W} {trace : List (Event C R W)} {i : Nat}
    (h : e.thread ≠ i) : pastOf i (e :: trace) = pastOf i trace := if_neg h

theorem mem_pastOf {trace : List (Event C R W)} {i : Nat} {x : (command : C) × R command}
    (h : x ∈ pastOf i trace) :
    ∃ e ∈ trace, e.thread = i ∧ e.told = x := by
  induction trace with
  | nil => cases h
  | cons e trace ih =>
    unfold pastOf at h
    split at h
    · rename_i he
      rcases List.mem_cons.mp h with rfl | h
      · exact ⟨e, List.mem_cons_self, he, rfl⟩
      · obtain ⟨e', he', hx⟩ := ih h
        exact ⟨e', List.mem_cons_of_mem _ he', hx⟩
    · obtain ⟨e', he', hx⟩ := ih h
      exact ⟨e', List.mem_cons_of_mem _ he', hx⟩

theorem mem_pastOf_of_mem {trace : List (Event C R W)} {e : Event C R W} (h : e ∈ trace) :
    e.told ∈ pastOf e.thread trace := by
  induction trace with
  | nil => cases h
  | cons e' trace ih =>
    rcases List.mem_cons.mp h with rfl | h
    · rw [pastOf_cons_self]
      exact List.mem_cons_self
    · by_cases he : e'.thread = e.thread
      · rw [← he, pastOf_cons_self, he]
        exact List.mem_cons_of_mem _ (ih h)
      · rw [pastOf_cons_of_ne he]
        exact ih h

theorem pastOf_append (newer older : List (Event C R W)) (i : Nat) :
    pastOf i (newer ++ older) = pastOf i newer ++ pastOf i older := by
  induction newer with
  | nil => rfl
  | cons e newer ih =>
    rw [List.cons_append]
    by_cases he : e.thread = i
    · rw [← he] at ih ⊢
      rw [pastOf_cons_self, pastOf_cons_self, ih, List.cons_append]
    · rw [pastOf_cons_of_ne he, pastOf_cons_of_ne he, ih]

/-- What a thread was told at an event, within its whole history. -/
theorem pastOf_split (newer older : List (Event C R W)) (e : Event C R W) :
    pastOf e.thread (newer ++ e :: older) =
      pastOf e.thread newer ++ e.told :: pastOf e.thread older := by
  rw [pastOf_append, pastOf_cons_self]

/-- Every entry of a history is an event of the trace, after the rest of that history. -/
theorem exists_split {trace : List (Event C R W)} {i : Nat} {newer older : History C R}
    {x : (command : C) × R command} (h : pastOf i trace = newer ++ x :: older) :
    ∃ newer' e older', trace = newer' ++ e :: older' ∧ e.thread = i ∧ e.told = x ∧
      pastOf i older' = older := by
  induction trace generalizing newer with
  | nil => simp [pastOf] at h
  | cons e trace ih =>
    by_cases he : e.thread = i
    · rw [← he, pastOf_cons_self, he] at h
      cases newer with
      | nil =>
        obtain ⟨htold, hrest⟩ := List.cons.inj h
        exact ⟨[], e, trace, rfl, he, htold, hrest⟩
      | cons y newer =>
        obtain ⟨-, hrest⟩ := List.cons.inj h
        obtain ⟨newer', e', older', rfl, h'⟩ := ih hrest
        exact ⟨e :: newer', e', older', rfl, h'⟩
    · rw [pastOf_cons_of_ne he] at h
      obtain ⟨newer', e', older', rfl, h'⟩ := ih h
      exact ⟨e :: newer', e', older', rfl, h'⟩

/-- Two events of a thread with equally long histories before them are one event. -/
theorem split_unique {newer newer' older older' : List (Event C R W)} {e e' : Event C R W}
    (h : newer ++ e :: older = newer' ++ e' :: older') (ht : e.thread = e'.thread)
    (hl : (pastOf e.thread older).length = (pastOf e'.thread older').length) :
    e = e' ∧ older = older' := by
  have hlonger : ∀ {mid o o' : List (Event C R W)} {x : Event C R W},
      o = mid ++ x :: o' → (pastOf x.thread o').length < (pastOf x.thread o).length := by
    rintro mid o o' x rfl
    rw [pastOf_split, List.length_append, List.length_cons]
    omega
  rcases List.append_eq_append_iff.mp h with ⟨mid, -, hrest⟩ | ⟨mid, -, hrest⟩
  · cases mid with
    | nil => exact List.cons.inj hrest
    | cons x mid =>
      have := hlonger (List.cons.inj hrest).2
      rw [ht] at hl
      omega
  · cases mid with
    | nil =>
      obtain ⟨he, ho⟩ := List.cons.inj hrest
      exact ⟨he.symm, ho.symm⟩
    | cons x mid =>
      have := hlonger (List.cons.inj hrest).2
      rw [← ht] at hl
      omega

/-- A program keeps to every contract that allows its task as much. -/
theorem Meets.recount {p : Program C R α} {post : α → T × History C R → Prop} {task : T}
    {past : History C R} {allows' : T → History C R → C → Prop}
    (h : Meets (recounting allows credible) p post (task, past))
    (hw : ∀ past command, allows task past command → allows' task past command) :
    Meets (recounting allows' credible) p post (task, past) := by
  induction p generalizing past with
  | done a => exact h
  | perform command next ih =>
    obtain ⟨hallow, hnext⟩ := h
    refine ⟨hw past command hallow, ?_⟩
    rintro reply _ ⟨hc, rfl⟩
    exact ih reply (hnext reply _ ⟨hc, rfl⟩)

/-- More tasks account for no less. -/
theorem Accounted.mono {tasks tasks' : Nat → Option T} {trace : List (Event C R W)}
    (h : Accounted tasks allows credible trace)
    (ht : ∀ i task, tasks i = some task → tasks' i = some task) :
    Accounted tasks' allows credible trace := by
  induction trace with
  | nil => trivial
  | cons e trace ih =>
    obtain ⟨⟨task, htask, hallow⟩, hp, hrest⟩ := h
    exact ⟨⟨task, ht _ _ htask, hallow⟩, hp, ih hrest⟩

theorem recounted_start {world : W} :
    Recounted allows credible post (Pool.start world : Pool T C R α W) where
  meets i t hi := by simp [Pool.start] at hi
  unborn _ _ := rfl
  accounted := trivial

theorem Called.task {i : Nat} {fate : F} {task : T} {command : C}
    {next : R command → Program C R α} {reply : R command}
    (hc : Called m s s' i fate task command next reply) (j : Nat) : s'.task j = s.task j := by
  unfold Pool.task
  rw [hc.getElem?]
  by_cases hj : j = i
  · rw [if_pos hj, hj, hc.thread]
    rfl
  · rw [if_neg hj]

/-- The history of the thread that has performed, and of the ones that have not. -/
theorem Called.pastOf_self {i : Nat} {fate : F} {task : T} {command : C}
    {next : R command → Program C R α} {reply : R command}
    (hc : Called m s s' i fate task command next reply) :
    pastOf i s'.trace = ⟨command, reply⟩ :: pastOf i s.trace := by
  rw [hc.trace]
  exact if_pos rfl

theorem Called.pastOf_of_ne {i : Nat} {fate : F} {task : T} {command : C}
    {next : R command → Program C R α} {reply : R command}
    (hc : Called m s s' i fate task command next reply) {j : Nat} (hj : j ≠ i) :
    pastOf j s'.trace = pastOf j s.trace := by
  rw [hc.trace]
  exact if_neg (Ne.symm hj)

theorem Called.task_self {i : Nat} {fate : F} {task : T} {command : C}
    {next : R command → Program C R α} {reply : R command}
    (hc : Called m s s' i fate task command next reply) : s.task i = some task := by
  unfold Pool.task
  rw [hc.thread]
  rfl

/-- A step of one thread leaves the tasks of the pool as they are, or adds one. -/
theorem task_of_step (h : Pool.step m run s l = some s') {i : Nat} {task : T}
    (ht : s.task i = some task) : s'.task i = some task := by
  rcases pool_step_cases h with ⟨t, -, rfl⟩ | ⟨j, fate, t, command, next, reply, -, hc⟩ |
    ⟨move, world, -, -, rfl⟩
  · obtain ⟨t', ht', rfl⟩ := Option.map_eq_some_iff.mp ht
    unfold Pool.task
    dsimp only
    rw [List.getElem?_append_left (List.getElem?_eq_some_iff.mp ht').1, ht']
    rfl
  · rw [hc.task]
    exact ht
  · exact ht

/-- One step keeps every thread to the analysis of its program. -/
theorem Recounted.step (h : Recounted allows credible post s)
    (hcode : ∀ task, Meets (recounting allows credible) (run task) post (task, []))
    (hcredible : ∀ i fate command w reply w', m.perform i fate command w = some (reply, w') →
      credible command reply)
    (hs : Pool.step m run s l = some s') : Recounted allows credible post s' := by
  have htasks := fun i task (ht : s.task i = some task) => task_of_step hs ht
  rcases pool_step_cases hs with ⟨t, -, rfl⟩ | ⟨i, fate, t, command, next, reply, -, hc⟩ |
    ⟨move, world, -, -, rfl⟩
  · refine ⟨fun i t' hi => ?_, fun i hi => ?_, h.accounted.mono htasks⟩
    · by_cases he : i = s.threads.length
      · subst he
        rw [List.getElem?_append_right (Nat.le_refl _), Nat.sub_self] at hi
        cases hi
        rw [h.unborn _ (Nat.le_refl _)]
        exact hcode t
      · obtain ⟨hlt, -⟩ := List.getElem?_eq_some_iff.mp hi
        rw [List.length_append, List.length_singleton] at hlt
        rw [List.getElem?_append_left (by omega)] at hi
        exact h.meets i t' hi
    · dsimp only at hi
      rw [List.length_append, List.length_singleton] at hi
      exact h.unborn i (by omega)
  · have hp := hcredible i fate command s.world reply s'.world hc.perform
    have hm := h.meets i _ hc.thread
    refine ⟨fun j t' hj => ?_, fun j hj => ?_, ?_⟩
    · rw [hc.getElem?] at hj
      rw [hc.trace]
      by_cases he : j = i
      · subst he
        rw [if_pos rfl] at hj
        cases hj
        refine hm.2 reply _ ⟨hp, ?_⟩
        exact congrArg (Prod.mk t) (if_pos rfl)
      · rw [if_neg he] at hj
        rw [pastOf_cons_of_ne (Ne.symm he)]
        exact h.meets j t' hj
    · have hlt := hc.lt
      rw [hc.length] at hj
      rw [hc.trace, pastOf_cons_of_ne (by dsimp only; omega)]
      exact h.unborn j hj
    · rw [hc.trace]
      refine ⟨⟨t, ?_, hm.1⟩, hp, h.accounted.mono htasks⟩
      exact htasks i t hc.task_self
  · exact ⟨h.meets, h.unborn, h.accounted⟩

/-- What a thread that has returned has been through. -/
theorem Recounted.returned (h : Recounted allows credible post s) {i : Nat} {task : T} {a : α}
    (hi : s.threads[i]? = some ⟨task, .done a⟩) : post a (task, pastOf i s.trace) :=
  h.meets i _ hi

/-- A command about to be performed is accounted for. -/
theorem Recounted.allowed (h : Recounted allows credible post s) {i : Nat} {task : T} {command : C}
    {next : R command → Program C R α} (hi : s.threads[i]? = some ⟨task, .perform command next⟩) :
    allows task (pastOf i s.trace) command := (h.meets i _ hi).1

/-- Every event came about from a part of the trace that accounts for it. -/
theorem Accounted.split {tasks : Nat → Option T} {trace newer older : List (Event C R W)}
    {e : Event C R W} (h : Accounted tasks allows credible trace)
    (ht : trace = newer ++ e :: older) :
    (∃ task, tasks e.thread = some task ∧ allows task (pastOf e.thread older) e.command) ∧
      credible e.command e.reply := by
  subst ht
  induction newer with
  | nil => exact ⟨h.1, h.2.1⟩
  | cons e' newer ih => exact ih h.2.2

end

/-! ## Methods, analysed -/

section Tells

variable {T C : Type} {R : C → Type} {ε α β : Type} {allows : T → History C R → C → Prop}
  {credible : (command : C) → R command → Prop}

/-- From a history, a method of a task only performs what is allowed, and ends in `ok` or `err`. -/
def Tells (allows : T → History C R → C → Prop) (credible : (command : C) → R command → Prop)
    (task : T) (p : Fallible ε C R α) (ok : α → History C R → Prop)
    (err : ε → History C R → Prop) (past : History C R) : Prop :=
  Ensured (recounting allows credible) p (fun a g => g.1 = task ∧ ok a g.2)
    (fun e g => g.1 = task ∧ err e g.2) (task, past)

variable {task : T} {past : History C R} {ok : α → History C R → Prop}
  {err : ε → History C R → Prop}

theorem tells_pure {a : α} (h : ok a past) :
    Tells allows credible task (pure a : Fallible ε C R α) ok err past := ⟨rfl, h⟩

theorem tells_throw {e : ε} (h : err e past) :
    Tells allows credible task (throw e : Fallible ε C R α) ok err past := ⟨rfl, h⟩

theorem tells_bind {p : Fallible ε C R β} {f : β → Fallible ε C R α}
    (h : Tells allows credible task p (fun b past' => Tells allows credible task (f b) ok err past')
      err past) : Tells allows credible task (p >>= f) ok err past := by
  unfold Tells at h ⊢
  rw [ensured_bind]
  refine h.mono ?_ fun _ _ he => he
  rintro b ⟨_, past'⟩ ⟨rfl, hb⟩
  exact hb

/-- A command, and the reply to it. -/
theorem tells_request {command : C} {ok : R command → History C R → Prop}
    (hallow : allows task past command)
    (h : ∀ reply, credible command reply → ok reply (⟨command, reply⟩ :: past)) :
    Tells allows credible task
      (ExceptT.lift (Program.request command) : Fallible ε C R (R command)) ok err past := by
  refine ⟨hallow, ?_⟩
  rintro reply _ ⟨hc, rfl⟩
  exact ⟨rfl, h reply hc⟩

/-- A result unpacked, its error forwarded. -/
theorem tells_result {result : Except ε α} (hok : ∀ a, result = .ok a → ok a past)
    (herr : ∀ e, result = .error e → err e past) :
    Tells allows credible task (ExceptT.mk (pure result) : Fallible ε C R α) ok err past := by
  cases result with
  | ok a => exact ⟨rfl, hok a rfl⟩
  | error e => exact ⟨rfl, herr e rfl⟩

theorem tells_tryCatch {p : Fallible ε C R α} {handler : ε → Fallible ε C R α}
    (h : Tells allows credible task p ok
      (fun e past' => Tells allows credible task (handler e) ok err past') past) :
    Tells allows credible task (tryCatch p handler) ok err past := by
  unfold Tells at h ⊢
  rw [ensured_tryCatch]
  refine h.mono (fun _ _ ha => ha) ?_
  rintro e ⟨_, past'⟩ ⟨rfl, he⟩
  exact he

theorem Tells.mono {p : Fallible ε C R α} {ok' : α → History C R → Prop}
    {err' : ε → History C R → Prop} (h : Tells allows credible task p ok err past)
    (hok : ∀ a past, ok a past → ok' a past) (herr : ∀ e past, err e past → err' e past) :
    Tells allows credible task p ok' err' past :=
  Ensured.mono h (fun a g ha => ⟨ha.1, hok a g.2 ha.2⟩) fun e g he => ⟨he.1, herr e g.2 he.2⟩

/-- An analysis gives another, where the task is allowed as much there. -/
theorem Tells.recount {p : Fallible ε C R α} {allows' : T → History C R → C → Prop}
    (h : Tells allows credible task p ok err past)
    (hw : ∀ past command, allows task past command → allows' task past command) :
    Tells allows' credible task p ok err past := Meets.recount h hw

/-- The program of a task, from the analysis of its method. -/
theorem Tells.meets {p : Fallible ε C R α} {answer : Except ε α → β}
    {post : β → T × History C R → Prop} (h : Tells allows credible task p ok err past)
    (hok : ∀ a past, ok a past → post (answer (.ok a)) (task, past))
    (herr : ∀ e past, err e past → post (answer (.error e)) (task, past)) :
    Meets (recounting allows credible) (p.run >>= fun r => pure (answer r)) post (task, past) := by
  rw [meets_bind]
  refine Ensured.meets h ?_ ?_
  · rintro a ⟨_, past'⟩ ⟨rfl, ha⟩
    exact hok a past' ha
  · rintro e ⟨_, past'⟩ ⟨rfl, he⟩
    exact herr e past' he

end Tells

end PracticalMicroservice.Foundations
