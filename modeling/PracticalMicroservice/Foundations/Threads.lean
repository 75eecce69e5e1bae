import PracticalMicroservice.Foundations.Runs
import PracticalMicroservice.Foundations.Statements

/-!
# Threads of programs over a shared world

Any number of programs run at once, and between two commands of one anything else may happen: the
steps of the others, and moves of the world's own. A label names what the state does not determine.
Each thread keeps to a contract from a ghost state of its own (`Governed`), and a step of one leaves
the ghosts of the others where they are.
-/

namespace PracticalMicroservice.Foundations

/-- What the threads run on: the effect of a command under a fate, and the moves of the world. Both
are partial, for a command that has to wait and a move that cannot happen. -/
structure Machine (C : Type) (R : C → Type) (W F M : Type) where
  perform : (thread : Nat) → F → (command : C) → W → Option (R command × W)
  move : M → W → Option W

/-- A command performed, the reply it got, and the worlds before and after. -/
structure Event (C : Type) (R : C → Type) (W : Type) where
  thread : Nat
  command : C
  reply : R command
  before : W
  after : W

structure Thread (T C : Type) (R : C → Type) (α : Type) where
  task : T
  program : Program C R α

/-- The command a thread performs next. -/
def Thread.next {T C : Type} {R : C → Type} {α : Type} (t : Thread T C R α) : Option C :=
  match t.program with
  | .perform command _ => some command
  | .done _ => none

structure Pool (T C : Type) (R : C → Type) (α W : Type) where
  world : W
  threads : List (Thread T C R α)
  /-- Newest first. -/
  trace : List (Event C R W)

inductive Pool.Label (T F M : Type)
  | spawn (task : T)
  | call (thread : Nat) (fate : F)
  | move (m : M)

namespace Pool

variable {T C : Type} {R : C → Type} {α W F M : Type}

/-- A world on which nothing runs yet. -/
def start (world : W) : Pool T C R α W where
  world
  threads := []
  trace := []

/-- The command a thread performs next. -/
def nextCommand (s : Pool T C R α W) (thread : Nat) : Option C :=
  match s.threads[thread]? with
  | some ⟨_, .perform command _⟩ => some command
  | _ => none

/-- What a thread has returned. -/
def result (s : Pool T C R α W) (thread : Nat) : Option α :=
  match s.threads[thread]? with
  | some ⟨_, .done a⟩ => some a
  | _ => none

def task (s : Pool T C R α W) (thread : Nat) : Option T := s.threads[thread]?.map Thread.task

/-- A thread performs its next command. -/
def call (m : Machine C R W F M) (s : Pool T C R α W) (thread : Nat) (fate : F) :
    Option (Pool T C R α W) :=
  match s.threads[thread]? with
  | some ⟨task, .perform command next⟩ =>
    (m.perform thread fate command s.world).map fun (reply, world) =>
      { world
        threads := s.threads.set thread ⟨task, next reply⟩
        trace := ⟨thread, command, reply, s.world, world⟩ :: s.trace }
  | _ => none

def step (m : Machine C R W F M) (run : T → Program C R α) (s : Pool T C R α W) :
    Label T F M → Option (Pool T C R α W)
  | .spawn task => some { s with threads := s.threads ++ [⟨task, run task⟩] }
  | .call thread fate => s.call m thread fate
  | .move move => (m.move move s.world).map fun world => { s with world }

/-- A condition on the calls of the threads, and on nothing else that happens. -/
def calls (ok : Pool T C R α W → Nat → F → C → Prop) (s : Pool T C R α W) : Label T F M → Prop
  | .call thread fate => ∀ command ∈ s.nextCommand thread, ok s thread fate command
  | _ => True

instance (ok : Pool T C R α W → Nat → F → C → Prop) [∀ s i f c, Decidable (ok s i f c)]
    (s : Pool T C R α W) : DecidablePred (calls (M := M) ok s)
  | .call thread fate =>
    inferInstanceAs (Decidable (∀ command ∈ s.nextCommand thread, ok s thread fate command))
  | .spawn _ => .isTrue trivial
  | .move _ => .isTrue trivial

end Pool

/-! ## What one step can do -/

section Step

variable {T C : Type} {R : C → Type} {α W F M : Type} {m : Machine C R W F M}
  {run : T → Program C R α} {s s' : Pool T C R α W} {l : Pool.Label T F M}

/-- A thread has performed its next command. -/
structure Called (m : Machine C R W F M) (s s' : Pool T C R α W) (i : Nat) (fate : F) (task : T)
    (command : C) (next : R command → Program C R α) (reply : R command) : Prop where
  thread : s.threads[i]? = some ⟨task, .perform command next⟩
  perform : m.perform i fate command s.world = some (reply, s'.world)
  threads : s'.threads = s.threads.set i ⟨task, next reply⟩
  trace : s'.trace = ⟨i, command, reply, s.world, s'.world⟩ :: s.trace

theorem called_of_call {i : Nat} {fate : F} (h : Pool.step m run s (.call i fate) = some s') :
    ∃ task command next reply, Called m s s' i fate task command next reply := by
  have hdef : Pool.step m run s (.call i fate) = s.call m i fate := rfl
  rw [hdef] at h
  unfold Pool.call at h
  split at h
  · rename_i task command next ht
    obtain ⟨⟨reply, world⟩, hp, rfl⟩ := Option.map_eq_some_iff.mp h
    exact ⟨task, command, next, reply, ht, hp, rfl, rfl⟩
  · cases h

/-- What a step can be: a new thread, a command of one, or a move of the world. -/
theorem pool_step_cases (h : Pool.step m run s l = some s') :
    (∃ task, l = .spawn task ∧ s' = { s with threads := s.threads ++ [⟨task, run task⟩] }) ∨
    (∃ i fate task command next reply, l = .call i fate ∧
      Called m s s' i fate task command next reply) ∨
    (∃ move world, l = .move move ∧ m.move move s.world = some world ∧ s' = { s with world }) := by
  cases l with
  | spawn task => exact .inl ⟨task, rfl, (Option.some.inj h).symm⟩
  | call i fate =>
    obtain ⟨task, command, next, reply, hc⟩ := called_of_call h
    exact .inr (.inl ⟨i, fate, task, command, next, reply, rfl, hc⟩)
  | move move =>
    obtain ⟨world, hw, rfl⟩ := Option.map_eq_some_iff.mp h
    exact .inr (.inr ⟨move, world, rfl, hw, rfl⟩)

section Called

variable {i : Nat} {fate : F} {task : T} {command : C} {next : R command → Program C R α}
  {reply : R command}

theorem Called.nextCommand (h : Called m s s' i fate task command next reply) :
    s.nextCommand i = some command := by
  unfold Pool.nextCommand
  rw [h.thread]

theorem Called.lt (h : Called m s s' i fate task command next reply) : i < s.threads.length :=
  (List.getElem?_eq_some_iff.mp h.thread).1

theorem Called.length (h : Called m s s' i fate task command next reply) :
    s'.threads.length = s.threads.length := by
  rw [h.threads, List.length_set]

/-- The thread that has performed, and the ones that have not. -/
theorem Called.getElem? (h : Called m s s' i fate task command next reply) (j : Nat) :
    s'.threads[j]? = if j = i then some ⟨task, next reply⟩ else s.threads[j]? := by
  rw [h.threads, List.getElem?_set]
  by_cases hj : j = i
  · rw [if_pos hj.symm, if_pos hj, if_pos (hj ▸ h.lt)]
  · rw [if_neg (Ne.symm hj), if_neg hj]

/-- No step changes what the threads are for. -/
theorem Called.tasks (h : Called m s s' i fate task command next reply) :
    s'.threads.map Thread.task = s.threads.map Thread.task := by
  obtain ⟨hlt, hget⟩ := List.getElem?_eq_some_iff.mp h.thread
  refine List.ext_getElem? fun j => ?_
  rw [List.getElem?_map, List.getElem?_map, h.getElem?]
  by_cases hj : j = i
  · rw [if_pos hj, hj, h.thread]
    rfl
  · rw [if_neg hj]

/-- A thread about to perform has not returned. -/
theorem Called.result_self (h : Called m s s' i fate task command next reply) :
    s.result i = none := by
  unfold Pool.result
  rw [h.thread]

theorem Called.result_of_ne (h : Called m s s' i fate task command next reply) {j : Nat}
    (hj : j ≠ i) : s'.result j = s.result j := by
  unfold Pool.result
  rw [h.getElem?, if_neg hj]

/-- A thread that has not returned after the step had not before it. -/
theorem Called.result_none (h : Called m s s' i fate task command next reply) {j : Nat}
    (hj : s'.result j = none) : s.result j = none := by
  by_cases he : j = i
  · rw [he]
    exact h.result_self
  · rw [← h.result_of_ne he]
    exact hj

/-- The threads of some kind, as one of them goes on. -/
theorem Called.countP (h : Called m s s' i fate task command next reply)
    (p : Thread T C R α → Bool) :
    s'.threads.countP p + (if p ⟨task, .perform command next⟩ then 1 else 0) =
      s.threads.countP p + (if p ⟨task, next reply⟩ then 1 else 0) := by
  obtain ⟨hlt, hget⟩ := List.getElem?_eq_some_iff.mp h.thread
  rw [h.threads, List.countP_set hlt, hget]
  by_cases hp : p ⟨task, .perform command next⟩ = true
  · have hpos : 0 < s.threads.countP p :=
      List.countP_pos_iff.mpr ⟨_, List.mem_of_getElem? h.thread, hp⟩
    rw [if_pos hp]
    omega
  · rw [if_neg hp]
    omega

end Called

theorem nextCommand_eq_some {i : Nat} {command : C} (h : s.nextCommand i = some command) :
    ∃ task next, s.threads[i]? = some ⟨task, .perform command next⟩ := by
  unfold Pool.nextCommand at h
  split at h
  · rename_i task c next ht
    obtain rfl := Option.some.inj h
    exact ⟨task, next, ht⟩
  · cases h

theorem result_spawn (t : Thread T C R α) {j : Nat} (hj : j < s.threads.length) :
    Pool.result { s with threads := s.threads ++ [t] } j = s.result j := by
  unfold Pool.result
  dsimp only
  rw [List.getElem?_append_left hj]

theorem result_eq_some {i : Nat} {a : α} (h : s.result i = some a) :
    ∃ task, s.threads[i]? = some ⟨task, .done a⟩ := by
  unfold Pool.result at h
  split at h
  · rename_i task b ht
    obtain rfl := Option.some.inj h
    exact ⟨task, ht⟩
  · cases h

end Step

/-! ## What the trace records -/

section Performed

variable {T C : Type} {R : C → Type} {α W F M : Type} {m : Machine C R W F M}
  {run : T → Program C R α} {s s' : Pool T C R α W} {l : Pool.Label T F M}

/-- Every event of the trace is a command the machine has performed. -/
def Performed (m : Machine C R W F M) (s : Pool T C R α W) : Prop :=
  ∀ e ∈ s.trace, ∃ fate, m.perform e.thread fate e.command e.before = some (e.reply, e.after)

theorem performed_start {world : W} : Performed m (Pool.start world : Pool T C R α W) :=
  fun _ he => nomatch he

theorem Performed.step (h : Performed m s) (hs : Pool.step m run s l = some s') :
    Performed m s' := by
  rcases pool_step_cases hs with ⟨task, -, rfl⟩ | ⟨i, fate, task, command, next, reply, -, hc⟩ |
    ⟨move, world, -, -, rfl⟩
  · exact h
  · intro e he
    rw [hc.trace] at he
    rcases List.mem_cons.mp he with rfl | he
    · exact ⟨fate, hc.perform⟩
    · exact h e he
  · exact h

end Performed

/-! ## A thread that is left alone -/

/-- A thread that nothing interrupts ends as its program does, run on its own. -/
theorem reaches_alone {T C : Type} {R : C → Type} {α W F M : Type} (m : Machine C R W F M)
    (step : Pool T C R α W → Pool.Label T F M → Option (Pool T C R α W))
    (kind : Pool.Label T F M → Prop) (fate : C → F) {i : Nat}
    (hstep : ∀ s f, step s (.call i f) = s.call m i f) (hkind : ∀ f, kind (.call i f))
    {s : Pool T C R α W} {task : T} {p : Program C R α} (ht : s.threads[i]? = some ⟨task, p⟩)
    {a : α} {w : W} (he : p.tryExec (fun c w => m.perform i (fate c) c w) s.world = some (a, w)) :
    ∃ s', Reaches step kind s s' ∧ s'.threads = s.threads.set i ⟨task, .done a⟩ ∧
      s'.world = w := by
  induction p generalizing s with
  | done b =>
    obtain ⟨rfl, rfl⟩ := Prod.mk.inj (Option.some.inj he)
    obtain ⟨hlt, hget⟩ := List.getElem?_eq_some_iff.mp ht
    refine ⟨s, .refl, ?_, rfl⟩
    rw [← hget, List.set_getElem_self]
  | perform command next ih =>
    obtain ⟨⟨reply, mid⟩, hp, hrest⟩ := Option.bind_eq_some_iff.mp he
    have hp : m.perform i (fate command) command s.world = some (reply, mid) := hp
    have hcall : step s (.call i (fate command)) =
        some { world := mid, threads := s.threads.set i ⟨task, next reply⟩
               trace := ⟨i, command, reply, s.world, mid⟩ :: s.trace } := by
      rw [hstep]
      unfold Pool.call
      rw [ht]
      dsimp only
      rw [hp]
      rfl
    have hlt := (List.getElem?_eq_some_iff.mp ht).1
    obtain ⟨s', hreach, hthreads, hworld⟩ := ih reply
      (s := { world := mid, threads := s.threads.set i ⟨task, next reply⟩
              trace := ⟨i, command, reply, s.world, mid⟩ :: s.trace })
      (List.getElem?_set_self hlt) hrest
    refine ⟨s', (Reaches.of_step (hkind _) hcall).trans hreach, ?_, hworld⟩
    rw [hthreads, List.set_set]

/-! ## Threads that keep to a contract -/

section Governed

variable {T C : Type} {R : C → Type} {α W F M σ : Type}

/-- The ghost state one thread moves to; the others keep theirs. -/
def moveGhost (ghosts : Nat → σ) (i : Nat) (g : σ) : Nat → σ :=
  fun j => if j = i then g else ghosts j

@[simp] theorem moveGhost_self (ghosts : Nat → σ) (i : Nat) (g : σ) :
    moveGhost ghosts i g i = g := if_pos rfl

theorem moveGhost_of_ne {ghosts : Nat → σ} {i j : Nat} {g : σ} (h : j ≠ i) :
    moveGhost ghosts i g j = ghosts j := if_neg h

/-- What every thread does from its ghost state is allowed. A thread not there yet is `idle`. -/
structure Governed (k : Contract C R σ) (post : T → α → σ → Prop) (idle : σ)
    (s : Pool T C R α W) (ghosts : Nat → σ) : Prop where
  meets : ∀ i t, s.threads[i]? = some t → Meets k t.program (post t.task) (ghosts i)
  idle : ∀ i, s.threads.length ≤ i → ghosts i = idle

variable {k : Contract C R σ} {post : T → α → σ → Prop} {idle : σ} {m : Machine C R W F M}
  {run : T → Program C R α} {s s' : Pool T C R α W} {ghosts : Nat → σ}

theorem governed_start {world : W} :
    Governed k post idle (Pool.start world : Pool T C R α W) fun _ => idle where
  meets i t hi := by simp [Pool.start] at hi
  idle _ _ := rfl

theorem Governed.spawn (h : Governed k post idle s ghosts) {task : T} {g : σ}
    (hm : Meets k (run task) (post task) g) :
    Governed k post idle { s with threads := s.threads ++ [⟨task, run task⟩] }
      (moveGhost ghosts s.threads.length g) where
  meets i t hi := by
    by_cases he : i = s.threads.length
    · subst he
      rw [List.getElem?_append_right (Nat.le_refl _), Nat.sub_self] at hi
      cases hi
      rw [moveGhost_self]
      exact hm
    · obtain ⟨hlt, -⟩ := List.getElem?_eq_some_iff.mp hi
      rw [List.length_append, List.length_singleton] at hlt
      rw [moveGhost_of_ne he]
      refine h.meets i t ?_
      rwa [List.getElem?_append_left (by omega)] at hi
  idle i hi := by
    dsimp only at hi
    rw [List.length_append, List.length_singleton] at hi
    rw [moveGhost_of_ne (by omega)]
    exact h.idle i (by omega)

theorem Governed.move (h : Governed k post idle s ghosts) (world : W) :
    Governed k post idle { s with world } ghosts where
  meets := h.meets
  idle := h.idle

section

variable {i : Nat} {fate : F} {task : T} {command : C} {next : R command → Program C R α}
  {reply : R command}

theorem Governed.allows (h : Governed k post idle s ghosts)
    (hc : Called m s s' i fate task command next reply) : k.allows command (ghosts i) :=
  (h.meets i _ hc.thread).1

/-- A thread that gets a reply its contract foresees moves to the ghost state the contract says. -/
theorem Governed.call (h : Governed k post idle s ghosts)
    (hc : Called m s s' i fate task command next reply) {g : σ}
    (hr : k.replies command (ghosts i) reply g) :
    Governed k post idle s' (moveGhost ghosts i g) where
  meets j t hj := by
    rw [hc.getElem?] at hj
    by_cases he : j = i
    · subst he
      rw [if_pos rfl] at hj
      cases hj
      rw [moveGhost_self]
      exact (h.meets j _ hc.thread).2 reply g hr
    · rw [if_neg he] at hj
      rw [moveGhost_of_ne he]
      exact h.meets j t hj
  idle j hj := by
    rw [hc.length] at hj
    have hlt := hc.lt
    rw [moveGhost_of_ne (by omega)]
    exact h.idle j hj

end

/-- What a thread that has returned leaves behind. -/
theorem Governed.returned (h : Governed k post idle s ghosts) {i : Nat} {task : T} {a : α}
    (hi : s.threads[i]? = some ⟨task, .done a⟩) : post task a (ghosts i) :=
  h.meets i _ hi

end Governed

end PracticalMicroservice.Foundations
