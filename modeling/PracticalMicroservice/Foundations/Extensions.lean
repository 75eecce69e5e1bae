import PracticalMicroservice.Foundations.Histories

/-!
# A machine on a larger world

When a machine does on a part of its world what another machine may do on that part alone, a run of
the larger one is a run of the smaller one, and what holds of every run there holds here.
-/

namespace PracticalMicroservice.Foundations

section

variable {T C : Type} {R : C → Type} {α W W' F F' M M' : Type}

def Event.over (part : W' → W) (e : Event C R W') : Event C R W where
  thread := e.thread
  command := e.command
  reply := e.reply
  before := part e.before
  after := part e.after

/-- The pool as it is on a part of its world. -/
def Pool.over (part : W' → W) (s : Pool T C R α W') : Pool T C R α W where
  world := part s.world
  threads := s.threads
  trace := s.trace.map (Event.over part)

/-- Every command and every move is one of the smaller machine, or leaves the part as it is. -/
structure Extends (large : Machine C R W' F' M') (small : Machine C R W F M) (part : W' → W) :
    Prop where
  perform : ∀ i fate command w reply w', large.perform i fate command w = some (reply, w') →
    ∃ fate', small.perform i fate' command (part w) = some (reply, part w')
  move : ∀ move w w', large.move move w = some w' →
    part w' = part w ∨ ∃ move', small.move move' (part w) = some (part w')

variable {large : Machine C R W' F' M'} {small : Machine C R W F M} {part : W' → W}
  {run : T → Program C R α} {s s' : Pool T C R α W'} {l : Pool.Label T F' M'}

theorem over_start (w : W') :
    (Pool.start w : Pool T C R α W').over part = Pool.start (part w) := rfl

/-- A command of a thread, as one on the part. -/
theorem Called.on {i : Nat} {fate : F'} {fate' : F} {task : T} {command : C}
    {next : R command → Program C R α} {reply : R command}
    (h : Called large s s' i fate task command next reply)
    (hp : small.perform i fate' command (part s.world) = some (reply, part s'.world)) :
    Called small (s.over part) (s'.over part) i fate' task command next reply := by
  refine ⟨h.thread, hp, h.threads, ?_⟩
  unfold Pool.over
  rw [h.trace]
  rfl

/-- A command performed by the larger machine is performed by the smaller. -/
theorem Called.over (he : Extends large small part) {i : Nat} {fate : F'} {task : T} {command : C}
    {next : R command → Program C R α} {reply : R command}
    (h : Called large s s' i fate task command next reply) :
    ∃ fate', Called small (s.over part) (s'.over part) i fate' task command next reply := by
  obtain ⟨fate', hperform⟩ := he.perform _ _ _ _ _ _ h.perform
  exact ⟨fate', h.on hperform⟩

theorem call_of_called {i : Nat} {fate : F} {task : T} {command : C}
    {next : R command → Program C R α} {reply : R command} {t t' : Pool T C R α W}
    (h : Called small t t' i fate task command next reply) :
    Pool.step small run t (.call i fate) = some t' := by
  show t.call small i fate = some t'
  unfold Pool.call
  rw [h.thread]
  dsimp only
  rw [h.perform, Option.map_some, ← h.threads, ← h.trace]

/-- A step of the larger machine is one of the smaller, or does not show there. -/
theorem step_over (he : Extends large small part) (h : Pool.step large run s l = some s') :
    s'.over part = s.over part ∨
      ∃ l', Pool.step small run (s.over part) l' = some (s'.over part) := by
  rcases pool_step_cases h with ⟨task, -, rfl⟩ | ⟨i, fate, task, command, next, reply, -, hc⟩ |
    ⟨move, world, -, hmove, rfl⟩
  · exact .inr ⟨.spawn task, rfl⟩
  · obtain ⟨fate', hc'⟩ := hc.over he
    exact .inr ⟨.call i fate', call_of_called hc'⟩
  · rcases he.move _ _ _ hmove with hsame | ⟨move', hmove'⟩
    · refine .inl ?_
      unfold Pool.over
      dsimp only
      rw [hsame]
    · refine .inr ⟨.move move', ?_⟩
      show (small.move move' (part s.world)).map _ = _
      rw [hmove']
      rfl

/-- What every step of the smaller machine preserves, every step of the larger preserves. -/
theorem invariant_over (he : Extends large small part) {P : Pool T C R α W → Prop}
    (hstep : ∀ t l t', Pool.step small run t l = some t' → P t → P t')
    (h : Pool.step large run s l = some s') (hs : P (s.over part)) : P (s'.over part) := by
  rcases step_over he h with hsame | ⟨l', hl'⟩
  · rw [hsame]
    exact hs
  · exact hstep _ _ _ hl' hs

/-- The threads were told the same. -/
theorem pastOf_over (i : Nat) (trace : List (Event C R W')) :
    pastOf i (trace.map (Event.over part)) = pastOf i trace := by
  induction trace with
  | nil => rfl
  | cons e trace ih =>
    rw [List.map_cons]
    by_cases he : e.thread = i
    · rw [← he] at ih ⊢
      rw [pastOf_cons_self, ← ih]
      exact pastOf_cons_self
    · rw [pastOf_cons_of_ne he, ← ih]
      exact pastOf_cons_of_ne he

end

end PracticalMicroservice.Foundations
