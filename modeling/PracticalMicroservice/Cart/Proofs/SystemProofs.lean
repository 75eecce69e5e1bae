import PracticalMicroservice.Cart.System

/-!
# What one step of the system can do

The inversion of a step, and threads that keep to a contract, each from a ghost state of its own:
a step of one leaves the others where they are.
-/

namespace PracticalMicroservice.Cart

open Foundations (Contract Meets Program)

/-! ## The command a thread performs -/

/-- A thread has performed its next command. -/
structure Called (s s' : System) (i : Nat) (fate : Fate) (t : Thread) (command : Command)
    (next : command.Reply → Program Command Command.Reply (Except Exception (Option CheckoutResult)))
    : Prop where
  thread : s.threads[i]? = some t
  program : t.program = .perform command next
  world : s'.world = (s.world.perform fate command).2
  threads : s'.threads = s.threads.set i { t with
    program := next (s.world.perform fate command).1
    decided := System.decidedAfter t.decided s.armed command (s.world.perform fate command).1 }
  notices : s'.notices = s.notices
  others : s'.others = s.others
  armed : s'.armed = System.countArmed s.armed s.world.redis s'.world.redis
  trace : s'.trace = .performed i command (command.verdict fate s.world) :: s.trace

theorem called_of_call {s s' : System} {i : Nat} {fate : Fate} (h : s.call i fate = some s') :
    ∃ t command next, Called s s' i fate t command next := by
  unfold System.call at h
  split at h
  · cases h
  · rename_i t ht
    split at h
    · cases h
    · rename_i command next hp
      obtain rfl := Option.some.inj h
      exact ⟨t, command, next, ht, hp, rfl, rfl, rfl, rfl, rfl, rfl⟩

section Called

variable {s s' : System} {i : Nat} {fate : Fate} {t : Thread} {command : Command}
  {next : command.Reply → Program Command Command.Reply (Except Exception (Option CheckoutResult))}

theorem Called.nextCommand (h : Called s s' i fate t command next) :
    s.nextCommand i = some command := by
  unfold System.nextCommand
  rw [h.thread]
  dsimp only
  rw [h.program]

theorem Called.lt (h : Called s s' i fate t command next) : i < s.threads.length :=
  (List.getElem?_eq_some_iff.mp h.thread).1

theorem Called.length (h : Called s s' i fate t command next) :
    s'.threads.length = s.threads.length := by
  rw [h.threads, List.length_set]

/-- The thread that has performed, and the ones that have not. -/
theorem Called.getElem? (h : Called s s' i fate t command next) (j : Nat) :
    s'.threads[j]? = if j = i then some { t with
      program := next (s.world.perform fate command).1
      decided := System.decidedAfter t.decided s.armed command (s.world.perform fate command).1 }
    else s.threads[j]? := by
  rw [h.threads, List.getElem?_set]
  by_cases hj : j = i
  · rw [if_pos hj.symm, if_pos hj, if_pos (hj ▸ h.lt)]
  · rw [if_neg (Ne.symm hj), if_neg hj]

end Called

/-! ## The other steps -/

/-- An expired sentinel is removed, and its notification published. -/
theorem step_expire {env : Env} {s s' : System} {cart : SessionId}
    (h : System.step env s (.expire cart) = some s') :
    ∃ expiresAt, s.world.redis.session cart = some expiresAt ∧
      s.world.redis.liveSession cart = none ∧
      s' = { s with
        world := { s.world with redis := s.world.redis.setSession cart none }
        notices := s.notices ++ [(cart, s.armed cart)] } := by
  cases hs : s.world.redis.session cart with
  | none => simp [System.step, hs] at h
  | some e =>
    cases hl : s.world.redis.liveSession cart with
    | none =>
      simp only [System.step, hs, hl] at h
      exact ⟨e, rfl, rfl, (Option.some.inj h).symm⟩
    | some live => simp [System.step, hs, hl] at h

/-- A notification starts a handler that has judged the cart to have expired. -/
theorem step_notify {env : Env} {s s' : System} {notice : Nat}
    (h : System.step env s (.notify notice) = some s') :
    ∃ cart armings, s.notices[notice]? = some (cart, armings) ∧
      s' = { s with threads := s.threads ++
        [{ program := (notified env cart).run, watching := true,
           decided := some (cart, armings) }] } := by
  cases hn : s.notices[notice]? with
  | none => simp [System.step, hn] at h
  | some told =>
    obtain ⟨cart, armings⟩ := told
    simp only [System.step, hn] at h
    exact ⟨cart, armings, rfl, (Option.some.inj h).symm⟩

/-- A crash leaves a thread with nothing to do. -/
theorem step_crash {env : Env} {s s' : System} {i : Nat}
    (h : System.step env s (.crash i) = some s') :
    ∃ t, s.threads[i]? = some t ∧
      s' = { s with threads := s.threads.set i { t with program := .done (.ok none) } } := by
  cases ht : s.threads[i]? with
  | none => simp [System.step, ht] at h
  | some t =>
    cases hp : t.program with
    | done r => simp [System.step, ht, hp] at h
    | perform c k =>
      simp only [System.step, ht, hp] at h
      exact ⟨t, rfl, (Option.some.inj h).symm⟩

/-- A message the broker holds is delivered. -/
theorem step_consume {env : Env} {s s' : System} {message : Nat}
    {fate : Inventory.StockEventConsumer.TransactionFate}
    (h : System.step env s (.consume message fate) = some s') :
    ∃ content, s.world.queue[message]? = some content ∧ s' = s.consume content fate := by
  cases hc : s.world.queue[message]? with
  | none => simp [System.step, hc] at h
  | some content =>
    simp only [System.step, hc] at h
    exact ⟨content, rfl, (Option.some.inj h).symm⟩

/-! ## Threads under a contract -/

section Governed

variable {σ : Type} {k : Contract Command Command.Reply σ}
  {post : Except Exception (Option CheckoutResult) → σ → Prop} {s s' : System} {ghosts : Nat → σ}

/-- Each thread keeps to the contract, from a ghost state of its own. -/
def Governed (k : Contract Command Command.Reply σ)
    (post : Except Exception (Option CheckoutResult) → σ → Prop) (threads : List Thread)
    (ghosts : Nat → σ) : Prop :=
  ∀ i t, threads[i]? = some t → Meets k t.program post (ghosts i)

theorem governed_nil (ghosts : Nat → σ) : Governed k post [] ghosts := by
  intro i t h
  cases h

/-- A new thread starts from a ghost state of its own. -/
theorem Governed.push {threads : List Thread} (h : Governed k post threads ghosts) {t : Thread}
    {g : σ} (ht : Meets k t.program post g) :
    Governed k post (threads ++ [t]) (Function.update ghosts threads.length g) := by
  intro i u hu
  rw [List.getElem?_append] at hu
  by_cases hi : i < threads.length
  · rw [if_pos hi] at hu
    rw [Function.update_of_ne (by omega)]
    exact h i u hu
  · rw [if_neg hi] at hu
    have hz : i - threads.length = 0 := by
      obtain ⟨hlt, -⟩ := List.getElem?_eq_some_iff.mp hu
      rw [List.length_singleton] at hlt
      omega
    rw [hz] at hu
    obtain rfl := Option.some.inj hu
    obtain rfl : i = threads.length := by omega
    rwa [Function.update_self]

section Call

variable {i : Nat} {fate : Fate} {t : Thread} {command : Command}
  {next : command.Reply → Program Command Command.Reply (Except Exception (Option CheckoutResult))}

theorem Governed.meets (h : Governed k post s.threads ghosts)
    (hc : Called s s' i fate t command next) : Meets k (.perform command next) post (ghosts i) :=
  hc.program ▸ h i t hc.thread

/-- What a thread performs, its contract allows. -/
theorem Governed.allows (h : Governed k post s.threads ghosts)
    (hc : Called s s' i fate t command next) : k.allows command (ghosts i) := (h.meets hc).1

theorem Governed.call (h : Governed k post s.threads ghosts)
    (hc : Called s s' i fate t command next) {g : σ}
    (hr : k.replies command (ghosts i) (s.world.perform fate command).1 g) :
    Governed k post s'.threads (Function.update ghosts i g) := by
  intro j u hu
  rw [hc.getElem?] at hu
  by_cases hj : j = i
  · rw [if_pos hj] at hu
    obtain rfl := Option.some.inj hu
    obtain rfl := hj
    rw [Function.update_self]
    exact (h.meets hc).2 _ _ hr
  · rw [if_neg hj] at hu
    rw [Function.update_of_ne hj]
    exact h j u hu

/-- A thread that is gone has nothing left to perform, and a ghost state that says so. -/
theorem Governed.gone (h : Governed k post s.threads ghosts) {result} {g : σ}
    (hpost : post result g) :
    Governed k post (s.threads.set i { t with program := .done result })
      (Function.update ghosts i g) := by
  intro j u hu
  rw [List.getElem?_set] at hu
  by_cases hj : i = j
  · subst hj
    rw [if_pos rfl] at hu
    by_cases hlt : i < s.threads.length
    · rw [if_pos hlt] at hu
      obtain rfl := Option.some.inj hu
      rw [Function.update_self]
      exact hpost
    · rw [if_neg hlt] at hu
      cases hu
  · rw [if_neg hj] at hu
    rw [Function.update_of_ne (Ne.symm hj)]
    exact h j u hu

theorem Governed.crash (h : Governed k post s.threads ghosts) {result}
    (hpost : ∀ g, post result g) :
    Governed k post (s.threads.set i { t with program := .done result }) ghosts := by
  have hgone := h.gone (i := i) (t := t) (hpost (ghosts i))
  rwa [Function.update_eq_self] at hgone

end Call

end Governed

end PracticalMicroservice.Cart
