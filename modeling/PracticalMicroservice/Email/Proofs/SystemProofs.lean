import PracticalMicroservice.Email.Proofs.RepositoryProofs
import Mathlib.Data.List.Nodup

/-!
# Proofs: the deliveries that are under way

Each of them is a place in the batch of a cycle. A place not begun is left to the cycle; one that has
begun has a thread of its own.
-/

namespace PracticalMicroservice.Email

open Foundations (Called Pool)
open PrismaEmailRepository (findClaimed)

variable {env : Env} {s s' : System} {l : Label}

theorem step_eq_some (h : System.step env s l = some s') :
    s.Begins env l ∧ Pool.step machine (Task.run env) s l = some s' := by
  unfold System.step at h
  split at h
  · rename_i hb
    exact ⟨hb, h⟩
  · cases h

/-- What performing a command can do to the world. -/
theorem perform_cases {i : Nat} {fate : Fate} {command : Command} {w w' : World}
    {reply : command.Reply} (h : machine.perform i fate command w = some (reply, w')) :
    i ∉ w.stopped ∧ w'.stopped = w.stopped ∧
      (w'.db = w.db ∨ ∃ c, command = .repository c ∧ fate.takesEffect = true ∧
        w'.db = (c.serve w.now w.db).2) := by
  unfold machine at h
  dsimp only at h
  split at h
  · cases h
  · rename_i hi
    refine ⟨hi, ?_⟩
    cases command with
    | repository c =>
      cases fate with
      | served =>
        cases h
        exact ⟨rfl, .inr ⟨c, rfl, rfl, rfl⟩⟩
      | unanswered e =>
        cases h
        exact ⟨rfl, .inr ⟨c, rfl, rfl, rfl⟩⟩
      | refused e =>
        cases h
        exact ⟨rfl, .inl rfl⟩
      | drawn random => cases h
      | sending outcome => cases h
    | now =>
      cases h
      exact ⟨rfl, .inl rfl⟩
    | random =>
      cases fate with
      | drawn random =>
        cases h
        exact ⟨rfl, .inl rfl⟩
      | served => cases h
      | refused e => cases h
      | unanswered e => cases h
      | sending outcome => cases h
    | send message =>
      cases fate with
      | sending outcome =>
        cases h
        exact ⟨rfl, .inl rfl⟩
      | served => cases h
      | refused e => cases h
      | unanswered e => cases h
      | drawn random => cases h

/-- A batch read back is what the tables hold under the claim. -/
theorem perform_findClaimed {i : Nat} {fate : Fate} {workerId : String} {now : Nat} {w w' : World}
    {messages : List EmailMessage}
    (h : machine.perform i fate (.repository (.findClaimed workerId now)) w =
      some (.ok messages, w')) : messages = findClaimed workerId now w.db ∧ w'.db = w.db := by
  unfold machine at h
  dsimp only at h
  split at h
  · cases h
  · cases fate with
    | served =>
      cases h
      exact ⟨rfl, rfl⟩
    | unanswered e => cases h
    | refused e => cases h
    | drawn random => cases h
    | sending outcome => cases h

/-- The database and the clock reply as they do. -/
theorem credible_of_perform {i : Nat} {fate : Fate} {command : Command} {w w' : World}
    {reply : command.Reply} (h : machine.perform i fate command w = some (reply, w')) :
    Credible command reply := by
  unfold Credible
  split
  · rename_i limit now claimTimeoutMs messages
    unfold machine at h
    dsimp only at h
    split at h
    · cases h
    · cases fate with
      | served =>
        cases h
        exact List.length_take_le _ _
      | unanswered e => cases h
      | refused e => cases h
      | drawn random => cases h
      | sending outcome => cases h
  · trivial

/-- A claim that was answered was served. -/
theorem served_of_claimed {i : Nat} {fate : Fate} {command : Command} {w w' : World}
    {reply : command.Reply} (h : machine.perform i fate command w = some (reply, w'))
    {workerId : String} {now : Nat} (hc : claimed? ⟨command, reply⟩ = some (workerId, now)) :
    fate = .served ∧ ∃ ids claimTimeoutMs,
      command = .repository (.claimCandidates ids workerId now claimTimeoutMs) := by
  unfold claimed? at hc
  split at hc
  · rename_i ids workerId' at_ claimTimeoutMs done heq
    cases heq
    cases hc
    refine ⟨?_, ids, claimTimeoutMs, rfl⟩
    unfold machine at h
    dsimp only at h
    split at h
    · cases h
    · cases fate with
      | served => rfl
      | unanswered e => cases h
      | refused e => cases h
      | drawn random => cases h
      | sending outcome => cases h
  · cases hc

/-! ## Batches -/

section Batch

variable {cycle index : Nat} {message : EmailMessage}

theorem batch_of_result {messages : List EmailMessage}
    (h : s.result cycle = some (.claimed (.ok messages))) : s.batch cycle = messages := by
  unfold System.batch
  rw [h]

theorem result_of_batch (h : message ∈ s.batch cycle) :
    s.result cycle = some (.claimed (.ok (s.batch cycle))) := by
  unfold System.batch at h ⊢
  split at h
  · rename_i messages hr
    rw [hr]
  · cases h

/-- A batch depends on the result of its cycle. -/
theorem batch_congr (h : s'.result cycle = s.result cycle) : s'.batch cycle = s.batch cycle := by
  unfold System.batch
  rw [h]

/-- What a thread may still deliver: its own message, or the rest of its batch. -/
theorem mem_pending {i : Nat} (h : message ∈ s.pending i) :
    (∃ cycle index command next,
      s.threads[i]? = some ⟨.deliver cycle index message, .perform command next⟩) ∨
    message ∈ (s.batch i).drop (s.cursor i) := by
  unfold System.pending at h
  split at h
  · rename_i cycle index message' command next ht
    rw [List.mem_singleton] at h
    subst h
    exact .inl ⟨cycle, index, command, next, ht⟩
  · rename_i task messages ht
    right
    have hr : s.result i = some (.claimed (.ok messages)) := by
      unfold Pool.result
      rw [ht]
    rw [batch_of_result hr]
    exact h
  · cases h

theorem pending_deliver {i : Nat} {command : Command} {next : command.Reply → Code}
    (h : s.threads[i]? = some ⟨.deliver cycle index message, .perform command next⟩) :
    s.pending i = [message] := by
  unfold System.pending
  rw [h]

theorem pending_cycle {i : Nat} {messages : List EmailMessage}
    (h : s.result i = some (.claimed (.ok messages))) :
    s.pending i = messages.drop (s.cursor i) := by
  unfold Pool.result at h
  split at h
  · rename_i task answer ht
    cases h
    unfold System.pending
    rw [ht]
    cases task <;> rfl
  · cases h

theorem mem_underWay : message ∈ s.underWay ↔ ∃ i, i ∉ s.world.stopped ∧ message ∈ s.pending i := by
  unfold System.underWay
  rw [List.mem_flatMap]
  constructor
  · rintro ⟨i, -, hi⟩
    split at hi
    · cases hi
    · rename_i hs
      exact ⟨i, hs, hi⟩
  · rintro ⟨i, hs, hi⟩
    refine ⟨i, List.mem_range.mpr ?_, ?_⟩
    · by_contra hlt
      have hnone : s.threads[i]? = none := List.getElem?_eq_none (by omega)
      unfold System.pending at hi
      rw [hnone] at hi
      cases hi
    · rw [if_neg hs]
      exact hi

end Batch

/-! ## Turns -/

/-- The counts of the threads before one of some kind and before a later one. -/
theorem countP_take_lt {α : Type} {p : α → Bool} {xs : List α} {i j : Nat} {a : α}
    (hi : xs[i]? = some a) (ha : p a = true) (hij : i < j) :
    (xs.take i).countP p < (xs.take j).countP p := by
  have hsucc : xs.take (i + 1) = xs.take i ++ [a] := by
    rw [List.take_add_one, hi]
    rfl
  have hle : (xs.take (i + 1)).countP p ≤ (xs.take j).countP p :=
    (List.take_sublist_take_left (by omega)).countP_le
  rw [hsucc, List.countP_append, List.countP_singleton, if_pos ha] at hle
  omega

/-- A delivery begins at the cursor: it is as far in its batch as deliveries of it come before. -/
def InTurn (s : System) : Prop :=
  ∀ i cycle index message, s.task i = some (.deliver cycle index message) →
    ((s.threads.map (·.task)).take i).countP (Task.deliversFor cycle) = index ∧
      (s.batch cycle)[index]? = some message

section InTurn

variable {i j cycle index : Nat} {message message' : EmailMessage}

theorem task_get (h : s.task i = some (.deliver cycle index message)) :
    (s.threads.map (·.task))[i]? = some (.deliver cycle index message) := by
  rw [List.getElem?_map]
  exact h

/-- What has begun is behind the cursor. -/
theorem InTurn.lt_cursor (h : InTurn s) (ht : s.task i = some (.deliver cycle index message)) :
    index < s.cursor cycle := by
  have hget := task_get ht
  have hkind : (Task.deliver cycle index message).deliversFor cycle = true := by
    simp [Task.deliversFor]
  have hlt := countP_take_lt hget hkind (List.getElem?_eq_some_iff.mp hget).1
  rw [(h i cycle index message ht).1, List.take_length] at hlt
  exact hlt

/-- Each place of a batch is delivered by one thread. -/
theorem InTurn.unique (h : InTurn s) (ht : s.task i = some (.deliver cycle index message))
    (ht' : s.task j = some (.deliver cycle index message')) : i = j := by
  have hbefore : ∀ {i j : Nat} {message message' : EmailMessage},
      s.task i = some (.deliver cycle index message) →
      s.task j = some (.deliver cycle index message') → ¬ i < j := by
    intro i j message message' hi hj hij
    have hkind : (Task.deliver cycle index message).deliversFor cycle = true := by
      simp [Task.deliversFor]
    have hlt := countP_take_lt (task_get hi) hkind hij
    rw [(h i cycle index message hi).1, (h j cycle index message' hj).1] at hlt
    omega
  have h1 := hbefore ht ht'
  have h2 := hbefore ht' ht
  omega

end InTurn

end PracticalMicroservice.Email
