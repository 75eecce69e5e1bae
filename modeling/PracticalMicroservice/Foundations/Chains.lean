import Mathlib.Data.List.Nodup

/-!
# Chains of replacements

Items in the order they came to be, each replaced by the next: only the last may be live, and every
other one names its successor. A live item can be exchanged for a new one, and the chain goes on.
-/

namespace PracticalMicroservice.Foundations

/-- What makes items links of a chain. -/
structure Links (α : Type) where
  id : α → Nat
  next : α → Option Nat
  live : α → Bool

variable {α : Type}

/-- Each item but the last is replaced by the one after it, and live no more. -/
def Chained (k : Links α) : List α → Prop
  | [] => True
  | [a] => k.next a = none
  | a :: b :: rest => k.next a = some (k.id b) ∧ k.live a = false ∧ Chained k (b :: rest)

/-- An item exchanged for a new one, which comes last. -/
def exchange (k : Links α) (retire : α → α) (currentId : Nat) (new : α) (l : List α) : List α :=
  (l ++ [new]).map fun a => if k.id a = currentId ∧ k.live a = true then retire a else a

section

variable {k : Links α} {l : List α}

theorem Chained.tail {a : α} (h : Chained k (a :: l)) : Chained k l := by
  cases l with
  | nil => trivial
  | cons b rest => exact h.2.2

/-- At most one item of a chain is live. -/
theorem Chained.live_le_one (h : Chained k l) : (l.filter k.live).length ≤ 1 := by
  induction l with
  | nil => exact Nat.zero_le _
  | cons a l ih =>
    cases l with
    | nil => exact List.length_filter_le _ _
    | cons b rest =>
      rw [List.filter_cons_of_neg (by simp [h.2.1])]
      exact ih h.tail

/-- The items of a chain name their successors, in their order. -/
theorem Chained.next_eq (h : Chained k l) {n : Nat} {a : α} (ha : l[n]? = some a) :
    k.next a = l[n + 1]?.map k.id := by
  induction l generalizing n with
  | nil => cases ha
  | cons b l ih =>
    cases n with
    | zero =>
      cases ha
      cases l with
      | nil => exact h
      | cons c rest => exact h.1
    | succ n => exact ih h.tail ha

/-- A change that keeps the links and brings nothing back to life keeps the chain. -/
theorem Chained.map (h : Chained k l) {g : α → α} (hid : ∀ a, k.id (g a) = k.id a)
    (hnext : ∀ a, k.next (g a) = k.next a) (hlive : ∀ a, k.live a = false → k.live (g a) = false) :
    Chained k (l.map g) := by
  induction l with
  | nil => trivial
  | cons a l ih =>
    cases l with
    | nil => exact (hnext a).trans h
    | cons b rest =>
      refine ⟨?_, hlive a h.2.1, ih h.tail⟩
      rw [hnext, hid]
      exact h.1

/-- Exchanging a live item continues its chain. -/
theorem Chained.exchange (h : Chained k l) {retire : α → α} {new c : α} (hc : c ∈ l)
    (hlive : k.live c = true) (hids : (l.map k.id).Nodup) (hnew : k.next new = none)
    (hfresh : k.id new ≠ k.id c) (hid : ∀ a, k.id (retire a) = k.id a)
    (hnext : ∀ a, k.next (retire a) = some (k.id new)) (hdead : ∀ a, k.live (retire a) = false) :
    Chained k (Foundations.exchange k retire (k.id c) new l) := by
  have hkeep : (if k.id new = k.id c ∧ k.live new = true then retire new else new) = new :=
    if_neg fun hn => hfresh hn.1
  induction l with
  | nil => cases hc
  | cons a l ih =>
    cases l with
    | nil =>
      obtain rfl := List.mem_singleton.mp hc
      have ha : (if k.id c = k.id c ∧ k.live c = true then retire c else c) = retire c :=
        if_pos ⟨rfl, hlive⟩
      show Chained k [if k.id c = k.id c ∧ k.live c = true then retire c else c,
        if k.id new = k.id c ∧ k.live new = true then retire new else new]
      rw [ha, hkeep]
      exact ⟨hnext c, hdead c, hnew⟩
    | cons b rest =>
      have hmem : c ∈ b :: rest := by
        rcases List.mem_cons.mp hc with rfl | hmem
        · rw [h.2.1] at hlive
          cases hlive
        · exact hmem
      have hrest := ih h.tail hmem (List.nodup_cons.mp hids).2
      have ha : (if k.id a = k.id c ∧ k.live a = true then retire a else a) = a :=
        if_neg fun hn => by simp [h.2.1] at hn
      have hb : k.id (if k.id b = k.id c ∧ k.live b = true then retire b else b) = k.id b := by
        split
        · exact hid b
        · rfl
      show Chained k ((if k.id a = k.id c ∧ k.live a = true then retire a else a) ::
        (if k.id b = k.id c ∧ k.live b = true then retire b else b) ::
          (rest ++ [new]).map fun a => if k.id a = k.id c ∧ k.live a = true then retire a else a)
      rw [ha]
      exact ⟨by rw [hb]; exact h.1, h.2.1, hrest⟩

end

end PracticalMicroservice.Foundations
