import Mathlib.Data.List.Sort

/-!
# Lists cut into pages

The pages of a list in turn are the list, and only the last may be short. How a list is sorted
depends on the order among its own elements.
-/

namespace PracticalMicroservice.Foundations

variable {α : Type} {limit : Nat}

/-- The page with the number `k`, from zero. -/
def page (limit : Nat) (l : List α) (k : Nat) : List α := (l.drop (k * limit)).take limit

/-- How many pages a listing has; an empty one has a page too. -/
def pageCount (limit total : Nat) : Nat := max 1 ((total + (limit - 1)) / limit)

theorem page_sublist {l : List α} {k : Nat} : (page limit l k).Sublist l :=
  (List.take_sublist _ _).trans (List.drop_sublist _ _)

theorem page_zero (l : List α) : page limit l 0 = l.take limit := by
  unfold page
  rw [Nat.zero_mul, List.drop_zero]

theorem flatMap_page (l : List α) (n : Nat) :
    (List.range n).flatMap (page limit l) = l.take (n * limit) := by
  induction n with
  | zero => simp
  | succ n ih =>
    rw [List.range_succ, List.flatMap_append, ih, List.flatMap_singleton, Nat.succ_mul,
      List.take_add]
    rfl

theorem length_page {l : List α} {k : Nat} (h : (k + 1) * limit ≤ l.length) :
    (page limit l k).length = limit := by
  unfold page
  rw [Nat.succ_mul] at h
  rw [List.length_take, List.length_drop]
  omega

theorem le_pageCount (hl : 0 < limit) (total : Nat) : total ≤ pageCount limit total * limit := by
  have hdiv : total ≤ (total + (limit - 1)) / limit * limit := by
    have hmod := Nat.div_add_mod (total + (limit - 1)) limit
    have hlt := Nat.mod_lt (total + (limit - 1)) hl
    rw [Nat.mul_comm] at hmod
    omega
  exact hdiv.trans (Nat.mul_le_mul_right limit (Nat.le_max_right 1 _))

/-- A page that is not the last is full. -/
theorem full_of_lt_pageCount (hl : 0 < limit) {k total : Nat} (h : k + 1 < pageCount limit total) :
    (k + 1) * limit ≤ total := by
  have hlt : k + 1 < (total + (limit - 1)) / limit := by
    unfold pageCount at h
    omega
  have hmul : (k + 1 + 1) * limit ≤ total + (limit - 1) :=
    (Nat.mul_le_mul_right limit hlt).trans (Nat.div_mul_le_self _ _)
  rw [Nat.succ_mul] at hmul
  omega

theorem pageCount_eq_one {total : Nat} (h : total ≤ limit) : pageCount limit total = 1 := by
  rcases Nat.eq_zero_or_pos limit with rfl | hl
  · simp [pageCount]
  · have hdiv : (total + (limit - 1)) / limit < 2 := by
      rw [Nat.div_lt_iff_lt_mul hl]
      omega
    unfold pageCount
    omega

/-- Only the first page can be the whole of a list that is not empty. -/
theorem page_eq_self (hl : 0 < limit) {l : List α} {k : Nat} :
    page limit l k = l ↔ l = [] ∨ (k = 0 ∧ l.length ≤ limit) := by
  constructor
  · intro h
    by_cases hnil : l = []
    · exact .inl hnil
    · have hlength : (page limit l k).length = l.length := congrArg List.length h
      have hpos := List.length_pos_iff.mpr hnil
      unfold page at hlength
      rw [List.length_take, List.length_drop] at hlength
      have hk : k * limit = 0 := by omega
      rcases Nat.mul_eq_zero.mp hk with rfl | h0
      · exact .inr ⟨rfl, by omega⟩
      · omega
  · rintro (rfl | ⟨rfl, hle⟩)
    · simp [page]
    · rw [page_zero, List.take_of_length_le hle]

/-- What is as long as a list and equals a page of it is the list, and so is the page. -/
theorem eq_page_iff {a l : List α} {k : Nat} :
    a = page limit l k ∧ a.length = l.length ↔ a = l ∧ page limit l k = l := by
  constructor
  · rintro ⟨rfl, hlength⟩
    have hself := page_sublist.eq_of_length hlength
    exact ⟨hself, hself⟩
  · rintro ⟨rfl, hself⟩
    exact ⟨hself.symm, rfl⟩

/-- Only the order among its own elements sorts a list. -/
theorem insertionSort_congr {r r' : α → α → Prop} [DecidableRel r] [DecidableRel r'] {l : List α}
    (h : ∀ a ∈ l, ∀ b ∈ l, r a b ↔ r' a b) :
    l.insertionSort r = l.insertionSort r' := by
  have hmap := List.map_insertionSort r r' id l h
  rwa [List.map_id, List.map_id] at hmap

end PracticalMicroservice.Foundations
