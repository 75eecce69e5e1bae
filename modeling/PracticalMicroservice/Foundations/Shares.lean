import Mathlib.Algebra.BigOperators.Group.Finset.Basic
import Mathlib.Algebra.Order.BigOperators.Group.Finset

/-!
# Claims on a shared counter

Holders with claims on one anonymous counter. The counter covers the claims when whatever holders
one picks, their claims fit in it together. A deposit, a withdrawal of what one claims, and a
transfer of a part of one's claim keep it so.
-/

namespace PracticalMicroservice.Foundations

variable {H : Type}

/-- Whatever holders one picks, their claims fit in the total. -/
def Covers (claim : H → Int) (total : Int) : Prop := ∀ A : Finset H, ∑ h ∈ A, claim h ≤ total

variable {claim claim' : H → Int} {total n : Int}

theorem Covers.congr (h : Covers claim total) (hc : ∀ x, claim' x = claim x) :
    Covers claim' total := by
  obtain rfl : claim' = claim := funext hc
  exact h

theorem sum_of_not_mem {A : Finset H} {holder : H} (hA : holder ∉ A)
    (hrest : ∀ x, x ≠ holder → claim' x = claim x) : ∑ x ∈ A, claim' x = ∑ x ∈ A, claim x := by
  refine Finset.sum_congr rfl fun x hx => hrest x ?_
  rintro rfl
  exact hA hx

theorem sum_of_mem [DecidableEq H] {A : Finset H} {holder : H} (hA : holder ∈ A)
    (hrest : ∀ x, x ≠ holder → claim' x = claim x) :
    ∑ x ∈ A, claim' x = ∑ x ∈ A, claim x + (claim' holder - claim holder) := by
  rw [← Finset.sum_erase_add A claim' hA, ← Finset.sum_erase_add A claim hA,
    sum_of_not_mem (Finset.notMem_erase holder A) hrest]
  omega

/-- A holder's claim and the counter grow together. -/
theorem Covers.deposit (h : Covers claim total) (holder : H) (hn : 0 ≤ n)
    (hc : claim' holder = claim holder + n) (hrest : ∀ x, x ≠ holder → claim' x = claim x) :
    Covers claim' (total + n) := by
  classical
  intro A
  have hA := h A
  by_cases hm : holder ∈ A
  · rw [sum_of_mem hm hrest]
    omega
  · rw [sum_of_not_mem hm hrest]
    omega

/-- A holder may take out of the counter what it claims. -/
theorem Covers.withdraw (h : Covers claim total) (holder : H) (hn : n ≤ claim holder)
    (hc : claim' holder = claim holder - n) (hrest : ∀ x, x ≠ holder → claim' x = claim x) :
    Covers claim' (total - n) := by
  classical
  intro A
  by_cases hm : holder ∈ A
  · have hA := h A
    rw [sum_of_mem hm hrest]
    omega
  · -- with the holder among them, the others leave room for what it takes
    have hA := h (insert holder A)
    rw [Finset.sum_insert hm] at hA
    rw [sum_of_not_mem hm hrest]
    omega

/-- A part of a claim passes from one holder to another. -/
theorem Covers.transfer (h : Covers claim total) (source target : H) (hne : source ≠ target)
    (h0 : 0 ≤ n) (hn : n ≤ claim source) (hs : claim' source = claim source - n)
    (ht : claim' target = claim target + n)
    (hrest : ∀ x, x ≠ source → x ≠ target → claim' x = claim x) : Covers claim' total := by
  classical
  have hw : Covers (fun x => if x = target then claim target else claim' x) (total - n) := by
    refine h.withdraw source hn ?_ fun x hx => ?_
    · rw [if_neg hne, hs]
    · by_cases hxt : x = target
      · rw [if_pos hxt, hxt]
      · rw [if_neg hxt, hrest x hx hxt]
  have hd : Covers claim' (total - n + n) := by
    refine hw.deposit target h0 ?_ fun x hx => ?_
    · rw [if_pos rfl, ht]
    · rw [if_neg hx]
  rwa [Int.sub_add_cancel] at hd

end PracticalMicroservice.Foundations
