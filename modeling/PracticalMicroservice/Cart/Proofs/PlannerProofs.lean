import PracticalMicroservice.Cart.Redis
import Mathlib.Algebra.BigOperators.Group.List.Basic

/-!
# What the diff of a request balances

`planChanges` moves, product by product, the difference between what the cart holds and what it is
to hold, rounded to a double; what inventory takes is small enough to be exact, and what a commit
then writes never lists more than that.
-/

namespace PracticalMicroservice.Cart

open Foundations (double double_zero double_pos double_pos_iff eq_of_double_lt)

/-! ## Maps -/

namespace Entries

variable {κ α : Type} [DecidableEq κ] (entries : List (κ × α)) (key k : κ) (value : α)

@[simp] theorem get_nil : get ([] : List (κ × α)) k = none := rfl

theorem get_cons (entry : κ × α) :
    get (entry :: entries) k = if entry.1 = k then some entry.2 else get entries k := by
  unfold get
  by_cases h : entry.1 = k
  · simp [h]
  · simp [h]

theorem get_set : get (set entries key value) k = if key = k then some value else get entries k := by
  induction entries with
  | nil =>
    rw [set, get_cons]
  | cons entry rest ih =>
    rw [set]
    by_cases he : entry.1 = key
    · rw [if_pos he, get_cons, get_cons, he]
      by_cases hk : key = k
      · simp [hk]
      · simp [hk]
    · rw [if_neg he, get_cons, get_cons, ih]
      by_cases hk : key = k
      · have hek : ¬ entry.1 = k := fun e => he (e.trans hk.symm)
        simp [hk, hek]
      · simp [hk]

theorem get_delete : get (delete entries key) k = if key = k then none else get entries k := by
  induction entries with
  | nil => simp [delete]
  | cons entry rest ih =>
    have hcons : delete (entry :: rest) key =
        if entry.1 = key then delete rest key else entry :: delete rest key := by
      by_cases he : entry.1 = key
      · simp [delete, he]
      · simp [delete, he]
    rw [hcons]
    by_cases he : entry.1 = key
    · rw [if_pos he, ih, get_cons, he]
      by_cases hk : key = k
      · simp [hk]
      · simp [hk]
    · rw [if_neg he, get_cons, get_cons, ih]
      by_cases hk : key = k
      · have hek : ¬ entry.1 = k := fun e => he (e.trans hk.symm)
        simp [hk, hek]
      · simp [hk]

variable {entries key k value}

theorem get_of_not_mem (h : k ∉ entries.map Prod.fst) : get entries k = none := by
  induction entries with
  | nil => rfl
  | cons entry rest ih =>
    rw [List.map_cons, List.mem_cons, not_or] at h
    rw [get_cons, if_neg fun e => h.1 e.symm, ih h.2]

theorem mem_of_get (h : get entries k = some value) : (k, value) ∈ entries := by
  induction entries with
  | nil => cases h
  | cons entry rest ih =>
    rw [get_cons] at h
    split at h
    · rename_i he
      cases h
      exact he ▸ List.mem_cons_self
    · exact List.mem_cons_of_mem _ (ih h)

theorem get_of_mem (h : Distinct entries) (hm : (key, value) ∈ entries) :
    get entries key = some value := by
  induction entries with
  | nil => cases hm
  | cons entry rest ih =>
    obtain ⟨hn, hrest⟩ := List.nodup_cons.mp h
    rw [get_cons]
    rcases List.mem_cons.mp hm with he | hm
    · rw [← he, if_pos rfl]
    · have hne : ¬ entry.1 = key := fun e => hn (e ▸ List.mem_map_of_mem (f := Prod.fst) hm)
      rw [if_neg hne, ih hrest hm]

/-- Entries picked by their keys. -/
theorem get_filter (kept : κ → Bool) :
    get (entries.filter fun entry => kept entry.1) k =
      if kept k = true then get entries k else none := by
  induction entries with
  | nil => simp
  | cons entry rest ih =>
    rw [List.filter_cons, get_cons]
    by_cases he : entry.1 = k
    · by_cases hk : kept k = true
      · simp [he, hk, get_cons]
      · simp [he, hk, ih]
    · by_cases hkept : kept entry.1 = true
      · simp [he, hkept, get_cons, ih]
      · simp [he, hkept, ih]

end Entries

/-! ## The units of some lines -/

theorem quantityOf_nil (p : String) : quantityOf [] p = 0 := rfl

theorem quantityOf_cons (line : CartLine) (lines : List CartLine) (p : String) :
    quantityOf (line :: lines) p =
      (if line.productId = p then line.quantity else 0) + quantityOf lines p := by
  unfold quantityOf
  by_cases h : line.productId = p
  · simp [h]
  · simp [h]

theorem quantityOf_append (lines more : List CartLine) (p : String) :
    quantityOf (lines ++ more) p = quantityOf lines p + quantityOf more p := by
  unfold quantityOf
  rw [List.filter_append, List.map_append, List.sum_append]

theorem quantityOf_perm {lines lines' : List CartLine} (h : lines.Perm lines') (p : String) :
    quantityOf lines p = quantityOf lines' p :=
  ((h.filter _).map _).sum_eq

theorem quantityOf_of_not_mem {lines : List CartLine} {p : String}
    (h : p ∉ lines.map (·.productId)) : quantityOf lines p = 0 := by
  induction lines with
  | nil => rfl
  | cons line lines ih =>
    rw [List.map_cons, List.mem_cons, not_or] at h
    rw [quantityOf_cons, if_neg fun e => h.1 e.symm, ih h.2]

theorem quantityOf_of_mem {lines : List CartLine} (hn : (lines.map (·.productId)).Nodup)
    {line : CartLine} (hl : line ∈ lines) : quantityOf lines line.productId = line.quantity := by
  induction lines with
  | nil => cases hl
  | cons first lines ih =>
    rw [List.map_cons, List.nodup_cons] at hn
    rcases List.mem_cons.mp hl with rfl | hl
    · rw [quantityOf_cons, if_pos rfl, quantityOf_of_not_mem hn.1]
      omega
    · have hne : ¬ first.productId = line.productId := fun e =>
        hn.1 (e ▸ List.mem_map_of_mem hl)
      rw [quantityOf_cons, if_neg hne, ih hn.2 hl]
      omega

/-! ## The units a record lists -/

/-- What one field of a record lists, if it lists anything. -/
def listed (productId : String) (value : Option Int) : Option Nat :=
  value.bind fun n => if productId ≠ "" ∧ n > 0 then some n.toNat else none

theorem get_heldQuantities_from {fields : List (String × Int)} (h : Entries.Distinct fields)
    (held : Held) (hfree : ∀ p ∈ fields.map Prod.fst, Entries.get held p = none) (p : String) :
    Entries.get (fields.foldl
      (fun held entry =>
        if entry.1 ≠ "" ∧ entry.2 > 0 then Entries.set held entry.1 entry.2.toNat else held) held) p
      = (Entries.get held p).or (listed p (Entries.get fields p)) := by
  induction fields generalizing held with
  | nil => simp [listed]
  | cons entry rest ih =>
    obtain ⟨hn, hrest⟩ := List.nodup_cons.mp h
    have hfreeEntry : Entries.get held entry.1 = none := hfree entry.1 (by simp)
    rw [List.foldl_cons, ih hrest]
    · rw [Entries.get_cons]
      by_cases hp : entry.1 = p
      · subst hp
        rw [if_pos rfl, Entries.get_of_not_mem hn, hfreeEntry]
        by_cases hk : entry.1 ≠ "" ∧ entry.2 > 0
        · simp [listed, Entries.get_set, hk]
        · simp [listed, hk, hfreeEntry]
      · rw [if_neg hp]
        congr 1
        split
        · rw [Entries.get_set, if_neg hp]
        · rfl
    · intro q hq
      have hne : ¬ entry.1 = q := fun e => hn (e ▸ hq)
      have hfreeq : Entries.get held q = none := hfree q (by simp_all)
      split
      · rw [Entries.get_set, if_neg hne, hfreeq]
      · exact hfreeq

theorem get_heldQuantities {fields : List (String × Int)} (h : Entries.Distinct fields)
    (p : String) :
    Entries.get (heldQuantities fields) p = listed p (Entries.get fields p) := by
  unfold heldQuantities
  rw [get_heldQuantities_from h [] (fun _ _ => rfl)]
  rfl

theorem recorded_eq {fields : List (String × Int)} (h : Entries.Distinct fields) (p : String) :
    recorded fields p = (listed p (Entries.get fields p)).getD 0 := by
  unfold recorded
  rw [get_heldQuantities h]

theorem recorded_nil (p : String) : recorded [] p = 0 := rfl

theorem heldQuantities_distinct (fields : List (String × Int)) :
    Entries.Distinct (heldQuantities fields) := by
  have hfold : ∀ held : Held, Entries.Distinct held → Entries.Distinct (fields.foldl
      (fun held entry =>
        if entry.1 ≠ "" ∧ entry.2 > 0 then Entries.set held entry.1 entry.2.toNat else held)
      held) := by
    induction fields with
    | nil => exact fun held h => h
    | cons entry rest ih =>
      intro held h
      rw [List.foldl_cons]
      refine ih _ ?_
      split
      · exact h.set _ _
      · exact h
  exact hfold [] List.nodup_nil

/-- The lines of a map name the units it holds. -/
theorem quantityOf_toCartLines (collates : String → String → Bool) {held : Held}
    (h : Entries.Distinct held) (p : String) :
    quantityOf (toCartLines collates held) p = (Entries.get held p).getD 0 := by
  unfold toCartLines
  rw [quantityOf_perm (List.perm_insertionSort _ _)]
  induction held with
  | nil => rfl
  | cons entry rest ih =>
    obtain ⟨hn, hrest⟩ := List.nodup_cons.mp h
    rw [List.map_cons, quantityOf_cons, ih hrest, Entries.get_cons]
    by_cases hp : entry.1 = p
    · rw [if_pos hp, if_pos hp, Entries.get_of_not_mem (hp ▸ hn)]
      rfl
    · rw [if_neg hp, if_neg hp, Nat.zero_add]

theorem quantityOf_recorded (collates : String → String → Bool) (fields : List (String × Int))
    (p : String) :
    quantityOf (toCartLines collates (heldQuantities fields)) p = recorded fields p :=
  quantityOf_toCartLines collates (heldQuantities_distinct fields) p

/-! ## What a commit writes -/

namespace Redis

theorem get_hdel (fields : List (String × Int)) (removals : List String) (p : String) :
    Entries.get (hdel fields removals) p =
      if p ∈ removals then none else Entries.get fields p := by
  induction removals generalizing fields with
  | nil => simp [hdel]
  | cons productId removals ih =>
    have hcons : hdel fields (productId :: removals) =
        hdel (Entries.delete fields productId) removals := rfl
    rw [hcons, ih, Entries.get_delete]
    by_cases hm : p ∈ removals
    · simp [hm]
    · by_cases hp : productId = p
      · simp [hp]
      · have hpr : ¬ p = productId := fun e => hp e.symm
        simp [hm, hp, hpr]

theorem get_hset_of_not_mem {fields : List (String × Int)} {writes : List CartLine} {p : String}
    (h : p ∉ writes.map (·.productId)) :
    Entries.get (hset fields writes) p = Entries.get fields p := by
  induction writes generalizing fields with
  | nil => rfl
  | cons line writes ih =>
    rw [List.map_cons, List.mem_cons, not_or] at h
    have hcons : hset fields (line :: writes) =
        hset (Entries.set fields line.productId line.quantity) writes := rfl
    rw [hcons, ih h.2, Entries.get_set, if_neg fun e => h.1 e.symm]

/-- A product that is written gets the quantity of one of its writes. -/
theorem get_hset_of_mem (fields : List (String × Int)) {writes : List CartLine} {p : String}
    (h : p ∈ writes.map (·.productId)) :
    ∃ line ∈ writes, line.productId = p ∧
      Entries.get (hset fields writes) p = some (line.quantity : Int) := by
  induction writes generalizing fields with
  | nil => cases h
  | cons line writes ih =>
    have hcons : hset fields (line :: writes) =
        hset (Entries.set fields line.productId line.quantity) writes := rfl
    by_cases hm : p ∈ writes.map (·.productId)
    · obtain ⟨last, hl, hp, hget⟩ := ih (Entries.set fields line.productId line.quantity) hm
      exact ⟨last, List.mem_cons_of_mem _ hl, hp, hcons ▸ hget⟩
    · have hp : line.productId = p := by
        rcases List.mem_cons.mp h with h | h
        · exact h.symm
        · exact absurd h hm
      refine ⟨line, List.mem_cons_self, hp, ?_⟩
      rw [hcons, get_hset_of_not_mem hm, Entries.get_set, if_pos hp]

end Redis

/-! ## The diff -/

/-- The units a map holds of a product. -/
def heldOf (held : Held) (p : String) : Nat := (Entries.get held p).getD 0

/-- The loop of `planChanges` after the lines `done`. -/
structure Planned (held : Held) (done : List CartLine) (state : CartChanges × Held) : Prop where
  /-- A product no line has named is as it was. -/
  untouched : ∀ p, p ∉ done.map (·.productId) →
    heldOf state.2 p = heldOf held p ∧ quantityOf state.1.reserve p = 0 ∧
      quantityOf state.1.release p = 0
  settled : ∀ line ∈ done, heldOf state.2 line.productId = line.quantity
  reserve : ∀ line ∈ done,
    quantityOf state.1.reserve line.productId = double (line.quantity - heldOf held line.productId)
  release : ∀ line ∈ done,
    quantityOf state.1.release line.productId = double (heldOf held line.productId - line.quantity)
  writes : ∀ line ∈ state.1.writes, line ∈ done
  removals : ∀ p ∈ state.1.removals, ∃ line ∈ done, line.productId = p ∧ line.quantity = 0
  /-- A line that asks for another quantity is written or removed. -/
  moved : ∀ line ∈ done, line.quantity ≠ heldOf held line.productId →
    line ∈ state.1.writes ∨ line.productId ∈ state.1.removals

/-- One turn of the loop on a line that asks for another quantity. -/
theorem planLine_moved (state : CartChanges × Held) {line : CartLine}
    (h : line.quantity ≠ heldOf state.2 line.productId) :
    planLine state line =
      ({ state.1 with
          writes := if line.quantity = 0 then state.1.writes else state.1.writes ++ [line]
          removals := if line.quantity = 0 then state.1.removals ++ [line.productId]
            else state.1.removals
          reserve := if line.quantity > heldOf state.2 line.productId then state.1.reserve ++
              [{ line with quantity := double (line.quantity - heldOf state.2 line.productId) }]
            else state.1.reserve
          release := if line.quantity > heldOf state.2 line.productId then state.1.release
            else state.1.release ++
              [{ line with quantity := double (heldOf state.2 line.productId - line.quantity) }] },
        if line.quantity = 0 then Entries.delete state.2 line.productId
        else Entries.set state.2 line.productId line.quantity) := by
  obtain ⟨changes, settled⟩ := state
  simp only [heldOf] at h ⊢
  simp only [planLine, if_neg h]
  by_cases h0 : line.quantity = 0
  · simp only [h0, if_true]
    split
    · rfl
    · rfl
  · by_cases hgt : line.quantity > (Entries.get settled line.productId).getD 0
    · simp [h0, hgt]
    · simp [h0, hgt]

theorem planLine_same (state : CartChanges × Held) {line : CartLine}
    (h : line.quantity = heldOf state.2 line.productId) : planLine state line = state := by
  obtain ⟨changes, settled⟩ := state
  simp only [heldOf] at h
  simp only [planLine, if_pos h]

/-- What one turn does to the amounts of a product: only those of its line's product move. -/
theorem planLine_amounts (state : CartChanges × Held) (line : CartLine) (p : String) :
    heldOf (planLine state line).2 p =
        (if line.productId = p then line.quantity else heldOf state.2 p) ∧
      quantityOf (planLine state line).1.reserve p = quantityOf state.1.reserve p +
        (if line.productId = p then double (line.quantity - heldOf state.2 p) else 0) ∧
      quantityOf (planLine state line).1.release p = quantityOf state.1.release p +
        (if line.productId = p then double (heldOf state.2 p - line.quantity) else 0) := by
  by_cases h : line.quantity = heldOf state.2 line.productId
  · rw [planLine_same state h]
    by_cases hp : line.productId = p
    · subst hp
      simp [h, double_zero]
    · simp [hp]
  · rw [planLine_moved state h]
    refine ⟨?_, ?_, ?_⟩
    · by_cases h0 : line.quantity = 0
      · simp only [h0, if_true, heldOf, Entries.get_delete]
        split
        · rfl
        · rfl
      · simp only [h0, if_false, heldOf, Entries.get_set]
        split
        · rfl
        · rfl
    · by_cases hp : line.productId = p
      · subst hp
        by_cases hgt : line.quantity > heldOf state.2 line.productId
        · simp [hgt, quantityOf_append, quantityOf_cons, quantityOf_nil]
        · have hz : line.quantity - heldOf state.2 line.productId = 0 := by omega
          simp [hgt, hz, double_zero]
      · by_cases hgt : line.quantity > heldOf state.2 line.productId
        · simp [hgt, hp, quantityOf_append, quantityOf_cons, quantityOf_nil]
        · simp [hgt, hp]
    · by_cases hp : line.productId = p
      · subst hp
        by_cases hgt : line.quantity > heldOf state.2 line.productId
        · have hz : heldOf state.2 line.productId - line.quantity = 0 := by omega
          simp [hgt, hz, double_zero]
        · simp [hgt, quantityOf_append, quantityOf_cons, quantityOf_nil]
      · by_cases hgt : line.quantity > heldOf state.2 line.productId
        · simp [hgt, hp]
        · simp [hgt, hp, quantityOf_append, quantityOf_cons, quantityOf_nil]

/-- What one turn does to the writes and the removals. -/
theorem planLine_marks (state : CartChanges × Held) (line : CartLine) :
    (∀ write ∈ (planLine state line).1.writes, write ∈ state.1.writes ∨ write = line) ∧
      (∀ p ∈ (planLine state line).1.removals,
        p ∈ state.1.removals ∨ (p = line.productId ∧ line.quantity = 0)) ∧
      (∀ write ∈ state.1.writes, write ∈ (planLine state line).1.writes) ∧
      (∀ p ∈ state.1.removals, p ∈ (planLine state line).1.removals) ∧
      (line.quantity ≠ heldOf state.2 line.productId → line ∈ (planLine state line).1.writes ∨
        line.productId ∈ (planLine state line).1.removals) := by
  by_cases h : line.quantity = heldOf state.2 line.productId
  · rw [planLine_same state h]
    exact ⟨fun _ hw => .inl hw, fun _ hp => .inl hp, fun _ hw => hw, fun _ hp => hp,
      fun hne => absurd h hne⟩
  · rw [planLine_moved state h]
    by_cases h0 : line.quantity = 0
    · simp only [h0, if_true, List.mem_append, List.mem_singleton]
      exact ⟨fun _ hw => .inl hw, fun _ hp => hp.imp_right fun e => ⟨e, trivial⟩, fun _ hw => hw,
        fun _ hp => .inl hp, fun _ => .inr (.inr trivial)⟩
    · simp only [h0, if_false, List.mem_append, List.mem_singleton]
      exact ⟨fun _ hw => hw, fun _ hp => .inl hp, fun _ hw => .inl hw, fun _ hp => hp,
        fun _ => .inl (.inr trivial)⟩

theorem planLine_planned {held : Held} {done : List CartLine} {state : CartChanges × Held}
    (h : Planned held done state) {line : CartLine}
    (hnew : line.productId ∉ done.map (·.productId)) :
    Planned held (done ++ [line]) (planLine state line) := by
  obtain ⟨hbefore, hres0, hrel0⟩ := h.untouched line.productId hnew
  have hold : ∀ old ∈ done, ¬ line.productId = old.productId :=
    fun old ho e => hnew (e ▸ List.mem_map_of_mem ho)
  obtain ⟨hwrites, hremovals, hkeepw, hkeepr, hmark⟩ := planLine_marks state line
  constructor
  · intro p hp
    rw [List.map_append, List.mem_append, not_or] at hp
    have hne : ¬ line.productId = p := fun e => hp.2 (by simp [e])
    obtain ⟨hs, hr, hl⟩ := planLine_amounts state line p
    obtain ⟨hs', hr', hl'⟩ := h.untouched p hp.1
    rw [hs, hr, hl, if_neg hne, if_neg hne, if_neg hne]
    exact ⟨hs', hr', hl'⟩
  · intro l hl
    rw [(planLine_amounts state line _).1]
    rcases List.mem_append.mp hl with hl | hl
    · rw [if_neg (hold l hl), h.settled l hl]
    · rw [List.mem_singleton.mp hl, if_pos rfl]
  · intro l hl
    rw [(planLine_amounts state line _).2.1]
    rcases List.mem_append.mp hl with hl | hl
    · rw [if_neg (hold l hl), h.reserve l hl, Nat.add_zero]
    · rw [List.mem_singleton.mp hl, if_pos rfl, hres0, hbefore, Nat.zero_add]
  · intro l hl
    rw [(planLine_amounts state line _).2.2]
    rcases List.mem_append.mp hl with hl | hl
    · rw [if_neg (hold l hl), h.release l hl, Nat.add_zero]
    · rw [List.mem_singleton.mp hl, if_pos rfl, hrel0, hbefore, Nat.zero_add]
  · intro write hw
    rcases hwrites write hw with hw | rfl
    · exact List.mem_append_left _ (h.writes write hw)
    · exact List.mem_append_right _ List.mem_cons_self
  · intro p hp
    rcases hremovals p hp with hp | ⟨rfl, h0⟩
    · obtain ⟨l, hl, hlp⟩ := h.removals p hp
      exact ⟨l, List.mem_append_left _ hl, hlp⟩
    · exact ⟨line, List.mem_append_right _ List.mem_cons_self, rfl, h0⟩
  · intro l hl hne
    rcases List.mem_append.mp hl with hl | hl
    · exact (h.moved l hl hne).imp (hkeepw l) (hkeepr l.productId)
    · rw [List.mem_singleton.mp hl] at hne ⊢
      exact hmark (hbefore ▸ hne)

/-- The whole loop, on lines that name each product once. -/
theorem foldl_planned {held : Held} (rest : List CartLine) {done : List CartLine}
    {state : CartChanges × Held} (h : Planned held done state)
    (hn : ((done ++ rest).map (·.productId)).Nodup) :
    Planned held (done ++ rest) (rest.foldl planLine state) := by
  induction rest generalizing done state with
  | nil => simpa using h
  | cons line rest ih =>
    have hnew : line.productId ∉ done.map (·.productId) := by
      rw [List.map_append, List.map_cons] at hn
      intro hm
      exact (List.nodup_append.mp hn).2.2 _ hm _ List.mem_cons_self rfl
    have happ : done ++ line :: rest = done ++ [line] ++ rest := by simp
    rw [List.foldl_cons, happ]
    rw [happ] at hn
    exact ih (planLine_planned h hnew) hn

/-- What a request asks of the record: no more after the commit than inventory is then told. An
amount inventory takes is at most 1000000000, and is then the difference itself. -/
structure Balanced (fields : List (String × Int)) (changes : CartChanges) : Prop where
  /-- Nothing is given back that the record does not list. -/
  release_le : ∀ p, quantityOf changes.release p ≤ 1000000000 →
    quantityOf changes.release p ≤ recorded fields p
  /-- A product is not both reserved and given back. -/
  one_way : ∀ p, quantityOf changes.reserve p = 0 ∨ quantityOf changes.release p = 0
  /-- What the commit leaves recorded is covered, even when the record lapsed before it. -/
  covered : ∀ base, (base = fields ∨ base = []) → ∀ p,
    quantityOf changes.reserve p ≤ 1000000000 → quantityOf changes.release p ≤ 1000000000 →
    recorded (Redis.committed base changes.writes changes.removals) p +
      quantityOf changes.release p ≤ recorded fields p + quantityOf changes.reserve p

theorem recorded_of_removed {fields : List (String × Int)} (hf : Entries.Distinct fields)
    {writes : List CartLine} {removals : List String} {p : String} (h : p ∈ removals) :
    recorded (Redis.committed fields writes removals) p = 0 := by
  rw [recorded_eq (Redis.committed_distinct hf writes removals)]
  unfold Redis.committed
  rw [Redis.get_hdel, if_pos h]
  rfl

theorem recorded_of_written {fields : List (String × Int)} (hf : Entries.Distinct fields)
    {writes : List CartLine} {removals : List String} {p : String} (hr : p ∉ removals)
    (h : p ∈ writes.map (·.productId)) :
    ∃ line ∈ writes, line.productId = p ∧
      recorded (Redis.committed fields writes removals) p ≤ line.quantity := by
  obtain ⟨line, hl, hp, hget⟩ := Redis.get_hset_of_mem fields h
  refine ⟨line, hl, hp, ?_⟩
  rw [recorded_eq (Redis.committed_distinct hf writes removals)]
  unfold Redis.committed
  rw [Redis.get_hdel, if_neg hr, hget]
  simp only [listed, Option.bind_some]
  split
  · simp
  · simp

theorem recorded_of_untouched {fields : List (String × Int)} (hf : Entries.Distinct fields)
    {writes : List CartLine} {removals : List String} {p : String} (hr : p ∉ removals)
    (h : p ∉ writes.map (·.productId)) :
    recorded (Redis.committed fields writes removals) p = recorded fields p := by
  rw [recorded_eq (Redis.committed_distinct hf writes removals), recorded_eq hf]
  unfold Redis.committed
  rw [Redis.get_hdel, if_neg hr, Redis.get_hset_of_not_mem h]

theorem planned_amounts {held : Held} {requested : List CartLine} {state : CartChanges × Held}
    (h : Planned held requested state) (p : String) :
    quantityOf state.1.reserve p = double (heldOf state.2 p - heldOf held p) ∧
      quantityOf state.1.release p = double (heldOf held p - heldOf state.2 p) := by
  by_cases hp : p ∈ requested.map (·.productId)
  · obtain ⟨line, hl, rfl⟩ := List.mem_map.mp hp
    rw [h.reserve line hl, h.release line hl, h.settled line hl]
    exact ⟨rfl, rfl⟩
  · obtain ⟨hs, hr, hl⟩ := h.untouched p hp
    rw [hs, hr, hl, Nat.sub_self, double_zero]
    exact ⟨rfl, rfl⟩

/-- One of the two differences is nothing. -/
theorem planned_one_way {held : Held} {requested : List CartLine} {state : CartChanges × Held}
    (h : Planned held requested state) (p : String) :
    quantityOf state.1.reserve p = 0 ∨ quantityOf state.1.release p = 0 := by
  obtain ⟨hres, hrel⟩ := planned_amounts h p
  rcases Nat.le_total (heldOf state.2 p) (heldOf held p) with hle | hle
  · left
    rw [hres, Nat.sub_eq_zero_of_le hle, double_zero]
  · right
    rw [hrel, Nat.sub_eq_zero_of_le hle, double_zero]

/-- An amount inventory takes was not rounded. -/
theorem exact_of_small {amount difference : Nat} (h : amount = double difference)
    (hsmall : amount ≤ 1000000000) : amount = difference := by
  rw [h] at hsmall ⊢
  exact eq_of_double_lt (by omega)

/-- A record that has expired reads as an empty one, and lists no more. -/
theorem recorded_le {fields read : List (String × Int)} (h : read = fields ∨ read = [])
    (p : String) : recorded read p ≤ recorded fields p := by
  rcases h with rfl | rfl
  · exact le_refl _
  · exact Nat.zero_le _

/-- A product the commit does not touch has no units to give back. -/
theorem release_of_untouched {held : Held} {requested : List CartLine}
    {state : CartChanges × Held} (h : Planned held requested state) {p : String}
    (hr : p ∉ state.1.removals) (hw : p ∉ state.1.writes.map (·.productId)) :
    quantityOf state.1.release p = 0 := by
  by_cases hp : p ∈ requested.map (·.productId)
  · obtain ⟨line, hl, rfl⟩ := List.mem_map.mp hp
    have hsame : line.quantity = heldOf held line.productId := by
      by_contra hne
      rcases h.moved line hl hne with hm | hm
      · exact hw (List.mem_map_of_mem hm)
      · exact hr hm
    rw [h.release line hl, hsame, Nat.sub_self, double_zero]
  · exact (h.untouched p hp).2.2

theorem planned_covered {fields read base : List (String × Int)} {requested : List CartLine}
    {state : CartChanges × Held} (hf : Entries.Distinct fields)
    (hread : read = fields ∨ read = []) (hbase : base = fields ∨ base = [])
    (h : Planned (heldQuantities read) requested state) (p : String)
    (hreserve : quantityOf state.1.reserve p ≤ 1000000000)
    (hrelease : quantityOf state.1.release p ≤ 1000000000) :
    recorded (Redis.committed base state.1.writes state.1.removals) p +
      quantityOf state.1.release p ≤ recorded fields p + quantityOf state.1.reserve p := by
  have hb : Entries.Distinct base := by
    rcases hbase with rfl | rfl
    · exact hf
    · exact List.nodup_nil
  obtain ⟨hamount, hback⟩ := planned_amounts h p
  have hres := exact_of_small hamount hreserve
  have hrel := exact_of_small hback hrelease
  have hle : heldOf (heldQuantities read) p ≤ recorded fields p := recorded_le hread p
  by_cases hr : p ∈ state.1.removals
  · rw [recorded_of_removed hb hr]
    omega
  by_cases hw : p ∈ state.1.writes.map (·.productId)
  · obtain ⟨line, hl, rfl, hq⟩ := recorded_of_written hb hr hw
    have hsettled := h.settled line (h.writes line hl)
    omega
  · rw [recorded_of_untouched hb hr hw, release_of_untouched h hr hw]
    have := recorded_le hbase p
    omega

/-- The plan of a request is the loop on its lines. -/
theorem planned_planChanges (held : Held) {requested : List CartLine}
    (hn : (requested.map (·.productId)).Nodup) : ∃ state, Planned held requested state ∧
      planChanges held requested = { state.1 with size := state.2.length } := by
  have hstart : Planned held []
      ({ writes := [], removals := [], reserve := [], release := [], size := 0 }, held) := by
    constructor
    · exact fun p _ => ⟨rfl, rfl, rfl⟩
    all_goals exact fun _ h => by cases h
  exact ⟨_, foldl_planned requested hstart hn, rfl⟩

theorem planChanges_balanced {fields read : List (String × Int)} (hf : Entries.Distinct fields)
    (hread : read = fields ∨ read = []) {requested : List CartLine}
    (hn : (requested.map (·.productId)).Nodup) :
    Balanced fields (planChanges (heldQuantities read) requested) := by
  obtain ⟨state, h, hplan⟩ := planned_planChanges (heldQuantities read) hn
  rw [hplan]
  refine ⟨fun p hsmall => ?_, planned_one_way h,
    fun base hbase p => planned_covered hf hread hbase h p⟩
  have hrel := exact_of_small (planned_amounts h p).2 hsmall
  have hle : heldOf (heldQuantities read) p ≤ recorded fields p := recorded_le hread p
  simp only
  omega

/-! ## The lines of a plan -/

/-- The loop of `planChanges` after the lines `done`: its lists name their products in the same order,
and units there are. -/
structure Listed (done : List CartLine) (changes : CartChanges) : Prop where
  reserve : (changes.reserve.map (·.productId)).Sublist (done.map (·.productId))
  release : (changes.release.map (·.productId)).Sublist (done.map (·.productId))
  reserve_pos : ∀ line ∈ changes.reserve, 0 < line.quantity
  release_pos : ∀ line ∈ changes.release, 0 < line.quantity
  writes_pos : ∀ line ∈ changes.writes, 0 < line.quantity

theorem planLine_listed {done : List CartLine} {state : CartChanges × Held}
    (h : Listed done state.1) (line : CartLine) :
    Listed (done ++ [line]) (planLine state line).1 := by
  have hskip : ∀ {ids : List String}, ids.Sublist (done.map (·.productId)) →
      ids.Sublist ((done ++ [line]).map (·.productId)) := by
    intro ids hids
    rw [List.map_append]
    exact hids.trans (List.sublist_append_left _ _)
  have hpush : ∀ {lines : List CartLine} (q : Nat),
      (lines.map (·.productId)).Sublist (done.map (·.productId)) →
      ((lines ++ [({ line with quantity := q } : CartLine)]).map (·.productId)).Sublist
        ((done ++ [line]).map (·.productId)) := by
    intro lines q hids
    rw [List.map_append, List.map_append]
    exact hids.append (List.Sublist.refl _)
  have hlast : ∀ {lines : List CartLine} {q : Nat}, (∀ l ∈ lines, 0 < l.quantity) → 0 < q →
      ∀ l ∈ lines ++ [({ line with quantity := q } : CartLine)], 0 < l.quantity := by
    intro lines q hpos hq l hl
    rcases List.mem_append.mp hl with hl | hl
    · exact hpos l hl
    · rw [List.mem_singleton.mp hl]
      exact hq
  by_cases hsame : line.quantity = heldOf state.2 line.productId
  · rw [planLine_same state hsame]
    exact ⟨hskip h.reserve, hskip h.release, h.reserve_pos, h.release_pos, h.writes_pos⟩
  rw [planLine_moved state hsame]
  have hwrites : ∀ l ∈ (if line.quantity = 0 then state.1.writes else state.1.writes ++ [line]),
      0 < l.quantity := by
    split
    · exact h.writes_pos
    · rename_i hne
      exact hlast h.writes_pos (Nat.pos_of_ne_zero hne)
  by_cases hgt : line.quantity > heldOf state.2 line.productId
  · simp only [hgt, if_true]
    have hpos : 0 < double (line.quantity - heldOf state.2 line.productId) :=
      double_pos (by omega)
    exact ⟨hpush _ h.reserve, hskip h.release, hlast h.reserve_pos hpos, h.release_pos, hwrites⟩
  · simp only [hgt, if_false]
    have hpos : 0 < double (heldOf state.2 line.productId - line.quantity) :=
      double_pos (by omega)
    exact ⟨hskip h.reserve, hpush _ h.release, h.reserve_pos, hlast h.release_pos hpos, hwrites⟩

theorem foldl_listed (rest : List CartLine) {done : List CartLine} {state : CartChanges × Held}
    (h : Listed done state.1) : Listed (done ++ rest) (rest.foldl planLine state).1 := by
  induction rest generalizing done state with
  | nil => simpa using h
  | cons line rest ih =>
    have happ : done ++ line :: rest = done ++ [line] ++ rest := by simp
    rw [List.foldl_cons, happ]
    exact ih (planLine_listed h line)

theorem listed_planChanges (held : Held) (requested : List CartLine) :
    Listed requested (planChanges held requested) := by
  let blank : CartChanges := { writes := [], removals := [], reserve := [], release := [], size := 0 }
  have hstart : Listed [] blank := by
    constructor
    · exact List.Sublist.refl _
    · exact List.Sublist.refl _
    all_goals exact fun _ h => by cases h
  have h : Listed ([] ++ requested) (requested.foldl planLine (blank, held)).1 :=
    foldl_listed requested hstart
  exact ⟨h.reserve, h.release, h.reserve_pos, h.release_pos, h.writes_pos⟩

theorem mem_held_of_heldOf {held : Held} {p : String} (h : 0 < heldOf held p) :
    p ∈ held.map Prod.fst := by
  unfold heldOf at h
  cases hget : Entries.get held p with
  | none =>
    rw [hget] at h
    exact absurd h (Nat.lt_irrefl 0)
  | some n => exact List.mem_map.mpr ⟨(p, n), Entries.mem_of_get hget, rfl⟩

/-- Only what is held is given back. -/
theorem held_of_release {held : Held} {requested : List CartLine}
    (hn : (requested.map (·.productId)).Nodup) {line : CartLine}
    (hl : line ∈ (planChanges held requested).release) : line.productId ∈ held.map Prod.fst := by
  have hlisted := listed_planChanges held requested
  obtain ⟨state, hplanned, hplan⟩ := planned_planChanges held hn
  have hpos := hlisted.release_pos line hl
  have hq := quantityOf_of_mem (hlisted.release.nodup hn) hl
  rw [hplan] at hq
  have hamount := (planned_amounts hplanned line.productId).2
  dsimp only at hq
  rw [← hq, hamount, double_pos_iff] at hpos
  exact mem_held_of_heldOf (by omega)

/-- What is written is reserved for or held. -/
theorem reserved_or_held_of_write {held : Held} {requested : List CartLine}
    (hn : (requested.map (·.productId)).Nodup) {line : CartLine}
    (hl : line ∈ (planChanges held requested).writes) :
    line.productId ∈ (planChanges held requested).reserve.map (·.productId) ∨
      line.productId ∈ held.map Prod.fst := by
  have hpos := (listed_planChanges held requested).writes_pos line hl
  obtain ⟨state, hplanned, hplan⟩ := planned_planChanges held hn
  rw [hplan] at hl ⊢
  dsimp only at hl ⊢
  have hreserve := hplanned.reserve line (hplanned.writes line hl)
  by_cases hheld : 0 < heldOf held line.productId
  · exact .inr (mem_held_of_heldOf hheld)
  · refine .inl ?_
    by_contra hnot
    rw [quantityOf_of_not_mem hnot] at hreserve
    have hasked := double_pos (n := line.quantity - heldOf held line.productId) (by omega)
    omega

/-- A request without duplicates names each product once. -/
theorem nodup_of_no_duplicates {items : List CartLine} (h : (duplicateProductIds items).length = 0) :
    (items.map (·.productId)).Nodup := by
  have hfold : ∀ (rest : List CartLine) (seen duplicates : List String),
      (rest.foldl (fun found item =>
        (if item.productId ∈ found.1 then found.1 else found.1 ++ [item.productId],
          if item.productId ∈ found.1 ∧ item.productId ∉ found.2 then
            found.2 ++ [item.productId]
          else found.2)) (seen, duplicates)).2 = [] →
      duplicates = [] ∧ (rest.map (·.productId)).Nodup ∧
        ∀ p ∈ rest.map (·.productId), p ∉ seen := by
    intro rest
    induction rest with
    | nil => exact fun seen duplicates h => ⟨h, List.nodup_nil, fun _ hp => by cases hp⟩
    | cons item rest ih =>
      intro seen duplicates h
      obtain ⟨hd, hn, hfree⟩ := ih _ _ h
      have hnew : item.productId ∉ seen := by
        intro hm
        by_cases hdup : item.productId ∈ duplicates
        · simp [hdup] at hd
          simp [hd] at hdup
        · simp [hm, hdup] at hd
      simp only [hnew, if_false, false_and] at hd hfree
      refine ⟨hd, List.nodup_cons.mpr ⟨fun hm => ?_, hn⟩, fun p hp => ?_⟩
      · exact hfree _ hm (by simp)
      · rcases List.mem_cons.mp hp with rfl | hp
        · exact hnew
        · exact fun hm => hfree p hp (by simp [hm])
  exact (hfold items [] [] (List.length_eq_zero_iff.mp h)).2.1

end PracticalMicroservice.Cart
