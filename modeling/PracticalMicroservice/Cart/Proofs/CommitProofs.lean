import PracticalMicroservice.Cart.Commit
import PracticalMicroservice.Cart.Proofs.PlannerProofs

/-!
# What an update settles, from the plan to the hash

The plan and the commit describe one change twice, as amounts to move and as values to write. The
values lead to the lines that are held, overridden by those of the request; the amounts do so where
no difference is rounded.
-/

namespace PracticalMicroservice.Cart

open Foundations (IsDouble double double_pos double_pos_iff double_zero isDigit_toDigits numberOf
  numberOf_stringOf stringOf)

/-! ## Numbers as texts -/

theorem tonumber_toString (n : Nat) : Script.tonumber (toString n) = some n := by
  have hlist : (toString n).toList = Nat.toDigits 10 n := by
    rw [Nat.toString_eq_ofList_toDigits, String.toList_ofList]
  unfold Script.tonumber
  rw [hlist, if_pos ⟨Nat.toDigits_ne_nil, List.all_eq_true.mpr (isDigit_toDigits n)⟩,
    Nat.ofDigitChars_ten_toDigits]

/-! ## Flat lists -/

theorem pairs_flat (entries : List (String × String)) : pairs (flat entries) = entries := by
  induction entries with
  | nil => rfl
  | cons entry rest ih =>
    show (entry.1, entry.2) :: pairs (flat rest) = _
    rw [ih]

/-- The texts of the lines a commit writes. -/
def writeEntries (writes : List CartLine) : List (String × String) :=
  writes.map fun line => (line.productId, stringOf line.quantity)

theorem flat_writeEntries (writes : List CartLine) :
    writes.flatMap (fun line => [line.productId, stringOf line.quantity]) =
      flat (writeEntries writes) := by
  unfold flat writeEntries
  rw [List.flatMap_map]

theorem length_flat (entries : List (String × String)) :
    (flat entries).length = entries.length * 2 := by
  induction entries with
  | nil => rfl
  | cons entry rest ih =>
    show (flat rest).length + 1 + 1 = _
    rw [ih, List.length_cons]
    omega

/-- A loop over consecutive arguments collects a part of the list. -/
theorem collect_eq (argv : List String) (cursor count : Nat) :
    Script.collect argv cursor count = (argv.drop cursor).take count := by
  induction count with
  | zero => rfl
  | succ count ih =>
    have hcollect : Script.collect argv cursor (count + 1) =
        Script.collect argv cursor count ++ (argv[cursor + count]?).toList := by
      unfold Script.collect
      rw [List.range_succ, List.filterMap_append]
      congr 1
    rw [hcollect, ih, List.take_add_one, List.getElem?_drop]

/-- What `commit` lays out, the script reads again. -/
theorem commit_decoded (cart : SessionId) (sessionTtl itemsTtl dueAt : Nat)
    (changes : CartChanges) (items : List (String × String)) :
    Script.CART_COMMIT (CartRepository.commitArguments cart sessionTtl itemsTtl dueAt changes)
        items =
      let items' := Script.hdel (Script.hset items (flat (writeEntries changes.writes)))
        changes.removals
      some (items', flat items') := by
  set argv := CartRepository.commitArguments cart sessionTtl itemsTtl dueAt changes with hargv
  have hcount : argv[4]? = some (toString changes.writes.length) := rfl
  have hdrop : argv.drop 5 = flat (writeEntries changes.writes) ++ changes.removals := by
    rw [hargv, ← flat_writeEntries]
    rfl
  have hlength : (flat (writeEntries changes.writes)).length = changes.writes.length * 2 := by
    rw [length_flat, writeEntries, List.length_map]
  have hsets : Script.collect argv 5 (changes.writes.length * 2) =
      flat (writeEntries changes.writes) := by
    rw [collect_eq, hdrop, ← hlength, List.take_left]
  have hrest : argv.drop (5 + changes.writes.length * 2) = changes.removals := by
    rw [← List.drop_drop, hdrop, ← hlength, List.drop_left]
  have hremovals : Script.collect argv (5 + changes.writes.length * 2)
      (argv.length - (5 + changes.writes.length * 2)) = changes.removals := by
    rw [collect_eq, ← List.length_drop, hrest, List.take_length]
  unfold Script.CART_COMMIT
  rw [hcount]
  simp only [Option.bind_eq_bind, Option.bind_some, tonumber_toString, hsets, hremovals]
  have hset : (if changes.writes.length > 0 then
      Script.hset items (flat (writeEntries changes.writes)) else items) =
      Script.hset items (flat (writeEntries changes.writes)) := by
    split
    · rfl
    · rename_i h
      have hnil : changes.writes = [] := List.length_eq_zero_iff.mp (by omega)
      rw [hnil]
      rfl
  have hdel : ∀ items : List (String × String), (if changes.removals.length > 0 then
      Script.hdel items changes.removals else items) = Script.hdel items changes.removals := by
    intro items
    split
    · rfl
    · rename_i h
      have hnil : changes.removals = [] := List.length_eq_zero_iff.mp (by omega)
      rw [hnil]
      rfl
  rw [hset, hdel]
  rfl

/-! ## Maps -/

namespace Entries

variable {κ α : Type} [DecidableEq κ] {entries entries' : List (κ × α)}

theorem mem_iff_get (h : Distinct entries) {key : κ} {value : α} :
    (key, value) ∈ entries ↔ get entries key = some value :=
  ⟨get_of_mem h, fun hg => mem_of_get hg⟩

/-- Two maps that answer alike have the same entries. -/
theorem perm_of_get (h : Distinct entries) (h' : Distinct entries')
    (hget : ∀ key, get entries key = get entries' key) : entries.Perm entries' := by
  refine (List.perm_ext_iff_of_nodup h.of_map h'.of_map).mpr fun entry => ?_
  rw [mem_iff_get h, mem_iff_get h', hget]

end Entries

/-- A map of positive quantities is told by the amounts it holds. -/
theorem get_of_heldOf {held : Held} (hpos : ∀ entry ∈ held, 0 < entry.2) (p : String) :
    Entries.get held p = if heldOf held p = 0 then none else some (heldOf held p) := by
  unfold heldOf
  cases hg : Entries.get held p with
  | none => rfl
  | some n =>
    have hn : 0 < n := hpos _ (Entries.mem_of_get hg)
    rw [Option.getD_some, if_neg (by omega)]

/-! ## What is to be held -/

section Settled

variable {held : Held} {requested : List CartLine}

theorem settledBy_distinct (hheld : ProperHeld held) (hreq : ProperRequest requested) :
    Entries.Distinct (settledBy held requested) := by
  unfold Entries.Distinct settledBy
  rw [List.map_append, List.map_map, List.nodup_append]
  refine ⟨hheld.distinct.sublist (List.filter_sublist.map _), ?_, ?_⟩
  · exact hreq.distinct.sublist (List.filter_sublist.map _)
  · intro a ha b hb e
    obtain ⟨entry, he, rfl⟩ := List.mem_map.mp ha
    obtain ⟨line, hl, rfl⟩ := List.mem_map.mp hb
    have hnot := of_decide_eq_true (List.mem_filter.mp he).2
    exact hnot (List.mem_map.mpr ⟨line, (List.mem_filter.mp hl).1, e.symm⟩)

theorem mem_settledBy {entry : String × Nat} (h : entry ∈ settledBy held requested) :
    entry ∈ held ∨ ∃ line ∈ requested, line.quantity ≠ 0 ∧
      entry = (line.productId, line.quantity) := by
  rcases List.mem_append.mp h with h | h
  · exact .inl (List.mem_filter.mp h).1
  · obtain ⟨line, hl, rfl⟩ := List.mem_map.mp h
    exact .inr ⟨line, (List.mem_filter.mp hl).1, of_decide_eq_true (List.mem_filter.mp hl).2, rfl⟩

theorem settledBy_proper (hheld : ProperHeld held) (hreq : ProperRequest requested) :
    ProperHeld (settledBy held requested) where
  distinct := settledBy_distinct hheld hreq
  positive := by
    intro entry he
    rcases mem_settledBy he with h | ⟨line, -, hq, rfl⟩
    · exact hheld.positive entry h
    · exact Nat.pos_of_ne_zero hq
  named := by
    intro entry he
    rcases mem_settledBy he with h | ⟨line, hl, -, rfl⟩
    · exact hheld.named entry h
    · exact hreq.named line hl
  doubles := by
    intro entry he
    rcases mem_settledBy he with h | ⟨line, hl, -, rfl⟩
    · exact hheld.doubles entry h
    · exact hreq.doubles line hl

/-- A product the request names is to be held as it says, and any other as it is. -/
theorem heldOf_settledBy (hheld : ProperHeld held) (hreq : ProperRequest requested) :
    (∀ line ∈ requested, heldOf (settledBy held requested) line.productId = line.quantity) ∧
      ∀ p, p ∉ requested.map (·.productId) →
        heldOf (settledBy held requested) p = heldOf held p := by
  have hdistinct := settledBy_distinct hheld hreq
  constructor
  · intro line hl
    unfold heldOf
    by_cases h0 : line.quantity = 0
    · rw [Entries.get_of_not_mem, Option.getD_none, h0]
      intro hm
      obtain ⟨entry, he, hp⟩ := List.mem_map.mp hm
      rcases List.mem_append.mp he with he | he
      · exact of_decide_eq_true (List.mem_filter.mp he).2 (hp ▸ List.mem_map_of_mem hl)
      · obtain ⟨other, ho, rfl⟩ := List.mem_map.mp he
        obtain ⟨ho, hq⟩ := List.mem_filter.mp ho
        have hsame := List.inj_on_of_nodup_map hreq.distinct ho hl hp
        exact of_decide_eq_true hq (hsame ▸ h0)
    · have hmem : (line.productId, line.quantity) ∈ settledBy held requested := by
        refine List.mem_append_right _ (List.mem_map.mpr ⟨line, ?_, rfl⟩)
        exact List.mem_filter.mpr ⟨hl, decide_eq_true h0⟩
      rw [Entries.get_of_mem hdistinct hmem, Option.getD_some]
  · intro p hp
    unfold heldOf
    have hget : Entries.get (settledBy held requested) p = Entries.get held p := by
      cases hg : Entries.get held p with
      | none =>
        refine Entries.get_of_not_mem fun hm => ?_
        obtain ⟨entry, he, hkey⟩ := List.mem_map.mp hm
        rcases mem_settledBy he with h | ⟨line, hl, -, rfl⟩
        · have hentry : (entry.1, entry.2) ∈ held := h
          have hsome := Entries.get_of_mem hheld.distinct hentry
          rw [hkey, hg] at hsome
          cases hsome
        · exact hp (hkey ▸ List.mem_map_of_mem hl)
      | some n =>
        refine Entries.get_of_mem hdistinct (List.mem_append_left _ (List.mem_filter.mpr ?_))
        exact ⟨Entries.mem_of_get hg, decide_eq_true hp⟩
    rw [hget]

end Settled

/-! ## The plan -/

/-- The lines to move are of positive amounts, and the settled map stays proper. -/
structure Proportioned (state : CartChanges × Held) : Prop where
  reserves : ∀ line ∈ state.1.reserve, 0 < line.quantity
  releases : ∀ line ∈ state.1.release, 0 < line.quantity
  writes : ∀ line ∈ state.1.writes, line.quantity ≠ 0
  settled : ProperHeld state.2

theorem ProperHeld.delete {held : Held} (h : ProperHeld held) (p : String) :
    ProperHeld (Entries.delete held p) where
  distinct := h.distinct.delete p
  positive := fun entry he => h.positive entry (List.mem_filter.mp he).1
  named := fun entry he => h.named entry (List.mem_filter.mp he).1
  doubles := fun entry he => h.doubles entry (List.mem_filter.mp he).1

theorem mem_of_mem_set {held : Held} (h : Entries.Distinct held) {p : String} {n : Nat}
    {entry : String × Nat} (he : entry ∈ Entries.set held p n) : entry = (p, n) ∨ entry ∈ held := by
  have hget := Entries.get_of_mem (h.set p n) (show (entry.1, entry.2) ∈ _ from he)
  rw [Entries.get_set] at hget
  split at hget
  · rename_i hkey
    cases hget
    exact .inl (by rw [hkey])
  · exact .inr (Entries.mem_of_get hget)

theorem ProperHeld.set {held : Held} (h : ProperHeld held) {p : String} {n : Nat} (hp : p ≠ "")
    (hn : n ≠ 0) (hd : IsDouble n) : ProperHeld (Entries.set held p n) where
  distinct := h.distinct.set p n
  positive := by
    intro entry he
    rcases mem_of_mem_set h.distinct he with rfl | he
    · exact Nat.pos_of_ne_zero hn
    · exact h.positive entry he
  named := by
    intro entry he
    rcases mem_of_mem_set h.distinct he with rfl | he
    · exact hp
    · exact h.named entry he
  doubles := by
    intro entry he
    rcases mem_of_mem_set h.distinct he with rfl | he
    · exact hd
    · exact h.doubles entry he

theorem Proportioned.planLine {state : CartChanges × Held} (h : Proportioned state)
    {line : CartLine} (hname : line.productId ≠ "") (hd : IsDouble line.quantity) :
    Proportioned (planLine state line) := by
  by_cases hsame : line.quantity = heldOf state.2 line.productId
  · rw [planLine_same state hsame]
    exact h
  rw [planLine_moved state hsame]
  constructor
  · intro l hl
    simp only at hl
    split at hl
    · rcases List.mem_append.mp hl with hl | hl
      · exact h.reserves l hl
      · rw [List.mem_singleton.mp hl]
        exact double_pos (by omega)
    · exact h.reserves l hl
  · intro l hl
    simp only at hl
    split at hl
    · exact h.releases l hl
    · rcases List.mem_append.mp hl with hl | hl
      · exact h.releases l hl
      · rw [List.mem_singleton.mp hl]
        exact double_pos (by omega)
  · intro l hl
    simp only at hl
    split at hl
    · exact h.writes l hl
    · rcases List.mem_append.mp hl with hl | hl
      · exact h.writes l hl
      · rwa [List.mem_singleton.mp hl]
  · simp only
    split
    · exact h.settled.delete _
    · rename_i h0
      exact h.settled.set hname h0 hd

theorem foldl_proportioned {requested : List CartLine} {state : CartChanges × Held}
    (h : Proportioned state) (hname : ∀ line ∈ requested, line.productId ≠ "")
    (hd : ∀ line ∈ requested, IsDouble line.quantity) :
    Proportioned (requested.foldl planLine state) := by
  induction requested generalizing state with
  | nil => exact h
  | cons line rest ih =>
    refine ih (h.planLine (hname line List.mem_cons_self) (hd line List.mem_cons_self))
      (fun l hl => hname l (List.mem_cons_of_mem _ hl)) fun l hl => ?_
    exact hd l (List.mem_cons_of_mem _ hl)

theorem quantityOf_pos {lines : List CartLine} (h : ∀ line ∈ lines, 0 < line.quantity)
    {line : CartLine} (hl : line ∈ lines) : 0 < quantityOf lines line.productId := by
  induction lines with
  | nil => cases hl
  | cons first rest ih =>
    rw [quantityOf_cons]
    have hfirst := h first List.mem_cons_self
    rcases List.mem_cons.mp hl with rfl | hl
    · rw [if_pos rfl]
      omega
    · have := ih (fun l hm => h l (List.mem_cons_of_mem _ hm)) hl
      omega

section Plan

variable {held : Held} {requested : List CartLine}

/-- The state of `planChanges` after its loop. -/
def planned (held : Held) (requested : List CartLine) : CartChanges × Held :=
  requested.foldl planLine
    ({ writes := [], removals := [], reserve := [], release := [], size := 0 }, held)

theorem planChanges_eq (held : Held) (requested : List CartLine) :
    planChanges held requested =
      { (planned held requested).1 with size := (planned held requested).2.length } := rfl

variable (held) in
theorem planned_planned (hreq : ProperRequest requested) :
    Planned held requested (planned held requested) := by
  have hstart : Planned held []
      ({ writes := [], removals := [], reserve := [], release := [], size := 0 }, held) := by
    constructor
    · exact fun p _ => ⟨rfl, rfl, rfl⟩
    all_goals exact fun _ h => by cases h
  have hn : (([] ++ requested : List CartLine).map (·.productId)).Nodup := hreq.distinct
  exact foldl_planned requested hstart hn

theorem planned_proportioned (hheld : ProperHeld held) (hreq : ProperRequest requested) :
    Proportioned (planned held requested) := by
  refine foldl_proportioned ⟨?_, ?_, ?_, hheld⟩ hreq.named hreq.doubles
  all_goals exact fun line hl => by cases hl

/-- The map the loop ends with holds what is to be held. -/
theorem get_planned (hheld : ProperHeld held) (hreq : ProperRequest requested) (p : String) :
    Entries.get (planned held requested).2 p = Entries.get (settledBy held requested) p := by
  have hplan := planned_planned held hreq
  obtain ⟨hnamed, hother⟩ := heldOf_settledBy hheld hreq
  rw [get_of_heldOf (planned_proportioned hheld hreq).settled.positive,
    get_of_heldOf (settledBy_proper hheld hreq).positive]
  have hsame : heldOf (planned held requested).2 p = heldOf (settledBy held requested) p := by
    by_cases hp : p ∈ requested.map (·.productId)
    · obtain ⟨line, hl, rfl⟩ := List.mem_map.mp hp
      rw [hplan.settled line hl, hnamed line hl]
    · rw [(hplan.untouched p hp).1, hother p hp]
  rw [hsame]

theorem heldOf_planned (hheld : ProperHeld held) (hreq : ProperRequest requested) (p : String) :
    heldOf (planned held requested).2 p = heldOf (settledBy held requested) p :=
  congrArg (Option.getD · 0) (get_planned hheld hreq p)

/-- Of a product there is something to move exactly if it is to be held otherwise than it is. -/
theorem quantityOf_planned_eq_zero (hheld : ProperHeld held) (hreq : ProperRequest requested)
    (p : String) :
    quantityOf (planned held requested).1.reserve p = 0 ∧
        quantityOf (planned held requested).1.release p = 0 ↔
      heldOf (settledBy held requested) p = heldOf held p := by
  obtain ⟨hres, hrel⟩ := planned_amounts (planned_planned held hreq) p
  rw [heldOf_planned hheld hreq] at hres hrel
  rw [hres, hrel]
  constructor
  · rintro ⟨h1, h2⟩
    have hno1 : ¬ 0 < heldOf (settledBy held requested) p - heldOf held p := fun h => by
      have := double_pos h
      omega
    have hno2 : ¬ 0 < heldOf held p - heldOf (settledBy held requested) p := fun h => by
      have := double_pos h
      omega
    omega
  · intro h
    rw [h, Nat.sub_self, double_zero]
    exact ⟨rfl, rfl⟩

theorem planned_size (hheld : ProperHeld held) (hreq : ProperRequest requested) :
    (planChanges held requested).size = (settledBy held requested).length :=
  (Entries.perm_of_get (planned_proportioned hheld hreq).settled.distinct
    (settledBy_distinct hheld hreq) (get_planned hheld hreq)).length_eq

theorem planned_noop (hheld : ProperHeld held) (hreq : ProperRequest requested) :
    isNoop (planChanges held requested) = true ↔
      ∀ p, Entries.get (settledBy held requested) p = Entries.get held p := by
  have hprop := planned_proportioned hheld hreq
  have hnoop : isNoop (planChanges held requested) = true ↔
      (planned held requested).1.reserve = [] ∧ (planned held requested).1.release = [] := by
    rw [planChanges_eq]
    unfold isNoop
    rw [Bool.and_eq_true, beq_iff_eq, beq_iff_eq, List.length_eq_zero_iff,
      List.length_eq_zero_iff]
  rw [hnoop]
  constructor
  · rintro ⟨hres, hrel⟩ p
    have hsame := (quantityOf_planned_eq_zero hheld hreq p).mp
      (by rw [hres, hrel]; exact ⟨rfl, rfl⟩)
    rw [get_of_heldOf (settledBy_proper hheld hreq).positive, get_of_heldOf hheld.positive, hsame]
  · intro hsame
    have hnone (p : String) := (quantityOf_planned_eq_zero hheld hreq p).mpr
      (congrArg (Option.getD · 0) (hsame p))
    constructor
    · refine List.eq_nil_iff_forall_not_mem.mpr fun line hl => ?_
      have h1 := quantityOf_pos hprop.reserves hl
      have h2 := (hnone line.productId).1
      omega
    · refine List.eq_nil_iff_forall_not_mem.mpr fun line hl => ?_
      have h1 := quantityOf_pos hprop.releases hl
      have h2 := (hnone line.productId).2
      omega

/-- The amounts make up the difference exactly if no difference had to be rounded. -/
theorem planned_balance_iff (hheld : ProperHeld held) (hreq : ProperRequest requested) :
    (∀ p, (heldOf held p : Int) + quantityOf (planChanges held requested).reserve p -
      quantityOf (planChanges held requested).release p = heldOf (settledBy held requested) p) ↔
    DifferencesHeld held requested := by
  have hamounts (p : String) := planned_amounts (planned_planned held hreq) p
  simp only [heldOf_planned hheld hreq] at hamounts
  obtain ⟨hnamed, hother⟩ := heldOf_settledBy hheld hreq
  rw [planChanges_eq]
  dsimp only
  constructor
  · intro h line hl
    obtain ⟨hres, hrel⟩ := hamounts line.productId
    have hbalance := h line.productId
    rw [hnamed line hl] at hbalance hres hrel
    rw [hres, hrel] at hbalance
    show double (line.quantity - heldOf held line.productId) =
        line.quantity - heldOf held line.productId ∧
      double (heldOf held line.productId - line.quantity) =
        heldOf held line.productId - line.quantity
    rcases Nat.le_total line.quantity (heldOf held line.productId) with hle | hle
    · have hz : double (line.quantity - heldOf held line.productId) = 0 := by
        rw [Nat.sub_eq_zero_of_le hle, double_zero]
      omega
    · have hz : double (heldOf held line.productId - line.quantity) = 0 := by
        rw [Nat.sub_eq_zero_of_le hle, double_zero]
      omega
  · intro h p
    obtain ⟨hres, hrel⟩ := hamounts p
    rw [hres, hrel]
    by_cases hp : p ∈ requested.map (·.productId)
    · obtain ⟨line, hl, rfl⟩ := List.mem_map.mp hp
      have hraise : double (line.quantity - heldOf held line.productId) = _ := (h line hl).1
      have hlower : double (heldOf held line.productId - line.quantity) = _ := (h line hl).2
      rw [hnamed line hl, hraise, hlower]
      show (heldOf held line.productId : Int) + (line.quantity - heldOf held line.productId : Nat) -
        (heldOf held line.productId - line.quantity : Nat) = _
      omega
    · rw [hother p hp, Nat.sub_self, double_zero]
      omega

/-- The plan moves exactly the difference between what is held and what is to be, if it can. -/
theorem planChanges_settles_iff (hheld : ProperHeld held) (hreq : ProperRequest requested) :
    PlanSettles held requested (planChanges held requested) ↔ DifferencesHeld held requested := by
  have hprop := planned_proportioned hheld hreq
  constructor
  · exact fun h => (planned_balance_iff hheld hreq).mp h.balance
  · intro h
    refine ⟨hprop.reserves, hprop.releases, fun line hl hm => ?_,
      (planned_balance_iff hheld hreq).mpr h, planned_size hheld hreq, planned_noop hheld hreq⟩
    obtain ⟨other, ho, hp⟩ := List.mem_map.mp hm
    have h1 := quantityOf_pos hprop.reserves hl
    have h2 := quantityOf_pos hprop.releases ho
    rw [hp] at h2
    have hone := planned_one_way (planned_planned held hreq) line.productId
    omega

end Plan

/-! ## The hash -/

section Hash

variable {items : List (String × String)}

theorem hdel_text (items : List (String × String)) (removals : List String) (p : String) :
    Entries.get (Script.hdel items removals) p =
      if p ∈ removals then none else Entries.get items p := by
  induction removals generalizing items with
  | nil => simp [Script.hdel]
  | cons productId removals ih =>
    have hcons : Script.hdel items (productId :: removals) =
        Script.hdel (Entries.delete items productId) removals := rfl
    rw [hcons, ih, Entries.get_delete]
    by_cases hm : p ∈ removals
    · simp [hm]
    · by_cases hp : productId = p
      · simp [hp]
      · have hpr : ¬ p = productId := fun e => hp e.symm
        simp [hm, hp, hpr]

/-- The writes of a commit, as the script performs them. -/
def setTexts (items : List (String × String)) (entries : List (String × String)) :
    List (String × String) :=
  entries.foldl (fun items entry => Entries.set items entry.1 entry.2) items

theorem hset_flat (items entries : List (String × String)) :
    Script.hset items (flat entries) = setTexts items entries := by
  unfold Script.hset setTexts
  rw [pairs_flat]

theorem get_setTexts_of_not_mem {entries : List (String × String)} {p : String}
    (h : p ∉ entries.map Prod.fst) :
    Entries.get (setTexts items entries) p = Entries.get items p := by
  induction entries generalizing items with
  | nil => rfl
  | cons entry rest ih =>
    rw [List.map_cons, List.mem_cons, not_or] at h
    have hcons : setTexts items (entry :: rest) =
        setTexts (Entries.set items entry.1 entry.2) rest := rfl
    rw [hcons, ih h.2, Entries.get_set, if_neg fun e => h.1 e.symm]

/-- A field that is written gets the text of one of its writes. -/
theorem get_setTexts_of_mem (items : List (String × String))
    {entries : List (String × String)} {p : String} (h : p ∈ entries.map Prod.fst) :
    ∃ entry ∈ entries, entry.1 = p ∧
      Entries.get (setTexts items entries) p = some entry.2 := by
  induction entries generalizing items with
  | nil => cases h
  | cons entry rest ih =>
    have hcons : setTexts items (entry :: rest) =
        setTexts (Entries.set items entry.1 entry.2) rest := rfl
    by_cases hm : p ∈ rest.map Prod.fst
    · obtain ⟨last, hl, hp, hget⟩ := ih (Entries.set items entry.1 entry.2) hm
      exact ⟨last, List.mem_cons_of_mem _ hl, hp, hcons ▸ hget⟩
    · have hp : entry.1 = p := by
        rcases List.mem_cons.mp h with h | h
        · exact h.symm
        · exact absurd h hm
      refine ⟨entry, List.mem_cons_self, hp, ?_⟩
      rw [hcons, get_setTexts_of_not_mem hm, Entries.get_set, if_pos hp]

theorem setTexts_distinct (h : Entries.Distinct items) (entries : List (String × String)) :
    Entries.Distinct (setTexts items entries) := by
  induction entries generalizing items with
  | nil => exact h
  | cons entry rest ih => exact ih (h.set _ _)

theorem hdel_text_distinct (h : Entries.Distinct items) (removals : List String) :
    Entries.Distinct (Script.hdel items removals) := by
  induction removals generalizing items with
  | nil => exact h
  | cons productId rest ih => exact ih (h.delete _)

/-- The items hash after a commit. -/
def committedTexts (items : List (String × String)) (changes : CartChanges) :
    List (String × String) :=
  Script.hdel (setTexts items (writeEntries changes.writes)) changes.removals

theorem committedTexts_distinct (h : Entries.Distinct items) (changes : CartChanges) :
    Entries.Distinct (committedTexts items changes) :=
  hdel_text_distinct (setTexts_distinct h _) _

theorem commit_runs (cart : SessionId) (sessionTtl itemsTtl dueAt : Nat) (changes : CartChanges)
    (items : List (String × String)) :
    Script.CART_COMMIT (CartRepository.commitArguments cart sessionTtl itemsTtl dueAt changes)
        items =
      some (committedTexts items changes, flat (committedTexts items changes)) := by
  rw [commit_decoded]
  simp only [hset_flat]
  rfl

variable {held : Held} {requested : List CartLine}

theorem keys_writeEntries (writes : List CartLine) :
    (writeEntries writes).map Prod.fst = writes.map (·.productId) := by
  unfold writeEntries
  rw [List.map_map]
  rfl

/-- Every field the commit touches ends as it is to be held, and the others as they were. -/
theorem get_committedTexts (hheld : ProperHeld held) (hreq : ProperRequest requested)
    (items : List (String × String)) (p : String) :
    Entries.get (committedTexts items (planChanges held requested)) p =
        (Entries.get (settledBy held requested) p).map stringOf ∨
      (Entries.get (committedTexts items (planChanges held requested)) p = Entries.get items p ∧
        Entries.get (settledBy held requested) p = Entries.get held p) := by
  have hplan := planned_planned held hreq
  have hprop := planned_proportioned hheld hreq
  obtain ⟨hnamed, hother⟩ := heldOf_settledBy hheld hreq
  have hsettled := get_of_heldOf (settledBy_proper hheld hreq).positive
  have hline : ∀ line ∈ requested, ∀ line' ∈ requested, line.productId = line'.productId →
      line = line' := fun line hl line' hl' he => List.inj_on_of_nodup_map hreq.distinct hl hl' he
  unfold committedTexts
  rw [hdel_text]
  by_cases hr : p ∈ (planned held requested).1.removals
  · left
    obtain ⟨line, hl, rfl, h0⟩ := hplan.removals p hr
    rw [planChanges_eq, if_pos hr, hsettled, hnamed line hl, if_pos h0]
    rfl
  rw [planChanges_eq, if_neg hr]
  by_cases hw : p ∈ (planned held requested).1.writes.map (·.productId)
  · left
    rw [← keys_writeEntries] at hw
    obtain ⟨entry, he, rfl, hget⟩ := get_setTexts_of_mem items hw
    obtain ⟨line, hl, rfl⟩ := List.mem_map.mp he
    rw [hget, hsettled, hnamed line (hplan.writes line hl), if_neg (hprop.writes line hl)]
    rfl
  · right
    rw [get_setTexts_of_not_mem (by rw [keys_writeEntries]; exact hw)]
    refine ⟨rfl, ?_⟩
    rw [hsettled, get_of_heldOf hheld.positive]
    have hsame : heldOf (settledBy held requested) p = heldOf held p := by
      by_cases hp : p ∈ requested.map (·.productId)
      · obtain ⟨line, hl, rfl⟩ := List.mem_map.mp hp
        rw [hnamed line hl]
        by_contra hne
        rcases hplan.moved line hl hne with hm | hm
        · exact hw (List.mem_map_of_mem hm)
        · exact hr hm
      · exact hother p hp
    rw [hsame]

/-- A hash that lists what is held lists what is to be held after the commit. -/
theorem committedTexts_stores (hheld : ProperHeld held) (hreq : ProperRequest requested)
    (h : Stores items held) :
    Stores (committedTexts items (planChanges held requested)) (settledBy held requested) where
  distinct := committedTexts_distinct h.distinct _
  fields := by
    intro p
    rcases get_committedTexts hheld hreq items p with hget | ⟨hget, hsame⟩
    · exact hget
    · rw [hget, hsame, h.fields]

theorem numbers_distinct (h : Entries.Distinct items) : Entries.Distinct (numbers items) := by
  unfold Entries.Distinct numbers
  rw [List.map_map]
  exact h

theorem get_numbers (items : List (String × String)) (p : String) :
    Entries.get (numbers items) p =
      (Entries.get items p).map fun raw => Int.ofNat ((numberOf raw).getD 0) := by
  induction items with
  | nil => rfl
  | cons entry rest ih =>
    show Entries.get ((entry.1, _) :: numbers rest) p = _
    rw [Entries.get_cons, Entries.get_cons, ih]
    split
    · rfl
    · rfl

/-- A hash that lists what is held reads as what is held. -/
theorem Stores.get_heldTexts (h : Stores items held) (hheld : ProperHeld held) (p : String) :
    Entries.get (heldTexts items) p = Entries.get held p := by
  unfold heldTexts
  rw [get_heldQuantities (numbers_distinct h.distinct), get_numbers, h.fields]
  cases hg : Entries.get held p with
  | none => rfl
  | some n =>
    have hmem := Entries.mem_of_get hg
    have hpos : 0 < n := hheld.positive _ hmem
    have hname : p ≠ "" := hheld.named _ hmem
    have hdouble : IsDouble n := hheld.doubles _ hmem
    simp [listed, numberOf_stringOf hdouble, hname, hpos]

theorem Stores.perm (h : Stores items held) (hheld : ProperHeld held) :
    (heldTexts items).Perm held :=
  Entries.perm_of_get (heldQuantities_distinct _) hheld.distinct (h.get_heldTexts hheld)

end Hash

/-! ## The lines -/

/-- One map has one list of lines, in whatever order its entries come. -/
theorem toCartLines_of_perm {collates : String → String → Bool} {held held' : Held}
    (hcoll : Collation collates (held.map Prod.fst)) (hdistinct : Entries.Distinct held)
    (h : held.Perm held') : toCartLines collates held = toCartLines collates held' := by
  let r : CartLine → CartLine → Prop := fun a b => collates a.productId b.productId = true
  have htotal : Std.Total r := ⟨fun a b => hcoll.total _ _⟩
  have htrans : IsTrans CartLine r := ⟨fun a b c => hcoll.trans _ _ _⟩
  have hline : ∀ line ∈ toCartLines collates held, ∃ entry ∈ held, line = ⟨entry.1, entry.2⟩ := by
    intro line hl
    obtain ⟨entry, he, rfl⟩ := List.mem_map.mp ((List.mem_insertionSort r).mp hl)
    exact ⟨entry, he, rfl⟩
  have hperm : (toCartLines collates held).Perm (toCartLines collates held') := by
    refine (List.perm_insertionSort r _).trans ((h.map _).trans ?_)
    exact (List.perm_insertionSort r _).symm
  refine hperm.eq_of_pairwise ?_ (List.pairwise_insertionSort r _) (List.pairwise_insertionSort r _)
  intro a b ha hb hab hba
  obtain ⟨entry, he, rfl⟩ := hline a ha
  obtain ⟨entry', he', rfl⟩ := hline b (hperm.mem_iff.mpr hb)
  have hkey : entry.1 = entry'.1 := hcoll.strict _ (List.mem_map_of_mem he) _
    (List.mem_map_of_mem he') hab hba
  have hsame : entry = entry' := List.inj_on_of_nodup_map hdistinct he he' hkey
  rw [hsame]

/-- What `commit` answers: the lines that are to be held. -/
theorem commit_answers {collates : String → String → Bool} {held : Held}
    {items : List (String × String)} (h : Stores items held) (hheld : ProperHeld held)
    (hcoll : Collation collates (held.map Prod.fst)) :
    toCartLines collates (heldTexts (pairs (flat items))) = toCartLines collates held := by
  rw [pairs_flat]
  exact (toCartLines_of_perm hcoll hheld.distinct (h.perm hheld).symm).symm

/-! ## Reachable carts -/

/-- A hash as updates leave it: few fields, all of positive quantities of named products. -/
structure Fit (items : List (String × String)) : Prop where
  held : ∃ held, ProperHeld held ∧ Stores items held
  few : items.length ≤ MAX_BULK_LINES

theorem stores_length {items : List (String × String)} {held : Held} (h : Stores items held)
    (hheld : ProperHeld held) : items.length = held.length := by
  have hkeys : (items.map Prod.fst).Perm (held.map Prod.fst) := by
    refine (List.perm_ext_iff_of_nodup h.distinct hheld.distinct).mpr fun p => ?_
    constructor
    · intro hp
      obtain ⟨entry, he, rfl⟩ := List.mem_map.mp hp
      have hget := h.fields entry.1
      rw [Entries.get_of_mem h.distinct (show (entry.1, entry.2) ∈ items from he)] at hget
      obtain ⟨n, hn, -⟩ := Option.map_eq_some_iff.mp hget.symm
      exact List.mem_map_of_mem (f := Prod.fst) (Entries.mem_of_get hn)
    · intro hp
      obtain ⟨entry, he, rfl⟩ := List.mem_map.mp hp
      have hget := h.fields entry.1
      rw [Entries.get_of_mem hheld.distinct (show (entry.1, entry.2) ∈ held from he)] at hget
      exact List.mem_map_of_mem (f := Prod.fst) (Entries.mem_of_get hget)
  have hlen := hkeys.length_eq
  rwa [List.length_map, List.length_map] at hlen

theorem stores_nil : Stores [] [] := ⟨List.nodup_nil, fun _ => rfl⟩

theorem properHeld_nil : ProperHeld [] where
  distinct := List.nodup_nil
  positive := fun entry he => by cases he
  named := fun entry he => by cases he
  doubles := fun entry he => by cases he

/-- What is read of a hash is proper. -/
theorem Stores.read_proper {items : List (String × String)} {held : Held} (h : Stores items held)
    (hheld : ProperHeld held) : ProperHeld (heldTexts items) := by
  have hmem : ∀ entry ∈ heldTexts items, entry ∈ held := fun entry he =>
    (h.perm hheld).mem_iff.mp he
  exact ⟨heldQuantities_distinct _, fun entry he => hheld.positive entry (hmem entry he),
    fun entry he => hheld.named entry (hmem entry he),
    fun entry he => hheld.doubles entry (hmem entry he)⟩

theorem ProperHeld.filter {held : Held} (h : ProperHeld held) (kept : String × Nat → Bool) :
    ProperHeld (held.filter kept) where
  distinct := h.distinct.sublist (List.filter_sublist.map _)
  positive := fun entry he => h.positive entry (List.mem_filter.mp he).1
  named := fun entry he => h.named entry (List.mem_filter.mp he).1
  doubles := fun entry he => h.doubles entry (List.mem_filter.mp he).1

/-- Where nothing is stored any more, only what is written is there, and all of it is to be held. -/
theorem committedTexts_lost {held : Held} {requested : List CartLine} (hheld : ProperHeld held)
    (hreq : ProperRequest requested) :
    Stores (committedTexts [] (planChanges held requested))
      ((settledBy held requested).filter fun entry =>
        (Entries.get (committedTexts [] (planChanges held requested)) entry.1).isSome) := by
  refine ⟨committedTexts_distinct stores_nil.distinct _, fun p => ?_⟩
  rw [Entries.get_filter fun key =>
    (Entries.get (committedTexts [] (planChanges held requested)) key).isSome]
  rcases get_committedTexts hheld hreq [] p with hget | ⟨hget, -⟩
  · rw [hget]
    cases Entries.get (settledBy held requested) p with
    | none => rfl
    | some n => rfl
  · rw [hget]
    rfl

/-- What is held and lost between the read and the commit is not held after it. -/
theorem Fit.updated {items base : List (String × String)} {requested : List CartLine}
    (h : Fit items) (hbase : base = items ∨ base = []) (hreq : ProperRequest requested)
    (hsize : exceedsBulkLimit (planChanges (heldTexts items) requested) = false) :
    Fit (committedTexts base (planChanges (heldTexts items) requested)) := by
  obtain ⟨⟨held, hheld, hstores⟩, hfew⟩ := h
  have hread := hstores.read_proper hheld
  have hproper := settledBy_proper hread hreq
  have hlen : (settledBy (heldTexts items) requested).length ≤ MAX_BULK_LINES := by
    rw [← planned_size hread hreq]
    exact not_lt.mp (of_decide_eq_false hsize)
  rcases hbase with rfl | rfl
  · have hstores' : Stores base (heldTexts base) := by
      refine ⟨hstores.distinct, fun p => ?_⟩
      rw [hstores.get_heldTexts hheld, hstores.fields]
    have hcommit := committedTexts_stores hread hreq hstores'
    refine ⟨⟨_, hproper, hcommit⟩, ?_⟩
    rw [stores_length hcommit hproper]
    exact hlen
  · have hleft := committedTexts_lost hread hreq
    refine ⟨⟨_, hproper.filter _, hleft⟩, ?_⟩
    rw [stores_length hleft (hproper.filter _)]
    exact (List.length_filter_le _ _).trans hlen

theorem CartReachable.fit {items : List (String × String)} (h : CartReachable items) :
    Fit items := by
  induction h with
  | empty => exact ⟨⟨[], properHeld_nil, stores_nil⟩, Nat.zero_le _⟩
  | ended _ _ => exact ⟨⟨[], properHeld_nil, stores_nil⟩, Nat.zero_le _⟩
  | updated _ hbase hnamed hdoubles hdup hsize _ hrun ih =>
    rw [commit_runs] at hrun
    cases hrun
    exact ih.updated hbase ⟨nodup_of_no_duplicates hdup, hnamed, hdoubles⟩ hsize

/-- The commit settles every update, and no cart outgrows one bulk call; whether the plan does is
down to the differences. -/
theorem update_settles_iff {held : Held} {requested : List CartLine} (hheld : ProperHeld held)
    (hreq : ProperRequest requested) :
    UpdateSettles held requested ↔ DifferencesHeld held requested := by
  refine ⟨fun h => (planChanges_settles_iff hheld hreq).mp h.plan, fun h => ?_⟩
  refine ⟨(planChanges_settles_iff hheld hreq).mpr h, ?_, ?_⟩
  · intro collates cart sessionTtl itemsTtl dueAt items hstores hcoll
    have hcommit := committedTexts_stores hheld hreq hstores
    have hproper := settledBy_proper hheld hreq
    exact ⟨_, _, commit_runs cart sessionTtl itemsTtl dueAt _ items, hcommit,
      commit_answers hcommit hproper hcoll⟩
  · intro items hreach
    obtain ⟨⟨held', hheld', hstores⟩, hfew⟩ := hreach.fit
    refine ⟨hfew, fun entry he => ?_⟩
    have hget := hstores.fields entry.1
    rw [Entries.get_of_mem hstores.distinct (show (entry.1, entry.2) ∈ items from he)] at hget
    obtain ⟨n, hn, htext⟩ := Option.map_eq_some_iff.mp hget.symm
    exact ⟨n, hheld'.positive _ (Entries.mem_of_get hn), htext.symm⟩

/-- Two lamps held, and a request that swaps them for three chairs. -/
theorem update_settles_swap :
    PlanSettles [("lamp", 2)] [⟨"lamp", 0⟩, ⟨"chair", 3⟩]
        (planChanges [("lamp", 2)] [⟨"lamp", 0⟩, ⟨"chair", 3⟩]) ∧
      ∃ items' reply,
        Script.CART_COMMIT (CartRepository.commitArguments ⟨"cart", rfl⟩ 60 360 0
          (planChanges [("lamp", 2)] [⟨"lamp", 0⟩, ⟨"chair", 3⟩])) [("lamp", "2")] =
            some (items', reply) ∧
        Stores items' [("chair", 3)] ∧
        toCartLines (fun a b => decide (a ≤ b)) (heldTexts (pairs reply)) = [⟨"chair", 3⟩] := by
  have hheld : ProperHeld [("lamp", 2)] :=
    ⟨by decide, by decide, by decide, by decide +kernel⟩
  have hreq : ProperRequest [⟨"lamp", 0⟩, ⟨"chair", 3⟩] := ⟨by decide, by decide, by decide +kernel⟩
  have hdifferences : DifferencesHeld [("lamp", 2)] [⟨"lamp", 0⟩, ⟨"chair", 3⟩] := by
    decide +kernel
  have htext : stringOf 2 = "2" := by decide +kernel
  have hstores : Stores [("lamp", "2")] [("lamp", 2)] := by
    refine ⟨by decide, fun p => ?_⟩
    by_cases hp : "lamp" = p
    · subst hp
      show some "2" = some (stringOf 2)
      rw [htext]
    · simp [Entries.get, hp]
  have hcoll : Collation (fun a b => decide (a ≤ b))
      ((settledBy [("lamp", 2)] [⟨"lamp", 0⟩, ⟨"chair", 3⟩]).map Prod.fst) := by
    refine ⟨fun a b => ?_, fun a b c h h' => ?_, fun a _ b _ h h' => ?_⟩
    · exact (String.le_total a b).imp decide_eq_true decide_eq_true
    · exact decide_eq_true (String.le_trans (of_decide_eq_true h) (of_decide_eq_true h'))
    · exact String.le_antisymm (of_decide_eq_true h) (of_decide_eq_true h')
  obtain ⟨hplan, hcommit, -⟩ := (update_settles_iff hheld hreq).mpr hdifferences
  exact ⟨hplan, hcommit _ ⟨"cart", rfl⟩ 60 360 0 _ hstores hcoll⟩

/-- One lamp held, and a request for 2^53 + 2 of them: the difference is 2^53 + 1, which is rounded
to 2^53, and one of the lamps the cart then lists was not reserved. -/
theorem update_rounds :
    (ProperHeld [("lamp", 1)] ∧ ProperRequest [⟨"lamp", 9007199254740994⟩]) ∧
    (planChanges [("lamp", 1)] [⟨"lamp", 9007199254740994⟩]).reserve =
      [⟨"lamp", 9007199254740992⟩] ∧
    ¬ UpdateSettles [("lamp", 1)] [⟨"lamp", 9007199254740994⟩] := by
  have hreserve : (planChanges [("lamp", 1)] [⟨"lamp", 9007199254740994⟩]).reserve =
      [⟨"lamp", 9007199254740992⟩] := by decide +kernel
  refine ⟨⟨⟨by decide, by decide, by decide, by decide +kernel⟩,
    ⟨by decide, by decide, by decide +kernel⟩⟩, hreserve, fun h => ?_⟩
  have hbalance := h.plan.balance "lamp"
  rw [hreserve] at hbalance
  revert hbalance
  decide +kernel

end PracticalMicroservice.Cart
