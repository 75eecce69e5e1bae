import PracticalMicroservice.Inventory.Listing
import Mathlib.Data.List.Pairwise

/-!
# When the low-stock listing is complete

The repository of the tests filters and then cuts pages; the database is asked for a page, which is
filtered. The two are the same only if the filter leaves nothing of what comes after the page.
-/

namespace PracticalMicroservice.Inventory

open Foundations (page pageCount page_sublist page_zero page_eq_self eq_page_iff pageCount_eq_one
  flatMap_page le_pageCount length_page full_of_lt_pageCount insertionSort_congr)
open Foundations.Json (utf16)
open PrismaInventoryRepository (keyLE orderBy selected)

/-! ## The order of a listing -/

section Order

variable {le : String → String → Prop} {sortBy : SortField} {order : SortOrder}
  {a b c : InventoryItem}

theorem keyLE_total (htotal : ∀ a b, le a b ∨ le b a) (a b : InventoryItem) :
    keyLE le sortBy a b ∨ keyLE le sortBy b a := by
  cases sortBy with
  | createdAt => exact Nat.le_total a.createdAt b.createdAt
  | sku => exact htotal a.sku b.sku
  | quantity => exact Int.le_total a.quantity b.quantity

theorem keyLE_trans (htrans : ∀ a b c, le a b → le b c → le a c) (hab : keyLE le sortBy a b)
    (hbc : keyLE le sortBy b c) : keyLE le sortBy a c := by
  cases sortBy with
  | createdAt => exact Nat.le_trans hab hbc
  | sku => exact htrans _ _ _ hab hbc
  | quantity => exact Int.le_trans hab hbc

theorem keyLE_antisymm (hantisymm : ∀ a b, le a b → le b a → a = b) (hab : keyLE le sortBy a b)
    (hba : keyLE le sortBy b a) : SameKey sortBy a b := by
  cases sortBy with
  | createdAt => exact Nat.le_antisymm hab hba
  | sku => exact hantisymm _ _ hab hba
  | quantity => exact Int.le_antisymm hab hba

theorem SameKey.symm (h : SameKey sortBy a b) : SameKey sortBy b a := by
  cases sortBy with
  | createdAt => exact Eq.symm h
  | sku => exact Eq.symm h
  | quantity => exact Eq.symm h

instance (text : PostgresText) : Std.Total (orderBy text.le sortBy order) where
  total a b := by
    cases order with
    | asc => exact keyLE_total text.total a b
    | desc => exact keyLE_total text.total b a

instance (text : PostgresText) : IsTrans InventoryItem (orderBy text.le sortBy order) where
  trans a b c hab hbc := by
    cases order with
    | asc => exact keyLE_trans text.trans hab hbc
    | desc => exact keyLE_trans text.trans hbc hab

theorem KeysDistinct.eq {items : List InventoryItem} (h : KeysDistinct sortBy items)
    (ha : a ∈ items) (hb : b ∈ items) (hab : SameKey sortBy a b) : a = b := by
  have : Std.Symm fun a b : InventoryItem => ¬ SameKey sortBy a b :=
    ⟨fun _ _ hxy hyx => hxy hyx.symm⟩
  by_contra hne
  exact List.Pairwise.forall h ha hb hne hab

theorem SameKey.refl (a : InventoryItem) : SameKey sortBy a a := by
  cases sortBy with
  | createdAt => rfl
  | sku => rfl
  | quantity => rfl

theorem KeysDistinct.nodup {items : List InventoryItem} (h : KeysDistinct sortBy items) :
    items.Nodup := by
  refine h.imp fun {a b} hab he => hab ?_
  rw [he]
  exact .refl b

/-- Items without a key in common are in one order only. -/
theorem orderBy_antisymm (text : PostgresText) {items : List InventoryItem}
    (h : KeysDistinct sortBy items) (ha : a ∈ items) (hb : b ∈ items)
    (hab : orderBy text.le sortBy order a b) (hba : orderBy text.le sortBy order b a) : a = b := by
  cases order with
  | asc => exact h.eq ha hb (keyLE_antisymm text.antisymm hab hba)
  | desc => exact h.eq ha hb (keyLE_antisymm text.antisymm hba hab)

/-- What the comparison function of the tests' repository compares. -/
theorem comparison_le_iff : InMemoryInventoryRepository.comparison sortBy order a b ≤ 0 ↔
    orderBy (fun s t => utf16 s ≤ utf16 t) sortBy order a b := by
  have hkey (a b : InventoryItem) : ¬ InMemoryInventoryRepository.keyLT sortBy b a ↔
      keyLE (fun s t => utf16 s ≤ utf16 t) sortBy a b := by
    cases sortBy with
    | createdAt => exact Nat.not_lt
    | sku => exact not_lt
    | quantity => exact Int.not_lt
  have hasymm : InMemoryInventoryRepository.keyLT sortBy a b →
      ¬ InMemoryInventoryRepository.keyLT sortBy b a := by
    cases sortBy with
    | createdAt => exact Nat.lt_asymm
    | sku => exact lt_asymm
    | quantity => exact Int.lt_asymm
  unfold InMemoryInventoryRepository.comparison
  cases order with
  | asc =>
    show _ ↔ keyLE (fun s t => utf16 s ≤ utf16 t) sortBy a b
    rw [← hkey a b]
    by_cases hab : InMemoryInventoryRepository.keyLT sortBy a b
    · simp [hab, hasymm hab]
    · by_cases hba : InMemoryInventoryRepository.keyLT sortBy b a
      · simp [hab, hba]
      · simp [hab, hba]
  | desc =>
    show _ ↔ keyLE (fun s t => utf16 s ≤ utf16 t) sortBy b a
    rw [← hkey b a]
    by_cases hab : InMemoryInventoryRepository.keyLT sortBy a b
    · simp [hab]
    · by_cases hba : InMemoryInventoryRepository.keyLT sortBy b a
      · simp [hab, hba]
      · simp [hab, hba]

end Order

/-! ## What is selected -/

section Selected

variable {text : PostgresText} {query : ListInventoryQuery} {rows : List InventoryItem}

theorem mem_selected {item : InventoryItem} : item ∈ selected text query rows ↔
    item ∈ rows ∧ PrismaInventoryRepository.selects text query item = true := by
  unfold selected
  rw [List.mem_insertionSort, List.mem_filter]

theorem selected_nodup (h : KeysDistinct query.sortBy rows) :
    (selected text query rows).Nodup :=
  (List.perm_insertionSort _ _).nodup_iff.mpr (h.nodup.filter _)

theorem selected_pairwise :
    (selected text query rows).Pairwise (orderBy text.le query.sortBy query.order) :=
  List.pairwise_insertionSort _ _

/-- Of the items that are low, those that match the query are the ones among the first `limit` the
database selects. -/
def LowOnFirstPage (text : PostgresText) (query : ListInventoryQuery)
    (rows : List InventoryItem) : Prop :=
  ∀ item ∈ rows, item.low = true →
    (query.wants text item = true ↔ item ∈ (selected text query rows).take query.limit)

/-- Then, and only then, the first page of what is selected has what is wanted. -/
theorem lowOnFirstPage_iff (h : KeysDistinct query.sortBy rows) :
    LowOnFirstPage text query rows ↔
      (((selected text query rows).take query.limit).filter InventoryItem.low).Perm
        (rows.filter fun item => query.wants text item && item.low) := by
  have hread {item : InventoryItem} :
      item ∈ ((selected text query rows).take query.limit).filter InventoryItem.low ↔
        item ∈ (selected text query rows).take query.limit ∧ item.low = true :=
    List.mem_filter
  have hwanted {item : InventoryItem} :
      item ∈ (rows.filter fun item => query.wants text item && item.low) ↔
        item ∈ rows ∧ query.wants text item = true ∧ item.low = true := by
    rw [List.mem_filter, Bool.and_eq_true]
  have hrow {item : InventoryItem} (hi : item ∈ (selected text query rows).take query.limit) :
      item ∈ rows :=
    (mem_selected.mp (List.mem_of_mem_take hi)).1
  have hnodup : (((selected text query rows).take query.limit).filter InventoryItem.low).Nodup :=
    ((List.take_sublist _ _).nodup (selected_nodup h)).filter _
  rw [List.perm_ext_iff_of_nodup hnodup (h.nodup.filter _)]
  constructor
  · intro hlow item
    rw [hread, hwanted]
    constructor
    · rintro ⟨hi, hl⟩
      exact ⟨hrow hi, (hlow item (hrow hi) hl).mpr hi, hl⟩
    · rintro ⟨hi, hw, hl⟩
      exact ⟨(hlow item hi hl).mp hw, hl⟩
  · intro hsame item hi hl
    have hitem := hsame item
    rw [hread, hwanted] at hitem
    exact ⟨fun hw => (hitem.mpr ⟨hi, hw, hl⟩).1, fun hp => (hitem.mp ⟨hp, hl⟩).2.1⟩

end Selected

/-! ## Paging -/

section Paging

variable {text : PostgresText} {query : ListInventoryQuery} {rows : List InventoryItem}

/-- The items of a page of the database's low-stock listing. -/
theorem list_onPage (hlow : query.lowStock = some true) (k : Nat) :
    PrismaInventoryRepository.list text rows (query.onPage k) =
      { items := (page query.limit (selected text query rows) k).filter InventoryItem.low
        total := ((page query.limit (selected text query rows) k).filter
          InventoryItem.low).length } := by
  unfold PrismaInventoryRepository.list
  exact if_pos hlow

/-- The pages of the low-stock listing are as they should be exactly if all it has to list is found
on the first page of what the other filters select. -/
theorem lists_iff (hdistinct : KeysDistinct query.sortBy rows) (hlow : query.lowStock = some true) :
    Lists (PrismaInventoryRepository.list text rows) query
      (rows.filter fun item => query.wants text item && item.low) ↔
    LowOnFirstPage text query rows := by
  rw [lowOnFirstPage_iff hdistinct]
  -- the first page says how many are wanted, so they fit on one page
  have hshort {wanted : List InventoryItem}
      (h : (((selected text query rows).take query.limit).filter InventoryItem.low).length =
        wanted.length) : pageCount query.limit wanted.length = 1 := by
    refine pageCount_eq_one ?_
    rw [← h]
    exact (List.length_filter_le _ _).trans (List.length_take_le _ _)
  constructor
  · intro h
    have hone : 0 < pageCount query.limit
        (rows.filter fun item => query.wants text item && item.low).length :=
      Nat.lt_of_lt_of_le Nat.one_pos (Nat.le_max_left 1 _)
    have htotal := h.total 0 hone
    rw [list_onPage hlow, page_zero] at htotal
    have hcomplete := h.complete
    rw [hshort htotal, List.range_one, List.flatMap_singleton, list_onPage hlow, page_zero]
      at hcomplete
    exact hcomplete
  · intro h
    have hcount := hshort h.length_eq
    refine ⟨?_, fun k hk => ?_, fun k hk => ?_⟩
    · rw [hcount, List.range_one, List.flatMap_singleton, list_onPage hlow, page_zero]
      exact h
    · rw [hcount] at hk
      omega
    · rw [hcount] at hk
      obtain rfl : k = 0 := by omega
      rw [list_onPage hlow, page_zero]
      exact h.length_eq

variable (text query) in
/-- The repository of the tests, on any page. -/
theorem memory_list_eq (toLowerCase : String → String)
    (hcollation : ∀ a ∈ rows, ∀ b ∈ rows, text.le a.sku b.sku ↔ utf16 a.sku ≤ utf16 b.sku)
    {wanted : List InventoryItem}
    (hwanted : wanted = if query.lowStock = some true then
      (rows.filter (InMemoryInventoryRepository.selects toLowerCase query)).filter
        InventoryItem.low
      else rows.filter (InMemoryInventoryRepository.selects toLowerCase query)) :
    InMemoryInventoryRepository.list toLowerCase rows query =
      { items := page query.limit (wanted.insertionSort
          (orderBy text.le query.sortBy query.order)) (query.page - 1)
        total := wanted.length } := by
  have hmem : ∀ a ∈ wanted, a ∈ rows := by
    intro a ha
    rw [hwanted] at ha
    split at ha
    · exact List.mem_of_mem_filter (List.mem_of_mem_filter ha)
    · exact List.mem_of_mem_filter ha
  have hkey (sortBy : SortField) (a b : InventoryItem) (ha : a ∈ rows) (hb : b ∈ rows) :
      keyLE (fun s t => utf16 s ≤ utf16 t) sortBy a b ↔ keyLE text.le sortBy a b := by
    cases sortBy with
    | createdAt => exact Iff.rfl
    | sku => exact (hcollation a ha b hb).symm
    | quantity => exact Iff.rfl
  have hsort : wanted.insertionSort
      (fun a b => InMemoryInventoryRepository.comparison query.sortBy query.order a b ≤ 0) =
      wanted.insertionSort (orderBy text.le query.sortBy query.order) := by
    refine insertionSort_congr fun a ha b hb => comparison_le_iff.trans ?_
    cases query.order with
    | asc => exact hkey _ a b (hmem a ha) (hmem b hb)
    | desc => exact hkey _ b a (hmem b hb) (hmem a ha)
  have hlist : InMemoryInventoryRepository.list toLowerCase rows query =
      { items := page query.limit (wanted.insertionSort fun a b =>
          InMemoryInventoryRepository.comparison query.sortBy query.order a b ≤ 0) (query.page - 1)
        total := (wanted.insertionSort fun a b =>
          InMemoryInventoryRepository.comparison query.sortBy query.order a b ≤ 0).length } := by
    rw [hwanted]
    rfl
  rw [hlist, hsort, List.length_insertionSort]

end Paging

/-! ## Agreement -/

section Agreement

variable {text : PostgresText} {toLowerCase : String → String} {query : ListInventoryQuery}
  {rows : List InventoryItem}

/-- When the two repositories are to give one answer: the same items match, and of those that are
low, if only they are asked for, the page the database reads has all, and unless there are none the
page is the first. -/
def Agrees (text : PostgresText) (toLowerCase : String → String) (query : ListInventoryQuery)
    (rows : List InventoryItem) : Prop :=
  if query.lowStock = some true then
    (∀ item ∈ rows, item.low = true →
      (InMemoryInventoryRepository.selects toLowerCase query item = true ↔
        item ∈ page query.limit (selected text query rows) (query.page - 1))) ∧
    (query.page = 1 ∨ ∀ item ∈ rows,
      InMemoryInventoryRepository.selects toLowerCase query item = true → item.low = false)
  else ∀ item ∈ rows, PrismaInventoryRepository.selects text query item =
    InMemoryInventoryRepository.selects toLowerCase query item

/-- The database matches whatever the repository of the tests does. -/
theorem selects_of_selects
    (hkept : ∀ item ∈ rows, uuidText item.productId = item.productId)
    (hcontains : ∀ item ∈ rows, ∀ needle, text.contains item.sku needle =
      InMemoryInventoryRepository.containsInsensitive toLowerCase item.sku needle)
    {item : InventoryItem} (hi : item ∈ rows)
    (h : InMemoryInventoryRepository.selects toLowerCase query item = true) :
    PrismaInventoryRepository.selects text query item = true := by
  unfold InMemoryInventoryRepository.selects at h
  unfold PrismaInventoryRepository.selects
  simp only [Bool.and_eq_true, Option.all_eq_true] at h ⊢
  obtain ⟨⟨⟨hsku, hid⟩, hids⟩, hwarehouse⟩ := h
  refine ⟨⟨fun needle hn => ?_, ?_⟩, hwarehouse⟩
  · rw [hcontains item hi]
    exact hsku needle hn
  · cases hq : query.productIds with
    | some ids =>
      have hmem := List.contains_iff_mem.mp (hids ids hq)
      exact List.contains_iff_mem.mpr (List.mem_map.mpr ⟨item.productId, hmem, hkept item hi⟩)
    | none =>
      simp only [Option.all_eq_true]
      intro id hproduct
      have he := eq_of_beq (hid id hproduct)
      rw [← he, hkept item hi]
      exact beq_self_eq_true _

/-- Without `lowStock` the answers are the same exactly if the same items match. -/
theorem plain_agree_iff
    (hkept : ∀ item ∈ rows, uuidText item.productId = item.productId)
    (hcontains : ∀ item ∈ rows, ∀ needle, text.contains item.sku needle =
      InMemoryInventoryRepository.containsInsensitive toLowerCase item.sku needle)
    (hcollation : ∀ a ∈ rows, ∀ b ∈ rows, text.le a.sku b.sku ↔ utf16 a.sku ≤ utf16 b.sku)
    (hlow : query.lowStock ≠ some true) :
    PrismaInventoryRepository.list text rows query =
        InMemoryInventoryRepository.list toLowerCase rows query ↔
      ∀ item ∈ rows, PrismaInventoryRepository.selects text query item =
        InMemoryInventoryRepository.selects toLowerCase query item := by
  have hmemory := memory_list_eq text query toLowerCase hcollation rfl
  rw [if_neg hlow] at hmemory
  have hprisma : PrismaInventoryRepository.list text rows query =
      { items := page query.limit (selected text query rows) (query.page - 1)
        total := (selected text query rows).length } := if_neg hlow
  rw [hmemory, hprisma]
  constructor
  · intro h
    have htotal : (selected text query rows).length =
      (rows.filter (InMemoryInventoryRepository.selects toLowerCase query)).length :=
      congrArg Paginated.total h
    unfold selected at htotal
    rw [List.length_insertionSort] at htotal
    have hboth : rows.filter (InMemoryInventoryRepository.selects toLowerCase query) =
        (rows.filter (PrismaInventoryRepository.selects text query)).filter
          (InMemoryInventoryRepository.selects toLowerCase query) := by
      rw [List.filter_filter]
      refine List.filter_congr fun item hi => ?_
      cases hs : InMemoryInventoryRepository.selects toLowerCase query item with
      | false => rfl
      | true => rw [selects_of_selects hkept hcontains hi hs]; rfl
    have hall : ∀ item ∈ rows.filter (PrismaInventoryRepository.selects text query),
        InMemoryInventoryRepository.selects toLowerCase query item = true := by
      refine List.filter_eq_self.mp (List.filter_sublist.eq_of_length ?_)
      rw [← hboth]
      exact htotal.symm
    intro item hi
    cases hs : PrismaInventoryRepository.selects text query item with
    | true => exact (hall item (List.mem_filter.mpr ⟨hi, hs⟩)).symm
    | false =>
      cases hm : InMemoryInventoryRepository.selects toLowerCase query item with
      | false => rfl
      | true =>
        rw [selects_of_selects hkept hcontains hi hm] at hs
        cases hs
  · intro h
    unfold selected
    rw [List.filter_congr h, List.length_insertionSort]

variable (text query rows) in
/-- What is low on the page that the database reads. -/
def lowRead : List InventoryItem :=
  (page query.limit (selected text query rows) (query.page - 1)).filter InventoryItem.low

variable (text toLowerCase query rows) in
/-- All that is low of what the repository of the tests finds, in the order of the database. -/
def lowFound : List InventoryItem :=
  ((rows.filter (InMemoryInventoryRepository.selects toLowerCase query)).filter
    InventoryItem.low).insertionSort (orderBy text.le query.sortBy query.order)

theorem mem_lowRead {item : InventoryItem} :
    item ∈ lowRead text query rows ↔ item ∈ rows ∧ item.low = true ∧
      item ∈ page query.limit (selected text query rows) (query.page - 1) := by
  unfold lowRead
  rw [List.mem_filter]
  constructor
  · rintro ⟨hp, hl⟩
    exact ⟨(mem_selected.mp (page_sublist.subset hp)).1, hl, hp⟩
  · rintro ⟨-, hl, hp⟩
    exact ⟨hp, hl⟩

theorem mem_lowFound {item : InventoryItem} :
    item ∈ lowFound text toLowerCase query rows ↔ item ∈ rows ∧ item.low = true ∧
      InMemoryInventoryRepository.selects toLowerCase query item = true := by
  unfold lowFound
  rw [List.mem_insertionSort, List.mem_filter, List.mem_filter]
  constructor
  · rintro ⟨⟨hi, hs⟩, hl⟩
    exact ⟨hi, hl, hs⟩
  · rintro ⟨hi, hl, hs⟩
    exact ⟨⟨hi, hs⟩, hl⟩

/-- Both are sorted, and have nothing twice, so they are one list exactly if they have the same. -/
theorem lowRead_eq_iff (hdistinct : KeysDistinct query.sortBy rows) :
    lowRead text query rows = lowFound text toLowerCase query rows ↔
      ∀ item ∈ rows, item.low = true →
        (InMemoryInventoryRepository.selects toLowerCase query item = true ↔
          item ∈ page query.limit (selected text query rows) (query.page - 1)) := by
  constructor
  · intro he item hi hl
    have hsame : item ∈ lowRead text query rows ↔
        item ∈ lowFound text toLowerCase query rows := by rw [he]
    rw [mem_lowRead, mem_lowFound] at hsame
    constructor
    · intro hs
      exact (hsame.mpr ⟨hi, hl, hs⟩).2.2
    · intro hp
      exact (hsame.mp ⟨hi, hl, hp⟩).2.2
  · intro hsame
    have hread : (lowRead text query rows).Nodup :=
      (page_sublist.nodup (selected_nodup hdistinct)).filter _
    have hfound : (lowFound text toLowerCase query rows).Nodup :=
      (List.perm_insertionSort _ _).nodup_iff.mpr ((hdistinct.nodup.filter _).filter _)
    have hperm : (lowRead text query rows).Perm (lowFound text toLowerCase query rows) := by
      refine (List.perm_ext_iff_of_nodup hread hfound).mpr fun item => ?_
      rw [mem_lowRead, mem_lowFound]
      refine and_congr_right fun hi => and_congr_right fun hl => ?_
      exact (hsame item hi hl).symm
    have hsorted : (lowRead text query rows).Pairwise
        (orderBy text.le query.sortBy query.order) :=
      (selected_pairwise.sublist page_sublist).filter _
    refine List.Perm.eq_of_pairwise ?_ hsorted (List.pairwise_insertionSort _ _) hperm
    intro a b ha hb
    exact orderBy_antisymm text hdistinct (mem_lowRead.mp ha).1 (mem_lowFound.mp hb).1

/-- A page has no more than its limit, of what is low too. -/
theorem length_lowRead_le : (lowRead text query rows).length ≤ query.limit :=
  (List.length_filter_le _ _).trans (List.length_take_le _ _)

theorem lowFound_eq_nil_iff : lowFound text toLowerCase query rows = [] ↔
    ∀ item ∈ rows, InMemoryInventoryRepository.selects toLowerCase query item = true →
      item.low = false := by
  rw [List.eq_nil_iff_forall_not_mem]
  constructor
  · intro hnone item hi hs
    refine Bool.eq_false_iff.mpr fun hl => ?_
    exact hnone item (mem_lowFound.mpr ⟨hi, hl, hs⟩)
  · intro hnone item hmem
    obtain ⟨hi, hl, hs⟩ := mem_lowFound.mp hmem
    rw [hnone item hi hs] at hl
    cases hl

/-- With `lowStock` they are the same exactly if the page that is read has all that is low. -/
theorem low_agree_iff (hdistinct : KeysDistinct query.sortBy rows)
    (hcollation : ∀ a ∈ rows, ∀ b ∈ rows, text.le a.sku b.sku ↔ utf16 a.sku ≤ utf16 b.sku)
    (hlow : query.lowStock = some true) :
    PrismaInventoryRepository.list text rows query =
        InMemoryInventoryRepository.list toLowerCase rows query ↔
      Agrees text toLowerCase query rows := by
  have hmemory : InMemoryInventoryRepository.list toLowerCase rows query =
      { items := page query.limit (lowFound text toLowerCase query rows) (query.page - 1)
        total := (lowFound text toLowerCase query rows).length } := by
    have h := memory_list_eq text query toLowerCase hcollation rfl
    rw [if_pos hlow] at h
    unfold lowFound
    rw [h, List.length_insertionSort]
  have hprisma : PrismaInventoryRepository.list text rows query =
      { items := lowRead text query rows, total := (lowRead text query rows).length } :=
    if_pos hlow
  have hpaged := query.paged
  rw [hmemory, hprisma, Paginated.mk.injEq, eq_page_iff, page_eq_self query.limited,
    lowRead_eq_iff hdistinct, lowFound_eq_nil_iff]
  unfold Agrees
  rw [if_pos hlow]
  constructor
  · rintro ⟨hsame, hnone | ⟨hfirst, -⟩⟩
    · exact ⟨hsame, .inr hnone⟩
    · exact ⟨hsame, .inl (by omega)⟩
  · rintro ⟨hsame, hfirst | hnone⟩
    · refine ⟨hsame, .inr ⟨by omega, ?_⟩⟩
      rw [← (lowRead_eq_iff hdistinct).mpr hsame]
      exact length_lowRead_le
    · exact ⟨hsame, .inl hnone⟩

/-- The repository of the tests lists what it should, on every page. -/
theorem memory_lists
    (hcollation : ∀ a ∈ rows, ∀ b ∈ rows, text.le a.sku b.sku ↔ utf16 a.sku ≤ utf16 b.sku)
    (hlow : query.lowStock = some true) :
    Lists (InMemoryInventoryRepository.list toLowerCase rows) query
      ((rows.filter (InMemoryInventoryRepository.selects toLowerCase query)).filter
        InventoryItem.low) := by
  have hmemory (k : Nat) := memory_list_eq text (query.onPage k) toLowerCase hcollation rfl
  have hlow' (k : Nat) : (query.onPage k).lowStock = some true := hlow
  simp only [if_pos (hlow' _)] at hmemory
  generalize hwanted : (rows.filter (InMemoryInventoryRepository.selects toLowerCase
    query)).filter InventoryItem.low = wanted
  have hpage (k : Nat) : InMemoryInventoryRepository.list toLowerCase rows (query.onPage k) =
      { items := page query.limit (wanted.insertionSort
          (orderBy text.le query.sortBy query.order)) k
        total := wanted.length } := by
    rw [← hwanted]
    exact hmemory k
  refine ⟨?_, fun k hk => ?_, fun k _ => ?_⟩
  · simp only [hpage]
    rw [flatMap_page, List.take_of_length_le]
    · exact List.perm_insertionSort _ _
    · rw [List.length_insertionSort]
      exact le_pageCount query.limited _
  · rw [hpage]
    refine length_page ?_
    rw [List.length_insertionSort]
    exact full_of_lt_pageCount query.limited hk
  · rw [hpage]

end Agreement

/-! ## Two items, of which one is low -/

/-- Texts as the repository of the tests searches and orders them. -/
def plainText : PostgresText where
  contains := InMemoryInventoryRepository.containsInsensitive String.toLower
  le s t := utf16 s ≤ utf16 t
  decidable _ _ := inferInstance
  total a b := le_total (utf16 a) (utf16 b)
  trans _ _ _ := le_trans
  antisymm _ _ hab hba := Foundations.Json.utf16_injective (le_antisymm hab hba)

/-- Plenty of lamps, and then one bulb below its reorder level. -/
def lampAndBulb : List InventoryItem :=
  [{ id := "i1", sku := "LAMP", productId := "p1", warehouse := "default", quantity := 50
     reserved := 0, reorderLevel := 10, createdAt := 2 },
   { id := "i2", sku := "BULB", productId := "p2", warehouse := "default", quantity := 1
     reserved := 0, reorderLevel := 10, createdAt := 1 }]

/-- The low items, newest first. -/
def lowQuery (limit : Nat) (limited : 1 ≤ limit) : ListInventoryQuery where
  page := 1
  limit
  lowStock := some true
  paged := Nat.le_refl 1
  limited

theorem lampAndBulb_distinct : KeysDistinct .createdAt lampAndBulb := by
  refine List.pairwise_pair.mpr ?_
  show ¬ (2 : Nat) = 1
  decide

end PracticalMicroservice.Inventory
