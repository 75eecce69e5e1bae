import Mathlib.Data.List.Nodup

/-!
# Tables whose rows have keys

What some writes may do to a table: each row that was there may change as a relation allows, and new
rows are appended under keys not handed out before. Keys then stay unique, and rows are found again
by them.
-/

namespace PracticalMicroservice.Foundations

section

variable {α : Type} {key : α → Nat} {same : α → α → Prop} {lo mid hi : Nat}
  {rows rows' rows'' : List α}

/-- A table whose keys are handed out once, all of them below the next. -/
structure KeyedTable (key : α → Nat) (next : Nat) (rows : List α) : Prop where
  below : ∀ a ∈ rows, key a < next
  distinct : (rows.map key).Nodup

/-- What rows may change into: themselves and, step by step, rows of the same key. -/
structure Lasting (key : α → Nat) (same : α → α → Prop) : Prop where
  refl : ∀ a, same a a
  trans : ∀ {a b c}, same a b → same b c → same a c
  key : ∀ {a b}, same a b → key b = key a

/-- A table after some writes, during which the next key went from `lo` to `hi`. -/
def Grown (key : α → Nat) (same : α → α → Prop) (lo hi : Nat) (rows rows' : List α) : Prop :=
  ∃ (change : α → α) (new : List α), rows' = rows.map change ++ new ∧
    (∀ a ∈ rows, same a (change a)) ∧ (∀ a ∈ new, lo ≤ key a ∧ key a < hi) ∧
    (new.map key).Nodup ∧ lo ≤ hi

theorem keyedTable_nil : KeyedTable key hi [] := ⟨fun _ ha => (nomatch ha), List.nodup_nil⟩

theorem KeyedTable.eq_of_key (h : KeyedTable key hi rows) {a b : α} (ha : a ∈ rows) (hb : b ∈ rows)
    (he : key a = key b) : a = b := List.inj_on_of_nodup_map h.distinct ha hb he

/-- Changing rows in place keeps their keys. -/
theorem KeyedTable.map (h : KeyedTable key hi rows) {change : α → α}
    (hk : ∀ a, key (change a) = key a) : KeyedTable key hi (rows.map change) where
  below a ha := by
    obtain ⟨b, hb, rfl⟩ := List.mem_map.mp ha
    rw [hk]
    exact h.below b hb
  distinct := by
    rw [List.map_map, show key ∘ change = key from funext hk]
    exact h.distinct

theorem grown_of_eq (hl : Lasting key same) (hle : lo ≤ hi) (he : rows' = rows) :
    Grown key same lo hi rows rows' :=
  ⟨id, [], by rw [he, List.map_id, List.append_nil], fun a _ => hl.refl a,
    fun _ h => (nomatch h), List.nodup_nil, hle⟩

theorem grown_of_map {change : α → α} (hle : lo ≤ hi) (hs : ∀ a ∈ rows, same a (change a))
    (he : rows' = rows.map change) : Grown key same lo hi rows rows' :=
  ⟨change, [], by rw [he, List.append_nil], hs, fun _ h => (nomatch h), List.nodup_nil, hle⟩

theorem grown_of_append (hl : Lasting key same) {a : α} (hlo : lo ≤ key a) (hhi : key a < hi)
    (he : rows' = rows ++ [a]) : Grown key same lo hi rows rows' := by
  refine ⟨id, [a], by rw [he, List.map_id], fun a _ => hl.refl a, fun b hb => ?_, ?_, by omega⟩
  · obtain rfl := List.mem_singleton.mp hb
    exact ⟨hlo, hhi⟩
  · rw [List.map_singleton]
    exact List.nodup_singleton _

theorem Grown.le (h : Grown key same lo hi rows rows') : lo ≤ hi := by
  obtain ⟨-, -, -, -, -, -, hle⟩ := h
  exact hle

/-- A row there before the writes is there after them. -/
theorem Grown.mem (h : Grown key same lo hi rows rows') {a : α} (ha : a ∈ rows) :
    ∃ a' ∈ rows', same a a' := by
  obtain ⟨change, new, rfl, hs, -, -, -⟩ := h
  exact ⟨change a, List.mem_append_left _ (List.mem_map_of_mem ha), hs a ha⟩

/-- A row there after the writes was there before, or is new. -/
theorem Grown.mem_or (h : Grown key same lo hi rows rows') {a' : α} (ha : a' ∈ rows') :
    (∃ a ∈ rows, same a a') ∨ lo ≤ key a' := by
  obtain ⟨change, new, rfl, hs, hnew, -, -⟩ := h
  rcases List.mem_append.mp ha with ha | ha
  · obtain ⟨a, hmem, rfl⟩ := List.mem_map.mp ha
    exact .inl ⟨a, hmem, hs a hmem⟩
  · exact .inr (hnew a' ha).1

theorem Grown.trans (hl : Lasting key same) (h : Grown key same lo mid rows rows') (h' : Grown key same mid hi rows' rows'') :
    Grown key same lo hi rows rows'' := by
  obtain ⟨f, new, rfl, hf, hnew, hnodup, hle⟩ := h
  obtain ⟨g, new', rfl, hg, hnew', hnodup', hle'⟩ := h'
  have hgnew : ∀ a ∈ new, key (g a) = key a := fun a ha =>
    hl.key (hg a (List.mem_append_right _ ha))
  refine ⟨g ∘ f, new.map g ++ new', by rw [List.map_append, List.map_map, List.append_assoc],
    fun a ha => ?_, fun a ha => ?_, ?_, by omega⟩
  · exact hl.trans (hf a ha) (hg _ (List.mem_append_left _ (List.mem_map_of_mem ha)))
  · rcases List.mem_append.mp ha with ha | ha
    · obtain ⟨b, hb, rfl⟩ := List.mem_map.mp ha
      have := hnew b hb
      rw [hgnew b hb]
      omega
    · have := hnew' a ha
      omega
  · have hkeys : (new.map g).map key = new.map key := by
      rw [List.map_map]
      exact List.map_congr_left hgnew
    rw [List.map_append, hkeys, List.nodup_append]
    refine ⟨hnodup, hnodup', fun x hx y hy => ?_⟩
    obtain ⟨a, ha, rfl⟩ := List.mem_map.mp hx
    obtain ⟨b, hb, rfl⟩ := List.mem_map.mp hy
    have := hnew a ha
    have := hnew' b hb
    omega

/-- Keys stay handed out once. -/
theorem Grown.keyed (hl : Lasting key same) (h : Grown key same lo hi rows rows')
    (hk : KeyedTable key lo rows) : KeyedTable key hi rows' := by
  obtain ⟨f, new, rfl, hf, hnew, hnodup, hle⟩ := h
  have hkeys : (rows.map f).map key = rows.map key := by
    rw [List.map_map]
    exact List.map_congr_left fun a ha => hl.key (hf a ha)
  refine ⟨fun a ha => ?_, ?_⟩
  · rcases List.mem_append.mp ha with ha | ha
    · obtain ⟨b, hb, rfl⟩ := List.mem_map.mp ha
      have := hk.below b hb
      rw [hl.key (hf b hb)]
      omega
    · exact (hnew a ha).2
  · rw [List.map_append, hkeys, List.nodup_append]
    refine ⟨hk.distinct, hnodup, fun x hx y hy => ?_⟩
    obtain ⟨a, ha, rfl⟩ := List.mem_map.mp hx
    obtain ⟨b, hb, rfl⟩ := List.mem_map.mp hy
    have := hk.below a ha
    have := hnew b hb
    omega

/-- The row of a key before the writes and the one after them are the same. -/
theorem Grown.row (hl : Lasting key same) (h : Grown key same lo hi rows rows')
    (hk : KeyedTable key lo rows) {a a' : α} (ha : a ∈ rows) (ha' : a' ∈ rows') (he : key a' = key a) : same a a' := by
  obtain ⟨b, hb, hs⟩ := h.mem ha
  obtain rfl := (h.keyed hl hk).eq_of_key hb ha' (by rw [hl.key hs, he])
  exact hs

end

/-- Changing one row keeps a key unique if no other row has the one it changes to. -/
theorem nodup_change_one {α β γ : Type} {rows : List α} {id : α → β} {key : α → γ} {f : α → α}
    {a : α} (hids : (rows.map id).Nodup) (hkeys : (rows.map key).Nodup)
    (hsame : ∀ row ∈ rows, row ≠ a → f row = row)
    (hnew : ∀ row ∈ rows, row ≠ a → key row ≠ key (f a)) :
    ((rows.map f).map key).Nodup := by
  rw [List.map_map]
  refine List.Nodup.map_on (fun x hx y hy he => ?_) (List.Nodup.of_map id hids)
  have he' : key (f x) = key (f y) := he
  by_cases hxa : x = a
  · by_cases hya : y = a
    · rw [hxa, hya]
    · rw [hxa, hsame y hy hya] at he'
      exact absurd he'.symm (hnew y hy hya)
  · rw [hsame x hx hxa] at he'
    by_cases hya : y = a
    · rw [hya] at he'
      exact absurd he' (hnew x hx hxa)
    · rw [hsame y hy hya] at he'
      exact List.inj_on_of_nodup_map hkeys hx hy he'

end PracticalMicroservice.Foundations
