import PracticalMicroservice.Foundations.Codes
import Mathlib.Data.Char
import Mathlib.Data.List.Sort
import Mathlib.Data.List.Lex

/-!
# Records of texts, in one canonical text

`JSON.stringify` of strings and of arrays of pairs of them, and the order in which `sort` puts
strings: by UTF-16 code units. Both are readable codes, so the canonical text of a record is that of
another exactly when the records have the same entries, in whatever order.
-/

namespace PracticalMicroservice.Foundations.Json

/-! ## Quoted strings -/

def hexDigit (n : Nat) : Char := Char.ofNat (if n < 10 then 0x30 + n else 0x57 + n)

/-- A character within a quoted string. -/
def escape (c : Char) : List Char :=
  if c = '"' then ['\\', '"']
  else if c = '\\' then ['\\', '\\']
  else if c.toNat = 0x08 then ['\\', 'b']
  else if c.toNat = 0x09 then ['\\', 't']
  else if c.toNat = 0x0A then ['\\', 'n']
  else if c.toNat = 0x0C then ['\\', 'f']
  else if c.toNat = 0x0D then ['\\', 'r']
  else if c.toNat < 0x20 then
    ['\\', 'u', '0', '0', hexDigit (c.toNat / 16), hexDigit (c.toNat % 16)]
  else [c]

def quote (s : String) : List Char := '"' :: (row escape s.toList ++ ['"'])

/-- `JSON.stringify` of an array of pairs. -/
def pair (entry : String × String) : List Char :=
  '[' :: (quote entry.1 ++ ',' :: quote entry.2 ++ [']'])

def elements : List (String × String) → List Char
  | [] => [']']
  | entry :: entries => pair entry ++ (row (fun e => ',' :: pair e) entries ++ [']'])

def stringify (entries : List (String × String)) : String := String.ofList ('[' :: elements entries)

/-! ## The order of `sort` -/

/-- The UTF-16 code units of a character. -/
def units (c : Char) : List Nat :=
  if c.toNat < 0x10000 then [c.toNat]
  else [0xD800 + (c.toNat - 0x10000) / 0x400, 0xDC00 + (c.toNat - 0x10000) % 0x400]

def utf16 (s : String) : List Nat := row units s.toList

/-- The order of `Object.keys(payload).sort()`. -/
def byKey (a b : String × String) : Prop := utf16 a.1 ≤ utf16 b.1

instance : DecidableRel byKey := fun a b => inferInstanceAs (Decidable (utf16 a.1 ≤ utf16 b.1))

/-- `Object.keys(payload).sort().map((key) => [key, payload[key]])`, as text. -/
def canonical (payload : List (String × String)) : String :=
  stringify (payload.insertionSort byKey)

example : canonical [("subject", "a\"b"), ("body", "x")] =
    "[[\"body\",\"x\"],[\"subject\",\"a\\\"b\"]]" := by decide +kernel

/-! ## Quoted strings can be read -/

/-- The characters with an escape of their own, and its letter. -/
def letters : List (Nat × Char) :=
  [('"'.toNat, '"'), ('\\'.toNat, '\\'), (0x08, 'b'), (0x09, 't'), (0x0A, 'n'), (0x0C, 'f'),
    (0x0D, 'r')]

theorem escape_cases (c : Char) :
    (escape c = [c] ∧ c ≠ '"' ∧ c ≠ '\\') ∨
    (∃ letter, escape c = ['\\', letter] ∧ (c.toNat, letter) ∈ letters) ∨
    (escape c = ['\\', 'u', '0', '0', hexDigit (c.toNat / 16), hexDigit (c.toNat % 16)] ∧
      c.toNat < 0x20) := by
  unfold escape
  by_cases hquote : c = '"'
  · subst hquote
    exact .inr (.inl ⟨'"', rfl, by decide⟩)
  rw [if_neg hquote]
  by_cases hslash : c = '\\'
  · subst hslash
    exact .inr (.inl ⟨'\\', rfl, by decide⟩)
  rw [if_neg hslash]
  split
  · rename_i h
    exact .inr (.inl ⟨'b', rfl, by rw [h]; decide⟩)
  split
  · rename_i h
    exact .inr (.inl ⟨'t', rfl, by rw [h]; decide⟩)
  split
  · rename_i h
    exact .inr (.inl ⟨'n', rfl, by rw [h]; decide⟩)
  split
  · rename_i h
    exact .inr (.inl ⟨'f', rfl, by rw [h]; decide⟩)
  split
  · rename_i h
    exact .inr (.inl ⟨'r', rfl, by rw [h]; decide⟩)
  split
  · rename_i h
    exact .inr (.inr ⟨rfl, h⟩)
  · exact .inl ⟨rfl, hquote, hslash⟩

theorem letters_unique : ∀ p ∈ letters, ∀ q ∈ letters, p.2 = q.2 → p.1 = q.1 := by decide

theorem letters_ne_u : ∀ p ∈ letters, p.2 ≠ 'u' := by decide

theorem hexDigit_injective : ∀ n < 16, ∀ m < 16, hexDigit n = hexDigit m → n = m := by decide

theorem escape_readable : Readable escape := by
  intro a b rest rest' he
  rcases escape_cases a with ⟨ha, -, hslash⟩ | ⟨x, ha, hx⟩ | ⟨ha, hlt⟩ <;>
    rcases escape_cases b with ⟨hb, -, hslash'⟩ | ⟨y, hb, hy⟩ | ⟨hb, hlt'⟩ <;>
    rw [ha, hb] at he
  · exact List.cons.inj he
  · exact absurd (List.cons.inj he).1 hslash
  · exact absurd (List.cons.inj he).1 hslash
  · exact absurd (List.cons.inj he).1.symm hslash'
  · obtain ⟨hxy, hrest⟩ := List.cons.inj (List.cons.inj he).2
    exact ⟨Char.toNat_inj.mp (letters_unique _ hx _ hy hxy), hrest⟩
  · exact absurd (List.cons.inj (List.cons.inj he).2).1 (letters_ne_u _ hx)
  · exact absurd (List.cons.inj he).1.symm hslash'
  · exact absurd (List.cons.inj (List.cons.inj he).2).1.symm (letters_ne_u _ hy)
  · obtain ⟨hhigh, hlow, hrest⟩ : hexDigit (a.toNat / 16) = hexDigit (b.toNat / 16) ∧
        hexDigit (a.toNat % 16) = hexDigit (b.toNat % 16) ∧ rest = rest' := by
      simpa using he
    have hdiv := hexDigit_injective _ (by omega) _ (by omega) hhigh
    have hmod := hexDigit_injective _ (by omega) _ (by omega) hlow
    exact ⟨Char.toNat_inj.mp (by omega), hrest⟩

/-- A quotation mark within a string is escaped. -/
theorem escape_avoids : Avoids escape '"' := by
  intro c rest rest' he
  rcases escape_cases c with ⟨hc, hquote, -⟩ | ⟨letter, hc, -⟩ | ⟨hc, -⟩ <;> rw [hc] at he
  · exact hquote (List.cons.inj he).1
  · exact absurd (List.cons.inj he).1 (by decide)
  · exact absurd (List.cons.inj he).1 (by decide)

theorem quote_readable : Readable quote :=
  ((escape_readable.closed escape_avoids).comp fun _ _ => String.toList_inj.mp).after ['"']

theorem pair_readable : Readable pair := by
  have h := ((quote_readable.pair (quote_readable.after [','])).after ['[']).before [']']
  intro a b rest rest' he
  refine h a b rest rest' ?_
  simpa [pair] using he

theorem stringify_injective : Function.Injective stringify := by
  intro entries entries' he
  have h : elements entries = elements entries' := (List.cons.inj (String.ofList_inj.mp he)).2
  have hmore : Readable fun items => row (fun e => ',' :: pair e) items ++ [']'] :=
    (pair_readable.after [',']).closed fun e rest rest' he => by
      exact absurd (List.cons.inj he).1 (by decide)
  have hfirst : ∀ e rest, pair e ++ rest ≠ [']'] := fun e rest he =>
    absurd (List.cons.inj he).1 (by decide)
  cases entries with
  | nil =>
    cases entries' with
    | nil => rfl
    | cons e' more' => exact absurd h.symm (hfirst e' _)
  | cons e more =>
    cases entries' with
    | nil => exact absurd h (hfirst e _)
    | cons e' more' =>
      obtain ⟨rfl, hrest⟩ := pair_readable e e' _ _ h
      rw [hmore.injective hrest]

/-! ## Code units can be read -/

theorem units_readable : Readable units := by
  intro a b rest rest' he
  have ha : a.toNat < 0xD800 ∨ (0xDFFF < a.toNat ∧ a.toNat < 0x110000) := a.valid
  have hb : b.toNat < 0xD800 ∨ (0xDFFF < b.toNat ∧ b.toNat < 0x110000) := b.valid
  unfold units at he
  split at he <;> split at he
  · obtain ⟨hab, hrest⟩ := List.cons.inj he
    exact ⟨Char.toNat_inj.mp hab, hrest⟩
  · have hab := (List.cons.inj he).1
    omega
  · have hab := (List.cons.inj he).1
    omega
  · obtain ⟨hhigh, htail⟩ := List.cons.inj he
    obtain ⟨hlow, hrest⟩ := List.cons.inj htail
    exact ⟨Char.toNat_inj.mp (by omega), hrest⟩

theorem utf16_injective : Function.Injective utf16 := by
  intro s s' he
  refine String.toList_inj.mp (units_readable.row_injective (fun c => ?_) he)
  unfold units
  split <;> simp

/-! ## The canonical text -/

instance : Std.Total byKey := ⟨fun a b => le_total (utf16 a.1) (utf16 b.1)⟩

instance : IsTrans (String × String) byKey := ⟨fun _ _ _ => le_trans⟩

/-- Records are told apart by their entries, and by nothing else. -/
theorem canonical_eq_iff {payload payload' : List (String × String)}
    (h : (payload.map Prod.fst).Nodup) :
    canonical payload = canonical payload' ↔ payload.Perm payload' := by
  refine ⟨fun he => ?_, fun hp => congrArg stringify ?_⟩
  · have hsorted := stringify_injective he
    exact (List.perm_insertionSort byKey payload).symm.trans
      (hsorted ▸ List.perm_insertionSort byKey payload')
  · have hp' : (payload.insertionSort byKey).Perm (payload'.insertionSort byKey) :=
      ((List.perm_insertionSort byKey payload).trans hp).trans
        (List.perm_insertionSort byKey payload').symm
    refine hp'.eq_of_pairwise ?_ (List.pairwise_insertionSort byKey _)
      (List.pairwise_insertionSort byKey _)
    intro a b ha hb hab hba
    have ha' : a ∈ payload := (List.perm_insertionSort byKey payload).mem_iff.mp ha
    have hb' : b ∈ payload :=
      hp.mem_iff.mpr ((List.perm_insertionSort byKey payload').mem_iff.mp hb)
    have hkey : a.1 = b.1 := utf16_injective (le_antisymm hab hba)
    exact List.inj_on_of_nodup_map h ha' hb' hkey

end PracticalMicroservice.Foundations.Json
