import Mathlib.Computability.Language

/-!
# Regular expressions over character classes

A matcher by derivatives for regular expressions whose atoms are classes of characters, and its
correctness against Mathlib's `Language`. The second half is about words cut at a separator: on
such words an expression that reads one separated piece after another can be followed piece by
piece.
-/

open scoped Computability

namespace PracticalMicroservice.Foundations

variable {α : Type}

/-- Regular expressions over classes of characters. -/
inductive Regex (α : Type) where
  /-- Matches nothing. -/
  | never
  /-- Matches the empty word. -/
  | empty
  /-- Matches one character of a class. -/
  | one (holds : α → Bool)
  /-- One expression after another. -/
  | seq (first second : Regex α)
  /-- One expression or the other. -/
  | alt (left right : Regex α)
  /-- Any number of repetitions. -/
  | star (body : Regex α)

namespace Regex

/-- The words an expression stands for. -/
def language : Regex α → Language α
  | .never => 0
  | .empty => 1
  | .one holds => { w | ∃ a, holds a = true ∧ w = [a] }
  | .seq first second => first.language * second.language
  | .alt left right => left.language + right.language
  | .star body => body.language∗

/-- Does the expression match the empty word? -/
def nullable : Regex α → Bool
  | .never => false
  | .empty => true
  | .one _ => false
  | .seq first second => first.nullable && second.nullable
  | .alt left right => left.nullable || right.nullable
  | .star _ => true

/-- What is left to match after reading `a`. -/
def deriv (a : α) : Regex α → Regex α
  | .never => .never
  | .empty => .never
  | .one holds => if holds a then .empty else .never
  | .seq first second =>
    if first.nullable then .alt (.seq (first.deriv a) second) (second.deriv a)
    else .seq (first.deriv a) second
  | .alt left right => .alt (left.deriv a) (right.deriv a)
  | .star body => .seq (body.deriv a) (.star body)

/-- Does the expression match the whole word? -/
def accepts (e : Regex α) : List α → Bool
  | [] => e.nullable
  | a :: w => (e.deriv a).accepts w

/-- The expression that matches exactly the word `w`. -/
def text [DecidableEq α] : List α → Regex α
  | [] => .empty
  | a :: w => .seq (.one (· == a)) (text w)

/-- At least one repetition. -/
def plus (e : Regex α) : Regex α := .seq e (.star e)

/-- The expression or nothing. -/
def optional (e : Regex α) : Regex α := .alt .empty e

/-! ## The language, constructor by constructor -/

@[simp] theorem mem_never (w : List α) : w ∈ (never : Regex α).language ↔ False := by
  simp [language]

@[simp] theorem mem_empty (w : List α) : w ∈ (empty : Regex α).language ↔ w = [] := by
  simp [language]

@[simp] theorem mem_one (holds : α → Bool) (w : List α) :
    w ∈ (one holds).language ↔ ∃ a, holds a = true ∧ w = [a] := Iff.rfl

theorem mem_seq (first second : Regex α) (w : List α) :
    w ∈ (seq first second).language
      ↔ ∃ u ∈ first.language, ∃ v ∈ second.language, u ++ v = w := by
  simp [language, Language.mem_mul]

@[simp] theorem mem_alt (left right : Regex α) (w : List α) :
    w ∈ (alt left right).language ↔ w ∈ left.language ∨ w ∈ right.language := by
  rw [language, Language.mem_add]

theorem mem_star (body : Regex α) (w : List α) :
    w ∈ (star body).language
      ↔ ∃ ws : List (List α), w = ws.flatten ∧ ∀ u ∈ ws, u ∈ body.language ∧ u ≠ [] := by
  simpa [language] using Language.mem_kstar_iff_exists_nonempty (l := body.language)

@[simp] theorem mem_optional (e : Regex α) (w : List α) :
    w ∈ e.optional.language ↔ w = [] ∨ w ∈ e.language := by
  simp [optional]

@[simp] theorem mem_text [DecidableEq α] (u w : List α) : w ∈ (text u).language ↔ w = u := by
  induction u generalizing w with
  | nil => simp [text]
  | cons a u ih =>
    rw [text, mem_seq]
    constructor
    · rintro ⟨x, ⟨b, hb, rfl⟩, v, hv, rfl⟩
      have hba : b = a := by simpa using hb
      rw [(ih v).mp hv, hba]
      rfl
    · rintro rfl
      exact ⟨[a], ⟨a, by simp, rfl⟩, u, (ih u).mpr rfl, rfl⟩

/-- A repeated class matches the words whose characters are all of the class. -/
theorem mem_star_one (holds : α → Bool) (w : List α) :
    w ∈ (star (one holds)).language ↔ ∀ a ∈ w, holds a = true := by
  rw [mem_star]
  constructor
  · rintro ⟨ws, rfl, hws⟩ a ha
    obtain ⟨u, hu, hau⟩ := List.mem_flatten.mp ha
    obtain ⟨⟨b, hb, rfl⟩, -⟩ := hws u hu
    rw [List.mem_singleton.mp hau]
    exact hb
  · intro h
    refine ⟨w.map ([·]), ?_, ?_⟩
    · induction w with
      | nil => rfl
      | cons a w ih => simpa using ih fun b hb => h b (List.mem_cons_of_mem _ hb)
    · intro u hu
      obtain ⟨a, ha, rfl⟩ := List.mem_map.mp hu
      exact ⟨⟨a, h a ha, rfl⟩, by simp⟩

/-- One or more of a class: a nonempty word of it. -/
theorem mem_plus_one (holds : α → Bool) (w : List α) :
    w ∈ (one holds).plus.language ↔ w ≠ [] ∧ ∀ a ∈ w, holds a = true := by
  rw [plus, mem_seq]
  constructor
  · rintro ⟨u, ⟨a, ha, rfl⟩, v, hv, rfl⟩
    have hall := (mem_star_one holds v).mp hv
    exact ⟨by simp, by simpa using ⟨ha, hall⟩⟩
  · rintro ⟨hne, hall⟩
    cases w with
    | nil => exact absurd rfl hne
    | cons a v =>
      exact ⟨[a], ⟨a, hall a (List.mem_cons_self ..), rfl⟩, v,
        (mem_star_one holds v).mpr fun b hb => hall b (List.mem_cons_of_mem _ hb), rfl⟩

/-! ## The matcher is right -/

theorem nullable_iff (e : Regex α) : e.nullable = true ↔ [] ∈ e.language := by
  induction e with
  | never => simp [nullable]
  | empty => simp [nullable]
  | one holds => simp [nullable]
  | seq first second ihf ihs =>
    rw [nullable, Bool.and_eq_true, ihf, ihs, mem_seq]
    constructor
    · rintro ⟨hf, hs⟩
      exact ⟨[], hf, [], hs, rfl⟩
    · rintro ⟨u, hu, v, hv, h⟩
      obtain ⟨rfl, rfl⟩ := List.append_eq_nil_iff.mp h
      exact ⟨hu, hv⟩
  | alt left right ihl ihr => rw [nullable, Bool.or_eq_true, ihl, ihr, mem_alt]
  | star body _ => simpa [nullable] using (mem_star body []).mpr ⟨[], by simp⟩

/-- A word starting with `a` is in a product by its first factor, or, when that may be empty, by
its second. -/
private theorem cons_mem_seq (first second : Regex α) (a : α) (w : List α) :
    a :: w ∈ (seq first second).language
      ↔ (∃ u v, a :: u ∈ first.language ∧ v ∈ second.language ∧ u ++ v = w)
        ∨ [] ∈ first.language ∧ a :: w ∈ second.language := by
  rw [mem_seq]
  constructor
  · rintro ⟨u, hu, v, hv, h⟩
    cases u with
    | nil => exact Or.inr ⟨hu, by rwa [← List.nil_append v, h] at hv⟩
    | cons b u =>
      obtain ⟨rfl, hw⟩ := List.cons.inj h
      exact Or.inl ⟨u, v, hu, hv, hw⟩
  · rintro (⟨u, v, hu, hv, rfl⟩ | ⟨hf, hs⟩)
    · exact ⟨a :: u, hu, v, hv, rfl⟩
    · exact ⟨[], hf, a :: w, hs, rfl⟩

private theorem cons_mem_star (body : Regex α) (a : α) (w : List α) :
    a :: w ∈ (star body).language
      ↔ ∃ u v, a :: u ∈ body.language ∧ v ∈ (star body).language ∧ u ++ v = w := by
  constructor
  · intro h
    obtain ⟨ws, hw, hws⟩ := (mem_star _ _).mp h
    cases ws with
    | nil => cases hw
    | cons x ws =>
      obtain ⟨hx, hne⟩ := hws x (List.mem_cons_self ..)
      cases x with
      | nil => exact absurd rfl hne
      | cons b u =>
        obtain ⟨rfl, hw⟩ := List.cons.inj hw
        exact ⟨u, ws.flatten, hx,
          (mem_star _ _).mpr ⟨ws, rfl, fun y hy => hws y (List.mem_cons_of_mem _ hy)⟩,
          by simpa using hw.symm⟩
  · rintro ⟨u, v, hu, hv, rfl⟩
    obtain ⟨ws, rfl, hws⟩ := (mem_star _ _).mp hv
    refine (mem_star _ _).mpr ⟨(a :: u) :: ws, rfl, ?_⟩
    intro y hy
    rcases List.mem_cons.mp hy with rfl | hy
    · exact ⟨hu, by simp⟩
    · exact hws y hy

/-- The derivative's defining property. -/
theorem mem_deriv (e : Regex α) (a : α) (w : List α) :
    w ∈ (e.deriv a).language ↔ a :: w ∈ e.language := by
  induction e generalizing w with
  | never => simp [deriv]
  | empty => simp [deriv]
  | one holds =>
    by_cases h : holds a
    · simp [deriv, h]
    · simp [deriv, h]
  | alt left right ihl ihr => rw [deriv, mem_alt, mem_alt, ihl, ihr]
  | seq first second ihf ihs =>
    have hfirst : w ∈ (seq (first.deriv a) second).language
        ↔ ∃ u v, a :: u ∈ first.language ∧ v ∈ second.language ∧ u ++ v = w := by
      rw [mem_seq]
      constructor
      · rintro ⟨u, hu, v, hv, h⟩
        exact ⟨u, v, (ihf u).mp hu, hv, h⟩
      · rintro ⟨u, v, hu, hv, h⟩
        exact ⟨u, (ihf u).mpr hu, v, hv, h⟩
    rw [deriv, cons_mem_seq, ← hfirst, ← nullable_iff]
    split
    · rename_i hnull
      rw [mem_alt, ihs]
      exact or_congr_right (by simp [hnull])
    · rename_i hnull
      simp [hnull]
  | star body ih =>
    rw [deriv, cons_mem_star, mem_seq]
    constructor
    · rintro ⟨u, hu, v, hv, h⟩
      exact ⟨u, v, (ih u).mp hu, hv, h⟩
    · rintro ⟨u, v, hu, hv, h⟩
      exact ⟨u, (ih u).mpr hu, v, hv, h⟩

/-- The matcher accepts exactly the language. -/
theorem accepts_iff (e : Regex α) (w : List α) : e.accepts w = true ↔ w ∈ e.language := by
  induction w generalizing e with
  | nil => exact nullable_iff e
  | cons a w ih => rw [accepts, ih, mem_deriv]

end Regex

/-! ## Words cut at a separator -/

/-- Every piece preceded by the separator: a path's text out of its segments. -/
def spell (sep : α) (pieces : List (List α)) : List α :=
  pieces.flatMap (sep :: ·)

@[simp] theorem spell_nil (sep : α) : spell sep [] = [] := rfl

@[simp] theorem spell_cons (sep : α) (piece : List α) (pieces : List (List α)) :
    spell sep (piece :: pieces) = sep :: (piece ++ spell sep pieces) := rfl

/-- A word that is empty or begins at a separator. -/
def Headed (sep : α) (w : List α) : Prop := w = [] ∨ ∃ u, w = sep :: u

theorem headed_spell (sep : α) (pieces : List (List α)) : Headed sep (spell sep pieces) := by
  cases pieces with
  | nil => exact Or.inl rfl
  | cons piece pieces => exact Or.inr ⟨_, rfl⟩

/-- Where a separator-free word ends before a separator is determined. -/
theorem append_headed_inj {sep : α} {u v x y : List α} (hu : sep ∉ u) (hv : sep ∉ v)
    (hx : Headed sep x) (hy : Headed sep y) (h : u ++ x = v ++ y) : u = v ∧ x = y := by
  induction u generalizing v with
  | nil =>
    cases v with
    | nil => exact ⟨rfl, h⟩
    | cons b v =>
      rcases hx with rfl | ⟨x', rfl⟩
      · cases h
      · obtain ⟨rfl, -⟩ := List.cons.inj h
        exact absurd (List.mem_cons_self ..) hv
  | cons a u ih =>
    cases v with
    | nil =>
      rcases hy with rfl | ⟨y', rfl⟩
      · cases h
      · obtain ⟨rfl, -⟩ := List.cons.inj h
        exact absurd (List.mem_cons_self ..) hu
    | cons b v =>
      obtain ⟨rfl, htail⟩ := List.cons.inj h
      have hu' : sep ∉ u := fun hm => hu (List.mem_cons_of_mem _ hm)
      have hv' : sep ∉ v := fun hm => hv (List.mem_cons_of_mem _ hm)
      obtain ⟨rfl, hxy⟩ := ih hu' hv' htail
      exact ⟨rfl, hxy⟩

theorem Headed.append {sep : α} {x y : List α} (hx : Headed sep x) (hy : Headed sep y) :
    Headed sep (x ++ y) := by
  rcases hx with rfl | ⟨u, rfl⟩
  · exact hy
  · exact Or.inr ⟨u ++ y, rfl⟩

/-- A spelled word that begins with spelled pieces has these for its first pieces. -/
theorem spell_append_inj {sep : α} {pieces all : List (List α)} {v : List α}
    (hpieces : ∀ p ∈ pieces, sep ∉ p) (hall : ∀ p ∈ all, sep ∉ p) (hv : Headed sep v)
    (h : spell sep pieces ++ v = spell sep all) :
    ∃ rest, all = pieces ++ rest ∧ v = spell sep rest := by
  induction pieces generalizing all with
  | nil => exact ⟨all, rfl, h⟩
  | cons p pieces ih =>
    cases all with
    | nil => cases h
    | cons q all =>
      have htail : p ++ (spell sep pieces ++ v) = q ++ spell sep all := by simpa using h
      obtain ⟨rfl, hrest⟩ := append_headed_inj (hpieces p (List.mem_cons_self ..))
        (hall q (List.mem_cons_self ..)) ((headed_spell sep pieces).append hv)
        (headed_spell sep all) htail
      obtain ⟨rest, rfl, rfl⟩ := ih (fun r hr => hpieces r (List.mem_cons_of_mem _ hr))
        (fun r hr => hall r (List.mem_cons_of_mem _ hr)) hrest
      exact ⟨rest, rfl, rfl⟩

theorem spell_append (sep : α) (pieces rest : List (List α)) :
    spell sep (pieces ++ rest) = spell sep pieces ++ spell sep rest :=
  List.flatMap_append

/-- An expression that reads one separated piece, then more, reads the first piece of a spelled
word with its own part and the rest with the rest. -/
theorem mem_piece [DecidableEq α] {sep : α} {part rest : Regex α}
    (hpart : ∀ w ∈ part.language, sep ∉ w) (hrest : ∀ w ∈ rest.language, Headed sep w)
    {piece : List α} (hpiece : sep ∉ piece) (pieces : List (List α)) :
    spell sep (piece :: pieces) ∈ (Regex.seq (.seq (.text [sep]) part) rest).language
      ↔ piece ∈ part.language ∧ spell sep pieces ∈ rest.language := by
  rw [Regex.mem_seq]
  constructor
  · rintro ⟨u, hu, v, hv, h⟩
    obtain ⟨s, hs, w, hw, rfl⟩ := (Regex.mem_seq _ _ _).mp hu
    rw [(Regex.mem_text [sep] s).mp hs] at h
    have htail : w ++ v = piece ++ spell sep pieces := by simpa using h
    obtain ⟨rfl, rfl⟩ := append_headed_inj (hpart w hw) hpiece (hrest v hv)
      (headed_spell sep pieces) htail
    exact ⟨hw, hv⟩
  · rintro ⟨hw, hv⟩
    exact ⟨sep :: piece, (Regex.mem_seq _ _ _).mpr ⟨[sep], by simp, piece, hw, rfl⟩, _, hv, by simp⟩

end PracticalMicroservice.Foundations
