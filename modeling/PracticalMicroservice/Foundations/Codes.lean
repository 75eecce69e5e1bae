import Mathlib.Logic.Function.Basic

/-!
# Codes that can be read off the front

A code gives each value a word. It is readable when no word, whatever follows it, can be taken for
another: what comes after a word then tells nothing about it, and words can be put in a row. Pairs,
and lists with a closing symbol, of readable codes are readable again.
-/

namespace PracticalMicroservice.Foundations

variable {α β γ : Type}

/-- A word is told from what follows it. -/
def Readable (code : α → List γ) : Prop :=
  ∀ a b rest rest', code a ++ rest = code b ++ rest' → a = b ∧ rest = rest'

/-- No word begins with a symbol, so the symbol can stand where another word might. -/
def Avoids (code : α → List γ) (symbol : γ) : Prop :=
  ∀ a rest rest', code a ++ rest ≠ symbol :: rest'

/-- The words of a list in a row. -/
def row (code : α → List γ) (items : List α) : List γ := items.flatMap code

section

variable {code : α → List γ} {code' : β → List γ} {stop : γ}

theorem Readable.injective (h : Readable code) : Function.Injective code := fun a b he =>
  (h a b [] [] (congrArg (· ++ []) he)).1

theorem Readable.comp (h : Readable code) {f : β → α} (hf : Function.Injective f) :
    Readable (code ∘ f) := fun a b rest rest' he =>
  ⟨hf (h (f a) (f b) rest rest' he).1, (h (f a) (f b) rest rest' he).2⟩

/-- A fixed word in front tells nothing. -/
theorem Readable.after (h : Readable code) (word : List γ) :
    Readable fun a => word ++ code a := by
  intro a b rest rest' he
  have he' : word ++ (code a ++ rest) = word ++ (code b ++ rest') := by
    simpa only [List.append_assoc] using he
  exact h a b rest rest' (List.append_cancel_left he')

/-- Nor does a fixed word behind. -/
theorem Readable.before (h : Readable code) (word : List γ) :
    Readable fun a => code a ++ word := by
  intro a b rest rest' he
  simp only [List.append_assoc] at he
  obtain ⟨rfl, hrest⟩ := h a b _ _ he
  exact ⟨rfl, List.append_cancel_left hrest⟩

theorem Readable.pair (h : Readable code) (h' : Readable code') :
    Readable fun p : α × β => code p.1 ++ code' p.2 := by
  rintro ⟨a, b⟩ ⟨a', b'⟩ rest rest' he
  simp only [List.append_assoc] at he
  obtain ⟨rfl, hrest⟩ := h a a' _ _ he
  obtain ⟨rfl, hrest'⟩ := h' b b' _ _ hrest
  exact ⟨rfl, hrest'⟩

/-- A list of words, closed by a symbol that none begins with. -/
theorem Readable.closed (h : Readable code) (hs : Avoids code stop) :
    Readable fun items => row code items ++ [stop] := by
  intro items
  induction items with
  | nil =>
    intro items' rest rest' he
    cases items' with
    | nil => exact ⟨rfl, (List.cons.inj he).2⟩
    | cons b items' =>
      simp only [row, List.flatMap_nil, List.flatMap_cons, List.append_assoc] at he
      exact absurd he.symm (hs b _ _)
  | cons a items ih =>
    intro items' rest rest' he
    cases items' with
    | nil =>
      simp only [row, List.flatMap_nil, List.flatMap_cons, List.append_assoc] at he
      exact absurd he (hs a _ _)
    | cons b items' =>
      simp only [row, List.flatMap_cons, List.append_assoc] at he
      obtain ⟨rfl, hrest⟩ := h a b _ _ he
      have hrest' : (row code items ++ [stop]) ++ rest = (row code items' ++ [stop]) ++ rest' := by
        simpa only [row, List.append_assoc] using hrest
      obtain ⟨hitems, hend⟩ := ih items' rest rest' hrest'
      exact ⟨congrArg (a :: ·) hitems, hend⟩

/-- Words in a row, with nothing after them. -/
theorem Readable.row_injective (h : Readable code) (hne : ∀ a, code a ≠ []) :
    Function.Injective (row code) := by
  have hempty : ∀ a items, row code (a :: items) ≠ [] := fun a items he => by
    rw [row, List.flatMap_cons, List.append_eq_nil_iff] at he
    exact hne a he.1
  intro items
  induction items with
  | nil =>
    intro items' he
    cases items' with
    | nil => rfl
    | cons b items' => exact absurd he.symm (hempty b items')
  | cons a items ih =>
    intro items' he
    cases items' with
    | nil => exact absurd he (hempty a items)
    | cons b items' =>
      rw [row, row, List.flatMap_cons, List.flatMap_cons] at he
      obtain ⟨rfl, hrest⟩ := h a b _ _ he
      rw [ih hrest]

end

end PracticalMicroservice.Foundations
