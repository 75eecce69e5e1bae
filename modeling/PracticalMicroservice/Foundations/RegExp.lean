import PracticalMicroservice.Foundations.Regex

/-!
# The source of a regular expression, read

The text of a regular expression, read character by character as the ECMAScript grammar has it. What
is read are sources anchored at both ends and made of plain characters, escaped syntax characters,
`.`, classes of plain characters, `(?:…)` and the quantifiers `*`, `+` and `?`; any other source is
refused. Anchored so, an expression matches a text as a whole or not at all.
-/

namespace PracticalMicroservice.Foundations

/-- One expression after the other. -/
def Regex.sequence {α : Type} (es : List (Regex α)) : Regex α := es.foldr .seq .empty

/-- The expression for one character. -/
def Regex.char (c : Char) : Regex Char := .one (· == c)

namespace RegExp

/-- `SyntaxCharacter`. -/
def syntaxCharacters : List Char :=
  ['^', '$', '\\', '.', '*', '+', '?', '(', ')', '[', ']', '{', '}', '|']

inductive Mode
  /-- Between two terms, of which the last one can be quantified or cannot. -/
  | between (quantifiable : Bool)
  /-- After a backslash. -/
  | escaped
  /-- After `(`. -/
  | group
  /-- After `(?`. -/
  | uncaptured
  /-- After `[`. -/
  | bracket
  /-- In a class, after the members given. -/
  | members (negated : Bool) (chars : List Char)
  /-- After the closing `$`. -/
  | anchored

/-- How far a source has been read. -/
structure Reader where
  /-- The terms before each group that is still open, the last one first. -/
  outer : List (List (Regex Char))
  terms : List (Regex Char)
  mode : Mode

namespace Reader

def term (r : Reader) (e : Regex Char) : Reader :=
  { r with terms := e :: r.terms, mode := .between true }

/-- A quantifier after the last term. -/
def quantify (r : Reader) (quantifiable : Bool) (quantifier : Regex Char → Regex Char) :
    Option Reader :=
  match quantifiable, r.terms with
  | true, e :: terms => some { r with terms := quantifier e :: terms, mode := .between false }
  | _, _ => none

/-- `)` -/
def closeGroup (r : Reader) : Option Reader :=
  match r.outer with
  | [] => none
  | terms :: outer => some (term { r with outer, terms } (.sequence r.terms.reverse))

/-- The class is complete. -/
def closeClass (r : Reader) (negated : Bool) (chars : List Char) : Reader :=
  r.term (.one fun c => chars.contains c != negated)

/-- One character more, where `any` is what a `.` stands for. -/
def step (any : Char → Bool) (r : Reader) (c : Char) : Option Reader :=
  match r.mode with
  | .between quantifiable =>
    match c with
    | '\\' => some { r with mode := .escaped }
    | '(' => some { r with mode := .group }
    | ')' => r.closeGroup
    | '[' => some { r with mode := .bracket }
    | '.' => some (r.term (.one any))
    | '*' => r.quantify quantifiable .star
    | '+' => r.quantify quantifiable .plus
    | '?' => r.quantify quantifiable .optional
    | '$' => some { r with mode := .anchored }
    | '^' | '|' | '{' | '}' | ']' => none
    | c => some (r.term (.char c))
  | .escaped => if c ∈ syntaxCharacters then some (r.term (.char c)) else none
  | .group => if c = '?' then some { r with mode := .uncaptured } else none
  | .uncaptured =>
    if c = ':' then some { outer := r.terms :: r.outer, terms := [], mode := .between false } else none
  | .bracket =>
    match c with
    | '^' => some { r with mode := .members true [] }
    | ']' => some (r.closeClass false [])
    | '\\' | '-' => none
    | c => some { r with mode := .members false [c] }
  | .members negated chars =>
    match c with
    | ']' => some (r.closeClass negated chars)
    | '\\' | '-' => none
    | c => some { r with mode := .members negated (chars ++ [c]) }
  | .anchored => none

def finish (r : Reader) : Option (Regex Char) :=
  match r.outer, r.mode with
  | [], .anchored => some (.sequence r.terms.reverse)
  | _, _ => none

end Reader

/-- The expression a source says. -/
def read (any : Char → Bool) : List Char → Option (Regex Char)
  | '^' :: source =>
    (source.foldlM (Reader.step any) { outer := [], terms := [], mode := .between false }).bind
      Reader.finish
  | _ => none

/-! ## Reading piece by piece -/

/-- Wherever a term can stand, the source says these. -/
def Says (any : Char → Bool) (source : List Char) (es : List (Regex Char)) : Prop :=
  ∀ outer terms quantifiable, ∃ quantifiable',
    source.foldlM (Reader.step any) { outer, terms, mode := .between quantifiable } =
      some { outer, terms := es.reverse ++ terms, mode := .between quantifiable' }

variable {any : Char → Bool} {source source' : List Char} {es es' : List (Regex Char)}

theorem says_nil : Says any [] [] := fun _ _ quantifiable => ⟨quantifiable, rfl⟩

theorem Says.append (h : Says any source es) (h' : Says any source' es') :
    Says any (source ++ source') (es ++ es') := by
  intro outer terms quantifiable
  obtain ⟨between, hfirst⟩ := h outer terms quantifiable
  obtain ⟨last, hsecond⟩ := h' outer (es.reverse ++ terms) between
  refine ⟨last, ?_⟩
  rw [List.foldlM_append, hfirst, List.reverse_append, List.append_assoc]
  exact hsecond

/-- A character that is not of the syntax stands for itself. -/
theorem says_char {c : Char} (hc : c ∉ syntaxCharacters) : Says any [c] [.char c] := by
  intro outer terms quantifiable
  have hstep : Reader.step any { outer, terms, mode := .between quantifiable } c =
      some { outer, terms := .char c :: terms, mode := .between true } := by
    unfold Reader.step
    dsimp only
    split
    all_goals first | rfl | simp [syntaxCharacters] at hc
  exact ⟨true, by rw [List.foldlM_cons, hstep]; rfl⟩

/-- Escaped, a character of the syntax stands for itself. -/
theorem says_escaped {c : Char} (hc : c ∈ syntaxCharacters) : Says any ['\\', c] [.char c] := by
  intro outer terms quantifiable
  have hstep : Reader.step any { outer, terms, mode := .escaped } c =
      some { outer, terms := .char c :: terms, mode := .between true } := if_pos hc
  refine ⟨true, ?_⟩
  show (Reader.step any { outer, terms, mode := .escaped } c).bind _ = _
  rw [hstep]
  rfl

/-- An anchored source says its terms one after the other. -/
theorem read_anchored (h : Says any source es) :
    read any ('^' :: (source ++ ['$'])) = some (.sequence es) := by
  obtain ⟨quantifiable, hsource⟩ := h [] [] false
  rw [read, List.foldlM_append, hsource]
  show some (Regex.sequence (es.reverse ++ []).reverse) = _
  rw [List.append_nil, List.reverse_reverse]

end RegExp

/-! ## What a sequence matches -/

namespace Regex

theorem mem_sequence_append {α : Type} (es es' : List (Regex α)) (w : List α) :
    w ∈ (sequence (es ++ es')).language ↔
      ∃ u ∈ (sequence es).language, ∃ v ∈ (sequence es').language, u ++ v = w := by
  induction es generalizing w with
  | nil =>
    show w ∈ (sequence es').language ↔ _
    constructor
    · intro hw
      exact ⟨[], (mem_empty _).mpr rfl, w, hw, rfl⟩
    · rintro ⟨u, hu, v, hv, rfl⟩
      rw [(mem_empty u).mp hu]
      exact hv
  | cons e es ih =>
    show w ∈ (seq e (sequence (es ++ es'))).language ↔ _
    rw [mem_seq]
    constructor
    · rintro ⟨t, ht, x, hx, rfl⟩
      obtain ⟨u, hu, v, hv, rfl⟩ := (ih x).mp hx
      exact ⟨t ++ u, (mem_seq _ _ _).mpr ⟨t, ht, u, hu, rfl⟩, v, hv, List.append_assoc ..⟩
    · rintro ⟨x, hx, v, hv, rfl⟩
      obtain ⟨t, ht, u, hu, rfl⟩ := (mem_seq _ _ _).mp hx
      exact ⟨t, ht, u ++ v, (ih _).mpr ⟨u, hu, v, hv, rfl⟩, (List.append_assoc ..).symm⟩

theorem mem_sequence_char (u w : List Char) :
    w ∈ (sequence (u.map char)).language ↔ w = u := by
  have htext : sequence (u.map char) = text u := by
    induction u with
    | nil => rfl
    | cons c u ih => exact congrArg (seq (char c)) ih
  rw [htext, mem_text]

end Regex

end PracticalMicroservice.Foundations
