import PracticalMicroservice.Foundations.RegExp
import PracticalMicroservice.Gateway.RoutePolicy

/-!
# The sources of the edge policies' expressions (`proxy/route-policy.ts`)

`compilePolicyPath` character by character: the text it puts together and what `new RegExp` makes of
that text. Over it, what a pattern is to mean: the prefix, one segment for each of the pattern's, and
how a path may go on after them.
-/

namespace PracticalMicroservice.Gateway

open Foundations

/-- The class `[.*+?^${}()|[\]\\]`. -/
def regExpSpecial : List Char :=
  ['.', '*', '+', '?', '^', '$', '{', '}', '(', ')', '|', '[', ']', '\\']

/-- `escapeRegExp` -/
def escapeRegExp (value : List Char) : List Char :=
  value.flatMap fun c => if c ∈ regExpSpecial then ['\\', c] else [c]

/-- `(?:/.*)?` -/
def belowSource : List Char := ['(', '?', ':', '/', '.', '*', ')', '?']

/-- `/[^/]+` -/
def paramSource : List Char := ['/', '[', '^', '/', ']', '+']

/-- What a segment before the wildcard is compiled to. -/
def segmentSource (segment : List Char) : List Char :=
  if segment.head? = some ':' then paramSource else '/' :: escapeRegExp segment

def wildcardError (pattern : String) : String :=
  "Wildcard must be the last segment in policy path \"" ++ pattern ++ "\""

/-- `segments.map` -/
def bodySources (pattern : String) : List (List Char) → Except String (List (List Char))
  | [] => .ok []
  | segment :: rest =>
    if segment = ['*'] then
      if rest = [] then .ok [belowSource] else .error (wildcardError pattern)
    else do
      let body ← bodySources pattern rest
      .ok (segmentSource segment :: body)

/-- The text `compilePolicyPath` hands to `new RegExp`. -/
def policySource (pathPrefix pattern : String) : Except String (List Char) := do
  let body ← bodySources pattern (segmentsOf pattern.toList)
  .ok ('^' :: (escapeRegExp pathPrefix.toList ++ body.flatten ++ ['/', '?'] ++ ['$']))

/-- `compilePolicyPath` through its source. -/
def compilePolicySource (pathPrefix pattern : String) : Except String (Option (Regex Char)) := do
  let source ← policySource pathPrefix pattern
  .ok (RegExp.read (!lineTerminator ·) source)

/-! ## What a pattern means -/

/-- A path as a request line can have it: no line terminator can stand in one. -/
structure RequestPath where
  text : List Char
  clean : ∀ c ∈ text, lineTerminator c = false

/-- Is this a segment for the pattern's? -/
def Piece.Fits : Piece → List Char → Prop
  | .literal t, segment => segment = t
  | .param, segment => segment ≠ [] ∧ '/' ∉ segment
  | .rest, _ => False

/-- How a path may go on after the pattern's segments. -/
def MayEnd (pieces : List Piece) (ending : List Char) : Prop :=
  ending = [] ∨ ending = ['/'] ∨ (.rest ∈ pieces ∧ ∃ below, ending = '/' :: below)

/-- The segments of the pattern one for one, and an ending. -/
def Spelled (pieces : List Piece) (below : List Char) : Prop :=
  ∃ segments ending, below = spell '/' segments ++ ending ∧
    List.Forall₂ Piece.Fits (pieces.filter (· ≠ .rest)) segments ∧ MayEnd pieces ending

/-- The paths a pattern below a prefix stands for. -/
def Covers (pathPrefix pattern : String) (path : List Char) : Prop :=
  ∃ below, path = pathPrefix.toList ++ below ∧ Spelled (piecesOf pattern) below

end PracticalMicroservice.Gateway
