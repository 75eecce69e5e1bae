import PracticalMicroservice.Gateway.Upstream

/-!
# Policies against the routes they are written for

A policy is written for an upstream route when it covers the route's method and one of its
patterns covers the route's, segment by segment. The gateway's matching and the upstream's
disagree on some spellings of such a route: another letter case, a repeated slash, `HEAD`.
-/

namespace PracticalMicroservice.Gateway

/-- Does a policy's pattern cover a route's? -/
def coversPieces : List Piece → List Piece → Bool
  | [], [] => true
  | .rest :: _, _ => true
  | .literal t :: pieces, .literal u :: route => t == u && coversPieces pieces route
  | .param :: pieces, .literal _ :: route => coversPieces pieces route
  | .param :: pieces, .param :: route => coversPieces pieces route
  | _, _ => false

/-- The policy is written for the route. -/
def WrittenFor {H : Type} (policy : RoutePolicy H) (route : UpstreamRoute) : Prop :=
  policy.covers route.method.text = true
    ∧ ∃ pattern ∈ policy.paths, coversPieces (piecesOf pattern) (piecesOf route.path) = true

instance {H : Type} (policy : RoutePolicy H) (route : UpstreamRoute) :
    Decidable (WrittenFor policy route) :=
  inferInstanceAs (Decidable (_ ∧ _))

/-- Repeated slashes merged into one: empty segments go, but for a last one. -/
def mergeSlashes : List (List Char) → List (List Char)
  | [] => []
  | s :: rest => if s = [] ∧ rest ≠ [] then mergeSlashes rest else s :: mergeSlashes rest

theorem mem_mergeSlashes {segments : List (List Char)} {s : List Char}
    (h : s ∈ mergeSlashes segments) : s ∈ segments := by
  induction segments with
  | nil => exact h
  | cons t rest ih =>
    rw [mergeSlashes] at h
    split at h
    · exact List.mem_cons_of_mem _ (ih h)
    · rcases List.mem_cons.mp h with rfl | h
      · exact List.mem_cons_self ..
      · exact List.mem_cons_of_mem _ (ih h)

/-- The path with repeated slashes merged. -/
def Path.merged (path : Path) : Path where
  segments := mergeSlashes path.segments
  clean := fun s hs => path.clean s (mem_mergeSlashes hs)

/-- The segments a pattern spells: those before a wildcard, else all but the last, which may be
the empty one after a trailing slash. -/
def spelledPart (pieces : List Piece) (rest : List (List Char)) : List (List Char) :=
  if .rest ∈ pieces then rest.take (pieces.length - 1) else rest.dropLast

/-- The path below the mount point is spelled as the pattern spells it: the mount point and the
literals letter for letter, and no repeated slash in what the pattern spells. -/
structure SpelledAs (mount : List (List Char)) (pieces : List Piece)
    (segments rest : List (List Char)) : Prop where
  mount_exact : segments = mount ++ rest
  literals_exact : ∀ t s, (Piece.literal t, s) ∈ pieces.zip rest → s = t
  single_slashes : ∀ s ∈ spelledPart pieces rest, s ≠ []

/-- The path is spelled as one of the policy's patterns for the route spells it. -/
def CanonicalFor {H : Type} (mount : List (List Char)) (policy : RoutePolicy H)
    (route : UpstreamRoute) (path : Path) : Prop :=
  ∃ pattern ∈ policy.paths, coversPieces (piecesOf pattern) (piecesOf route.path) = true
    ∧ ∃ rest, SpelledAs mount (piecesOf pattern) path.segments rest

end PracticalMicroservice.Gateway
