import PracticalMicroservice.Foundations.Regex

/-!
# Edge policies (`proxy/route-policy.ts`)

A policy covers some paths below a service's prefix, for some methods, and runs a chain of
handlers on the requests it covers. Paths are written as patterns and compiled to regular
expressions over the full request path. Handlers stay a parameter: all a chain sees of one is
whether it hands on, or with which error it stops the request.
-/

namespace PracticalMicroservice.Gateway

open Foundations

/-- The methods a policy may name. -/
inductive HttpMethod where
  | get | post | put | patch | delete | head | options
deriving DecidableEq

/-- The method as a request spells it. -/
def HttpMethod.text : HttpMethod → String
  | .get => "GET"
  | .post => "POST"
  | .put => "PUT"
  | .patch => "PATCH"
  | .delete => "DELETE"
  | .head => "HEAD"
  | .options => "OPTIONS"

/-- The characters a `.` of a pattern does not match. -/
def lineTerminator (c : Char) : Bool :=
  c == '\n' || c == '\r' || c == '\u2028' || c == '\u2029'

/-- A request path, cut at its slashes: `/a/b` is `a`, `b` and `/a/` is `a` and an empty segment.
No line terminator can stand in a request line. -/
structure Path where
  segments : List (List Char)
  clean : ∀ s ∈ segments, ∀ c ∈ s, c ≠ '/' ∧ lineTerminator c = false

/-- The path as `req.path` has it. -/
def Path.text (path : Path) : List Char := spell '/' path.segments

/-- What the gateway's matching reads of a request. -/
structure Request where
  method : String
  path : Path

/-- One row of the policy table. -/
structure RoutePolicy (H : Type) where
  name : String
  paths : List String
  /-- Methods covered; none covers every method. -/
  methods : Option (List HttpMethod)
  handlers : List H
deriving DecidableEq

/-! ## Patterns -/

/-- `value.split("/").filter(Boolean)` -/
def segmentsOf (value : List Char) : List (List Char) :=
  (value.splitOn '/').filter (· ≠ [])

/-- `(?:/.*)?` -/
def anyBelow : Regex Char :=
  Regex.optional (.seq (.text ['/']) (.star (.one (!lineTerminator ·))))

/-- `/[^/]+` -/
def oneSegment : Regex Char :=
  .seq (.text ['/']) (Regex.one (· != '/')).plus

/-- A literal segment, escaped, after its slash. -/
def literalSegment (segment : List Char) : Regex Char :=
  .seq (.text ['/']) (.text segment)

/-- One expression for each segment of the pattern; a wildcard anywhere but last is refused. -/
def compileSegments (pattern : String) : List (List Char) → Except String (List (Regex Char))
  | [] => .ok []
  | segment :: rest =>
    if segment = ['*'] then
      if rest = [] then .ok [anyBelow]
      else .error ("Wildcard must be the last segment in policy path \"" ++ pattern ++ "\"")
    else do
      let body ← compileSegments pattern rest
      .ok ((if segment.head? = some ':' then oneSegment else literalSegment segment) :: body)

/-- Expressions one after another, then `/?`. -/
def joined (body : List (Regex Char)) : Regex Char :=
  body.foldr .seq (.optional (.text ['/']))

/-- `compilePolicyPath`: the pattern as an expression over the full path, prefix included. -/
def compilePolicyPath (pathPrefix : String) (pattern : String) : Except String (Regex Char) := do
  let body ← compileSegments pattern (segmentsOf pattern.toList)
  .ok (.seq (.text pathPrefix.toList) (joined body))

/-! ## Handlers -/

/-- What a middleware did, in the order it did it. -/
inductive Entry (H : Type) where
  /-- The log line `policy_matched`. -/
  | matched (upstream policy : String)
  /-- A handler of the policy's chain was called. -/
  | ran (upstream policy : String) (handler : H)
deriving DecidableEq

/-- How a middleware leaves the request: handed on, or stopped with an error. -/
inductive Handed (E : Type) where
  | on
  | stopped (error : E)
deriving DecidableEq

/-- `runChain`: each handler in turn, until one stops the request. -/
def runChain {H E : Type} (upstream policy : String) (serve : H → Handed E) :
    List H → List (Entry H) × Handed E
  | [] => ([], .on)
  | handler :: rest =>
    match serve handler with
    | .stopped error => ([.ran upstream policy handler], .stopped error)
    | .on =>
      let after := runChain upstream policy serve rest
      (.ran upstream policy handler :: after.1, after.2)

/-- One middleware of the policy layer, with its patterns compiled. -/
structure PolicyHandler (H : Type) where
  upstream : String
  policy : RoutePolicy H
  patterns : List (Regex Char)

/-- `methods.has(req.method)`, or no methods given. -/
def RoutePolicy.covers {H : Type} (policy : RoutePolicy H) (method : String) : Bool :=
  match policy.methods with
  | none => true
  | some methods => methods.any fun m => m.text == method

/-- Does the policy take this request? -/
def PolicyHandler.selects {H : Type} (handler : PolicyHandler H) (req : Request) : Bool :=
  handler.policy.covers req.method
    && handler.patterns.any fun pattern => pattern.accepts req.path.text

/-- The middleware of `createPolicyHandler`: a no-op on requests the policy does not cover, the
whole chain on those it does. -/
def PolicyHandler.handle {H E : Type} (handler : PolicyHandler H) (serve : H → Handed E)
    (req : Request) : List (Entry H) × Handed E :=
  if handler.selects req then
    let chain := runChain handler.upstream handler.policy.name serve handler.policy.handlers
    (.matched handler.upstream handler.policy.name :: chain.1, chain.2)
  else ([], .on)

/-- `createPolicyHandler` -/
def createPolicyHandler {H : Type} (upstream pathPrefix : String) (policy : RoutePolicy H) :
    Except String (PolicyHandler H) := do
  let patterns ← policy.paths.mapM (compilePolicyPath pathPrefix)
  .ok { upstream := upstream, policy := policy, patterns := patterns }

/-- `createPolicyHandlers`: one middleware per policy, in declaration order. -/
def createPolicyHandlers {H : Type} (upstream pathPrefix : String)
    (policies : List (RoutePolicy H)) : Except String (List (PolicyHandler H)) :=
  policies.mapM (createPolicyHandler upstream pathPrefix)

/-! ## Patterns segment by segment -/

/-- A pattern's segment. -/
inductive Piece where
  | literal (segment : List Char)
  | param
  /-- `*`: what is left of the path. Policies use it, no upstream route does. -/
  | rest
deriving DecidableEq

def Piece.of (segment : List Char) : Piece :=
  if segment = ['*'] then .rest
  else if segment.head? = some ':' then .param
  else .literal segment

/-- The segments of a pattern. -/
def piecesOf (pattern : String) : List Piece := (segmentsOf pattern.toList).map Piece.of

/-- Do the segments fit a policy's pattern? Literals to the letter, a parameter any nonempty
segment, a wildcard whatever is left, and one trailing slash more. -/
def policyMatches : List Piece → List (List Char) → Bool
  | [], rest => rest == [] || rest == [[]]
  | .rest :: _, _ => true
  | _ :: _, [] => false
  | .literal t :: pieces, s :: rest => s == t && policyMatches pieces rest
  | .param :: pieces, s :: rest => s != [] && policyMatches pieces rest

end PracticalMicroservice.Gateway
