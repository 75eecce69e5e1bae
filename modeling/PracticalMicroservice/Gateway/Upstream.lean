import PracticalMicroservice.Gateway.RoutePolicy
import PracticalMicroservice.Gateway.ServiceProxy

/-!
# The upstream services' routers

An Express router with default settings matches a path segment by segment: literals in any letter
case, a parameter against any nonempty segment, an optional trailing slash, and a `HEAD` request
by the `GET` route. Every service mounts its router under the gateway's prefix. Routes are tried
in the order they are declared.
-/

namespace PracticalMicroservice.Gateway

/-- The same letters, whatever their case. -/
def sameLetters (s t : List Char) : Bool := s.map Char.toLower == t.map Char.toLower

/-- Does a path's segment fit the route's? A rest is never written in a route. -/
def Piece.fits : Piece → List Char → Bool
  | .literal t, s => s ≠ [] && sameLetters s t
  | .param, s => s ≠ []
  | .rest, _ => false

/-- Do the segments fit a route's, up to one trailing slash? -/
def routeMatches : List Piece → List (List Char) → Bool
  | [], rest => rest == [] || rest == [[]]
  | _ :: _, [] => false
  | piece :: pieces, s :: rest => piece.fits s && routeMatches pieces rest

/-- A route's own expression: the root route reads a slash, then an optional trailing one. -/
def layerMatches (pieces : List Piece) (rest : List (List Char)) : Bool :=
  routeMatches pieces rest || (pieces == [] && rest == [[], []])

/-- What is left of a path below a mount point, spelled in any case. -/
def belowMount : List (List Char) → List (List Char) → Option (List (List Char))
  | [], rest => some rest
  | _ :: _, [] => none
  | m :: mount, s :: rest => if sameLetters s m then belowMount mount rest else none

/-- A route of an upstream router. -/
structure UpstreamRoute where
  method : HttpMethod
  path : String
deriving DecidableEq

/-- `_handlesMethod`: a `HEAD` request is answered by the `GET` route. -/
def UpstreamRoute.handles (route : UpstreamRoute) (method : String) : Bool :=
  route.method.text == method || (route.method == .get && method == "HEAD")

/-- The routes each service declares, in order. The mail service has `POST /dispatch` when it was
given a dispatcher. -/
def upstreamRoutes (withDispatchEndpoint : Bool) : ServiceName → List UpstreamRoute
  | .auth =>
    [⟨.post, "/register"⟩, ⟨.post, "/verify-email"⟩, ⟨.post, "/resend-verification"⟩,
     ⟨.post, "/login"⟩, ⟨.post, "/refresh"⟩, ⟨.post, "/logout"⟩, ⟨.post, "/forgot-password"⟩,
     ⟨.post, "/reset-password"⟩, ⟨.get, "/me"⟩, ⟨.post, "/change-password"⟩,
     ⟨.get, "/sessions"⟩, ⟨.post, "/logout-all"⟩, ⟨.get, "/login-history"⟩]
  | .user =>
    [⟨.post, "/"⟩, ⟨.get, "/auth/:authUserId"⟩, ⟨.get, "/:id"⟩, ⟨.patch, "/:id"⟩,
     ⟨.delete, "/:id"⟩]
  | .product =>
    [⟨.get, "/"⟩, ⟨.post, "/"⟩, ⟨.get, "/:id"⟩, ⟨.patch, "/:id"⟩, ⟨.delete, "/:id"⟩]
  | .inventory =>
    [⟨.get, "/"⟩, ⟨.post, "/"⟩, ⟨.get, "/sku/:sku"⟩, ⟨.post, "/bulk/reserve"⟩,
     ⟨.post, "/bulk/release"⟩, ⟨.get, "/:id"⟩, ⟨.patch, "/:id"⟩, ⟨.delete, "/:id"⟩,
     ⟨.get, "/:id/audit-logs"⟩, ⟨.get, "/:id/movements"⟩, ⟨.post, "/:id/reserve"⟩,
     ⟨.post, "/:id/release"⟩, ⟨.post, "/:id/fulfil"⟩, ⟨.post, "/:id/sell"⟩,
     ⟨.post, "/:id/return"⟩, ⟨.post, "/:id/receive"⟩, ⟨.post, "/:id/adjust"⟩]
  | .email =>
    [⟨.post, "/"⟩, ⟨.get, "/"⟩, ⟨.get, "/stats"⟩]
      ++ (if withDispatchEndpoint then [⟨.post, "/dispatch"⟩] else [])
      ++ [⟨.get, "/:id"⟩, ⟨.post, "/:id/retry"⟩]

/-- The first declared route that handles the method and matches the path below the mount. A
parameter that does not decode fails the request before its route runs. -/
def dispatch (decodes : List Char → Bool) (mount : List (List Char)) (method : String)
    (path : Path) (routes : List UpstreamRoute) : Option UpstreamRoute := do
  let rest ← belowMount mount path.segments
  let route ← routes.find? fun route =>
    route.handles method && layerMatches (piecesOf route.path) rest
  if rest.all decodes then some route else none

end PracticalMicroservice.Gateway
