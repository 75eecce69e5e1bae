import PracticalMicroservice.Gateway.RoutePolicies

/-!
# The upstream chain (`proxy/service-proxy.ts`)

Each service's policies followed by its proxy, concatenated in registry order. The proxy library
is not part of the repository: how it reads a path name for the filter, and which path it puts on
the outgoing request, are parameters.
-/

namespace PracticalMicroservice.Gateway

open Foundations

variable {H E : Type}

/-- What the proxy library does with a request path. -/
structure ProxyLibrary where
  /-- The path name handed to `pathFilter`. -/
  pathname : Path → List Char
  /-- The path of the outgoing request. -/
  forward : Path → Path

/-- `pathFilter`: the prefix itself, or something below it. -/
def pathFilter (pathPrefix : String) (pathname : List Char) : Bool :=
  pathname == pathPrefix.toList || (pathPrefix ++ "/").toList.isPrefixOf pathname

/-- One handler of the upstream chain. -/
inductive Middleware (H : Type) where
  | policy (handler : PolicyHandler H)
  | proxy (route : ServiceRoute)

/-- One service's part of the chain. -/
def serviceHandlers (policies : ServiceName → List (RoutePolicy H)) (route : ServiceRoute) :
    Except String (List (Middleware H)) := do
  let handlers ← createPolicyHandlers route.name.text route.pathPrefix (policies route.name)
  .ok (handlers.map .policy ++ [.proxy route])

/-- `createServiceHandlers`: the full upstream chain. -/
def createServiceHandlers (registry : List ServiceRoute)
    (policies : ServiceName → List (RoutePolicy H)) : Except String (List (Middleware H)) := do
  let groups ← registry.mapM (serviceHandlers policies)
  .ok groups.flatten

/-- The chain the gateway runs. -/
def upstreamHandlers : List (Middleware EdgeHandler) :=
  (createServiceHandlers serviceRegistry routePolicies).toOption.getD []

/-- How the chain leaves a request. -/
inductive Outcome (E : Type) where
  | stopped (error : E)
  | proxied (upstream : ServiceName)
  | notFound
deriving DecidableEq

/-- The chain on one request: what its policies did, in order, and how it ended. A proxy that
takes the request is terminal. -/
def runMiddleware (library : ProxyLibrary) (serve : H → Handed E) (req : Request) :
    List (Middleware H) → List (Entry H) × Outcome E
  | [] => ([], .notFound)
  | .policy handler :: rest =>
    let done := handler.handle serve req
    match done.2 with
    | .stopped error => (done.1, .stopped error)
    | .on =>
      let after := runMiddleware library serve req rest
      (done.1 ++ after.1, after.2)
  | .proxy route :: rest =>
    if pathFilter route.pathPrefix (library.pathname req.path) then ([], .proxied route.name)
    else runMiddleware library serve req rest

/-- The policy was selected for the request and its whole chain ran, in order. -/
def Guarded (upstream : String) (policy : RoutePolicy H) (ran : List (Entry H)) : Prop :=
  (.matched upstream policy.name :: policy.handlers.map (.ran upstream policy.name)) <:+: ran

instance [DecidableEq H] (upstream : String) (policy : RoutePolicy H) (ran : List (Entry H)) :
    Decidable (Guarded upstream policy ran) :=
  inferInstanceAs (Decidable (_ <:+: _))

end PracticalMicroservice.Gateway
