import PracticalMicroservice.Cart.Dispatch
import PracticalMicroservice.Gateway.Coverage

/-!
# A request at the edge (`app.ts`, `middlewares`, `lib/tokens.ts`)

The handlers that `createApp` mounts, in their order, on one request: what they make of its headers,
who they take the caller to be, and how they end it. What the packages decide is a parameter: what
the signature of a token is worth, whether a limiter has run out, and which requests are preflights
or ask for the docs.
-/

namespace PracticalMicroservice.Gateway

open Inventory (isWhiteSpace jsLength sliceUnits trim)

/-! ## Errors (`errors/app-error.ts`, `middlewares/error-handler.ts`) -/

inductive ErrorCode where
  | BAD_REQUEST | VALIDATION_ERROR | UNAUTHORIZED | FORBIDDEN | NOT_FOUND | CONFLICT
  | UNPROCESSABLE_ENTITY | TOO_MANY_REQUESTS | INTERNAL_SERVER_ERROR | SERVICE_UNAVAILABLE
  | BAD_GATEWAY | GATEWAY_TIMEOUT
deriving DecidableEq

structure AppError where
  message : String
  statusCode : Nat
  code : ErrorCode
  isOperational : Bool := true
deriving DecidableEq

def UnauthorizedError (message : String) : AppError :=
  { message, statusCode := 401, code := .UNAUTHORIZED }

def ForbiddenError (message : String) : AppError :=
  { message, statusCode := 403, code := .FORBIDDEN }

def NotFoundError (message : String) : AppError :=
  { message, statusCode := 404, code := .NOT_FOUND }

def TooManyRequestsError (message : String) : AppError :=
  { message, statusCode := 429, code := .TOO_MANY_REQUESTS }

def BadGatewayError (message : String) : AppError :=
  { message, statusCode := 502, code := .BAD_GATEWAY }

def ServiceUnavailableError (message : String) : AppError :=
  { message, statusCode := 503, code := .SERVICE_UNAVAILABLE }

def GatewayTimeoutError (message : String) : AppError :=
  { message, statusCode := 504, code := .GATEWAY_TIMEOUT }

/-- The error envelope, without a stack. -/
structure ErrorBody where
  code : ErrorCode
  message : String
  requestId : Option String
deriving DecidableEq

/-- `buildErrorBody` -/
def buildErrorBody (isProduction : Bool) (appError : AppError) (requestId : Option String) :
    ErrorBody where
  code := appError.code
  message :=
    if appError.isOperational || !isProduction then appError.message else "Internal server error"
  requestId := requestId.filter (· ≠ "")

/-- `toGatewayError`: the status for a connection that failed with this code. -/
def toGatewayError (code : String) (route : ServiceName) : AppError :=
  if "HPE_".toList.isPrefixOf code.toList then
    BadGatewayError ("Invalid response from " ++ route.text ++ " service")
  else if code ∈ ["ECONNREFUSED", "ENOTFOUND", "EAI_AGAIN", "EHOSTUNREACH", "ENETUNREACH"] then
    ServiceUnavailableError (route.text ++ " service is unreachable")
  else if code ∈ ["ECONNRESET", "ETIMEDOUT", "ESOCKETTIMEDOUT"] then
    GatewayTimeoutError (route.text ++ " service did not respond in time")
  else BadGatewayError ("Failed to reach " ++ route.text ++ " service")

/-! ## Headers and tokens -/

/-- The headers of a request, by their names in lower case. -/
abbrev Headers := String → Option String

def Headers.set (headers : Headers) (name value : String) : Headers :=
  fun n => if n = name then some value else headers n

def Headers.delete (headers : Headers) (name : String) : Headers :=
  fun n => if n = name then none else headers n

def REQUEST_ID_HEADER : String := "x-request-id"
def ACTOR_HEADER : String := "x-actor-id"
def AUTHORIZATION : String := "authorization"

def ACTOR_MAX_LENGTH : Nat := 120

/-- `text.split(/\s+/)`, of a text that neither begins nor ends with white space. -/
def splitWhite (text : List Char) : List (List Char) :=
  match (text.splitOnP isWhiteSpace).filter (· ≠ []) with
  | [] => [[]]
  | words => words

def extractBearerToken (header : Option String) : Option String :=
  match header.filter (· ≠ "") with
  | none => none
  | some header =>
    match splitWhite (trim header).toList with
    | [scheme, token] =>
      if scheme.map Char.toLower = "bearer".toList ∧ token ≠ [] then some (String.ofList token)
      else none
    | _ => none

/-- A claim of a token: a text, or some other value. -/
inductive ClaimValue where
  | text (value : String)
  | other
deriving DecidableEq

/-- `typeof value === "string"` -/
def ClaimValue.string : Option ClaimValue → Option String
  | some (.text value) => some value
  | _ => none

inductive Limiter where
  | general | credential
deriving DecidableEq

/-- What the packages decide about a request. -/
structure Packages where
  /-- `jwtVerify`, for the gateway's key, algorithm, issuer and audience: the claims of a good token. -/
  jwtVerify : String → Option (String → Option ClaimValue)
  /-- The caller has used up what a limiter allows. -/
  exhausted : Limiter → Bool
  /-- A preflight, or a request for the docs, answered ahead of everything else. -/
  answered : Request → Headers → Bool
  proxy : ProxyLibrary

structure AccessTokenClaims where
  sub : String
  email : String
  username : String
  role : String
  sid : String
deriving DecidableEq

def verifyAccessToken (packages : Packages) (token : String) : Option AccessTokenClaims := do
  let payload ← packages.jwtVerify token
  let sub ← ClaimValue.string (payload "sub")
  let email ← ClaimValue.string (payload "email")
  let username ← ClaimValue.string (payload "username")
  let role ← ClaimValue.string (payload "role")
  let sid ← ClaimValue.string (payload "sid")
  some { sub, email, username, role, sid }

/-- Who the headers prove the caller to be. -/
def caller (packages : Packages) (headers : Headers) : Except AppError AccessTokenClaims :=
  match extractBearerToken (headers AUTHORIZATION) with
  | none => .error (UnauthorizedError "A bearer access token is required")
  | some token =>
    match verifyAccessToken packages token with
    | none => .error (UnauthorizedError "Access token is invalid or has expired")
    | some claims => .ok claims

def Role.text : Role → String
  | .user => "USER"
  | .admin => "ADMIN"

/-! ## What the handlers make of a request -/

structure RequestAuth where
  authUserId : String
  email : String
  username : String
  role : String
  sessionId : String
deriving DecidableEq

def RequestAuth.of (claims : AccessTokenClaims) : RequestAuth where
  authUserId := claims.sub
  email := claims.email
  username := claims.username
  role := claims.role
  sessionId := claims.sid

/-- A request on its way through the handlers. -/
structure Edge where
  /-- What a proxy sends on. -/
  headers : Headers
  id : Option String := none
  actor : Option String := none
  auth : Option RequestAuth := none
  /-- `x-request-id` of the response. -/
  responseId : Option String := none

/-- How the handlers end a request. -/
inductive Ended where
  | answered
  | failed (error : AppError)
  | proxied (upstream : ServiceName)
deriving DecidableEq

/-- A handler: it calls `next()`, or ends the request. -/
abbrev Stage := Edge → Edge × Option Ended

/-- Handlers one after another, until one ends the request. -/
def runStages : List Stage → Stage
  | [], e => (e, none)
  | stage :: rest, e =>
    match stage e with
    | (e', none) => runStages rest e'
    | ended => ended

structure Env where
  TRUST_CLIENT_ACTOR : Bool
  MAX_BODY_BYTES : Nat
  isProduction : Bool

/-- A request as it comes in. -/
structure Inbound where
  request : Request
  originalUrl : String
  headers : Headers

section Stages

variable (env : Env) (packages : Packages) (inbound : Inbound)

/-- The correlation id: the caller's, if it is not too long, or a new one. -/
def requestIdOf (headers : Headers) (uuid : String) : String :=
  ((headers REQUEST_ID_HEADER).filter fun id => id ≠ "" ∧ jsLength id ≤ 200).getD uuid

/-- What the caller claims to be, where that is believed. -/
def claimedActor (headers : Headers) : Option String :=
  if env.TRUST_CLIENT_ACTOR then
    (((headers ACTOR_HEADER).map trim).filter (· ≠ "")).map fun claimed =>
      String.ofList (sliceUnits ACTOR_MAX_LENGTH claimed.toList)
  else none

def requestContext (uuid : String) : Stage := fun e =>
  let requestId := requestIdOf e.headers uuid
  let headers := e.headers.set REQUEST_ID_HEADER requestId
  match claimedActor env headers with
  | some actor =>
    ({ e with
        id := some requestId
        actor := some actor
        headers := headers.set ACTOR_HEADER actor
        responseId := some requestId }, none)
  | none =>
    ({ e with
        id := some requestId
        headers := headers.delete ACTOR_HEADER
        responseId := some requestId }, none)

/-- `Number(declared)`, where that is a number at all. -/
def declaredBytes (declared : String) : Option Nat :=
  if declared ≠ "" ∧ declared.toList.all Char.isDigit then
    some (declared.toList.foldl (fun n c => 10 * n + (c.toNat - '0'.toNat)) 0)
  else none

def bodyLimit : Stage := fun e =>
  match ((e.headers "content-length").filter (· ≠ "")).bind declaredBytes with
  | none => (e, none)
  | some bytes =>
    if bytes ≤ env.MAX_BODY_BYTES then (e, none)
    else (e, some (.failed
      { message := "Request body exceeds the " ++ toString env.MAX_BODY_BYTES ++ " byte limit"
        statusCode := 413
        code := .BAD_REQUEST }))

/-- `GET /`, and the health router below the prefix. -/
def ownRoutes : Stage := fun e =>
  if (UpstreamRoute.mk .get "/").handles inbound.request.method &&
      layerMatches [] inbound.request.path.segments then (e, some .answered)
  else if (dispatch (fun _ => true) (segmentsOf (API_PREFIX ++ "/health").toList)
      inbound.request.method inbound.request.path
      [⟨.get, "/"⟩, ⟨.get, "/live"⟩, ⟨.get, "/ready"⟩]).isSome then (e, some .answered)
  else (e, none)

def rateLimiter : Stage := fun e =>
  if packages.exhausted .general then
    (e, some (.failed (TooManyRequestsError "Too many requests, please retry later")))
  else (e, none)

def authenticate : Stage := fun e =>
  match caller packages e.headers with
  | .error error => (e, some (.failed error))
  | .ok claims =>
    ({ e with
        auth := some (.of claims)
        actor := some claims.sub
        headers := e.headers.set ACTOR_HEADER claims.sub }, none)

def requireRole (roles : List Role) : Stage := fun e =>
  match e.auth with
  | none => (e, some (.failed (UnauthorizedError "Authentication required")))
  | some auth =>
    if roles.any (·.text == auth.role) then (e, none)
    else (e, some (.failed (ForbiddenError "Insufficient permissions")))

/-- What stands behind the handlers of the policy table. -/
def EdgeHandler.stage : EdgeHandler → Stage
  | .credentialRateLimiter => fun e =>
    if packages.exhausted .credential then
      (e, some (.failed
        (TooManyRequestsError "Too many authentication requests, please retry later")))
    else (e, none)
  | .authenticate => Gateway.authenticate packages
  | .requireRole roles => Gateway.requireRole roles

/-- A handler of the upstream chain. -/
def Middleware.stage : Middleware EdgeHandler → Stage
  | .policy handler => fun e =>
    if handler.selects inbound.request then
      runStages (handler.policy.handlers.map (EdgeHandler.stage packages)) e
    else (e, none)
  | .proxy route => fun e =>
    if pathFilter route.pathPrefix (packages.proxy.pathname inbound.request.path) then
      (e, some (.proxied route.name))
    else (e, none)

def notFoundHandler : Stage := fun e =>
  (e, some (.failed (NotFoundError
    ("Route " ++ inbound.request.method ++ " " ++ inbound.originalUrl ++ " not found"))))

/-- What `createApp` mounts. -/
def createApp (uuid : String) : List Stage :=
  [fun e => if packages.answered inbound.request e.headers then (e, some .answered) else (e, none),
    requestContext env uuid, bodyLimit env, ownRoutes inbound, rateLimiter packages] ++
    upstreamHandlers.map (Middleware.stage packages inbound) ++ [notFoundHandler inbound]

/-- A request through all of it. -/
def handle (uuid : String) : Edge × Option Ended :=
  runStages (createApp env packages inbound uuid) { headers := inbound.headers }

/-- What the client is answered. -/
inductive Reply where
  | answered
  | error (status : Nat) (body : ErrorBody)
  /-- Whatever the service said. -/
  | relayed (upstream : ServiceName)
deriving DecidableEq

/-- `errorHandler`, and the error handler of a proxy whose connection failed with a code. -/
def respond (failure : ServiceName → Option String) : Edge × Option Ended → Reply
  | (e, some (.failed error)) =>
    .error error.statusCode (buildErrorBody env.isProduction error e.id)
  | (e, some (.proxied upstream)) =>
    match failure upstream with
    | none => .relayed upstream
    | some code =>
      let appError := toGatewayError code upstream
      .error appError.statusCode (buildErrorBody env.isProduction appError e.id)
  | _ => .answered

end Stages

/-! ## Down the call chain -/

/-- The calls that services behind the gateway make of one another. -/
inductive Onward
  /-- Of the inventory, by the product service. -/
  | inventory
  /-- Of the user service, by `ensureProfile`, for an account that has no profile yet. -/
  | profile (authUserId : String)
  /-- Of the email service, by the auth service. -/
  | email
deriving DecidableEq

/-- Who such a call says it is by: whoever the caller's own request is by; the account; no one. -/
def Onward.actor : Onward → Option String → Option String
  | inventory, read => read
  | profile authUserId, _ => some authUserId
  | email, _ => none

/-- What the last service down a call chain takes the id and the actor of a request to be. Each has an
id of its own, should it be sent none, and sends on the one it has taken. -/
def hops (generated : String) : List (Onward × String) → Option String × Option String →
    String × Option String
  | [], sent => Inventory.requestContext sent.1 sent.2 generated
  | (call, next) :: rest, sent =>
    let read := Inventory.requestContext sent.1 sent.2 generated
    hops next rest (some read.1, call.actor read.2)

end PracticalMicroservice.Gateway
