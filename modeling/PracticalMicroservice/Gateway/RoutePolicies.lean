import PracticalMicroservice.Gateway.RoutePolicy

/-!
# The routing and policy tables (`config/services.ts`, `config/route-policies.ts`)
-/

namespace PracticalMicroservice.Gateway

/-- Registry keys. -/
inductive ServiceName where
  | auth | user | product | inventory | email
deriving DecidableEq

def ServiceName.text : ServiceName → String
  | .auth => "auth"
  | .user => "user"
  | .product => "product"
  | .inventory => "inventory"
  | .email => "email"

def API_PREFIX : String := "/api/v1"

/-- One upstream: its key and the path prefix it owns. -/
structure ServiceRoute where
  name : ServiceName
  pathPrefix : String
deriving DecidableEq

/-- The routing table, in match order. -/
def serviceRegistry : List ServiceRoute :=
  [{ name := .auth, pathPrefix := API_PREFIX ++ "/auth" },
   { name := .user, pathPrefix := API_PREFIX ++ "/users" },
   { name := .product, pathPrefix := API_PREFIX ++ "/products" },
   { name := .inventory, pathPrefix := API_PREFIX ++ "/inventory" },
   { name := .email, pathPrefix := API_PREFIX ++ "/emails" }]

/-- Roles the auth service can stamp into a token. -/
inductive Role where
  | user | admin
deriving DecidableEq

/-- The handlers policies are built from. -/
inductive EdgeHandler where
  | credentialRateLimiter
  | authenticate
  | requireRole (roles : List Role)
deriving DecidableEq

def adminOnly : List EdgeHandler := [.authenticate, .requireRole [.admin]]

/-- What the edge enforces before a request is proxied, service by service. -/
def routePolicies : ServiceName → List (RoutePolicy EdgeHandler)
  | .auth =>
    [{ name := "credential-throttle"
       methods := some [.post]
       paths := ["/register", "/login", "/refresh", "/forgot-password", "/reset-password",
         "/verify-email", "/resend-verification"]
       handlers := [.credentialRateLimiter] },
     { name := "authenticated-session"
       methods := none
       paths := ["/me", "/sessions", "/logout-all", "/change-password", "/login-history"]
       handlers := [.authenticate] }]
  | .user =>
    [{ name := "profile-provisioning"
       methods := some [.post]
       paths := ["/"]
       handlers := adminOnly },
     { name := "auth-id-lookup"
       methods := some [.get]
       paths := ["/auth/:authUserId"]
       handlers := adminOnly },
     { name := "profile-access"
       methods := none
       paths := ["/:id"]
       handlers := [.authenticate] }]
  | .product =>
    [{ name := "catalogue-writes"
       methods := some [.post, .patch, .put, .delete]
       paths := ["/", "/:id"]
       handlers := adminOnly }]
  | .inventory =>
    [{ name := "stock-visibility"
       methods := some [.get]
       paths := ["/*"]
       handlers := [.authenticate] },
     { name := "stock-mutations"
       methods := some [.post, .patch, .put, .delete]
       paths := ["/", "/:id", "/:id/*"]
       handlers := adminOnly }]
  | .email =>
    [{ name := "mail-operations"
       methods := none
       paths := ["/*"]
       handlers := adminOnly }]

end PracticalMicroservice.Gateway
