import PracticalMicroservice.Gateway.Coverage
import PracticalMicroservice.Gateway.Proofs.ServiceProxyProofs

/-!
# When the gateway's matching and the upstream's agree
-/

namespace PracticalMicroservice.Gateway

open Foundations

/-! ## Merging slashes -/

theorem mergeSlashes_cons {s : List Char} (hs : s ≠ []) (rest : List (List Char)) :
    mergeSlashes (s :: rest) = s :: mergeSlashes rest := by
  rw [mergeSlashes, if_neg fun h => hs h.1]

theorem mergeSlashes_append {mount : List (List Char)} (hmount : ∀ m ∈ mount, m ≠ [])
    (rest : List (List Char)) : mergeSlashes (mount ++ rest) = mount ++ mergeSlashes rest := by
  induction mount with
  | nil => rfl
  | cons m mount ih =>
    rw [List.cons_append, mergeSlashes_cons (hmount m (List.mem_cons_self ..)),
      ih fun n hn => hmount n (List.mem_cons_of_mem _ hn), List.cons_append]

/-- The path the upstream reads below the mount point: as it was sent, or with its repeated
slashes merged. -/
def Received (rest received : List (List Char)) : Prop :=
  received = rest ∨ received = mergeSlashes rest

theorem Received.nil {received : List (List Char)} (h : Received [] received) :
    received = [] := by
  rcases h with rfl | rfl <;> rfl

/-- A segment that is not empty is received as it is. -/
theorem Received.cons {s : List Char} {rest received : List (List Char)} (hs : s ≠ [])
    (h : Received (s :: rest) received) : ∃ tail, received = s :: tail ∧ Received rest tail := by
  rcases h with rfl | rfl
  · exact ⟨rest, rfl, Or.inl rfl⟩
  · exact ⟨mergeSlashes rest, mergeSlashes_cons hs rest, Or.inr rfl⟩

/-- A trailing slash is received as it is. -/
theorem Received.trailing {received : List (List Char)} (h : Received [[]] received) :
    received = [[]] := by
  rcases h with rfl | rfl <;> rfl

/-! ## From the upstream's match to the policy's -/

theorem Piece.fits_ne_nil {piece : Piece} {s : List Char} (h : piece.fits s = true) : s ≠ [] := by
  cases piece with
  | literal t => simpa using (Bool.and_eq_true_iff.mp h).1
  | param => simpa [Piece.fits] using h
  | rest => cases h

/-- The part a pattern spells begins with the first segment, unless that is a trailing slash. -/
theorem spelledPart_cons {piece : Piece} {pieces : List Piece} {s : List Char}
    {rest : List (List Char)} (hpiece : piece ≠ .rest)
    (h : ∀ t ∈ spelledPart (piece :: pieces) (s :: rest), t ≠ []) :
    (s ≠ [] ∨ s = [] ∧ rest = []) ∧ ∀ t ∈ spelledPart pieces rest, t ≠ [] := by
  by_cases hrest : Piece.rest ∈ pieces
  · have hlong : .rest ∈ piece :: pieces := List.mem_cons_of_mem _ hrest
    have hpos : 0 < pieces.length := List.length_pos_of_mem hrest
    have htake : spelledPart (piece :: pieces) (s :: rest)
        = s :: spelledPart pieces rest := by
      rw [spelledPart, spelledPart, if_pos hlong, if_pos hrest, List.length_cons,
        Nat.add_sub_cancel, ← List.take_succ_cons, Nat.sub_add_cancel hpos]
    rw [htake] at h
    exact ⟨Or.inl (h s (List.mem_cons_self ..)), fun t ht => h t (List.mem_cons_of_mem _ ht)⟩
  · have hshort : .rest ∉ piece :: pieces := by
      intro hm
      rcases List.mem_cons.mp hm with heq | hm
      · exact hpiece heq.symm
      · exact hrest hm
    rw [spelledPart, if_neg hshort] at h
    rw [spelledPart, if_neg hrest]
    cases rest with
    | nil =>
      by_cases hs : s = []
      · exact ⟨Or.inr ⟨hs, rfl⟩, by simp⟩
      · exact ⟨Or.inl hs, by simp⟩
    | cons t rest =>
      rw [List.dropLast_cons_of_ne_nil (List.cons_ne_nil _ _)] at h
      exact ⟨Or.inl (h s (List.mem_cons_self ..)), fun u hu => h u (List.mem_cons_of_mem _ hu)⟩

/-- A path the upstream dispatches, spelled as a covering pattern spells it, fits the pattern. -/
theorem policyMatches_of_spelled {pieces route : List Piece} {rest received : List (List Char)}
    (hcovers : coversPieces pieces route = true) (hreceived : Received rest received)
    (hmatch : layerMatches route received = true)
    (hliterals : ∀ t s, (Piece.literal t, s) ∈ pieces.zip rest → s = t)
    (hslashes : ∀ s ∈ spelledPart pieces rest, s ≠ []) :
    policyMatches pieces rest = true := by
  induction pieces generalizing route rest received with
  | nil =>
    cases route with
    | cons => cases hcovers
    | nil =>
      have hlast : ∀ s ∈ rest.dropLast, s ≠ [] := by simpa [spelledPart] using hslashes
      cases rest with
      | nil => rfl
      | cons s rest =>
        cases rest with
        | nil =>
          by_cases hs : s = []
          · simp [policyMatches, hs]
          · obtain ⟨tail, rfl, -⟩ := hreceived.cons hs
            simp [layerMatches, routeMatches, hs] at hmatch
        | cons t rest =>
          have hs : s ≠ [] := hlast s (by simp)
          obtain ⟨tail, rfl, -⟩ := hreceived.cons hs
          simp [layerMatches, routeMatches, hs] at hmatch
  | cons piece pieces ih =>
    by_cases hpiece : piece = .rest
    · rw [hpiece]
      rfl
    · cases route with
      | nil =>
        cases piece with
        | rest => exact absurd rfl hpiece
        | param => cases hcovers
        | literal t => cases hcovers
      | cons first route =>
        have hmatch : routeMatches (first :: route) received = true := by
          simpa [layerMatches] using hmatch
        cases rest with
        | nil =>
          rw [hreceived.nil] at hmatch
          cases hmatch
        | cons s rest =>
          obtain ⟨hs, htail⟩ := spelledPart_cons hpiece hslashes
          have hs : s ≠ [] := by
            rcases hs with hs | ⟨rfl, rfl⟩
            · exact hs
            · rw [hreceived.trailing, routeMatches, Bool.and_eq_true] at hmatch
              exact absurd rfl (Piece.fits_ne_nil hmatch.1)
          obtain ⟨tail, rfl, hreceivedTail⟩ := hreceived.cons hs
          rw [routeMatches, Bool.and_eq_true] at hmatch
          have hcovers : coversPieces pieces route = true := by
            cases piece with
            | rest => exact absurd rfl hpiece
            | param => cases first <;> first | exact hcovers | cases hcovers
            | literal t =>
              cases first with
              | literal u => exact (Bool.and_eq_true_iff.mp hcovers).2
              | param => cases hcovers
              | rest => cases hcovers
          have hlayer : layerMatches route tail = true := by
            rw [layerMatches, hmatch.2, Bool.true_or]
          have hrec := ih hcovers hreceivedTail hlayer
            (fun t u h => hliterals t u (List.mem_cons_of_mem _ h)) htail
          cases piece with
          | rest => exact absurd rfl hpiece
          | param => simp [policyMatches, hs, hrec]
          | literal t =>
            have : s = t := hliterals t s (List.mem_cons_self ..)
            simp [policyMatches, this, hrec]

/-! ## From the policy's match to the spelling -/

/-- Only a pattern's last segment is a wildcard. -/
def WildcardLast (pieces : List Piece) : Prop := .rest ∉ pieces.dropLast

instance (pieces : List Piece) : Decidable (WildcardLast pieces) :=
  inferInstanceAs (Decidable (¬ _))

theorem WildcardLast.tail {piece : Piece} {pieces : List Piece}
    (h : WildcardLast (piece :: pieces)) : WildcardLast pieces := by
  cases pieces with
  | nil => exact List.not_mem_nil
  | cons second pieces => exact fun hm => h (List.mem_cons_of_mem _ hm)

/-- What a pattern matches below a first nonempty segment it spells itself. -/
theorem spelledPart_of_tail {piece : Piece} {pieces : List Piece} {s : List Char}
    {rest : List (List Char)} (hpiece : piece ≠ .rest) (hs : s ≠ [])
    (h : ∀ t ∈ spelledPart pieces rest, t ≠ []) :
    ∀ t ∈ spelledPart (piece :: pieces) (s :: rest), t ≠ [] := by
  intro t ht
  by_cases hrest : Piece.rest ∈ pieces
  · have hlong : .rest ∈ piece :: pieces := List.mem_cons_of_mem _ hrest
    have hpos : 0 < pieces.length := List.length_pos_of_mem hrest
    rw [spelledPart, if_pos hlong, List.length_cons, Nat.add_sub_cancel,
      ← Nat.sub_add_cancel hpos, List.take_succ_cons] at ht
    rw [spelledPart, if_pos hrest] at h
    rcases List.mem_cons.mp ht with rfl | ht
    · exact hs
    · exact h t ht
  · have hshort : .rest ∉ piece :: pieces := by
      intro hm
      rcases List.mem_cons.mp hm with heq | hm
      · exact hpiece heq.symm
      · exact hrest hm
    rw [spelledPart, if_neg hshort] at ht
    rw [spelledPart, if_neg hrest] at h
    cases rest with
    | nil => simp at ht
    | cons u rest =>
      rw [List.dropLast_cons_of_ne_nil (List.cons_ne_nil _ _)] at ht
      rcases List.mem_cons.mp ht with rfl | ht
      · exact hs
      · exact h t ht

/-- A literal of a pattern is not empty. -/
def LiteralsFull (pieces : List Piece) : Prop := .literal [] ∉ pieces

theorem spelled_of_policyMatches {pieces : List Piece} {rest : List (List Char)}
    (hlast : WildcardLast pieces) (hfull : LiteralsFull pieces)
    (h : policyMatches pieces rest = true) :
    (∀ t s, (Piece.literal t, s) ∈ pieces.zip rest → s = t)
      ∧ ∀ s ∈ spelledPart pieces rest, s ≠ [] := by
  induction pieces generalizing rest with
  | nil =>
    refine ⟨by simp, ?_⟩
    rcases Bool.or_eq_true_iff.mp h with h | h
    · simp [spelledPart, beq_iff_eq.mp h]
    · simp [spelledPart, beq_iff_eq.mp h]
  | cons piece pieces ih =>
    have hfull' : LiteralsFull pieces := fun hm => hfull (List.mem_cons_of_mem _ hm)
    cases piece with
    | rest =>
      have hnil : pieces = [] := by
        cases pieces with
        | nil => rfl
        | cons second pieces => exact absurd (List.mem_cons_self ..) hlast
      subst hnil
      cases rest with
      | nil => simp [spelledPart]
      | cons s rest => simp [spelledPart]
    | literal t =>
      cases rest with
      | nil => cases h
      | cons s rest =>
        obtain ⟨heq, htail⟩ := Bool.and_eq_true_iff.mp h
        have heq : s = t := beq_iff_eq.mp heq
        have hs : s ≠ [] := fun hnil => hfull (by simp [← heq, hnil])
        obtain ⟨hliterals, hslashes⟩ := ih hlast.tail hfull' htail
        refine ⟨fun u v hm => ?_, spelledPart_of_tail Piece.noConfusion hs hslashes⟩
        rcases List.mem_cons.mp hm with hm | hm
        · cases hm
          exact heq
        · exact hliterals u v hm
    | param =>
      cases rest with
      | nil => cases h
      | cons s rest =>
        obtain ⟨hne, htail⟩ := Bool.and_eq_true_iff.mp h
        obtain ⟨hliterals, hslashes⟩ := ih hlast.tail hfull' htail
        refine ⟨fun u v hm => ?_,
          spelledPart_of_tail Piece.noConfusion (by simpa using hne) hslashes⟩
        rcases List.mem_cons.mp hm with hm | hm
        · cases hm
        · exact hliterals u v hm

theorem literalsFull_piecesOf (pattern : String) : LiteralsFull (piecesOf pattern) := by
  intro hm
  obtain ⟨segment, hsegment, hof⟩ := List.mem_map.mp hm
  rw [Piece.of] at hof
  split at hof
  · cases hof
  · split at hof
    · cases hof
    · exact (mem_segmentsOf hsegment).2 (Piece.literal.inj hof)

/-! ## Patterns that meet on a path -/

/-- Could a policy's pattern and a route's match spellings of one path? -/
def overlaps : List Piece → List Piece → Bool
  | [], [] => true
  | .rest :: _, _ => true
  | .literal t :: pieces, .literal u :: route => sameLetters t u && overlaps pieces route
  | .literal _ :: pieces, .param :: route => overlaps pieces route
  | .param :: pieces, .literal _ :: route => overlaps pieces route
  | .param :: pieces, .param :: route => overlaps pieces route
  | _, _ => false

/-- A first segment that is not empty is read by the route's first piece. -/
theorem layerMatches_cons {route : List Piece} {s : List Char} {tail : List (List Char)}
    (hs : s ≠ []) (h : layerMatches route (s :: tail) = true) :
    ∃ first more, route = first :: more ∧ first.fits s = true
      ∧ layerMatches more tail = true := by
  cases route with
  | nil => simp [layerMatches, routeMatches, hs] at h
  | cons first more =>
    have hroute : routeMatches (first :: more) (s :: tail) = true := by
      simpa [layerMatches] using h
    obtain ⟨hfits, hmore⟩ := Bool.and_eq_true_iff.mp hroute
    exact ⟨first, more, rfl, hfits, by rw [layerMatches, hmore, Bool.true_or]⟩

theorem overlaps_of_matches {pieces route : List Piece} {rest received : List (List Char)}
    (hfull : LiteralsFull pieces) (hreceived : Received rest received)
    (hpolicy : policyMatches pieces rest = true) (hroute : layerMatches route received = true) :
    overlaps pieces route = true := by
  induction pieces generalizing route rest received with
  | nil =>
    have hshort : received = [] ∨ received = [[]] := by
      rcases Bool.or_eq_true_iff.mp hpolicy with h | h
      · rw [beq_iff_eq.mp h] at hreceived
        exact Or.inl hreceived.nil
      · rw [beq_iff_eq.mp h] at hreceived
        exact Or.inr hreceived.trailing
    cases route with
    | nil => rfl
    | cons first more =>
      rcases hshort with rfl | rfl
      · simp [layerMatches, routeMatches] at hroute
      · have hfits : first.fits [] = true := by
          simp only [layerMatches, routeMatches, reduceCtorEq, beq_iff_eq, Bool.or_eq_true,
            Bool.and_eq_true] at hroute
          rcases hroute with h | h
          · exact h.1
          · exact absurd h.1 (by simp)
        exact absurd rfl (Piece.fits_ne_nil hfits)
  | cons piece pieces ih =>
    have hfull' : LiteralsFull pieces := fun hm => hfull (List.mem_cons_of_mem _ hm)
    cases piece with
    | rest => rfl
    | literal t =>
      cases rest with
      | nil => cases hpolicy
      | cons s rest =>
        obtain ⟨heq, htail⟩ := Bool.and_eq_true_iff.mp hpolicy
        have heq : s = t := beq_iff_eq.mp heq
        subst heq
        have hs : s ≠ [] := fun hnil => hfull (by simp [hnil])
        obtain ⟨tail, rfl, hreceivedTail⟩ := hreceived.cons hs
        obtain ⟨first, more, rfl, hfits, hmore⟩ := layerMatches_cons hs hroute
        have hrec := ih hfull' hreceivedTail htail hmore
        cases first with
        | literal u =>
          exact Bool.and_eq_true_iff.mpr ⟨(Bool.and_eq_true_iff.mp hfits).2, hrec⟩
        | param => exact hrec
        | rest => cases hfits
    | param =>
      cases rest with
      | nil => cases hpolicy
      | cons s rest =>
        obtain ⟨hne, htail⟩ := Bool.and_eq_true_iff.mp hpolicy
        have hs : s ≠ [] := by simpa using hne
        obtain ⟨tail, rfl, hreceivedTail⟩ := hreceived.cons hs
        obtain ⟨first, more, rfl, hfits, hmore⟩ := layerMatches_cons hs hroute
        have hrec := ih hfull' hreceivedTail htail hmore
        cases first with
        | literal u => exact hrec
        | param => exact hrec
        | rest => cases hfits

/-! ## The tables -/

/-- The gateway starts: every pattern of the table compiles. -/
theorem createServiceHandlers_ok :
    createServiceHandlers serviceRegistry routePolicies = .ok upstreamHandlers := by
  have hok : (createServiceHandlers serviceRegistry routePolicies).isOk = true := by
    decide +kernel
  cases h : createServiceHandlers serviceRegistry routePolicies with
  | error e => rw [h] at hok; cases hok
  | ok chain => rw [upstreamHandlers, h]; rfl

theorem serviceRegistry_names : (serviceRegistry.map (·.name)).Nodup := by decide

/-- Every prefix is its segments, each after a slash. -/
theorem serviceRegistry_spelled : ∀ route ∈ serviceRegistry,
    spell '/' (segmentsOf route.pathPrefix.toList) = route.pathPrefix.toList := by
  decide +kernel

theorem routePolicies_names (service : ServiceName) :
    ((routePolicies service).map (·.name)).Nodup := by
  cases service <;> decide +kernel

theorem routePolicies_wildcardLast (service : ServiceName) :
    ∀ policy ∈ routePolicies service, ∀ pattern ∈ policy.paths,
      WildcardLast (piecesOf pattern) := by
  cases service <;> decide +kernel

/-- No policy names `HEAD`. -/
theorem routePolicies_no_head (service : ServiceName) :
    ∀ policy ∈ routePolicies service, .head ∉ policy.methods.getD [] := by
  cases service <;> decide +kernel

/-- A pattern of a policy written for a route covers the route as soon as the two can meet. -/
theorem covers_of_overlaps (withDispatchEndpoint : Bool) (service : ServiceName) :
    ∀ policy ∈ routePolicies service,
      ∀ route ∈ upstreamRoutes withDispatchEndpoint service, WrittenFor policy route →
        ∀ pattern ∈ policy.paths, overlaps (piecesOf pattern) (piecesOf route.path) = true →
          coversPieces (piecesOf pattern) (piecesOf route.path) = true := by
  cases service <;> cases withDispatchEndpoint <;> decide +kernel

/-! ## Which requests are guarded -/

theorem HttpMethod.text_eq_head {method : HttpMethod} (h : method.text = "HEAD") :
    method = .head := by
  cases method <;> first | rfl | exact absurd h (by decide)

/-- A policy that names no `HEAD` takes a `HEAD` request when it names no method at all. -/
theorem covers_head {H : Type} {policy : RoutePolicy H}
    (hhead : .head ∉ policy.methods.getD []) :
    policy.covers "HEAD" = true ↔ policy.methods = none := by
  rw [RoutePolicy.covers]
  cases hm : policy.methods with
  | none => simp
  | some methods =>
    rw [hm] at hhead
    constructor
    · intro h
      obtain ⟨method, hmem, htext⟩ := List.any_eq_true.mp h
      rw [HttpMethod.text_eq_head (beq_iff_eq.mp htext)] at hmem
      exact absurd hmem hhead
    · intro h
      cases h

/-- A policy written for the route that takes the request covers its method, but for `HEAD`. -/
theorem covers_iff_of_handles {H : Type} {policy : RoutePolicy H} {route : UpstreamRoute}
    (hhead : .head ∉ policy.methods.getD []) (hwritten : WrittenFor policy route)
    {method : String} (hhandles : route.handles method = true) :
    policy.covers method = true ↔ method ≠ "HEAD" ∨ policy.methods = none := by
  by_cases hmethod : method = "HEAD"
  · rw [hmethod, covers_head hhead]
    simp
  · have htext : route.method.text = method := by
      rcases Bool.or_eq_true_iff.mp hhandles with h | h
      · exact beq_iff_eq.mp h
      · exact absurd (beq_iff_eq.mp (Bool.and_eq_true_iff.mp h).2) hmethod
    rw [← htext]
    exact ⟨fun _ => Or.inl (htext ▸ hmethod), fun _ => hwritten.1⟩

/-- Below the mount point a dispatched path is the segments of the route. -/
theorem dispatch_spec {decodes : List Char → Bool} {mount : List (List Char)} {method : String}
    {path : Path} {routes : List UpstreamRoute} {route : UpstreamRoute}
    (h : dispatch decodes mount method path routes = some route) :
    route ∈ routes ∧ route.handles method = true
      ∧ ∃ rest, belowMount mount path.segments = some rest
          ∧ layerMatches (piecesOf route.path) rest = true := by
  obtain ⟨rest, hbelow, h⟩ := Option.bind_eq_some_iff.mp h
  obtain ⟨found, hfind, h⟩ := Option.bind_eq_some_iff.mp h
  split at h
  · cases h
    have hfound := List.find?_some hfind
    obtain ⟨hhandles, hlayer⟩ := Bool.and_eq_true_iff.mp hfound
    exact ⟨List.mem_of_find?_eq_some hfind, hhandles, rest, hbelow, hlayer⟩
  · cases h

theorem belowMount_append (mount rest : List (List Char)) :
    belowMount mount (mount ++ rest) = some rest := by
  induction mount with
  | nil => rfl
  | cons m mount ih => simpa [belowMount, sameLetters] using ih

/-- What the upstream reads below the mount point of a path whose prefix is exact. -/
theorem received_of_exact {mount rest received : List (List Char)} {path forwarded : Path}
    (hmount : ∀ m ∈ mount, m ≠ []) (hexact : path.segments = mount ++ rest)
    (hforward : forwarded = path ∨ forwarded = path.merged)
    (h : belowMount mount forwarded.segments = some received) : Received rest received := by
  rcases hforward with rfl | rfl
  · rw [hexact, belowMount_append] at h
    exact Or.inl (Option.some.inj h).symm
  · change belowMount mount (mergeSlashes path.segments) = some received at h
    rw [hexact, mergeSlashes_append hmount, belowMount_append] at h
    exact Or.inr (Option.some.inj h).symm

variable {E : Type} {library : ProxyLibrary} {serve : EdgeHandler → Handed E} {req : Request}

/-- A policy written for the route a request is dispatched to is selected on a path that is spelled
as the policy spells it. -/
theorem guarded_of_canonical {route : ServiceRoute} (hroute : route ∈ serviceRegistry)
    (hproxied : (runMiddleware library serve req upstreamHandlers).2 = .proxied route.name)
    (hforward : library.forward req.path = req.path
      ∨ library.forward req.path = req.path.merged)
    {decodes : List Char → Bool} {withDispatchEndpoint : Bool} {upstreamRoute : UpstreamRoute}
    (hdispatch : dispatch decodes (segmentsOf route.pathPrefix.toList) req.method
      (library.forward req.path) (upstreamRoutes withDispatchEndpoint route.name)
        = some upstreamRoute)
    {policy : RoutePolicy EdgeHandler} (hpolicy : policy ∈ routePolicies route.name)
    (hwritten : WrittenFor policy upstreamRoute)
    (hmethod : req.method ≠ "HEAD" ∨ policy.methods = none)
    (hcanonical : CanonicalFor (segmentsOf route.pathPrefix.toList) policy upstreamRoute req.path) :
    Guarded route.name.text policy (runMiddleware library serve req upstreamHandlers).1 := by
  have hmount : ∀ m ∈ segmentsOf route.pathPrefix.toList, '/' ∉ m ∧ m ≠ [] :=
    fun m hm => mem_segmentsOf hm
  obtain ⟨-, hhandles, received, hbelow, hlayer⟩ := dispatch_spec hdispatch
  obtain ⟨pattern, hpattern, hcovers, rest, hspelled⟩ := hcanonical
  have hreceived := received_of_exact (fun m hm => (hmount m hm).2) hspelled.mount_exact
    hforward hbelow
  rw [guarded_iff_covered createServiceHandlers_ok serviceRegistry_names hroute
    (routePolicies_names _) hproxied hpolicy (serviceRegistry_spelled route hroute)
    (fun m hm => (hmount m hm).1),
    covers_iff_of_handles (routePolicies_no_head _ policy hpolicy) hwritten hhandles]
  exact ⟨hmethod, pattern, hpattern, rest, hspelled.mount_exact,
    policyMatches_of_spelled hcovers hreceived hlayer hspelled.literals_exact
      hspelled.single_slashes⟩

/-- The proxy library on plain paths: the filter reads the path, the request goes out with its
repeated slashes merged. -/
def plainLibrary : ProxyLibrary where
  pathname := Path.text
  forward := Path.merged

/-- `GET /api/v1/users/auth/7`. -/
def lookup : Request where
  method := "GET"
  path := { segments := ["api".toList, "v1".toList, "users".toList, "auth".toList, "7".toList]
            clean := by simp [lineTerminator] }

/-- A caller every handler lets through. -/
def letThrough : EdgeHandler → Handed Unit := fun _ => .on

/-- `POST /api/v1/auth/LOGIN`. -/
def shoutedLogin : Request where
  method := "POST"
  path := { segments := ["api".toList, "v1".toList, "auth".toList, "LOGIN".toList]
            clean := by simp [lineTerminator] }

end PracticalMicroservice.Gateway
