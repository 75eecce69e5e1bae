import PracticalMicroservice.Gateway.Proofs.RoutePolicyProofs
import PracticalMicroservice.Gateway.ServiceProxy

/-!
# What a proxied request went through
-/

namespace PracticalMicroservice.Gateway

open Foundations

variable {H E : Type} {library : ProxyLibrary} {serve : H → Handed E} {req : Request}

/-- A chain that takes no decision hands over to the one after it. -/
theorem runMiddleware_append_on {first second : List (Middleware H)}
    (h : (runMiddleware library serve req first).2 = .notFound) :
    runMiddleware library serve req (first ++ second)
      = ((runMiddleware library serve req first).1 ++ (runMiddleware library serve req second).1,
          (runMiddleware library serve req second).2) := by
  induction first with
  | nil => rfl
  | cons middleware rest ih =>
    cases middleware with
    | policy handler =>
      simp only [List.cons_append, runMiddleware] at h ⊢
      cases hdone : (handler.handle serve req).2 with
      | stopped error => rw [hdone] at h; cases h
      | on =>
        rw [hdone] at h
        simp only [ih h, List.append_assoc]
    | proxy route =>
      simp only [List.cons_append, runMiddleware] at h ⊢
      split
      · rename_i hfilter
        rw [if_pos hfilter] at h
        cases h
      · rename_i hfilter
        rw [if_neg hfilter] at h
        exact ih h

/-- A chain that stops or proxies the request is the end of it. -/
theorem runMiddleware_append_ended {first second : List (Middleware H)}
    (h : (runMiddleware library serve req first).2 ≠ .notFound) :
    runMiddleware library serve req (first ++ second) = runMiddleware library serve req first := by
  induction first with
  | nil => exact absurd rfl h
  | cons middleware rest ih =>
    cases middleware with
    | policy handler =>
      simp only [List.cons_append, runMiddleware] at h ⊢
      cases hdone : (handler.handle serve req).2 with
      | stopped error => rfl
      | on =>
        rw [hdone] at h
        simp only [ih h]
    | proxy route =>
      simp only [List.cons_append, runMiddleware] at h ⊢
      split
      · rfl
      · rename_i hfilter
        rw [if_neg hfilter] at h
        exact ih h

/-- Policies alone either stop the request or leave their trails. -/
theorem runMiddleware_policies (handlers : List (PolicyHandler H)) :
    (∃ error, (runMiddleware library serve req (handlers.map .policy)).2 = .stopped error)
      ∨ runMiddleware library serve req (handlers.map .policy)
          = (handlers.flatMap (trail req), .notFound) := by
  induction handlers with
  | nil => exact Or.inr rfl
  | cons handler rest ih =>
    simp only [List.map_cons, runMiddleware]
    cases hdone : (handler.handle serve req).2 with
    | stopped error => exact Or.inl ⟨error, rfl⟩
    | on =>
      rcases ih with ⟨error, he⟩ | hrest
      · exact Or.inl ⟨error, he⟩
      · refine Or.inr ?_
        simp only [hrest, handle_on hdone, List.flatMap_cons]

/-- The service an entry was left by. -/
def Entry.upstream : Entry H → String
  | .matched upstream _ => upstream
  | .ran upstream _ _ => upstream

theorem upstream_of_mem_trail {handler : PolicyHandler H} {entry : Entry H}
    (h : entry ∈ trail req handler) : entry.upstream = handler.upstream := by
  rw [trail] at h
  split at h
  · rcases List.mem_cons.mp h with rfl | h
    · rfl
    · obtain ⟨x, -, rfl⟩ := List.mem_map.mp h
      rfl
  · cases h

/-- One service's part of the chain: it stops the request, proxies it, or passes it on, in the last
two cases with the trails of all its policies. -/
theorem runMiddleware_group {policies : ServiceName → List (RoutePolicy H)} {route : ServiceRoute}
    {group : List (Middleware H)} (h : serviceHandlers policies route = .ok group) :
    ∃ handlers, createPolicyHandlers route.name.text route.pathPrefix (policies route.name)
        = .ok handlers
      ∧ ((∃ error, (runMiddleware library serve req group).2 = .stopped error)
        ∨ runMiddleware library serve req group
            = (handlers.flatMap (trail req), .proxied route.name)
        ∨ runMiddleware library serve req group = (handlers.flatMap (trail req), .notFound)) := by
  cases hc : createPolicyHandlers route.name.text route.pathPrefix (policies route.name) with
  | error e => rw [serviceHandlers, hc] at h; cases h
  | ok handlers =>
    rw [serviceHandlers, hc] at h
    cases h
    refine ⟨handlers, rfl, ?_⟩
    rcases runMiddleware_policies (H := H) (E := E) handlers with ⟨error, he⟩ | hp
    · refine Or.inl ⟨error, ?_⟩
      rw [runMiddleware_append_ended (by rw [he]; simp), he]
    · rw [runMiddleware_append_on (by rw [hp]), hp]
      simp only [runMiddleware]
      split
      · exact Or.inr (Or.inl (by simp))
      · exact Or.inr (Or.inr (by simp))

/-- The policies of a service are compiled under its own name. -/
theorem upstream_of_mem_handlers {upstream pathPrefix : String} {policies : List (RoutePolicy H)}
    {handlers : List (PolicyHandler H)}
    (h : createPolicyHandlers upstream pathPrefix policies = .ok handlers) :
    ∀ handler ∈ handlers, handler.upstream = upstream := by
  intro handler hmem
  obtain ⟨policy, -, hcreate⟩ := (mem_of_mapM h).2 handler hmem
  exact (createPolicyHandler_fields hcreate).1

/-- A proxied request carries the trails of the policies of the service it went to, after what
other services' policies did. -/
theorem trail_of_proxied {policies : ServiceName → List (RoutePolicy H)}
    {registry : List ServiceRoute} {groups : List (List (Middleware H))}
    (hgroups : registry.mapM (serviceHandlers policies) = .ok groups)
    (hnames : (registry.map (·.name)).Nodup) {upstream : ServiceName}
    (h : (runMiddleware library serve req groups.flatten).2 = .proxied upstream) :
    ∃ route ∈ registry, route.name = upstream
      ∧ ∃ handlers, createPolicyHandlers route.name.text route.pathPrefix (policies route.name)
          = .ok handlers
        ∧ ∃ earlier, (runMiddleware library serve req groups.flatten).1
            = earlier ++ handlers.flatMap (trail req)
          ∧ ∀ entry ∈ earlier, ∃ name : ServiceName, name ≠ upstream
              ∧ entry.upstream = name.text := by
  induction registry generalizing groups with
  | nil =>
    cases hgroups
    cases h
  | cons route registry ih =>
    rw [List.mapM_cons] at hgroups
    cases hg : serviceHandlers policies route with
    | error e => rw [hg] at hgroups; cases hgroups
    | ok group =>
      cases hr : registry.mapM (serviceHandlers policies) with
      | error e => rw [hg, hr] at hgroups; cases hgroups
      | ok rest =>
        rw [hg, hr] at hgroups
        cases hgroups
        obtain ⟨hfresh, hnames⟩ := List.nodup_cons.mp hnames
        obtain ⟨handlers, hc, hcase⟩ := runMiddleware_group (H := H) (E := E) hg
        rw [List.flatten_cons] at h ⊢
        rcases hcase with ⟨error, he⟩ | hp | hp
        · rw [runMiddleware_append_ended (by rw [he]; simp), he] at h
          cases h
        · rw [runMiddleware_append_ended (by rw [hp]; simp), hp] at h ⊢
          refine ⟨route, List.mem_cons_self .., Outcome.proxied.inj h, handlers, hc, [], rfl, ?_⟩
          simp
        · rw [runMiddleware_append_on (by rw [hp]), hp] at h ⊢
          obtain ⟨found, hfound, hname, hs, hcs, earlier, htrace, hearlier⟩ := ih hr hnames h
          have hother : route.name ≠ upstream := by
            rintro rfl
            exact hfresh (List.mem_map.mpr ⟨found, hfound, hname⟩)
          refine ⟨found, List.mem_cons_of_mem _ hfound, hname, hs, hcs,
            handlers.flatMap (trail req) ++ earlier, by rw [htrace, List.append_assoc], ?_⟩
          intro entry hentry
          rcases List.mem_append.mp hentry with hentry | hentry
          · obtain ⟨handler, hmem, ht⟩ := List.mem_flatMap.mp hentry
            exact ⟨route.name, hother,
              (upstream_of_mem_trail ht).trans (upstream_of_mem_handlers hc handler hmem)⟩
          · exact hearlier entry hentry

theorem ServiceName.text_injective {a b : ServiceName} (h : a.text = b.text) : a = b := by
  cases a <;> cases b <;> first | rfl | exact absurd h (by decide)

/-- A policy of the service a request went to was selected and ran its whole chain exactly when
it covers the method and one of its patterns fits the path. -/
theorem guarded_iff_covered {policies : ServiceName → List (RoutePolicy H)}
    {registry : List ServiceRoute} {chain : List (Middleware H)}
    (hchain : createServiceHandlers registry policies = .ok chain)
    (hnames : (registry.map (·.name)).Nodup) {route : ServiceRoute} (hroute : route ∈ registry)
    (hpolicies : ((policies route.name).map (·.name)).Nodup)
    (hproxied : (runMiddleware library serve req chain).2 = .proxied route.name)
    {policy : RoutePolicy H} (hpolicy : policy ∈ policies route.name)
    {mount : List (List Char)} (hspelled : spell '/' mount = route.pathPrefix.toList)
    (hmount : ∀ m ∈ mount, '/' ∉ m) :
    Guarded route.name.text policy (runMiddleware library serve req chain).1
      ↔ policy.covers req.method = true
          ∧ ∃ pattern ∈ policy.paths, ∃ rest, req.path.segments = mount ++ rest
              ∧ policyMatches (piecesOf pattern) rest = true := by
  cases hgroups : registry.mapM (serviceHandlers policies) with
  | error e => rw [createServiceHandlers, hgroups] at hchain; cases hchain
  | ok groups =>
    rw [createServiceHandlers, hgroups] at hchain
    cases hchain
    obtain ⟨found, hfound, hname, handlers, hc, earlier, htrace, hearlier⟩ :=
      trail_of_proxied hgroups hnames hproxied
    have hsame : found = route := List.inj_on_of_nodup_map hnames hfound hroute hname
    subst hsame
    obtain ⟨hto, hfrom⟩ := mem_of_mapM hc
    obtain ⟨handler, hhandler, hcreate⟩ := hto policy hpolicy
    obtain ⟨hupstream, hkept, -⟩ := createPolicyHandler_fields hcreate
    rw [← selects_iff hcreate hspelled hmount, Guarded, htrace]
    constructor
    · intro hinfix
      have hmatched := hinfix.subset (List.mem_cons_self ..)
      rcases List.mem_append.mp hmatched with hm | hm
      · obtain ⟨name, hother, htext⟩ := hearlier _ hm
        exact absurd (ServiceName.text_injective htext).symm hother
      · obtain ⟨other, hother, ht⟩ := List.mem_flatMap.mp hm
        obtain ⟨policy', hpolicy', hcreate'⟩ := hfrom other hother
        obtain ⟨-, hkept', -⟩ := createPolicyHandler_fields hcreate'
        rw [trail] at ht
        split at ht
        · rename_i hselects
          rcases List.mem_cons.mp ht with heq | ht
          · have hsame : policy = policy' :=
              List.inj_on_of_nodup_map hpolicies hpolicy hpolicy' (by
                have := (Entry.matched.inj heq).2
                rw [this, hkept'])
            subst hsame
            rw [hcreate] at hcreate'
            cases hcreate'
            exact hselects
          · obtain ⟨x, -, hx⟩ := List.mem_map.mp ht
            cases hx
        · cases ht
    · intro hselects
      have htrail : trail req handler = .matched found.name.text policy.name
          :: policy.handlers.map (.ran found.name.text policy.name) := by
        rw [trail, if_pos hselects, hupstream, hkept]
      have hinfix : trail req handler <:+: handlers.flatMap (trail req) := by
        rw [List.flatMap_def]
        exact List.infix_of_mem_flatten (List.mem_map_of_mem hhandler)
      rw [← htrail]
      exact hinfix.trans (List.suffix_append _ _).isInfix

end PracticalMicroservice.Gateway
