import PracticalMicroservice.Cart.Proofs.DispatchProofs
import PracticalMicroservice.Gateway.Edge
import PracticalMicroservice.Gateway.Proofs.CoverageProofs
import Mathlib.Data.List.DropRight

/-!
# What passes the edge

A request keeps one id from the edge to the last service, and the actor it is sent on with is the
subject of a token that was verified. The handlers behind the policy table let a request pass exactly
when who its headers prove the caller to be is let pass.
-/

namespace PracticalMicroservice.Gateway

open Inventory (isWhiteSpace jsLength sliceUnits trim)

/-! ## Headers -/

section Headers

variable {headers : Headers} {name name' value : String}

@[simp] theorem Headers.set_self : headers.set name value name = some value := if_pos rfl

theorem Headers.set_of_ne (h : name' ≠ name) : headers.set name value name' = headers name' :=
  if_neg h

@[simp] theorem Headers.delete_self : headers.delete name name = none := if_pos rfl

theorem Headers.delete_of_ne (h : name' ≠ name) : headers.delete name name' = headers name' :=
  if_neg h

end Headers

/-! ## Texts that are trimmed and cut -/

theorem trim_toList (s : String) :
    (trim s).toList = (s.toList.dropWhile isWhiteSpace).rdropWhile isWhiteSpace := by
  unfold trim
  rw [String.toList_ofList]
  rfl

/-- What a trimmed text begins with is no white space. -/
theorem head_trim {x : String} {c : Char} {rest : List Char} (h : (trim x).toList = c :: rest) :
    isWhiteSpace c = false := by
  have hprefix : c :: rest <+: x.toList.dropWhile isWhiteSpace := by
    rw [← h, trim_toList]
    exact List.rdropWhile_prefix isWhiteSpace _
  obtain ⟨tail, htail⟩ := hprefix
  have hne : x.toList.dropWhile isWhiteSpace ≠ [] := by
    rw [← htail]
    exact List.cons_ne_nil _ _
  have hhead := List.head_dropWhile_not isWhiteSpace hne
  simpa [← htail] using hhead

/-- A piece off the front of a trimmed text, trimmed again. -/
theorem starts_of_trim {s x : String} (h : s.toList <+: (trim x).toList) :
    (trim s).toList <+: (trim x).toList := by
  rw [trim_toList s]
  cases hs : s.toList with
  | nil => exact List.nil_prefix
  | cons c rest =>
    obtain ⟨tail, htail⟩ := h
    rw [hs] at htail
    have hc : isWhiteSpace c = false := head_trim htail.symm
    have hkept : (c :: rest).dropWhile isWhiteSpace = c :: rest :=
      List.dropWhile_cons_of_neg (Bool.not_eq_true _ ▸ hc)
    rw [hkept, ← htail]
    exact (List.rdropWhile_prefix isWhiteSpace _).trans (List.prefix_append _ _)

/-- An actor cut off a text that names the caller. -/
def CutFrom (x actor : String) : Prop :=
  actor.toList <+: (trim x).toList ∧ jsLength actor ≤ ACTOR_MAX_LENGTH

theorem cutFrom_slice {x s : String} (h : s.toList <+: (trim x).toList) :
    CutFrom x (String.ofList (sliceUnits ACTOR_MAX_LENGTH s.toList)) := by
  constructor
  · rw [String.toList_ofList]
    exact (Inventory.sliceUnits_prefix _ _).trans h
  · unfold jsLength
    rw [String.toList_ofList]
    exact Inventory.sum_sliceUnits_le _ _

/-! ## Down the call chain -/

section Hops

variable {id generated : String} {sent : Option String} {calls : List (Onward × String)}

/-- A service takes over an id that is not too long. -/
theorem requestContext_id (hne : id ≠ "") (hshort : jsLength id ≤ 200) :
    (Inventory.requestContext (some id) sent generated).1 = id := by
  simp [Inventory.requestContext, Option.filter_some, hne, hshort]

/-- What a service reads off the actor it is sent is cut off that. -/
theorem requestContext_cut {id : Option String} {actor : String}
    (hactor : (Inventory.requestContext id sent generated).2 = some actor) :
    ∃ s ∈ sent, CutFrom s actor := by
  obtain ⟨t, ht, rfl⟩ := Option.map_eq_some_iff.mp hactor
  obtain ⟨hmap, -⟩ := Option.filter_eq_some_iff.mp ht
  obtain ⟨s, rfl, rfl⟩ := Option.map_eq_some_iff.mp hmap
  exact ⟨s, rfl, cutFrom_slice List.prefix_rfl⟩

theorem CutFrom.trans {x y actor : String} (h : CutFrom x y) (h' : CutFrom y actor) :
    CutFrom x actor :=
  ⟨h'.1.trans (starts_of_trim h.1), h'.2⟩

/-- The id goes all the way. -/
theorem hops_id (hne : id ≠ "") (hshort : jsLength id ≤ 200) :
    (hops generated calls (some id, sent)).1 = id := by
  induction calls generalizing generated sent with
  | nil => exact requestContext_id hne hshort
  | cons call rest ih =>
    obtain ⟨call, next⟩ := call
    show (hops next rest (some (Inventory.requestContext (some id) sent generated).1, _)).1 = id
    rw [requestContext_id hne hshort]
    exact ih

/-- The actor at the end is cut off what was sent, or off the account that a service on the way has
put in its place. -/
theorem hops_origin {id : Option String} {actor : String}
    (hactor : (hops generated calls (id, sent)).2 = some actor) :
    (∃ s ∈ sent, CutFrom s actor) ∨
      ∃ authUserId next, (Onward.profile authUserId, next) ∈ calls ∧ CutFrom authUserId actor := by
  induction calls generalizing generated id sent with
  | nil => exact .inl (requestContext_cut hactor)
  | cons call rest ih =>
    obtain ⟨call, next⟩ := call
    rcases ih hactor with ⟨s, hs, hcut⟩ | ⟨authUserId, next', hmem, hcut⟩
    · cases call with
      | inventory =>
        obtain ⟨s', hs', hcut'⟩ := requestContext_cut hs
        exact .inl ⟨s', hs', hcut'.trans hcut⟩
      | profile authUserId =>
        obtain rfl : authUserId = s := Option.some.inj hs
        exact .inr ⟨authUserId, next, List.mem_cons_self, hcut⟩
      | email => cases hs
    · exact .inr ⟨authUserId, next', List.mem_cons_of_mem _ hmem, hcut⟩

end Hops

/-! ## What the handlers keep -/

section Stages

variable {env : Env} {packages : Packages} {inbound : Inbound} {uuid : String} {e e' e₀ : Edge}
  {stages : List Stage} {ended : Option Ended}

theorem runStages_cons_on {stage : Stage} (h : stage e = (e', none)) :
    runStages (stage :: stages) e = runStages stages e' := by
  unfold runStages
  rw [h]
  cases stages <;> rfl

theorem runStages_cons_ended {stage : Stage} {how : Ended} (h : stage e = (e', some how)) :
    runStages (stage :: stages) e = (e', some how) := by
  unfold runStages
  rw [h]

/-- What every handler keeps, all of them keep. -/
theorem runStages_keeps {P : Edge → Prop} (h : ∀ stage ∈ stages, ∀ e, P e → P (stage e).1)
    (he : P e) : P (runStages stages e).1 := by
  induction stages generalizing e with
  | nil => exact he
  | cons stage rest ih =>
    obtain ⟨hstage, hrest⟩ := List.forall_mem_cons.mp h
    have hnext := hstage e he
    cases hs : stage e with
    | mk e' how =>
      rw [hs] at hnext
      cases how with
      | none =>
        rw [runStages_cons_on hs]
        exact ih hrest hnext
      | some how =>
        rw [runStages_cons_ended hs]
        exact hnext

theorem runStages_append {first second : List Stage} :
    runStages (first ++ second) e = match runStages first e with
      | (e', none) => runStages second e'
      | ended => ended := by
  induction first generalizing e with
  | nil => rfl
  | cons stage rest ih =>
    cases hs : stage e with
    | mk e' how =>
      cases how with
      | none => rw [List.cons_append, runStages_cons_on hs, runStages_cons_on hs, ih]
      | some how => rw [List.cons_append, runStages_cons_ended hs, runStages_cons_ended hs]

/-- Who the headers prove the caller to be rests on one of them. -/
theorem caller_congr {headers headers' : Headers} (h : headers AUTHORIZATION = headers' AUTHORIZATION) :
    caller packages headers = caller packages headers' := by
  unfold caller
  rw [h]

/-- What a request has become since its headers were set: the same, but for an actor that was proved
meanwhile. -/
structure Follows (packages : Packages) (e₀ e : Edge) : Prop where
  headers : ∀ name, name ≠ ACTOR_HEADER → e.headers name = e₀.headers name
  id : e.id = e₀.id
  responseId : e.responseId = e₀.responseId
  actor : e.auth = none ∧ e.headers ACTOR_HEADER = e₀.headers ACTOR_HEADER ∨
    ∃ claims, caller packages e₀.headers = .ok claims ∧ e.auth = some (.of claims) ∧
      e.headers ACTOR_HEADER = some claims.sub

theorem Follows.caller (h : Follows packages e₀ e) :
    Gateway.caller packages e.headers = Gateway.caller packages e₀.headers :=
  caller_congr (h.headers AUTHORIZATION (by decide))

theorem Follows.authenticate (h : Follows packages e₀ e) :
    Follows packages e₀ (Gateway.authenticate packages e).1 := by
  unfold Gateway.authenticate
  split
  · exact h
  · rename_i claims hcaller
    refine ⟨fun name hname => ?_, h.id, h.responseId,
      .inr ⟨claims, h.caller ▸ hcaller, rfl, by simp⟩⟩
    exact (Headers.set_of_ne hname).trans (h.headers name hname)

theorem Follows.edge (h : Follows packages e₀ e) (handler : EdgeHandler) :
    Follows packages e₀ (handler.stage packages e).1 := by
  cases handler with
  | credentialRateLimiter =>
    unfold EdgeHandler.stage
    dsimp only
    split <;> exact h
  | authenticate => exact h.authenticate
  | requireRole roles =>
    show Follows packages e₀ (requireRole roles e).1
    unfold requireRole
    split
    · exact h
    · split <;> exact h

theorem Follows.upstream (h : Follows packages e₀ e) (middleware : Middleware EdgeHandler) :
    Follows packages e₀ (middleware.stage packages inbound e).1 := by
  cases middleware with
  | policy handler =>
    unfold Middleware.stage
    dsimp only
    split
    · refine runStages_keeps (fun stage hstage e he => ?_) h
      obtain ⟨edge, -, rfl⟩ := List.mem_map.mp hstage
      exact he.edge edge
    · exact h
  | proxy route =>
    unfold Middleware.stage
    dsimp only
    split <;> exact h

/-- A handler that leaves the request as it is, and sends it to no service. -/
def Aside (stage : Stage) : Prop :=
  ∀ e, stage e = (e, none) ∨ ∃ how, stage e = (e, some how) ∧ ∀ upstream, how ≠ .proxied upstream

theorem Aside.edge {stage : Stage} (h : Aside stage) (e : Edge) : (stage e).1 = e := by
  rcases h e with he | ⟨how, he, -⟩
  · rw [he]
  · rw [he]

theorem bodyLimit_aside : Aside (bodyLimit env) := by
  intro e
  unfold bodyLimit
  split
  · exact .inl rfl
  · split
    · exact .inl rfl
    · exact .inr ⟨_, rfl, nofun⟩

theorem ownRoutes_aside : Aside (ownRoutes inbound) := by
  intro e
  unfold ownRoutes
  split
  · exact .inr ⟨_, rfl, nofun⟩
  · split
    · exact .inr ⟨_, rfl, nofun⟩
    · exact .inl rfl

theorem rateLimiter_aside : Aside (rateLimiter packages) := by
  intro e
  unfold rateLimiter
  split
  · exact .inr ⟨_, rfl, nofun⟩
  · exact .inl rfl

/-- The gateway's own handlers between `requestContext` and the upstream chain. -/
theorem own_aside : ∀ stage ∈ [bodyLimit env, ownRoutes inbound, rateLimiter packages], Aside stage := by
  simp only [List.forall_mem_cons]
  exact ⟨bodyLimit_aside, ownRoutes_aside, rateLimiter_aside, nofun⟩

theorem runStages_aside (h : ∀ stage ∈ stages, Aside stage) : Aside (runStages stages) := by
  intro e
  induction stages with
  | nil => exact .inl rfl
  | cons stage rest ih =>
    obtain ⟨hstage, hrest⟩ := List.forall_mem_cons.mp h
    rcases hstage e with hs | ⟨how, hs, hhow⟩
    · rw [runStages_cons_on hs]
      exact ih hrest
    · rw [runStages_cons_ended hs]
      exact .inr ⟨how, rfl, hhow⟩

/-- The request as `requestContext` leaves it. -/
theorem requestContext_edge (headers : Headers) :
    ∃ e₀, requestContext env uuid { headers } = (e₀, none) ∧
      e₀.id = some (requestIdOf headers uuid) ∧ e₀.responseId = some (requestIdOf headers uuid) ∧
      e₀.auth = none ∧ e₀.headers REQUEST_ID_HEADER = some (requestIdOf headers uuid) ∧
      e₀.headers ACTOR_HEADER = claimedActor env headers ∧
      e₀.headers AUTHORIZATION = headers AUTHORIZATION := by
  have hclaimed : claimedActor env (headers.set REQUEST_ID_HEADER (requestIdOf headers uuid)) =
      claimedActor env headers := by
    unfold claimedActor
    rw [Headers.set_of_ne (by decide)]
  refine ⟨(requestContext env uuid { headers }).1, ?_⟩
  unfold requestContext
  dsimp only
  rw [hclaimed]
  cases claimedActor env headers with
  | some actor =>
    dsimp only
    refine ⟨rfl, rfl, rfl, rfl, ?_, Headers.set_self, ?_⟩
    · exact (Headers.set_of_ne (by decide)).trans Headers.set_self
    · exact (Headers.set_of_ne (by decide)).trans (Headers.set_of_ne (by decide))
  | none =>
    dsimp only
    refine ⟨rfl, rfl, rfl, rfl, ?_, Headers.delete_self, ?_⟩
    · exact (Headers.delete_of_ne (by decide)).trans Headers.set_self
    · exact (Headers.delete_of_ne (by decide)).trans (Headers.set_of_ne (by decide))

/-- The stages behind `requestContext`. -/
theorem handle_eq (hanswered : packages.answered inbound.request inbound.headers = false) :
    ∃ e₀, requestContext env uuid { headers := inbound.headers } = (e₀, none) ∧
      handle env packages inbound uuid =
        runStages ([bodyLimit env, ownRoutes inbound, rateLimiter packages] ++
          upstreamHandlers.map (Middleware.stage packages inbound) ++ [notFoundHandler inbound])
          e₀ := by
  obtain ⟨e₀, hcontext, -⟩ := @requestContext_edge env uuid inbound.headers
  refine ⟨e₀, hcontext, ?_⟩
  have hfirst : (fun e : Edge => if packages.answered inbound.request e.headers then
      (e, some Ended.answered) else (e, none)) { headers := inbound.headers } =
        ({ headers := inbound.headers }, none) := by
    simp [hanswered]
  unfold handle createApp
  exact (runStages_cons_on hfirst).trans (runStages_cons_on hcontext)

theorem follows_handle (hanswered : packages.answered inbound.request inbound.headers = false) :
    ∃ e₀, requestContext env uuid { headers := inbound.headers } = (e₀, none) ∧
      Follows packages e₀ (handle env packages inbound uuid).1 := by
  obtain ⟨e₀, hcontext, heq⟩ := @handle_eq env packages inbound uuid hanswered
  obtain ⟨e₁, hcontext', -, -, hauth, -⟩ := @requestContext_edge env uuid inbound.headers
  obtain rfl : e₀ = e₁ := congrArg Prod.fst (hcontext.symm.trans hcontext')
  refine ⟨e₀, hcontext, ?_⟩
  rw [heq]
  have hstart : Follows packages e₀ e₀ := ⟨fun _ _ => rfl, rfl, rfl, .inl ⟨hauth, rfl⟩⟩
  refine runStages_keeps (fun stage hstage e he => ?_) hstart
  rcases List.mem_append.mp hstage with hstage | hstage
  · rcases List.mem_append.mp hstage with hstage | hstage
    · rw [(own_aside stage hstage).edge]
      exact he
    · obtain ⟨middleware, -, rfl⟩ := List.mem_map.mp hstage
      exact he.upstream middleware
  · obtain rfl := List.mem_singleton.mp hstage
    exact he

/-! ## One id, and an actor that is proved -/

theorem requestIdOf_kept (huuid : Inventory.isUuid uuid = true) (headers : Headers) :
    requestIdOf headers uuid ≠ "" ∧ jsLength (requestIdOf headers uuid) ≤ 200 := by
  unfold requestIdOf
  cases hinbound : (headers REQUEST_ID_HEADER).filter fun id => id ≠ "" ∧ jsLength id ≤ 200 with
  | some id =>
    obtain ⟨-, hp⟩ := Option.filter_eq_some_iff.mp hinbound
    exact of_decide_eq_true hp
  | none =>
    obtain ⟨-, hpos, hlength⟩ :=
      Inventory.boundedText_self_iff.mp (Inventory.boundedText_of_isUuid huuid (Nat.le_refl 36))
    refine ⟨?_, Nat.le_trans hlength (by decide)⟩
    rintro he
    have hzero : jsLength uuid = 0 := Inventory.jsLength_eq_zero_iff.mpr he
    omega

/-- What a claimed actor is cut off. -/
theorem claimedActor_cut {headers : Headers} {actor : String}
    (h : claimedActor env headers = some actor) : env.TRUST_CLIENT_ACTOR = true ∧
      ∃ claimed, headers ACTOR_HEADER = some claimed ∧ CutFrom claimed actor := by
  unfold claimedActor at h
  split at h
  · rename_i htrust
    refine ⟨htrust, ?_⟩
    obtain ⟨t, ht, rfl⟩ := Option.map_eq_some_iff.mp h
    obtain ⟨hmap, -⟩ := Option.filter_eq_some_iff.mp ht
    obtain ⟨claimed, hclaimed, rfl⟩ := Option.map_eq_some_iff.mp hmap
    exact ⟨claimed, hclaimed, cutFrom_slice List.prefix_rfl⟩
  · cases h

theorem answered_of_proxied {upstream : ServiceName}
    (h : (handle env packages inbound uuid).2 = some (.proxied upstream)) :
    packages.answered inbound.request inbound.headers = false := by
  by_contra hanswered
  have hfirst : (fun e : Edge => if packages.answered inbound.request e.headers then
      (e, some Ended.answered) else (e, none)) { headers := inbound.headers } =
        ({ headers := inbound.headers }, some .answered) := by
    simp [hanswered]
  have hended : handle env packages inbound uuid = ({ headers := inbound.headers }, some .answered) := by
    unfold handle createApp
    exact runStages_cons_ended hfirst
  rw [hended] at h
  cases h

/-- Every answer to a request bears one id, and every service down the call chain takes it over. -/
theorem traced (huuid : Inventory.isUuid uuid = true)
    (hanswered : packages.answered inbound.request inbound.headers = false) :
    ∃ id, id ≠ "" ∧ (handle env packages inbound uuid).1.responseId = some id ∧
      (∀ failure status body,
        respond env failure (handle env packages inbound uuid) = .error status body →
          body.requestId = some id) ∧
      ∀ generated calls,
        (hops generated calls ((handle env packages inbound uuid).1.headers REQUEST_ID_HEADER,
          (handle env packages inbound uuid).1.headers ACTOR_HEADER)).1 = id := by
  obtain ⟨e₀, hcontext, hfollows⟩ := @follows_handle env packages inbound uuid hanswered
  obtain ⟨e₁, hcontext', hid, hresponse, -, hsent, -⟩ := @requestContext_edge env uuid inbound.headers
  obtain rfl : e₀ = e₁ := congrArg Prod.fst (hcontext.symm.trans hcontext')
  obtain ⟨hne, hshort⟩ := requestIdOf_kept huuid inbound.headers
  refine ⟨requestIdOf inbound.headers uuid, hne, hfollows.responseId.trans hresponse, ?_, ?_⟩
  · intro failure status body hreply
    have hbody : ∀ appError, (buildErrorBody env.isProduction appError
        (handle env packages inbound uuid).1.id).requestId = some (requestIdOf inbound.headers uuid) := by
      intro appError
      show Option.filter _ _ = _
      rw [hfollows.id, hid, Option.filter_some, if_pos (decide_eq_true hne)]
    generalize handle env packages inbound uuid = done at hbody hreply
    obtain ⟨e, how⟩ := done
    cases how with
    | none => cases hreply
    | some how =>
      cases how with
      | answered => cases hreply
      | failed error =>
        cases hreply
        exact hbody error
      | proxied upstream =>
        unfold respond at hreply
        dsimp only at hreply
        split at hreply
        · cases hreply
        · cases hreply
          exact hbody _
  · intro generated calls
    rw [hfollows.headers REQUEST_ID_HEADER (by decide), hsent]
    exact hops_id hne hshort

/-- The actor a request is sent on with is the subject of a token that was verified. Where the caller's
own word is taken, it is that, unless there is such a token. The profile of an account is asked for in
the name of the account. -/
theorem actor_proven {upstream : ServiceName}
    (hproxied : (handle env packages inbound uuid).2 = some (.proxied upstream))
    {generated : String} {calls : List (Onward × String)} {actor : String}
    (hactor : (hops generated calls ((handle env packages inbound uuid).1.headers REQUEST_ID_HEADER,
      (handle env packages inbound uuid).1.headers ACTOR_HEADER)).2 = some actor) :
    (∃ claims, caller packages inbound.headers = .ok claims ∧ CutFrom claims.sub actor) ∨
      (env.TRUST_CLIENT_ACTOR = true ∧ (handle env packages inbound uuid).1.auth = none ∧
        ∃ claimed, inbound.headers ACTOR_HEADER = some claimed ∧ CutFrom claimed actor) ∨
      ∃ authUserId next, (Onward.profile authUserId, next) ∈ calls ∧ CutFrom authUserId actor := by
  obtain ⟨e₀, hcontext, hfollows⟩ :=
    @follows_handle env packages inbound uuid (answered_of_proxied hproxied)
  obtain ⟨e₁, hcontext', -, -, -, -, hclaimed, hauthorization⟩ :=
    @requestContext_edge env uuid inbound.headers
  obtain rfl : e₀ = e₁ := congrArg Prod.fst (hcontext.symm.trans hcontext')
  rcases hops_origin hactor with ⟨sent, hsent, hcut⟩ | hprofile
  · rcases hfollows.actor with ⟨hnone, hsame⟩ | ⟨claims, hcaller, -, hsub⟩
    · right
      left
      have hclaim : claimedActor env inbound.headers = some sent := by
        rw [← hclaimed, ← hsame]
        exact hsent
      obtain ⟨htrust, claimed, hheader, hcutoff⟩ := claimedActor_cut hclaim
      exact ⟨htrust, hnone, claimed, hheader, hcutoff.trans hcut⟩
    · obtain rfl : claims.sub = sent := Option.some.inj (hsub.symm.trans hsent)
      exact .inl ⟨claims, (caller_congr hauthorization) ▸ hcaller, hcut⟩
  · exact .inr (.inr hprofile)

end Stages

/-! ## The policy table behind its handlers -/

/-- What a handler of the table makes of who the headers prove the caller to be. -/
def served (packages : Packages) (headers : Headers) : EdgeHandler → Handed AppError
  | .credentialRateLimiter =>
    if packages.exhausted .credential then
      .stopped (TooManyRequestsError "Too many authentication requests, please retry later")
    else .on
  | .authenticate =>
    match caller packages headers with
    | .error error => .stopped error
    | .ok _ => .on
  | .requireRole roles =>
    match caller packages headers with
    | .error _ => .stopped (UnauthorizedError "Authentication required")
    | .ok claims =>
      if roles.any (·.text == claims.role) then .on
      else .stopped (ForbiddenError "Insufficient permissions")

/-- How a request is left by a handler that stops it or hands it on. -/
def Handed.ended : Handed AppError → Option Ended
  | .on => none
  | .stopped error => some (.failed error)

/-- And by the upstream chain. -/
def Outcome.ended : Outcome AppError → Option Ended
  | .stopped error => some (.failed error)
  | .proxied upstream => some (.proxied upstream)
  | .notFound => none

/-- Roles are only asked for once the caller is known. -/
def rolesLast : Bool → List EdgeHandler → Bool
  | _, [] => true
  | _, .authenticate :: rest => rolesLast true rest
  | known, .requireRole _ :: rest => known && rolesLast known rest
  | known, .credentialRateLimiter :: rest => rolesLast known rest

theorem routePolicies_rolesLast (service : ServiceName) :
    ∀ policy ∈ routePolicies service, rolesLast false policy.handlers = true := by
  cases service <;> decide

section Agreement

variable {packages : Packages} {inbound : Inbound} {e e₀ : Edge} {known : Bool}
  {handlers : List EdgeHandler}

/-- A handler does what it is said to do of who the headers prove the caller to be. -/
theorem stage_agrees (hf : Follows packages e₀ e) (handler : EdgeHandler)
    (hroles : ∀ roles, handler = .requireRole roles → e.auth ≠ none) :
    (handler.stage packages e).2 = (served packages e₀.headers handler).ended ∧
      ((e.auth ≠ none ∨ handler = .authenticate) → (handler.stage packages e).2 = none →
        (handler.stage packages e).1.auth ≠ none) := by
  cases handler with
  | credentialRateLimiter =>
    unfold EdgeHandler.stage served
    dsimp only
    split
    · exact ⟨rfl, fun _ hnone => nomatch hnone⟩
    · exact ⟨rfl, fun h _ => h.resolve_right (fun he => nomatch he)⟩
  | authenticate =>
    show (authenticate packages e).2 = _ ∧ (_ → (authenticate packages e).2 = none →
      (authenticate packages e).1.auth ≠ none)
    unfold authenticate served
    rw [hf.caller]
    cases caller packages e₀.headers with
    | error error => exact ⟨rfl, fun _ hnone => nomatch hnone⟩
    | ok claims => exact ⟨rfl, fun _ _ hnone => nomatch hnone⟩
  | requireRole roles =>
    have hauth := hroles roles rfl
    obtain ⟨hnone, -⟩ | ⟨claims, hcaller, hknown, -⟩ := hf.actor
    · exact absurd hnone hauth
    · show (requireRole roles e).2 = _ ∧ (_ → (requireRole roles e).2 = none →
        (requireRole roles e).1.auth ≠ none)
      unfold requireRole served
      rw [hcaller, hknown]
      dsimp only [RequestAuth.of]
      split
      · exact ⟨rfl, fun _ _ => hauth⟩
      · exact ⟨rfl, fun _ hnone => nomatch hnone⟩

/-- The chain of a policy ends a request as it is said to. -/
theorem handlers_agree (upstream policy : String) (horder : rolesLast known handlers = true)
    (hf : Follows packages e₀ e) (hknown : known = true → e.auth ≠ none) :
    (runStages (handlers.map (EdgeHandler.stage packages)) e).2 =
        (runChain upstream policy (served packages e₀.headers) handlers).2.ended ∧
      ((e.auth ≠ none ∨ .authenticate ∈ handlers) →
        (runStages (handlers.map (EdgeHandler.stage packages)) e).2 = none →
        (runStages (handlers.map (EdgeHandler.stage packages)) e).1.auth ≠ none) := by
  induction handlers generalizing e known with
  | nil => exact ⟨rfl, fun h _ => h.resolve_right List.not_mem_nil⟩
  | cons handler rest ih =>
    have hroles : ∀ roles, handler = .requireRole roles → e.auth ≠ none := by
      rintro roles rfl
      exact hknown ((Bool.and_eq_true _ _).mp horder).1
    obtain ⟨hends, hauth⟩ := stage_agrees hf handler hroles
    have hnext := hf.edge handler
    rw [List.map_cons]
    cases hs : handler.stage packages e with
    | mk e' how =>
      rw [hs] at hends hauth hnext
      cases how with
      | some how =>
        rw [runStages_cons_ended hs]
        cases hserved : served packages e₀.headers handler with
        | on => exact absurd (hends.trans (congrArg Handed.ended hserved)) (Option.some_ne_none _)
        | stopped error =>
          unfold runChain
          rw [hserved]
          exact ⟨hends.trans (congrArg Handed.ended hserved),
            fun _ hnone => absurd hnone (Option.some_ne_none _)⟩
      | none =>
        rw [runStages_cons_on hs]
        cases hserved : served packages e₀.headers handler with
        | stopped error =>
          exact absurd (hends.trans (congrArg Handed.ended hserved)).symm (Option.some_ne_none _)
        | on =>
          unfold runChain
          rw [hserved]
          -- once the caller is known, it stays known
          have hlater : ∃ known', rolesLast known' rest = true ∧ (known' = true → e'.auth ≠ none) := by
            cases handler with
            | authenticate => exact ⟨true, horder, fun _ => hauth (.inr rfl) rfl⟩
            | requireRole roles =>
              exact ⟨known, ((Bool.and_eq_true _ _).mp horder).2, fun hk => hauth (.inl (hknown hk)) rfl⟩
            | credentialRateLimiter =>
              exact ⟨known, horder, fun hk => hauth (.inl (hknown hk)) rfl⟩
          obtain ⟨known', horder', hknown'⟩ := hlater
          obtain ⟨hrest, hrestAuth⟩ := ih horder' hnext hknown'
          refine ⟨hrest, fun h => hrestAuth ?_⟩
          rcases h with h | h
          · exact .inl (hauth (.inl h) rfl)
          · rcases List.mem_cons.mp h with h | h
            · exact .inl (hauth (.inr h.symm) rfl)
            · exact .inr h

theorem served_of_runChain {H E : Type} {upstream policy : String} {serve : H → Handed E}
    {handlers : List H} (h : (runChain upstream policy serve handlers).2 = .on) :
    ∀ handler ∈ handlers, serve handler = .on := by
  induction handlers with
  | nil => exact fun _ hmem => nomatch hmem
  | cons first rest ih =>
    rw [runChain] at h
    cases hs : serve first with
    | stopped error =>
      rw [hs] at h
      cases h
    | on =>
      rw [hs] at h
      exact List.forall_mem_cons.mpr ⟨hs, ih h⟩

/-- Unless it stops the request, the upstream chain has had it handed on by every handler it ran. -/
theorem served_of_ran {H E : Type} {library : ProxyLibrary} {serve : H → Handed E} {req : Request}
    {chain : List (Middleware H)}
    (h : ∀ error, (runMiddleware library serve req chain).2 ≠ .stopped error)
    {upstream policy : String} {handler : H}
    (hran : .ran upstream policy handler ∈ (runMiddleware library serve req chain).1) :
    serve handler = .on := by
  induction chain with
  | nil => cases hran
  | cons middleware rest ih =>
    cases middleware with
    | proxy route =>
      simp only [runMiddleware] at h hran
      split at hran
      · cases hran
      · rename_i hfilter
        rw [if_neg hfilter] at h
        exact ih h hran
    | policy guard =>
      simp only [runMiddleware] at h hran
      cases hdone : (guard.handle serve req).2 with
      | stopped error =>
        rw [hdone] at h
        exact absurd rfl (h error)
      | on =>
        rw [hdone] at h hran
        rcases List.mem_append.mp hran with hran | hran
        · rw [handle_on hdone] at hran
          obtain ⟨hselects, hmem⟩ := mem_of_mem_trail hran
          rw [PolicyHandler.handle, if_pos hselects] at hdone
          exact served_of_runChain hdone handler hmem
        · exact ih h hran

/-- A policy ends a request as it is said to, and a caller that is known to it stays known. -/
theorem policy_agrees {handler : PolicyHandler EdgeHandler}
    (horder : rolesLast false handler.policy.handlers = true) (hf : Follows packages e₀ e) :
    ((Middleware.policy handler).stage packages inbound e).2 =
        (handler.handle (served packages e₀.headers) inbound.request).2.ended ∧
      ((e.auth ≠ none ∨ ∃ upstream policy, .ran upstream policy .authenticate ∈
          (handler.handle (served packages e₀.headers) inbound.request).1) →
        (handler.handle (served packages e₀.headers) inbound.request).2 = .on →
        ((Middleware.policy handler).stage packages inbound e).1.auth ≠ none) := by
  have hstage : (Middleware.policy handler).stage packages inbound e =
      if handler.selects inbound.request then
        runStages (handler.policy.handlers.map (EdgeHandler.stage packages)) e
      else (e, none) := rfl
  by_cases hselects : handler.selects inbound.request = true
  · obtain ⟨hends, hauth⟩ := handlers_agree handler.upstream handler.policy.name horder hf
      (fun h => absurd h Bool.false_ne_true)
    have hhandle : (handler.handle (served packages e₀.headers) inbound.request).2 =
        (runChain handler.upstream handler.policy.name (served packages e₀.headers)
          handler.policy.handlers).2 := by
      unfold PolicyHandler.handle
      rw [if_pos hselects]
    rw [hstage, if_pos hselects, hhandle]
    refine ⟨hends, fun hknown hon => ?_⟩
    have hnone := hends.trans (congrArg Handed.ended hon)
    rcases hknown with hknown | ⟨upstream, policy, hran⟩
    · exact hauth (.inl hknown) hnone
    · rw [handle_on (hhandle.trans hon)] at hran
      exact hauth (.inr (mem_of_mem_trail hran).2) hnone
  · have hhandle : handler.handle (served packages e₀.headers) inbound.request = ([], .on) := by
      unfold PolicyHandler.handle
      rw [if_neg hselects]
    rw [hstage, if_neg hselects, hhandle]
    refine ⟨rfl, fun hknown _ => hknown.resolve_right ?_⟩
    rintro ⟨upstream, policy, hran⟩
    cases hran

/-- The upstream chain ends a request as the policy table is said to. -/
theorem upstream_agrees {chain : List (Middleware EdgeHandler)}
    (horder : ∀ handler, .policy handler ∈ chain → rolesLast false handler.policy.handlers = true)
    (hf : Follows packages e₀ e) :
    (runStages (chain.map (Middleware.stage packages inbound)) e).2 =
        (runMiddleware packages.proxy (served packages e₀.headers) inbound.request chain).2.ended ∧
      ((∀ error, (runMiddleware packages.proxy (served packages e₀.headers) inbound.request chain).2 ≠
          .stopped error) →
        (e.auth ≠ none ∨ ∃ upstream policy, .ran upstream policy .authenticate ∈
          (runMiddleware packages.proxy (served packages e₀.headers) inbound.request chain).1) →
        (runStages (chain.map (Middleware.stage packages inbound)) e).1.auth ≠ none) := by
  induction chain generalizing e with
  | nil =>
    refine ⟨rfl, fun _ h => h.resolve_right ?_⟩
    rintro ⟨upstream, policy, hran⟩
    cases hran
  | cons middleware rest ih =>
    have horderRest : ∀ handler, .policy handler ∈ rest → rolesLast false handler.policy.handlers = true :=
      fun handler hmem => horder handler (List.mem_cons_of_mem _ hmem)
    rw [List.map_cons]
    cases middleware with
    | proxy route =>
      by_cases hfilter : pathFilter route.pathPrefix (packages.proxy.pathname inbound.request.path) = true
      · have hstage : (Middleware.proxy route).stage packages inbound e = (e, some (.proxied route.name)) :=
          if_pos hfilter
        rw [runStages_cons_ended hstage]
        simp only [runMiddleware, if_pos hfilter]
        refine ⟨rfl, fun _ h => h.resolve_right ?_⟩
        rintro ⟨upstream, policy, hran⟩
        cases hran
      · have hstage : (Middleware.proxy route).stage packages inbound e = (e, none) := if_neg hfilter
        rw [runStages_cons_on hstage]
        simp only [runMiddleware, if_neg hfilter]
        exact ih horderRest hf
    | policy handler =>
      obtain ⟨hends, hauth⟩ := @policy_agrees packages inbound e e₀ handler
        (horder handler List.mem_cons_self) hf
      have hnext := @Follows.upstream packages inbound e e₀ hf (.policy handler)
      cases hs : (Middleware.policy handler).stage packages inbound e with
      | mk e' how =>
        rw [hs] at hends hauth hnext
        simp only [runMiddleware]
        cases hdone : (handler.handle (served packages e₀.headers) inbound.request).2 with
        | stopped error =>
          have hhow : how = some (.failed error) := hends.trans (congrArg Handed.ended hdone)
          rw [hhow] at hs
          rw [runStages_cons_ended hs]
          exact ⟨rfl, fun h => absurd rfl (h error)⟩
        | on =>
          obtain rfl : how = none := hends.trans (congrArg Handed.ended hdone)
          rw [runStages_cons_on hs]
          obtain ⟨hrest, hrestAuth⟩ := ih horderRest hnext
          refine ⟨hrest, fun h hknown => hrestAuth h ?_⟩
          rcases hknown with hknown | ⟨upstream, policy, hran⟩
          · exact .inl (hauth (.inl hknown) hdone)
          · rcases List.mem_append.mp hran with hran | hran
            · exact .inl (hauth (.inr ⟨upstream, policy, hran⟩) hdone)
            · exact .inr ⟨upstream, policy, hran⟩

end Agreement

section Admission

variable {env : Env} {packages : Packages} {inbound : Inbound} {uuid : String}

/-- Every policy of the upstream chain stands in the table. -/
theorem policy_of_mem_chain {H : Type} {registry : List ServiceRoute}
    {policies : ServiceName → List (RoutePolicy H)} {chain : List (Middleware H)}
    (hchain : createServiceHandlers registry policies = .ok chain) {handler : PolicyHandler H}
    (hmem : .policy handler ∈ chain) : ∃ service, handler.policy ∈ policies service := by
  cases hgroups : registry.mapM (serviceHandlers policies) with
  | error e =>
    rw [createServiceHandlers, hgroups] at hchain
    cases hchain
  | ok groups =>
    rw [createServiceHandlers, hgroups] at hchain
    cases hchain
    obtain ⟨group, hgroup, hmem⟩ := List.mem_flatten.mp hmem
    obtain ⟨route, -, hroute⟩ := (mem_of_mapM hgroups).2 group hgroup
    cases hc : createPolicyHandlers route.name.text route.pathPrefix (policies route.name) with
    | error e =>
      rw [serviceHandlers, hc] at hroute
      cases hroute
    | ok handlers =>
      rw [serviceHandlers, hc] at hroute
      cases hroute
      rcases List.mem_append.mp hmem with hmem | hmem
      · obtain ⟨other, hother, he⟩ := List.mem_map.mp hmem
        cases he
        obtain ⟨policy, hpolicy, hcreate⟩ := (mem_of_mapM hc).2 handler hother
        rw [(createPolicyHandler_fields hcreate).2.1]
        exact ⟨route.name, hpolicy⟩
      · cases List.mem_singleton.mp hmem

theorem upstreamHandlers_rolesLast (handler : PolicyHandler EdgeHandler)
    (h : .policy handler ∈ upstreamHandlers) : rolesLast false handler.policy.handlers = true := by
  obtain ⟨service, hpolicy⟩ := policy_of_mem_chain createServiceHandlers_ok h
  exact routePolicies_rolesLast service _ hpolicy

/-- A request that is proxied went through the upstream chain, as `requestContext` left it. -/
theorem upstream_of_proxied {upstream : ServiceName}
    (h : (handle env packages inbound uuid).2 = some (.proxied upstream)) :
    ∃ e₀, requestContext env uuid { headers := inbound.headers } = (e₀, none) ∧
      handle env packages inbound uuid =
        runStages (upstreamHandlers.map (Middleware.stage packages inbound)) e₀ := by
  obtain ⟨e₀, hcontext, heq⟩ := @handle_eq env packages inbound uuid (answered_of_proxied h)
  refine ⟨e₀, hcontext, ?_⟩
  rw [heq, List.append_assoc, runStages_append] at h ⊢
  rcases runStages_aside own_aside e₀ with hown | ⟨how, hown, hne⟩
  · rw [hown] at h ⊢
    dsimp only at h ⊢
    rw [runStages_append] at h ⊢
    cases hs : runStages (upstreamHandlers.map (Middleware.stage packages inbound)) e₀ with
    | mk e' how =>
      rw [hs] at h
      cases how with
      | none => cases h
      | some how => rfl
  · rw [hown] at h
    exact absurd (Option.some.inj h) (hne upstream)

/-- What the handlers of the chain make of a request that is proxied: they all let it on. -/
theorem ran_of_proxied {e₀ : Edge} {upstream : ServiceName}
    (hf : Follows packages e₀ e₀) (hproxied : (runStages (upstreamHandlers.map
      (Middleware.stage packages inbound)) e₀).2 = some (.proxied upstream)) :
    (runMiddleware packages.proxy (served packages e₀.headers) inbound.request
      upstreamHandlers).2 = .proxied upstream := by
  obtain ⟨hends, -⟩ :=
    @upstream_agrees packages inbound e₀ e₀ upstreamHandlers upstreamHandlers_rolesLast hf
  rw [hproxied] at hends
  cases hout : (runMiddleware packages.proxy (served packages e₀.headers) inbound.request
      upstreamHandlers).2 with
  | stopped error => cases hends.trans (congrArg Outcome.ended hout)
  | notFound => cases hends.trans (congrArg Outcome.ended hout)
  | proxied other =>
    cases hends.trans (congrArg Outcome.ended hout)
    rfl

/-- Claims that only a good token has. -/
def operatorClaims : String → Option ClaimValue
  | "sub" => some (.text "41")
  | "email" => some (.text "op@example.com")
  | "username" => some (.text "op")
  | "role" => some (.text "ADMIN")
  | "sid" => some (.text "phone")
  | _ => none

def samplePackages : Packages where
  jwtVerify token := if token = "signed" then some operatorClaims else none
  exhausted _ := false
  answered _ _ := false
  proxy := plainLibrary

def sampleEnv : Env where
  TRUST_CLIENT_ACTOR := false
  MAX_BODY_BYTES := 1048576
  isProduction := true

/-- The lookup, in the name of someone else. -/
def forgedLookup : Inbound where
  request := lookup
  originalUrl := "/api/v1/users/auth/7"
  headers
    | "authorization" => some "bearer  signed"
    | "x-actor-id" => some "root"
    | "x-request-id" => some "trace-1"
    | _ => none

def sampleUuid : String := "00000000-0000-4000-8000-000000000000"

theorem forgedLookup_proxied :
    (handle sampleEnv samplePackages forgedLookup sampleUuid).2 = some (.proxied .user) := by
  decide +kernel

/-- The id the client came with is the one that is answered, and the one the user service takes. -/
theorem traced_lookup :
    (handle sampleEnv samplePackages forgedLookup sampleUuid).1.responseId = some "trace-1" ∧
      (hops "" []
        ((handle sampleEnv samplePackages forgedLookup sampleUuid).1.headers REQUEST_ID_HEADER,
          (handle sampleEnv samplePackages forgedLookup sampleUuid).1.headers ACTOR_HEADER)).1 =
            "trace-1" := by
  obtain ⟨id, -, hresponse, -, hhops⟩ :=
    @traced sampleEnv samplePackages forgedLookup sampleUuid (by decide +kernel) rfl
  have hid : (handle sampleEnv samplePackages forgedLookup sampleUuid).1.responseId =
      some "trace-1" := by
    decide +kernel
  obtain rfl := Option.some.inj (hresponse.symm.trans hid)
  exact ⟨hresponse, hhops _ _⟩

/-- The actor at the user service is the operator. -/
theorem actor_proven_lookup : ∃ claims,
    caller samplePackages forgedLookup.headers = .ok claims ∧ CutFrom claims.sub "41" := by
  have hactor : (hops "" []
      ((handle sampleEnv samplePackages forgedLookup sampleUuid).1.headers REQUEST_ID_HEADER,
        (handle sampleEnv samplePackages forgedLookup sampleUuid).1.headers ACTOR_HEADER)).2 =
          some "41" := by
    decide +kernel
  rcases actor_proven forgedLookup_proxied hactor with hproven | ⟨htrust, -⟩ |
    ⟨authUserId, next, hmem, -⟩
  · exact hproven
  · cases htrust
  · cases hmem

end Admission

end PracticalMicroservice.Gateway
