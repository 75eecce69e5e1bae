import PracticalMicroservice.Gateway.RoutePolicy

/-!
# Compiled patterns say what the patterns say
-/

namespace PracticalMicroservice.Gateway

open Foundations

/-- The segments of a clean path. -/
def Clean (segments : List (List Char)) : Prop :=
  ∀ s ∈ segments, ∀ c ∈ s, c ≠ '/' ∧ lineTerminator c = false

theorem Clean.tail {s : List Char} {rest : List (List Char)} (h : Clean (s :: rest)) :
    Clean rest :=
  fun t ht => h t (List.mem_cons_of_mem _ ht)

theorem Clean.head {s : List Char} {rest : List (List Char)} (h : Clean (s :: rest)) : '/' ∉ s :=
  fun hs => (h s (List.mem_cons_self ..) '/' hs).1 rfl

theorem slash_not_mem_splitOn (value : List Char) : ∀ s ∈ value.splitOn '/', '/' ∉ s := by
  induction value with
  | nil => simp
  | cons c value ih =>
    intro s hs
    rw [List.splitOn_cons_eq_if_modifyHead] at hs
    split at hs
    · rcases List.mem_cons.mp hs with rfl | hs
      · simp
      · exact ih s hs
    · rename_i hc
      cases hv : value.splitOn '/' with
      | nil => simp [hv] at hs
      | cons t ts =>
        rw [hv] at ih hs
        rcases List.mem_cons.mp hs with rfl | hs
        · have ht := ih t (List.mem_cons_self ..)
          have hne : '/' ≠ c := fun h => hc (by simp [← h])
          simp [hne, ht]
        · exact ih s (List.mem_cons_of_mem _ hs)

/-- A pattern's segments hold no slash and are not empty. -/
theorem mem_segmentsOf {value s : List Char} (h : s ∈ segmentsOf value) : '/' ∉ s ∧ s ≠ [] := by
  obtain ⟨hs, hne⟩ := List.mem_filter.mp h
  exact ⟨slash_not_mem_splitOn value s hs, by simpa using hne⟩

/-! ## The expression of one segment -/

theorem mem_literalSegment (segment w : List Char) :
    w ∈ (literalSegment segment).language ↔ w = '/' :: segment := by
  rw [literalSegment, Regex.mem_seq]
  constructor
  · rintro ⟨u, hu, v, hv, rfl⟩
    rw [(Regex.mem_text _ _).mp hu, (Regex.mem_text _ _).mp hv]
    rfl
  · rintro rfl
    exact ⟨['/'], by simp, segment, by simp, rfl⟩

theorem mem_oneSegment (w : List Char) :
    w ∈ oneSegment.language ↔ ∃ s, w = '/' :: s ∧ s ≠ [] ∧ '/' ∉ s := by
  rw [oneSegment, Regex.mem_seq]
  constructor
  · rintro ⟨u, hu, v, hv, rfl⟩
    obtain ⟨hne, hall⟩ := (Regex.mem_plus_one _ _).mp hv
    rw [(Regex.mem_text _ _).mp hu]
    exact ⟨v, rfl, hne, fun hs => by simpa using hall '/' hs⟩
  · rintro ⟨s, rfl, hne, hs⟩
    refine ⟨['/'], by simp, s, (Regex.mem_plus_one _ _).mpr ⟨hne, ?_⟩, rfl⟩
    intro c hc
    have : c ≠ '/' := fun h => hs (h ▸ hc)
    simpa using this

theorem mem_anyBelow (w : List Char) :
    w ∈ anyBelow.language ↔ w = [] ∨ ∃ u, w = '/' :: u ∧ ∀ c ∈ u, lineTerminator c = false := by
  rw [anyBelow, Regex.mem_optional, Regex.mem_seq]
  refine or_congr Iff.rfl ?_
  constructor
  · rintro ⟨u, hu, v, hv, rfl⟩
    rw [(Regex.mem_text _ _).mp hu]
    exact ⟨v, rfl, fun c hc => by simpa using (Regex.mem_star_one _ _).mp hv c hc⟩
  · rintro ⟨u, rfl, hu⟩
    exact ⟨['/'], by simp, u, (Regex.mem_star_one _ _).mpr fun c hc => by simp [hu c hc], rfl⟩

/-- No line terminator comes into a path between its segments. -/
theorem spell_terminator_free {segments : List (List Char)} (h : Clean segments) :
    ∀ c ∈ spell '/' segments, lineTerminator c = false := by
  intro c hc
  obtain ⟨s, hs, hcs⟩ := List.mem_flatMap.mp hc
  rcases List.mem_cons.mp hcs with rfl | hcs
  · rfl
  · exact (h s hs c hcs).2

/-! ## The expression of a pattern -/

/-- Whatever a pattern's tail matches is empty or goes on with a slash. -/
theorem headed_joined {pattern : String} {segments : List (List Char)}
    {body : List (Regex Char)} (h : compileSegments pattern segments = .ok body) :
    ∀ w ∈ (joined body).language, Headed '/' w := by
  intro w hw
  cases segments with
  | nil =>
    cases h
    rcases (Regex.mem_optional _ _).mp hw with rfl | hw
    · exact Or.inl rfl
    · exact Or.inr ⟨[], (Regex.mem_text _ _).mp hw⟩
  | cons segment rest =>
    rw [compileSegments] at h
    split at h
    · split at h
      · cases h
        obtain ⟨u, hu, v, hv, rfl⟩ := (Regex.mem_seq _ _ _).mp hw
        rcases (mem_anyBelow u).mp hu with rfl | ⟨u', rfl, -⟩
        · rcases (Regex.mem_optional _ _).mp hv with rfl | hv
          · exact Or.inl rfl
          · exact Or.inr ⟨[], (Regex.mem_text _ _).mp hv⟩
        · exact Or.inr ⟨u' ++ v, rfl⟩
      · cases h
    · cases hbody : compileSegments pattern rest with
      | error e => simp [hbody] at h; cases h
      | ok tail =>
        rw [hbody] at h
        cases h
        obtain ⟨u, hu, v, hv, rfl⟩ := (Regex.mem_seq _ _ _).mp hw
        split at hu
        · obtain ⟨s, rfl, -⟩ := (mem_oneSegment u).mp hu
          exact Or.inr ⟨s ++ v, rfl⟩
        · rw [(mem_literalSegment _ _).mp hu]
          exact Or.inr ⟨segment ++ v, rfl⟩

/-- The compiled tail of a pattern matches exactly the segments that fit it. -/
theorem mem_joined {pattern : String} {segments : List (List Char)} {body : List (Regex Char)}
    (h : compileSegments pattern segments = .ok body) (hslash : ∀ s ∈ segments, '/' ∉ s)
    {rest : List (List Char)} (hclean : Clean rest) :
    spell '/' rest ∈ (joined body).language
      ↔ policyMatches (segments.map Piece.of) rest = true := by
  induction segments generalizing body rest with
  | nil =>
    cases h
    simp only [joined, List.foldr_nil, Regex.mem_optional, Regex.mem_text, List.map_nil,
      policyMatches, Bool.or_eq_true, beq_iff_eq]
    cases rest with
    | nil => simp
    | cons s rest =>
      cases rest with
      | nil => simp
      | cons t rest => simp
  | cons segment tail ih =>
    rw [compileSegments] at h
    by_cases hstar : segment = ['*']
    · rw [if_pos hstar] at h
      split at h
      · cases h
        have hpiece : Piece.of segment = .rest := by simp [Piece.of, hstar]
        simp only [List.map_cons, hpiece, policyMatches, iff_true]
        refine (Regex.mem_seq _ _ _).mpr ⟨spell '/' rest, ?_, [], by simp, by simp⟩
        rw [mem_anyBelow]
        cases rest with
        | nil => exact Or.inl rfl
        | cons s rest =>
          refine Or.inr ⟨_, rfl, fun c hc => ?_⟩
          exact spell_terminator_free hclean c (List.mem_cons_of_mem _ hc)
      · cases h
    · rw [if_neg hstar] at h
      cases hbody : compileSegments pattern tail with
      | error e => simp [hbody] at h; cases h
      | ok tailBody =>
        rw [hbody] at h
        cases h
        have hrest := headed_joined hbody
        have hsegment := hslash segment (List.mem_cons_self ..)
        have htail : ∀ s ∈ tail, '/' ∉ s := fun s hs => hslash s (List.mem_cons_of_mem _ hs)
        cases rest with
        | nil =>
          constructor
          · intro hw
            obtain ⟨u, hu, v, -, huv⟩ := (Regex.mem_seq _ _ _).mp hw
            have hnil : u = [] := (List.append_eq_nil_iff.mp huv).1
            subst hnil
            split at hu
            · obtain ⟨s, hs, -⟩ := (mem_oneSegment []).mp hu
              cases hs
            · cases (mem_literalSegment _ _).mp hu
          · intro hm
            have : policyMatches ((segment :: tail).map Piece.of) [] = false := by
              simp only [List.map_cons, Piece.of, if_neg hstar]
              split <;> rfl
            rw [this] at hm
            cases hm
        | cons s rest =>
          have hs := hclean.head
          by_cases hparam : segment.head? = some ':'
          · have hpiece : Piece.of segment = .param := by simp [Piece.of, hstar, hparam]
            have hpart : ∀ w ∈ (Regex.one (· != '/')).plus.language, '/' ∉ w := by
              intro w hw hslash
              simpa using ((Regex.mem_plus_one _ _).mp hw).2 '/' hslash
            simp only [if_pos hparam, joined, List.foldr_cons, List.map_cons, hpiece,
              policyMatches, Bool.and_eq_true]
            rw [← ih hbody htail hclean.tail]
            refine (mem_piece hpart hrest hs rest).trans (and_congr_left fun _ => ?_)
            rw [Regex.mem_plus_one]
            constructor
            · exact fun h => by simpa using h.1
            · refine fun h => ⟨by simpa using h, fun c hc => ?_⟩
              have : c ≠ '/' := fun h => hs (h ▸ hc)
              simpa using this
          · have hpiece : Piece.of segment = .literal segment := by
              simp [Piece.of, hstar, hparam]
            have hpart : ∀ w ∈ (Regex.text segment).language, '/' ∉ w := by
              intro w hw
              rw [(Regex.mem_text _ _).mp hw]
              exact hsegment
            simp only [if_neg hparam, joined, List.foldr_cons, List.map_cons, hpiece,
              policyMatches, Bool.and_eq_true, beq_iff_eq]
            rw [← ih hbody htail hclean.tail]
            refine (mem_piece hpart hrest hs rest).trans (and_congr_left fun _ => ?_)
            exact Regex.mem_text segment s

/-- The expression `compilePolicyPath` builds matches a path exactly when the path is the prefix,
letter for letter, and then segments that fit the pattern. -/
theorem compilePolicyPath_accepts {pathPrefix pattern : String} {expression : Regex Char}
    (h : compilePolicyPath pathPrefix pattern = .ok expression) {mount : List (List Char)}
    (hspelled : spell '/' mount = pathPrefix.toList) (hmount : ∀ m ∈ mount, '/' ∉ m)
    (path : Path) :
    expression.accepts path.text = true
      ↔ ∃ rest, path.segments = mount ++ rest
          ∧ policyMatches (piecesOf pattern) rest = true := by
  cases hbody : compileSegments pattern (segmentsOf pattern.toList) with
  | error e => rw [compilePolicyPath, hbody] at h; cases h
  | ok body =>
    rw [compilePolicyPath, hbody] at h
    cases h
    have hslash : ∀ s ∈ segmentsOf pattern.toList, '/' ∉ s := fun s hs => (mem_segmentsOf hs).1
    rw [Regex.accepts_iff, Regex.mem_seq, ← hspelled, Path.text]
    constructor
    · rintro ⟨u, hu, v, hv, huv⟩
      rw [(Regex.mem_text _ _).mp hu] at huv
      obtain ⟨rest, hsegments, rfl⟩ := spell_append_inj hmount
        (fun s hs hs' => (path.clean s hs '/' hs').1 rfl) (headed_joined hbody v hv) huv
      have hclean : Clean rest := fun s hs => path.clean s (by simp [hsegments, hs])
      exact ⟨rest, hsegments, (mem_joined hbody hslash hclean).mp hv⟩
    · rintro ⟨rest, hsegments, hmatch⟩
      have hclean : Clean rest := fun s hs => path.clean s (by simp [hsegments, hs])
      refine ⟨spell '/' mount, by simp, spell '/' rest,
        (mem_joined hbody hslash hclean).mpr hmatch, ?_⟩
      rw [hsegments, spell_append]

/-! ## Selection -/

/-- Compiling the patterns one by one: each expression comes from its own pattern. -/
theorem mem_of_mapM {A B : Type} {f : A → Except String B} {xs : List A} {ys : List B}
    (h : xs.mapM f = .ok ys) :
    (∀ x ∈ xs, ∃ y ∈ ys, f x = .ok y) ∧ ∀ y ∈ ys, ∃ x ∈ xs, f x = .ok y := by
  induction xs generalizing ys with
  | nil => cases h; simp
  | cons x xs ih =>
    rw [List.mapM_cons] at h
    cases hx : f x with
    | error e => rw [hx] at h; cases h
    | ok y =>
      cases hxs : xs.mapM f with
      | error e => rw [hx, hxs] at h; cases h
      | ok rest =>
        rw [hx, hxs] at h
        cases h
        obtain ⟨hto, hfrom⟩ := ih hxs
        constructor
        · intro z hz
          rcases List.mem_cons.mp hz with rfl | hz
          · exact ⟨y, List.mem_cons_self .., hx⟩
          · obtain ⟨w, hw, hzw⟩ := hto z hz
            exact ⟨w, List.mem_cons_of_mem _ hw, hzw⟩
        · intro z hz
          rcases List.mem_cons.mp hz with rfl | hz
          · exact ⟨x, List.mem_cons_self .., hx⟩
          · obtain ⟨w, hw, hzw⟩ := hfrom z hz
            exact ⟨w, List.mem_cons_of_mem _ hw, hzw⟩

variable {H E : Type}

/-- What `createPolicyHandler` keeps of the policy. -/
theorem createPolicyHandler_fields {upstream pathPrefix : String} {policy : RoutePolicy H}
    {handler : PolicyHandler H}
    (h : createPolicyHandler upstream pathPrefix policy = .ok handler) :
    handler.upstream = upstream ∧ handler.policy = policy
      ∧ policy.paths.mapM (compilePolicyPath pathPrefix) = .ok handler.patterns := by
  cases hp : policy.paths.mapM (compilePolicyPath pathPrefix) with
  | error e => rw [createPolicyHandler, hp] at h; cases h
  | ok patterns =>
    rw [createPolicyHandler, hp] at h
    cases h
    exact ⟨rfl, rfl, rfl⟩

/-- A policy takes a request when it covers the method and one of its patterns fits the path. -/
theorem selects_iff {upstream pathPrefix : String} {policy : RoutePolicy H}
    {handler : PolicyHandler H}
    (h : createPolicyHandler upstream pathPrefix policy = .ok handler)
    {mount : List (List Char)} (hspelled : spell '/' mount = pathPrefix.toList)
    (hmount : ∀ m ∈ mount, '/' ∉ m) (req : Request) :
    handler.selects req = true
      ↔ policy.covers req.method = true
          ∧ ∃ pattern ∈ policy.paths, ∃ rest, req.path.segments = mount ++ rest
              ∧ policyMatches (piecesOf pattern) rest = true := by
  obtain ⟨-, hpolicy, hpatterns⟩ := createPolicyHandler_fields h
  obtain ⟨hto, hfrom⟩ := mem_of_mapM hpatterns
  rw [PolicyHandler.selects, hpolicy, Bool.and_eq_true, List.any_eq_true]
  refine and_congr_right fun _ => ?_
  constructor
  · rintro ⟨expression, hmem, haccepts⟩
    obtain ⟨pattern, hpattern, hcompile⟩ := hfrom expression hmem
    exact ⟨pattern, hpattern, (compilePolicyPath_accepts hcompile hspelled hmount _).mp haccepts⟩
  · rintro ⟨pattern, hpattern, hrest⟩
    obtain ⟨expression, hmem, hcompile⟩ := hto pattern hpattern
    exact ⟨expression, hmem, (compilePolicyPath_accepts hcompile hspelled hmount _).mpr hrest⟩

/-! ## The chain of a policy -/

/-- A chain that hands on has called every handler, in order. -/
theorem runChain_on {upstream policy : String} {serve : H → Handed E} {handlers : List H}
    (h : (runChain upstream policy serve handlers).2 = .on) :
    (runChain upstream policy serve handlers).1 = handlers.map (.ran upstream policy) := by
  induction handlers with
  | nil => rfl
  | cons handler rest ih =>
    rw [runChain] at h ⊢
    cases hs : serve handler with
    | stopped error => rw [hs] at h; cases h
    | on =>
      rw [hs] at h
      rw [List.map_cons, ← ih h]

/-- What a policy that hands on leaves behind: its whole chain if it was selected. -/
def trail (req : Request) (handler : PolicyHandler H) : List (Entry H) :=
  if handler.selects req then
    .matched handler.upstream handler.policy.name
      :: handler.policy.handlers.map (.ran handler.upstream handler.policy.name)
  else []

theorem handle_on {handler : PolicyHandler H} {serve : H → Handed E} {req : Request}
    (h : (handler.handle serve req).2 = .on) :
    (handler.handle serve req).1 = trail req handler := by
  rw [PolicyHandler.handle] at h ⊢
  rw [trail]
  split
  · rename_i hs
    rw [if_pos hs] at h
    exact congrArg (_ :: ·) (runChain_on h)
  · rfl

theorem mem_of_mem_trail {handler : PolicyHandler H} {req : Request} {upstream policy : String}
    {ran : H} (h : .ran upstream policy ran ∈ trail req handler) :
    handler.selects req = true ∧ ran ∈ handler.policy.handlers := by
  unfold trail at h
  split at h
  · rename_i hselects
    rcases List.mem_cons.mp h with he | hran
    · cases he
    · obtain ⟨ran', hmem, he⟩ := List.mem_map.mp hran
      cases he
      exact ⟨hselects, hmem⟩
  · cases h

end PracticalMicroservice.Gateway
