import PracticalMicroservice.Gateway.PolicySource
import PracticalMicroservice.Gateway.Proofs.RoutePolicyProofs

/-!
# Proofs: patterns mean what they say

The source put together for a pattern is read as the expression that was meant, so nothing in a prefix
or a literal is taken for syntax; and that expression matches what the pattern stands for.
-/

namespace PracticalMicroservice.Gateway

open Foundations
open RegExp (Says syntaxCharacters)

/-- What a `.` matches. -/
abbrev dot : Char → Bool := (!lineTerminator ·)

/-! ## Reading the source -/

/-- Exactly the characters that have a meaning in an expression are escaped. -/
theorem regExpSpecial_iff (c : Char) : c ∈ regExpSpecial ↔ c ∈ syntaxCharacters := by
  have hsub : ∀ d ∈ regExpSpecial, d ∈ syntaxCharacters := by
    simp [regExpSpecial, syntaxCharacters]
  have hsup : ∀ d ∈ syntaxCharacters, d ∈ regExpSpecial := by
    simp [regExpSpecial, syntaxCharacters]
  exact ⟨hsub c, hsup c⟩

theorem says_escapeRegExp (value : List Char) :
    Says dot (escapeRegExp value) (value.map Regex.char) := by
  induction value with
  | nil => exact RegExp.says_nil
  | cons c value ih =>
    have hc : Says dot (if c ∈ regExpSpecial then ['\\', c] else [c]) [Regex.char c] := by
      split
      next h => exact RegExp.says_escaped ((regExpSpecial_iff c).mp h)
      next h => exact RegExp.says_char fun hc => h ((regExpSpecial_iff c).mpr hc)
    exact hc.append ih

/-- The terms a segment's source is read as. -/
def segmentTerms (segment : List Char) : List (Regex Char) :=
  if segment.head? = some ':' then [.char '/', (Regex.one fun c => ['/'].contains c != true).plus]
  else .char '/' :: segment.map Regex.char

def belowTerms : List (Regex Char) :=
  [.optional (.sequence [.char '/', .star (.one dot)])]

def endTerms : List (Regex Char) := [.optional (.char '/')]

theorem says_below : Says dot belowSource belowTerms := fun _ _ _ => ⟨false, rfl⟩

theorem says_end : Says dot ['/', '?'] endTerms := fun _ _ _ => ⟨false, rfl⟩

theorem says_segment (segment : List Char) :
    Says dot (segmentSource segment) (segmentTerms segment) := by
  unfold segmentSource segmentTerms
  split
  · exact fun _ _ _ => ⟨false, rfl⟩
  · exact (RegExp.says_char (c := '/') (by decide)).append (says_escapeRegExp segment)

/-! ## What is read is what was meant -/

theorem mem_sequence_singleton (e : Regex Char) (w : List Char) :
    w ∈ (Regex.sequence [e]).language ↔ w ∈ e.language := by
  show w ∈ (Regex.seq e .empty).language ↔ _
  simp [Regex.mem_seq]

theorem mem_sequence_cons (e : Regex Char) (es : List (Regex Char)) (w : List Char) :
    w ∈ (Regex.sequence (e :: es)).language ↔
      ∃ u ∈ e.language, ∃ v ∈ (Regex.sequence es).language, u ++ v = w :=
  Regex.mem_seq e (.sequence es) w

/-- After a slash, whatever the terms match. -/
theorem mem_sequence_slash (es : List (Regex Char)) (w : List Char) :
    w ∈ (Regex.sequence (.char '/' :: es)).language ↔
      ∃ v ∈ (Regex.sequence es).language, w = '/' :: v := by
  rw [mem_sequence_cons]
  constructor
  · rintro ⟨u, ⟨c, hc, rfl⟩, v, hv, rfl⟩
    have hslash : c = '/' := by simpa using hc
    exact ⟨v, hv, by rw [hslash]; rfl⟩
  · rintro ⟨v, hv, rfl⟩
    exact ⟨['/'], ⟨'/', by decide, rfl⟩, v, hv, rfl⟩

theorem mem_segmentTerms (segment w : List Char) :
    w ∈ (Regex.sequence (segmentTerms segment)).language ↔
      w ∈ (if segment.head? = some ':' then oneSegment else literalSegment segment).language := by
  unfold segmentTerms
  split
  · rw [mem_sequence_slash, mem_oneSegment]
    constructor
    · rintro ⟨v, hv, rfl⟩
      obtain ⟨hne, hall⟩ := (Regex.mem_plus_one _ v).mp ((mem_sequence_singleton _ v).mp hv)
      refine ⟨v, rfl, hne, fun hslash => ?_⟩
      have := hall '/' hslash
      simp at this
    · rintro ⟨v, rfl, hne, hslash⟩
      refine ⟨v, (mem_sequence_singleton _ v).mpr ((Regex.mem_plus_one _ v).mpr ⟨hne, ?_⟩), rfl⟩
      intro c hc
      have hne : c ≠ '/' := fun h => hslash (h ▸ hc)
      simp [hne]
  · rw [mem_sequence_slash, mem_literalSegment]
    constructor
    · rintro ⟨v, hv, rfl⟩
      rw [(Regex.mem_sequence_char segment v).mp hv]
    · rintro rfl
      exact ⟨segment, (Regex.mem_sequence_char segment segment).mpr rfl, rfl⟩

theorem mem_belowTerms (w : List Char) :
    w ∈ (Regex.sequence belowTerms).language ↔ w ∈ anyBelow.language := by
  unfold belowTerms
  rw [mem_sequence_singleton, Regex.mem_optional, mem_sequence_slash, mem_anyBelow]
  refine or_congr Iff.rfl ?_
  constructor
  · rintro ⟨v, hv, rfl⟩
    have hall := (Regex.mem_star_one _ v).mp ((mem_sequence_singleton _ v).mp hv)
    exact ⟨v, rfl, fun c hc => by simpa using hall c hc⟩
  · rintro ⟨v, rfl, hall⟩
    refine ⟨v, (mem_sequence_singleton _ v).mpr ((Regex.mem_star_one _ v).mpr ?_), rfl⟩
    intro c hc
    simp [hall c hc]

theorem mem_endTerms (w : List Char) :
    w ∈ (Regex.sequence endTerms).language ↔ w ∈ (Regex.optional (.text ['/'])).language := by
  unfold endTerms
  rw [mem_sequence_singleton, Regex.mem_optional, Regex.mem_optional, Regex.mem_text]
  refine or_congr Iff.rfl ?_
  constructor
  · rintro ⟨c, hc, rfl⟩
    rw [show c = '/' by simpa using hc]
  · rintro rfl
    exact ⟨'/', by decide, rfl⟩

/-- Terms and the end of the expression, against the expression they stand for and its end. -/
theorem mem_sequence_joined {es rest : List (Regex Char)} {e : Regex Char} {body : List (Regex Char)}
    (hes : ∀ w, w ∈ (Regex.sequence es).language ↔ w ∈ e.language)
    (hrest : ∀ w, w ∈ (Regex.sequence (rest ++ endTerms)).language ↔ w ∈ (joined body).language)
    (w : List Char) :
    w ∈ (Regex.sequence (es ++ rest ++ endTerms)).language ↔ w ∈ (joined (e :: body)).language := by
  rw [List.append_assoc, Regex.mem_sequence_append, show joined (e :: body) = .seq e (joined body) from rfl,
    Regex.mem_seq]
  simp only [hes, hrest]

/-- What the source of some segments is read as matches what their expression matches. -/
def ReadAs (source : List (List Char)) (body : List (Regex Char)) : Prop :=
  ∃ es, Says dot source.flatten es ∧
    ∀ w, w ∈ (Regex.sequence (es ++ endTerms)).language ↔ w ∈ (joined body).language

theorem bodySources_read (pattern : String) (segments : List (List Char)) :
    (bodySources pattern segments = .error (wildcardError pattern) ∧
      compileSegments pattern segments = .error (wildcardError pattern)) ∨
    ∃ source body, bodySources pattern segments = .ok source ∧
      compileSegments pattern segments = .ok body ∧ ReadAs source body := by
  induction segments with
  | nil => exact .inr ⟨[], [], rfl, rfl, [], RegExp.says_nil, mem_endTerms⟩
  | cons segment rest ih =>
    rw [bodySources, compileSegments]
    by_cases hstar : segment = ['*']
    · rw [if_pos hstar, if_pos hstar]
      by_cases hrest : rest = []
      · rw [if_pos hrest, if_pos hrest]
        refine .inr ⟨_, _, rfl, rfl, belowTerms, says_below, ?_⟩
        have hend : ∀ w, w ∈ (Regex.sequence ([] ++ endTerms)).language ↔ w ∈ (joined []).language :=
          mem_endTerms
        intro w
        have hmem := mem_sequence_joined mem_belowTerms hend w
        rwa [List.append_nil] at hmem
      · rw [if_neg hrest, if_neg hrest]
        exact .inl ⟨rfl, rfl⟩
    · rw [if_neg hstar, if_neg hstar]
      rcases ih with ⟨hsource, hbody⟩ | ⟨source, body, hsource, hbody, es, hsays, hmem⟩
      · rw [hsource, hbody]
        exact .inl ⟨rfl, rfl⟩
      · rw [hsource, hbody]
        refine .inr ⟨_, _, rfl, rfl, segmentTerms segment ++ es, ?_, ?_⟩
        · exact (says_segment segment).append hsays
        · exact mem_sequence_joined (mem_segmentTerms segment) hmem

/-- The expression the source of a pattern is read as matches what `compilePolicyPath` is to build. -/
theorem compilePolicySource_eq (pathPrefix pattern : String) :
    (compilePolicySource pathPrefix pattern = .error (wildcardError pattern) ∧
      compilePolicyPath pathPrefix pattern = .error (wildcardError pattern)) ∨
    ∃ e expression, compilePolicySource pathPrefix pattern = .ok (some e) ∧
      compilePolicyPath pathPrefix pattern = .ok expression ∧
      ∀ w, e.accepts w = true ↔ w ∈ expression.language := by
  unfold compilePolicySource policySource compilePolicyPath
  rcases bodySources_read pattern (segmentsOf pattern.toList) with
    ⟨hsource, hbody⟩ | ⟨source, body, hsource, hbody, es, hsays, hmem⟩
  · rw [hsource, hbody]
    exact .inl ⟨rfl, rfl⟩
  · rw [hsource, hbody]
    have hall : Says dot (escapeRegExp pathPrefix.toList ++ source.flatten ++ ['/', '?'])
        (pathPrefix.toList.map Regex.char ++ es ++ endTerms) :=
      ((says_escapeRegExp _).append hsays).append says_end
    refine .inr ⟨_, _, congrArg Except.ok (RegExp.read_anchored hall), rfl, fun w => ?_⟩
    rw [Regex.accepts_iff, List.append_assoc, Regex.mem_sequence_append, Regex.mem_seq]
    simp only [Regex.mem_sequence_char, Regex.mem_text, hmem]

/-! ## What was meant -/

/-- A wildcard anywhere but last is refused, and nothing else is. -/
theorem compileSegments_error (pattern : String) (segments : List (List Char)) :
    compileSegments pattern segments = .error (wildcardError pattern) ↔
      .rest ∈ (segments.map Piece.of).dropLast := by
  induction segments with
  | nil => simp [compileSegments]
  | cons segment rest ih =>
    rw [compileSegments]
    by_cases hstar : segment = ['*']
    · rw [if_pos hstar]
      have hpiece : Piece.of segment = .rest := by simp [Piece.of, hstar]
      by_cases hrest : rest = []
      · subst hrest
        rw [if_pos rfl]
        constructor
        · intro h
          cases h
        · intro h
          cases h
      · rw [if_neg hrest, List.map_cons, hpiece, List.dropLast_cons_of_ne_nil (by simpa using hrest)]
        exact ⟨fun _ => List.mem_cons_self, fun _ => rfl⟩
    · rw [if_neg hstar]
      have hpiece : Piece.of segment ≠ .rest := by
        unfold Piece.of
        rw [if_neg hstar]
        split <;> simp
      cases rest with
      | nil =>
        constructor
        · intro h
          cases h
        · intro h
          cases h
      | cons next rest =>
        rw [List.map_cons, List.dropLast_cons_of_ne_nil (by simp), List.mem_cons,
          or_iff_right hpiece.symm, ← ih]
        cases hbody : compileSegments pattern (next :: rest) with
        | error e => simp [bind, Except.bind]
        | ok body => simp [bind, Except.bind]

/-- A segment of the pattern that is not the wildcard. -/
theorem Piece.of_cases {segment : List Char} (h : segment ≠ ['*']) :
    (segment.head? = some ':' ∧ Piece.of segment = .param) ∨
      (segment.head? ≠ some ':' ∧ Piece.of segment = .literal segment) := by
  unfold Piece.of
  rw [if_neg h]
  by_cases hparam : segment.head? = some ':'
  · exact .inl ⟨hparam, if_pos hparam⟩
  · exact .inr ⟨hparam, if_neg hparam⟩

/-- The expression of one segment matches a slash and a segment that fits. -/
theorem mem_segment {segment : List Char} (h : segment ≠ ['*']) (w : List Char) :
    w ∈ (if segment.head? = some ':' then oneSegment else literalSegment segment).language ↔
      ∃ s, w = '/' :: s ∧ (Piece.of segment).Fits s := by
  rcases Piece.of_cases h with ⟨hparam, hpiece⟩ | ⟨hparam, hpiece⟩
  · rw [if_pos hparam, hpiece, mem_oneSegment]
    rfl
  · rw [if_neg hparam, hpiece, mem_literalSegment]
    constructor
    · rintro rfl
      exact ⟨segment, rfl, rfl⟩
    · rintro ⟨s, rfl, rfl⟩
      rfl

/-- One segment more. -/
theorem spelled_cons {piece : Piece} (h : piece ≠ .rest) (pieces : List Piece) (w : List Char) :
    Spelled (piece :: pieces) w ↔
      ∃ s v, piece.Fits s ∧ Spelled pieces v ∧ w = '/' :: (s ++ v) := by
  have hfilter : (piece :: pieces).filter (· ≠ .rest) = piece :: pieces.filter (· ≠ .rest) := by
    simp [h]
  have hend : ∀ ending, MayEnd (piece :: pieces) ending ↔ MayEnd pieces ending := by
    intro ending
    simp [MayEnd, Ne.symm h]
  constructor
  · rintro ⟨segments, ending, rfl, hfits, hmay⟩
    rw [hfilter] at hfits
    cases hfits with
    | @cons _ s _ segments hs hfits =>
      refine ⟨s, spell '/' segments ++ ending, hs, ⟨segments, ending, rfl, hfits, (hend _).mp hmay⟩, ?_⟩
      simp
  · rintro ⟨s, v, hs, ⟨segments, ending, rfl, hfits, hmay⟩, rfl⟩
    refine ⟨s :: segments, ending, by simp, ?_, (hend _).mpr hmay⟩
    rw [hfilter]
    exact .cons hs hfits

theorem spelled_nil (w : List Char) : Spelled [] w ↔ w = [] ∨ w = ['/'] := by
  constructor
  · rintro ⟨segments, ending, rfl, hfits, hmay⟩
    cases hfits
    simpa [MayEnd] using hmay
  · intro hw
    refine ⟨[], w, rfl, .nil, ?_⟩
    simpa [MayEnd] using hw

theorem spelled_rest (w : List Char) : Spelled [.rest] w ↔ Headed '/' w := by
  constructor
  · rintro ⟨segments, ending, rfl, hfits, hmay⟩
    cases hfits
    rcases hmay with rfl | rfl | ⟨-, below, rfl⟩
    · exact .inl rfl
    · exact .inr ⟨[], rfl⟩
    · exact .inr ⟨below, rfl⟩
  · rintro (rfl | ⟨below, rfl⟩)
    · exact ⟨[], [], rfl, .nil, .inl rfl⟩
    · exact ⟨[], _, rfl, .nil, .inr (.inr ⟨List.mem_singleton.mpr rfl, below, rfl⟩)⟩

theorem mem_joined_rest {w : List Char} (hw : ∀ c ∈ w, lineTerminator c = false) :
    w ∈ (joined [anyBelow]).language ↔ Headed '/' w := by
  rw [show joined [anyBelow] = .seq anyBelow (joined []) from rfl, Regex.mem_seq]
  constructor
  · rintro ⟨u, hu, v, hv, rfl⟩
    have hend : Headed '/' v := by
      rcases (Regex.mem_optional _ v).mp hv with rfl | hv
      · exact .inl rfl
      · exact .inr ⟨[], (Regex.mem_text _ v).mp hv⟩
    rcases (mem_anyBelow u).mp hu with rfl | ⟨below, rfl, -⟩
    · exact hend
    · exact .inr ⟨below ++ v, rfl⟩
  · intro hheaded
    refine ⟨w, (mem_anyBelow w).mpr ?_, [], (Regex.mem_optional _ _).mpr (.inl rfl), by simp⟩
    rcases hheaded with rfl | ⟨below, rfl⟩
    · exact .inl rfl
    · exact .inr ⟨below, rfl, fun c hc => hw c (List.mem_cons_of_mem _ hc)⟩

/-- The expression of some segments matches what these spell, whatever the text. -/
theorem mem_joined_spelled {pattern : String} {segments : List (List Char)}
    {body : List (Regex Char)} (h : compileSegments pattern segments = .ok body) {w : List Char}
    (hw : ∀ c ∈ w, lineTerminator c = false) :
    w ∈ (joined body).language ↔ Spelled (segments.map Piece.of) w := by
  induction segments generalizing body w with
  | nil =>
    cases h
    rw [List.map_nil, spelled_nil, show joined [] = Regex.optional (.text ['/']) from rfl,
      Regex.mem_optional, Regex.mem_text]
  | cons segment rest ih =>
    rw [compileSegments] at h
    by_cases hstar : segment = ['*']
    · rw [if_pos hstar] at h
      split at h
      next hrest =>
        cases h
        subst hrest hstar
        rw [mem_joined_rest hw]
        exact (spelled_rest w).symm
      next => cases h
    · rw [if_neg hstar] at h
      have hpiece : Piece.of segment ≠ .rest := by
        rcases Piece.of_cases hstar with ⟨-, hpiece⟩ | ⟨-, hpiece⟩
        · rw [hpiece]; simp
        · rw [hpiece]; simp
      cases hbody : compileSegments pattern rest with
      | error e => rw [hbody] at h; cases h
      | ok tail =>
        rw [hbody] at h
        cases h
        rw [List.map_cons, spelled_cons hpiece, show joined (_ :: tail) = .seq _ (joined tail) from rfl,
          Regex.mem_seq]
        constructor
        · rintro ⟨u, hu, v, hv, rfl⟩
          obtain ⟨s, rfl, hs⟩ := (mem_segment hstar u).mp hu
          have hclean : ∀ c ∈ v, lineTerminator c = false :=
            fun c hc => hw c (List.mem_append_right _ hc)
          exact ⟨s, v, hs, (ih hbody hclean).mp hv, rfl⟩
        · rintro ⟨s, v, hs, hv, rfl⟩
          have hclean : ∀ c ∈ v, lineTerminator c = false :=
            fun c hc => hw c (List.mem_cons_of_mem _ (List.mem_append_right _ hc))
          exact ⟨'/' :: s, (mem_segment hstar _).mpr ⟨s, rfl, hs⟩, v, (ih hbody hclean).mpr hv, rfl⟩

/-- A path goes on after the prefix with nothing or with a slash. -/
theorem headed_spelled {pieces : List Piece} {below : List Char} (h : Spelled pieces below) :
    Headed '/' below := by
  obtain ⟨segments, ending, rfl, -, hmay⟩ := h
  refine (headed_spell '/' segments).append ?_
  rcases hmay with rfl | rfl | ⟨-, below, rfl⟩
  · exact .inl rfl
  · exact .inr ⟨[], rfl⟩
  · exact .inr ⟨below, rfl⟩

/-- A pattern with a wildcard anywhere but last is refused. Any other is compiled to an expression
that matches the paths it stands for and no others; so a path that only begins with the characters
of the prefix is never matched. -/
theorem compilePolicyPath_means (pathPrefix pattern : String) :
    (.rest ∈ (piecesOf pattern).dropLast →
      compilePolicySource pathPrefix pattern = .error (wildcardError pattern)) ∧
    (.rest ∉ (piecesOf pattern).dropLast →
      ∃ expression, compilePolicySource pathPrefix pattern = .ok (some expression) ∧
        ∀ path : RequestPath,
          (expression.accepts path.text = true ↔ Covers pathPrefix pattern path.text) ∧
          (expression.accepts path.text = true →
            ∃ below, path.text = pathPrefix.toList ++ below ∧ Headed '/' below)) := by
  have hrefused : compilePolicyPath pathPrefix pattern = .error (wildcardError pattern) ↔
      .rest ∈ (piecesOf pattern).dropLast := by
    rw [piecesOf, ← compileSegments_error pattern]
    unfold compilePolicyPath
    cases compileSegments pattern (segmentsOf pattern.toList) with
    | error e => simp [bind, Except.bind]
    | ok body => simp [bind, Except.bind]
  rcases compilePolicySource_eq pathPrefix pattern with
    ⟨hsource, herror⟩ | ⟨e, expression, hsource, hok, haccepts⟩
  · exact ⟨fun _ => hsource, fun hrest => absurd (hrefused.mp herror) hrest⟩
  · have hno : .rest ∉ (piecesOf pattern).dropLast := by
      rw [← hrefused, hok]
      simp
    refine ⟨fun hrest => absurd hrest hno, fun _ => ⟨e, hsource, fun path => ?_⟩⟩
    have hiff : e.accepts path.text = true ↔ Covers pathPrefix pattern path.text := by
      rw [haccepts]
      unfold compilePolicyPath at hok
      cases hbody : compileSegments pattern (segmentsOf pattern.toList) with
      | error e => rw [hbody] at hok; cases hok
      | ok body =>
        rw [hbody] at hok
        cases hok
        rw [Regex.mem_seq]
        constructor
        · rintro ⟨u, hu, below, hbelow, htext⟩
          rw [(Regex.mem_text _ _).mp hu] at htext
          have hclean : ∀ c ∈ below, lineTerminator c = false :=
            fun c hc => path.clean c (htext ▸ List.mem_append_right _ hc)
          exact ⟨below, htext.symm, (mem_joined_spelled hbody hclean).mp hbelow⟩
        · rintro ⟨below, htext, hspelled⟩
          have hclean : ∀ c ∈ below, lineTerminator c = false :=
            fun c hc => path.clean c (htext ▸ List.mem_append_right _ hc)
          exact ⟨_, (Regex.mem_text _ _).mpr rfl, below,
            (mem_joined_spelled hbody hclean).mpr hspelled, htext.symm⟩
    refine ⟨hiff, fun hmatch => ?_⟩
    obtain ⟨below, htext, hspelled⟩ := hiff.mp hmatch
    exact ⟨below, htext, headed_spelled hspelled⟩

end PracticalMicroservice.Gateway
