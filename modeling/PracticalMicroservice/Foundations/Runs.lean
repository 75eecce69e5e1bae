/-!
# Runs of a labelled transition system

A system is given by a partial step function: the label says everything that is not determined by
the state, so a run is a list of labels. Safety properties follow from what one step preserves.
-/

namespace PracticalMicroservice.Foundations

variable {S L : Type}

/-- The state a list of labels leads to, if each of them can happen in turn. -/
def runs (step : S → L → Option S) : S → List L → Option S
  | s, [] => some s
  | s, l :: ls => (step s l).bind fun s' => runs step s' ls

/-- Every step of the run meets `ok` in the state it is taken from. -/
def AllSteps (step : S → L → Option S) (ok : S → L → Prop) : S → List L → Prop
  | _, [] => True
  | s, l :: ls => ok s l ∧ ∀ s', step s l = some s' → AllSteps step ok s' ls

/-- Whether every step of a run meets `ok` can be found out by taking it. -/
instance AllSteps.decidable (step : S → L → Option S) (ok : S → L → Prop)
    [∀ s l, Decidable (ok s l)] : (s : S) → (ls : List L) → Decidable (AllSteps step ok s ls)
  | _, [] => .isTrue trivial
  | s, l :: ls =>
    match h : step s l with
    | none => decidable_of_iff (ok s l) ⟨fun ho => ⟨ho, fun s' hs => by rw [h] at hs; cases hs⟩,
        And.left⟩
    | some mid =>
      haveI := AllSteps.decidable step ok mid ls
      decidable_of_iff (ok s l ∧ AllSteps step ok mid ls)
        ⟨fun ⟨ho, hr⟩ => ⟨ho, fun s' hs => by rw [h] at hs; cases hs; exact hr⟩,
          fun ⟨ho, hr⟩ => ⟨ho, hr mid h⟩⟩

section

variable {step : S → L → Option S} {ok : S → L → Prop} {P : S → Prop} {s s' : S}

theorem runs_cons {l : L} {ls : List L} (h : runs step s (l :: ls) = some s') :
    ∃ mid, step s l = some mid ∧ runs step mid ls = some s' :=
  Option.bind_eq_some_iff.mp h

theorem AllSteps.and {ok' : S → L → Prop} {ls : List L} (h : AllSteps step ok s ls)
    (h' : AllSteps step ok' s ls) : AllSteps step (fun s l => ok s l ∧ ok' s l) s ls := by
  induction ls generalizing s with
  | nil => trivial
  | cons l ls ih =>
    exact ⟨⟨h.1, h'.1⟩, fun mid hmid => ih (h.2 mid hmid) (h'.2 mid hmid)⟩

theorem runs_append {ls ms : List L} :
    runs step s (ls ++ ms) = (runs step s ls).bind fun mid => runs step mid ms := by
  induction ls generalizing s with
  | nil => rfl
  | cons l ls ih =>
    show (step s l).bind (fun mid => runs step mid (ls ++ ms)) = _
    cases h : step s l with
    | none => simp [runs, h]
    | some mid => simpa [runs, h] using ih

theorem AllSteps.append {mid : S} {ls ms : List L} (h : AllSteps step ok s ls)
    (hrun : runs step s ls = some mid) (hrest : AllSteps step ok mid ms) :
    AllSteps step ok s (ls ++ ms) := by
  induction ls generalizing s with
  | nil =>
    cases hrun
    exact hrest
  | cons l ls ih =>
    obtain ⟨next, hnext, hruns⟩ := runs_cons hrun
    refine ⟨h.1, fun s₁ hs₁ => ?_⟩
    obtain rfl : next = s₁ := Option.some.inj (hnext.symm.trans hs₁)
    exact ih (h.2 next hnext) hruns

/-- What every step that meets `ok` preserves, a run of such steps preserves. -/
theorem invariant_of_allSteps
    (hstep : ∀ s l s', ok s l → step s l = some s' → P s → P s') {ls : List L}
    (hall : AllSteps step ok s ls) (hrun : runs step s ls = some s') (h0 : P s) : P s' := by
  induction ls generalizing s with
  | nil =>
    cases hrun
    exact h0
  | cons l ls ih =>
    obtain ⟨mid, hmid, hrest⟩ := runs_cons hrun
    exact ih (hall.2 mid hmid) hrest (hstep s l mid hall.1 hmid h0)

/-- What an invariant gives for one step that meets `ok`, it gives for every step of a run. -/
theorem allSteps_of_invariant {ok' : S → L → Prop}
    (hstep : ∀ s l s', ok s l → step s l = some s' → P s → P s')
    (hok : ∀ s l, ok s l → P s → ok' s l) {ls : List L} (hall : AllSteps step ok s ls)
    (h0 : P s) : AllSteps step ok' s ls := by
  induction ls generalizing s with
  | nil => trivial
  | cons l ls ih =>
    exact ⟨hok s l hall.1 h0, fun mid hmid => ih (hall.2 mid hmid) (hstep s l mid hall.1 hmid h0)⟩

/-- What every step preserves, every run preserves. -/
theorem invariant_of_steps (hstep : ∀ s l s', step s l = some s' → P s → P s') {ls : List L}
    (hrun : runs step s ls = some s') (h0 : P s) : P s' := by
  induction ls generalizing s with
  | nil =>
    cases hrun
    exact h0
  | cons l ls ih =>
    obtain ⟨mid, hmid, hrest⟩ := runs_cons hrun
    exact ih hrest (hstep s l mid hmid h0)

end

/-- A run of a system is a run of every system that simulates its steps. -/
theorem runs_simulated {S' : Type} {step : S → L → Option S} {step' : S' → L → Option S'}
    {ok : S → L → Prop} {sim : S → S' → Prop}
    (hsim : ∀ s t l s', ok s l → sim s t → step s l = some s' →
      ∃ t', step' t l = some t' ∧ sim s' t') {s s' : S} {t : S'} {ls : List L}
    (hall : AllSteps step ok s ls) (hrun : runs step s ls = some s') (h : sim s t) :
    ∃ t', runs step' t ls = some t' ∧ sim s' t' := by
  induction ls generalizing s t with
  | nil =>
    cases hrun
    exact ⟨t, rfl, h⟩
  | cons l ls ih =>
    obtain ⟨mid, hmid, hrest⟩ := runs_cons hrun
    obtain ⟨mid', hmid', hnext⟩ := hsim s t l mid hall.1 h hmid
    obtain ⟨t', hrun', hlast⟩ := ih (hall.2 mid hmid) hrest hnext
    exact ⟨t', by rw [runs, hmid']; exact hrun', hlast⟩

/-! ## What can be reached -/

/-- A state that some run of labels of a kind leads to. -/
def Reaches (step : S → L → Option S) (kind : L → Prop) (s s' : S) : Prop :=
  ∃ ls, (∀ l ∈ ls, kind l) ∧ runs step s ls = some s'

section

variable {step : S → L → Option S} {kind : L → Prop} {s s' s'' : S}

theorem Reaches.refl : Reaches step kind s s := ⟨[], fun _ hl => absurd hl List.not_mem_nil, rfl⟩

theorem Reaches.of_step {l : L} (hl : kind l) (h : step s l = some s') : Reaches step kind s s' :=
  ⟨[l], fun _ hm => List.mem_singleton.mp hm ▸ hl, by rw [runs, h]; rfl⟩

theorem Reaches.trans (h : Reaches step kind s s') (h' : Reaches step kind s' s'') :
    Reaches step kind s s'' := by
  obtain ⟨ls, hkind, hrun⟩ := h
  obtain ⟨ms, hkind', hrun'⟩ := h'
  refine ⟨ls ++ ms, fun l hl => ?_, ?_⟩
  · rcases List.mem_append.mp hl with hl | hl
    · exact hkind l hl
    · exact hkind' l hl
  · rw [runs_append, hrun]
    exact hrun'

theorem Reaches.mono {kind' : L → Prop} (h : Reaches step kind s s')
    (hkind : ∀ l, kind l → kind' l) : Reaches step kind' s s' := by
  obtain ⟨ls, hall, hrun⟩ := h
  exact ⟨ls, fun l hl => hkind l (hall l hl), hrun⟩

end

end PracticalMicroservice.Foundations
