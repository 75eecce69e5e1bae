/-!
# Programs that call their environment

A program is a tree of commands: it performs one, and goes on with the reply. What it may rely on
is a contract, which tells what a command may be performed on and what its replies do to a ghost
state; `Meets` is the weakest precondition of a program under a contract. `Fallible` adds
exceptions, and `Ensured` is the same judgement with a postcondition for each way of ending.
-/

namespace PracticalMicroservice.Foundations

/-- A program over the commands `C`, where `R c` is the type of the replies to `c`. -/
inductive Program (C : Type) (R : C → Type) (α : Type) : Type
  | done (a : α)
  | perform (command : C) (next : R command → Program C R α)

namespace Program

variable {C : Type} {R : C → Type} {α β : Type}

def bind : Program C R α → (α → Program C R β) → Program C R β
  | done a, f => f a
  | perform command next, f => perform command fun reply => (next reply).bind f

instance : Monad (Program C R) where
  pure := done
  bind := bind

theorem bind_bind {γ : Type} (p : Program C R α) (f : α → Program C R β)
    (g : β → Program C R γ) : (p.bind f).bind g = p.bind fun a => (f a).bind g := by
  induction p with
  | done a => rfl
  | perform command next ih => exact congrArg (perform command) (funext ih)

/-- Performs one command and returns its reply. -/
def request (command : C) : Program C R (R command) := perform command done

/-- The program over other commands, each command replaced by a program of them. -/
def interpret {C' : Type} {R' : C' → Type} (handle : (command : C) → Program C' R' (R command)) :
    Program C R α → Program C' R' α
  | done a => done a
  | perform command next => (handle command).bind fun reply => (next reply).interpret handle

end Program

/-- What a program may rely on: when a command may be performed in a ghost state, and which replies
it can get, each with the ghost state it leads to. -/
structure Contract (C : Type) (R : C → Type) (σ : Type) where
  allows : C → σ → Prop
  replies : (command : C) → σ → R command → σ → Prop

section Meets

variable {C : Type} {R : C → Type} {σ α β : Type} {k : Contract C R σ}

/-- From `s`, the program only performs what the contract allows, and if it ends it ends in
`post`. -/
def Meets (k : Contract C R σ) : Program C R α → (α → σ → Prop) → σ → Prop
  | .done a, post, s => post a s
  | .perform command next, post, s =>
    k.allows command s ∧ ∀ reply s', k.replies command s reply s' → Meets k (next reply) post s'

theorem meets_bind {p : Program C R α} {f : α → Program C R β} {post : β → σ → Prop} {s : σ} :
    Meets k (p >>= f) post s ↔ Meets k p (fun a s' => Meets k (f a) post s') s := by
  show Meets k (p.bind f) post s ↔ _
  induction p generalizing s with
  | done a => exact Iff.rfl
  | perform command next ih =>
    refine and_congr_right fun _ => ?_
    exact forall_congr' fun reply => forall_congr' fun s' => imp_congr_right fun _ => ih reply

theorem Meets.mono {p : Program C R α} {post weaker : α → σ → Prop} {s : σ}
    (h : Meets k p post s) (hw : ∀ a s', post a s' → weaker a s') : Meets k p weaker s := by
  induction p generalizing s with
  | done a => exact hw a s h
  | perform command next ih =>
    exact ⟨h.1, fun reply s' hr => ih reply (h.2 reply s' hr)⟩

end Meets

section Ends

variable {C : Type} {R : C → Type} {σ α : Type} {k : Contract C R σ}

/-- The program, run on its own with replies the contract has, ends with a result. -/
inductive Ends (k : Contract C R σ) : Program C R α → σ → α → σ → Prop
  | done (a : α) (s : σ) : Ends k (.done a) s a s
  | perform {command : C} {next : R command → Program C R α} {reply : R command} {a : α}
    {s s' s'' : σ} (hr : k.replies command s reply s') (he : Ends k (next reply) s' a s'') :
    Ends k (.perform command next) s a s''

/-- A program ends as the judgement about it says. -/
theorem Meets.ends {p : Program C R α} {post : α → σ → Prop} {s s' : σ} {a : α}
    (h : Meets k p post s) (he : Ends k p s a s') : post a s' := by
  induction he with
  | done a s => exact h
  | perform hr _ ih => exact ih (h.2 _ _ hr)

/-- Where every command has a reply, every program has an end. -/
theorem ends_total (hk : ∀ command s, ∃ reply s', k.replies command s reply s')
    (p : Program C R α) (s : σ) : ∃ a s', Ends k p s a s' := by
  induction p generalizing s with
  | done a => exact ⟨a, s, .done a s⟩
  | perform command next ih =>
    obtain ⟨reply, s', hr⟩ := hk command s
    obtain ⟨a, s'', he⟩ := ih reply s'
    exact ⟨a, s'', .perform hr he⟩

end Ends

/-- A program that can also end with an exception. -/
abbrev Fallible (ε : Type) (C : Type) (R : C → Type) := ExceptT ε (Program C R)

section Ensured

variable {C : Type} {R : C → Type} {σ ε α β : Type} {k : Contract C R σ}

/-- The postcondition of the result, from one for each way of ending. -/
def outcome (ok : α → σ → Prop) (err : ε → σ → Prop) : Except ε α → σ → Prop
  | .ok a, s => ok a s
  | .error e, s => err e s

/-- From `s`, the program ends in `ok` when it returns and in `err` when it throws. -/
def Ensured (k : Contract C R σ) (p : Fallible ε C R α) (ok : α → σ → Prop)
    (err : ε → σ → Prop) (s : σ) : Prop :=
  Meets k p.run (outcome ok err) s

variable {ok : α → σ → Prop} {err : ε → σ → Prop} {s : σ}

theorem ensured_pure {a : α} :
    Ensured k (pure a : Fallible ε C R α) ok err s ↔ ok a s := Iff.rfl

/-- A program that cannot throw. -/
theorem ensured_lift {p : Program C R α} :
    Ensured k (ExceptT.lift p : Fallible ε C R α) ok err s ↔ Meets k p ok s := by
  have h : Ensured k (ExceptT.lift p : Fallible ε C R α) ok err s ↔
      Meets k (p >>= fun a => pure (.ok a)) (outcome ok err) s := Iff.rfl
  rw [h, meets_bind]
  exact Iff.rfl

theorem ensured_bind {p : Fallible ε C R β} {f : β → Fallible ε C R α} :
    Ensured k (p >>= f) ok err s ↔
      Ensured k p (fun b s' => Ensured k (f b) ok err s') err s := by
  have h : Ensured k (p >>= f) ok err s ↔
      Meets k (p.run >>= ExceptT.bindCont f) (outcome ok err) s := Iff.rfl
  rw [h, meets_bind]
  refine ⟨fun h => h.mono fun r s' hr => ?_, fun h => h.mono fun r s' hr => ?_⟩
  · cases r with
    | ok b => exact hr
    | error e => exact hr
  · cases r with
    | ok b => exact hr
    | error e => exact hr

theorem ensured_tryCatch {p : Fallible ε C R α} {handler : ε → Fallible ε C R α} :
    Ensured k (tryCatch p handler) ok err s ↔
      Ensured k p ok (fun e s' => Ensured k (handler e) ok err s') s := by
  have h : Ensured k (tryCatch p handler) ok err s ↔
      Meets k (p.run >>= fun r => match r with
        | .ok a => pure (.ok a)
        | .error e => (handler e).run) (outcome ok err) s := Iff.rfl
  rw [h, meets_bind]
  refine ⟨fun h => h.mono fun r s' hr => ?_, fun h => h.mono fun r s' hr => ?_⟩
  · cases r with
    | ok a => exact hr
    | error e => exact hr
  · cases r with
    | ok a => exact hr
    | error e => exact hr

theorem Ensured.mono {p : Fallible ε C R α} {ok' : α → σ → Prop} {err' : ε → σ → Prop}
    (h : Ensured k p ok err s) (hok : ∀ a s', ok a s' → ok' a s')
    (herr : ∀ e s', err e s' → err' e s') : Ensured k p ok' err' s := by
  refine Meets.mono h fun r s' hr => ?_
  cases r with
  | ok a => exact hok a s' hr
  | error e => exact herr e s' hr

/-- The judgement about the program behind. -/
theorem Ensured.meets {p : Fallible ε C R α} {post : Except ε α → σ → Prop}
    (h : Ensured k p ok err s) (hok : ∀ a s', ok a s' → post (.ok a) s')
    (herr : ∀ e s', err e s' → post (.error e) s') : Meets k p.run post s := by
  refine Meets.mono h fun r s' hr => ?_
  cases r with
  | ok a => exact hok a s' hr
  | error e => exact herr e s' hr

end Ensured

end PracticalMicroservice.Foundations
