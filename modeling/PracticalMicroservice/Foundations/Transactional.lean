/-!
# Programs over a state that can throw

A partial-correctness judgement for `StateT σ (Except ε)`: what holds of the result and the state
whenever the program returns. The rules follow the constructors of the monad; a program's own
facts are built from them.
-/

namespace PracticalMicroservice.Foundations

variable {σ ε α β : Type}

/-- Whenever `program` returns from `s`, its result and final state satisfy `post`. -/
def Ensures (program : StateT σ (Except ε) α) (s : σ) (post : α → σ → Prop) : Prop :=
  ∀ a s', program.run s = .ok (a, s') → post a s'

namespace Ensures

variable {program : StateT σ (Except ε) α} {s : σ} {post : α → σ → Prop}

theorem pure {a : α} (h : post a s) : Ensures (pure a : StateT σ (Except ε) α) s post := by
  intro b s' hr
  cases hr
  exact h

theorem throw (error : ε) : Ensures (throw error : StateT σ (Except ε) α) s post := by
  intro b s' hr
  cases hr

/-- A program that starts by reading the state goes on with that state. -/
theorem get_bind {next : σ → StateT σ (Except ε) α} (h : Ensures (next s) s post) :
    Ensures (MonadState.get >>= next) s post := by
  intro b s' hr
  exact h b s' hr

theorem set {s' : σ} {post : PUnit → σ → Prop} (h : post ⟨⟩ s') :
    Ensures (set s' : StateT σ (Except ε) PUnit) s post := by
  intro b t hr
  cases hr
  exact h

theorem modify {f : σ → σ} {post : PUnit → σ → Prop} (h : post ⟨⟩ (f s)) :
    Ensures (modify f : StateT σ (Except ε) PUnit) s post := by
  intro b t hr
  cases hr
  exact h

theorem bind (mid : α → σ → Prop) {next : α → StateT σ (Except ε) β} {post : β → σ → Prop}
    (h : Ensures program s mid) (hn : ∀ a s', mid a s' → Ensures (next a) s' post) :
    Ensures (program >>= next) s post := by
  intro b t hr
  rw [StateT.run_bind] at hr
  cases hp : program.run s with
  | error e => rw [hp] at hr; cases hr
  | ok p =>
    rw [hp] at hr
    exact hn p.1 p.2 (h p.1 p.2 hp) b t hr

end Ensures

end PracticalMicroservice.Foundations
