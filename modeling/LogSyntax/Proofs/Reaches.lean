/-!
# The states of a reader

A reader comes from its first state to others step by step. What one step keeps holds in all of them.
-/

namespace LogSyntax

/-- The states that a reader comes to. -/
inductive Reaches {σ α : Type} (step : σ → Option (α × σ)) (s : σ) : σ → Prop
  | start : Reaches step s s
  | next {s₁ s₂ : σ} {a : α} (hs : Reaches step s s₁) (hnext : step s₁ = some (a, s₂)) :
      Reaches step s s₂

/-- What holds at the start and is kept by every step holds in every state. -/
theorem Reaches.invariant {σ α : Type} {step : σ → Option (α × σ)} {s s' : σ} {P : σ → Prop}
    (hs : Reaches step s s') (hstart : P s)
    (hnext : ∀ s a s', P s → step s = some (a, s') → P s') : P s' := by
  induction hs with
  | start => exact hstart
  | next _ hstep ih => exact hnext _ _ _ ih hstep

end LogSyntax
