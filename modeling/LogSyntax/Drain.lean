/-!
# Draining a reader

A reader answers one item and the state behind it, or nothing when it is at its end. If every step
makes the state smaller, the reader comes to its end, and its items are a list.
-/

namespace LogSyntax

variable {σ α : Type}

/-- Every step that answers an item makes the state smaller. -/
def Shrinks (step : σ → Option (α × σ)) (size : σ → Nat) : Prop :=
  ∀ ⦃s a s'⦄, step s = some (a, s') → size s' < size s

/-- The items that a reader answers until it is at its end, behind the items of `seen`, which are in
reverse. -/
def drainOnto (step : σ → Option (α × σ)) (size : σ → Nat) (shrinks : Shrinks step size)
    (seen : List α) (s : σ) : List α :=
  match _h : step s with
  | none => seen.reverse
  | some (a, s') => drainOnto step size shrinks (a :: seen) s'
termination_by size s
decreasing_by exact shrinks _h

/-- The items that a reader answers until it is at its end. -/
def drain (step : σ → Option (α × σ)) (size : σ → Nat) (shrinks : Shrinks step size) (s : σ) :
    List α :=
  drainOnto step size shrinks [] s

variable {step : σ → Option (α × σ)} {size : σ → Nat} {shrinks : Shrinks step size}

theorem drainOnto_eq (seen : List α) (s : σ) :
    drainOnto step size shrinks seen s = seen.reverse ++ drain step size shrinks s := by
  rw [drain]
  induction hn : size s using Nat.strongRecOn generalizing seen s with
  | ind n ih =>
    rw [drainOnto, drainOnto.eq_def step size shrinks []]
    split
    · simp
    · next a s' h =>
      have hlt : size s' < n := hn ▸ shrinks h
      rw [ih _ hlt (a :: seen) s' rfl, ih _ hlt [a] s' rfl]
      simp

/-- A reader at its end has no items. -/
theorem drain_of_none {s : σ} (h : step s = none) : drain step size shrinks s = [] := by
  rw [drain, drainOnto]
  split
  · rfl
  · simp_all

/-- The items of a reader are its next one and those of the state behind it. -/
theorem drain_of_some {s s' : σ} {a : α} (h : step s = some (a, s')) :
    drain step size shrinks s = a :: drain step size shrinks s' := by
  rw [drain, drainOnto]
  split
  · simp_all
  · next b t hb =>
    obtain ⟨rfl, rfl⟩ : b = a ∧ t = s' := by simpa [hb] using h
    rw [drainOnto_eq]
    rfl

/-- What a reader answers goes by its next step alone. -/
theorem drain_congr {s s' : σ} (h : step s = step s') :
    drain step size shrinks s = drain step size shrinks s' := by
  cases hnext : step s' with
  | none => rw [drain_of_none hnext, drain_of_none (h.trans hnext)]
  | some found => rw [drain_of_some hnext, drain_of_some (h.trans hnext)]

/-- What holds of no items at the end of a reader, and of an item and those behind it when it holds
of those, holds of all items of the reader. -/
theorem drain_induction {motive : σ → List α → Prop} (s : σ)
    (none : ∀ s, step s = none → motive s [])
    (some : ∀ s a s' items, step s = some (a, s') → motive s' items → motive s (a :: items)) :
    motive s (drain step size shrinks s) := by
  induction hn : size s using Nat.strongRecOn generalizing s with
  | ind n ih =>
    cases h : step s with
    | none =>
      rw [drain_of_none h]
      exact none s h
    | some found =>
      obtain ⟨a, s'⟩ := found
      rw [drain_of_some h]
      exact some s a s' _ h (ih _ (hn ▸ shrinks h) s' rfl)

/-- Two readers that take the same steps answer corresponding items: `f` leads from the states of
the one to those of the other, as long as they satisfy `P`, and `g` from its items. -/
theorem drain_mapItems {τ β : Type} {step' : τ → Option (β × τ)} {size' : τ → Nat}
    {shrinks' : Shrinks step' size'} (f : σ → τ) (g : α → β) (P : σ → Prop)
    (hstep : ∀ s, P s → step' (f s) = (step s).map fun (a, s') => (g a, f s'))
    (hnext : ∀ s a s', P s → step s = some (a, s') → P s') (s : σ) (hs : P s) :
    drain step' size' shrinks' (f s) = (drain step size shrinks s).map g := by
  refine drain_induction
    (motive := fun s items => P s → drain step' size' shrinks' (f s) = items.map g) s ?_ ?_ hs
  · intro s h hs
    exact drain_of_none (by rw [hstep s hs, h]; rfl)
  · intro s a s' items h ih hs
    have hmapped : step' (f s) = some (g a, f s') := by
      rw [hstep s hs, h]
      rfl
    rw [drain_of_some hmapped, ih (hnext s a s' hs h), List.map_cons]

/-- Two readers that take the same steps answer the same items: `f` leads from the states of the one
to those of the other, as long as they satisfy `P`. -/
theorem drain_map {τ : Type} {step' : τ → Option (α × τ)} {size' : τ → Nat}
    {shrinks' : Shrinks step' size'} (f : σ → τ) (P : σ → Prop)
    (hstep : ∀ s, P s → step' (f s) = (step s).map fun (a, s') => (a, f s'))
    (hnext : ∀ s a s', P s → step s = some (a, s') → P s') (s : σ) (hs : P s) :
    drain step' size' shrinks' (f s) = drain step size shrinks s := by
  rw [drain_mapItems f id P hstep hnext s hs, List.map_id]

end LogSyntax
