import LogSyntax.ExpressionTemplate.Scan
/-!
# One step of a reader

At an opening brace that is no half of a pair a reader of an expression template reads a segment,
or a directive; everywhere else it passes over literal text, shows nothing and learns nothing
(`Scan.next?_cases`).
-/

namespace LogSyntax.ExpressionTemplate.Scan

variable {s s' : Scan} {regions : List Region} {find : Finder}

/-- The reader is at an opening brace that is no half of a pair, and this text stands behind it. -/
def Opens (s : Scan) (cs : Text) : Prop :=
  s.place.rest = '{' :: cs ∧ cs.head? ≠ some '{'

theorem Opens.inj {cs cs' : Text} (hs : s.Opens cs) (hs' : s.Opens cs') : cs = cs' :=
  (List.cons.inj (hs.1.symm.trans hs'.1)).2

theorem Opens.next?_eq {cs : Text} (hs : s.Opens cs) (find : Finder) :
    s.next? find = some (s.readSegment find cs) := by
  rw [next?, hs.1]
  simp [hs.2]

/-- A step is one of two. -/
theorem next?_cases (hnext : s.next? find = some (regions, s')) :
    (∃ cs, s.Opens cs ∧ s.readSegment find cs = (regions, s')) ∨
      (∀ cs, ¬ s.Opens cs) ∧ regions = [] ∧ ∃ n, s' = s.pass n := by
  unfold next? at hnext
  split at hnext
  · contradiction
  · next c cs hrest =>
    split at hnext
    · next hpair =>
      cases hnext
      refine .inr ⟨fun cs' hopens => ?_, rfl, 2, rfl⟩
      obtain ⟨rfl, rfl⟩ := List.cons.inj (hrest.symm.trans hopens.1)
      exact hopens.2 hpair.2
    · next hpair =>
      split at hnext
      · next hc =>
        subst hc
        exact .inl ⟨cs, ⟨hrest, fun hhead => hpair ⟨.inl rfl, hhead⟩⟩, Option.some.inj hnext⟩
      · next hc =>
        cases hnext
        refine .inr ⟨fun cs' hopens => ?_, rfl, 1, rfl⟩
        exact hc (List.cons.inj (hrest.symm.trans hopens.1)).1

end LogSyntax.ExpressionTemplate.Scan
