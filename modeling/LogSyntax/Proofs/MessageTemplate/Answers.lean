import LogSyntax.MessageTemplate.Properties
/-!
# Reading a message template character by character

The reader of a message template as a machine that answers at every character whether a hole is
complete behind it. The holes that it answers are the properties of the template
(`parse_eq_answers`).
-/

namespace LogSyntax.MessageTemplate

/-- The hole that is complete, if there is one, and the reader behind the character, which begins
anew behind a hole. -/
def Progress.answer : Progress → Option Property × Reader
  | .goes r => (none, r)
  | .finds property p => (some property, .start p)

/-- One character of a template. -/
def Reader.answer? (r : Reader) : Option (Option Property × Reader) :=
  match r.place.rest with
  | [] => none
  | c :: t => some (r.step c t).answer

theorem Reader.answer?_shrinks : Shrinks Reader.answer? Reader.size := by
  intro r found r' h
  unfold Reader.answer? at h
  split at h
  · contradiction
  · next c t hrest =>
    have hne : r.place.rest ≠ [] := by simp [hrest]
    cases hstep : r.step c t with
    | goes r' =>
      rw [hstep] at h
      cases h
      exact (moves_step hne hstep).size_lt
    | finds property p =>
      rw [hstep] at h
      cases h
      have hlt := length_rest_run (run_of_finds hrest hstep)
      simp only [size, start, if_pos]
      omega

theorem properties_eq (p : Place) : properties p =
    match (Reader.start p).run with
    | none => []
    | some (property, p') => property :: properties p' := by
  cases hrun : (Reader.start p).run with
  | none => exact drain_of_none hrun
  | some found => exact drain_of_some hrun

/-- The holes that a reader finds step by step are those that it finds one after the other. -/
theorem Reader.answers_eq (r : Reader) :
    (drain answer? size answer?_shrinks r).filterMap id =
      match r.run with
      | none => []
      | some (property, p) => property :: properties p := by
  refine drain_induction (motive := fun r found => found.filterMap id =
    match r.run with
    | none => []
    | some (property, p) => property :: properties p) r ?_ ?_
  · intro r h
    unfold answer? at h
    split at h
    · next hrest => rw [run_of_nil hrest]; rfl
    · contradiction
  · intro r found r' items h ih
    unfold answer? at h
    split at h
    · contradiction
    · next c t hrest =>
      cases hstep : r.step c t with
      | goes r' =>
        rw [hstep] at h
        cases h
        rw [run_of_goes hrest hstep]
        exact ih
      | finds property p =>
        rw [hstep] at h
        cases h
        rw [run_of_finds hrest hstep, List.filterMap_cons, ih]
        exact congrArg (property :: ·) (properties_eq p).symm

theorem parse_eq_answers (t : Text) :
    parse t = (drain Reader.answer? Reader.size Reader.answer?_shrinks
      (.start (.start t))).filterMap id := by
  rw [Reader.answers_eq, ← properties_eq, parse]

end LogSyntax.MessageTemplate
