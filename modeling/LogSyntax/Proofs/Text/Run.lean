import Mathlib.Data.List.TakeWhile
import LogSyntax.Text.Basic
/-!
# Runs of characters

Readers take characters of one kind as far as they go. Where such a run ends is told by the one
character behind it (`Stops`), so a run that is followed by something else is taken whole, and the
same run is taken whatever it is that follows.
-/

namespace LogSyntax.Text

variable {f : Char → Bool} {s t u : Text}

/-- The text does not begin with a character that satisfies `f`. -/
abbrev Stops (f : Char → Bool) (t : Text) : Prop :=
  ∀ c ∈ t.head?, f c = false

theorem stops_nil (f : Char → Bool) : Stops f [] :=
  fun _ hc => nomatch hc

theorem stops_dropWhile (f : Char → Bool) (t : Text) : Stops f (t.dropWhile f) := by
  intro c hc
  have hhead := List.head?_dropWhile_not f t
  rw [Option.mem_def.1 hc] at hhead
  exact hhead

theorem takeWhile_run (hs : s.all f) (ht : Stops f t) : (s ++ t).takeWhile f = s := by
  rw [List.takeWhile_append_of_pos (by simpa using hs)]
  cases t with
  | nil => simp
  | cons c t => simp [ht c rfl]

theorem dropWhile_run (hs : s.all f) (ht : Stops f t) : (s ++ t).dropWhile f = t := by
  rw [List.dropWhile_append_of_pos (by simpa using hs)]
  cases t with
  | nil => rfl
  | cons c t => simp [ht c rfl]

/-- A run of characters ends where the next one is of another kind. -/
theorem run_append (hs : s.all f) (ht : Stops f t) : run f (s ++ t) = s.length := by
  rw [run, takeWhile_run hs ht]

/-- A text is cut in one way only where a run ends. -/
theorem run_inj {s' t' : Text} (hs : s.all f) (hs' : s'.all f) (ht : Stops f t) (ht' : Stops f t')
    (heq : s ++ t = s' ++ t') : s = s' ∧ t = t' := by
  have hrun := congrArg (List.takeWhile f) heq
  have hrest := congrArg (List.dropWhile f) heq
  rw [takeWhile_run hs ht, takeWhile_run hs' ht'] at hrun
  rw [dropWhile_run hs ht, dropWhile_run hs' ht'] at hrest
  exact ⟨hrun, hrest⟩

theorem exists_run (f : Char → Bool) (t : Text) :
    ∃ s u, t = s ++ u ∧ s.length = run f t ∧ s.all f ∧ Stops f u :=
  ⟨t.takeWhile f, t.dropWhile f, List.takeWhile_append_dropWhile.symm, rfl, List.all_takeWhile,
    stops_dropWhile f t⟩

theorem Stops.mono {g : Char → Bool} (ht : Stops f t) (hg : ∀ c, g c → f c) : Stops g t := by
  intro c hc
  by_contra hgc
  rw [Bool.not_eq_false] at hgc
  exact Bool.false_ne_true ((ht c hc).symm.trans (hg c hgc))

/-- What stands at the head of a text decides where a run ends behind it. -/
theorem Stops.append (hs : Stops f (s ++ t)) (hu : Stops f u) : Stops f (s ++ u) := by
  cases s with
  | nil => exact hu
  | cons c s => exact hs

theorem length_of_take {rest : Text} {n : Nat} (hle : n ≤ (s ++ rest).length)
    (htake : (s ++ rest).take n = s) : n = s.length := by
  have hlength := congrArg List.length htake
  rw [List.length_take] at hlength
  omega

/-- A text that is longer than another one at the head of the same text begins with it. -/
theorem split_of_length_le {rest word : Text} (heq : s ++ rest = word ++ u)
    (hle : word.length ≤ s.length) : ∃ s', s = word ++ s' ∧ u = s' ++ rest := by
  obtain ⟨s', rfl⟩ : word <+: s :=
    List.prefix_of_prefix_length_le (heq ▸ List.prefix_append word u) (List.prefix_append s rest)
      hle
  rw [List.append_assoc, List.append_cancel_left_eq] at heq
  exact ⟨s', rfl, heq.symm⟩

end LogSyntax.Text
