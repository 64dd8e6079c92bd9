import Mathlib.Data.List.DropRight
import LogSyntax.Proofs.Text.Run
/-!
# Trimming

Trimming takes away white space at either end and nothing else (`exists_trim`), so it passes by
whatever stands in front of a text that is not blank, or behind it.
-/

namespace LogSyntax.Text

variable {s t : Text}

theorem trimEnd_prefix_self (t : Text) : trimEnd t <+: t :=
  List.rdropWhile_prefix isBlank t

/-- What is cut off at the end is blank. -/
theorem exists_trimEnd (t : Text) : ∃ trail, trail.all isBlank ∧ t = trimEnd t ++ trail := by
  refine ⟨(t.reverse.takeWhile isBlank).reverse, ?_, ?_⟩
  · rw [List.all_reverse]
    exact List.all_takeWhile
  · rw [trimEnd, ← List.reverse_append, List.takeWhile_append_dropWhile, List.reverse_reverse]

/-- A trimmed text stands behind the white space at its start, and in front of that at its end. -/
theorem exists_trim (t : Text) :
    ∃ trail, trail.all isBlank ∧ t = t.takeWhile isBlank ++ (trim t ++ trail) := by
  obtain ⟨trail, hblank, htrail⟩ := exists_trimEnd (trimStart t)
  refine ⟨trail, hblank, ?_⟩
  rw [trim, ← htrail, trimStart, List.takeWhile_append_dropWhile]

/-- Something is left of a text that is not blank. -/
theorem trim_ne_nil (ht : ¬ t.all isBlank) : trim t ≠ [] := by
  intro htrim
  obtain ⟨trail, hblank, htext⟩ := exists_trim t
  rw [htrim, List.nil_append] at htext
  rw [htext, List.all_append, hblank, List.all_takeWhile] at ht
  exact ht rfl

theorem trimStart_append (hs : ¬ s.all isBlank) (t : Text) :
    trimStart (s ++ t) = trimStart s ++ t := by
  rw [trimStart, trimStart, List.dropWhile_append]
  have hne : (s.dropWhile isBlank).isEmpty = false := by
    rw [List.isEmpty_eq_false_iff, ne_eq, List.dropWhile_eq_nil_iff]
    simpa using hs
  rw [hne]
  rfl

theorem takeWhile_append (hs : ¬ s.all isBlank) (t : Text) :
    (s ++ t).takeWhile isBlank = s.takeWhile isBlank := by
  have hlength : (s.takeWhile isBlank).length ≠ s.length := by
    intro heq
    have hall := (List.takeWhile_prefix (l := s) isBlank).eq_of_length heq
    exact hs (hall ▸ List.all_takeWhile)
  rw [List.takeWhile_append, if_neg hlength]

theorem trimEnd_append (s : Text) (ht : ¬ t.all isBlank) : trimEnd (s ++ t) = s ++ trimEnd t := by
  have hreverse : ¬ t.reverse.all isBlank := by rwa [List.all_reverse]
  rw [trimEnd, List.reverse_append, ← trimStart, trimStart_append hreverse, List.reverse_append,
    List.reverse_reverse, trimStart, trimEnd]

theorem trimEnd_trim (t : Text) : trimEnd (trim t) = trim t :=
  List.rdropWhile_idempotent isBlank (trimStart t)

/-- Nothing is cut off behind a character that is not blank. -/
theorem trimEnd_append_singleton {c : Char} (s : Text) (hc : isBlank c = false) :
    trimEnd (s ++ [c]) = s ++ [c] := by
  rw [trimEnd_append s (by simp [hc])]
  simp [trimEnd, hc]

theorem trimEnd_eq_self (ht : ∀ c ∈ t.getLast?, isBlank c = false) : trimEnd t = t := by
  rcases List.eq_nil_or_concat' t with rfl | ⟨s, c, rfl⟩
  · rfl
  · exact trimEnd_append_singleton s (ht c (by simp))

/-- A text that is trimmed at its end ends in no white space. -/
theorem getLast?_trimEnd (t : Text) : ∀ c ∈ (trimEnd t).getLast?, isBlank c = false := by
  intro c hc
  rw [trimEnd, List.getLast?_reverse] at hc
  exact stops_dropWhile isBlank t.reverse c hc

theorem head?_trim (ht : ¬ t.all isBlank) : (trim t).head? = (trimStart t).head? := by
  obtain ⟨trail, htrail⟩ := trimEnd_prefix_self (trimStart t)
  rw [← trim] at htrail
  rw [← htrail, List.head?_append_of_ne_nil _ (trim_ne_nil ht)]

/-- A text that begins with a character that is not blank begins so when it is trimmed. -/
theorem head?_trim_of_head? {c : Char} (ht : t.head? = some c) (hc : isBlank c = false) :
    (trim t).head? = some c := by
  obtain ⟨s, rfl⟩ : ∃ s, t = c :: s := by
    cases t with
    | nil => contradiction
    | cons d s => exact ⟨s, by simpa using ht⟩
  rw [head?_trim (by simp [hc]), trimStart, List.dropWhile_cons_of_neg (by simp [hc])]
  rfl

/-- A trimmed text begins with no white space. -/
theorem stops_trim (t : Text) : Stops isBlank (trim t) := by
  obtain ⟨trail, htrail⟩ := trimEnd_prefix_self (trimStart t)
  intro c hc
  apply stops_dropWhile isBlank t
  rw [← trimStart, ← htrail, List.head?_append, ← trim, Option.mem_def.1 hc]
  rfl

/-- White space around a text without any is all that trimming takes away. -/
theorem trim_surrounded {lead trail : Text} (hlead : lead.all isBlank) (htrail : trail.all isBlank)
    (hs : ∀ c ∈ s, isBlank c = false) : trim (lead ++ (s ++ trail)) = s := by
  have hstart : trimStart (lead ++ (s ++ trail)) = trimStart (s ++ trail) :=
    List.dropWhile_append_of_pos (List.all_eq_true.1 hlead)
  have hend : trimEnd (s ++ trail) = trimEnd s := by
    rw [trimEnd, List.reverse_append, List.dropWhile_append_of_pos (by simpa using htrail)]
    rfl
  rw [trim, hstart]
  cases s with
  | nil => rw [List.nil_append, trimStart, List.dropWhile_eq_nil_iff.2 (by simpa using htrail)]; rfl
  | cons c s =>
    rw [List.cons_append, trimStart, List.dropWhile_cons_of_neg (by simp [hs c]), ← List.cons_append,
      hend]
    exact trimEnd_eq_self fun d hd => hs d (List.mem_of_getLast? hd)

theorem trim_eq_self (hs : ∀ c ∈ s, isBlank c = false) : trim s = s := by
  have hnil : ([] : Text).all isBlank := rfl
  simpa using trim_surrounded hnil hnil hs

/-- The white space at the start stays when that at the end is taken away. -/
theorem trimEnd_eq_append (ht : ¬ t.all isBlank) :
    trimEnd t = t.takeWhile isBlank ++ trim t := by
  have hstart : ¬ (trimStart t).all isBlank := by
    intro hall
    apply ht
    rw [← List.takeWhile_append_dropWhile (p := isBlank) (l := t), List.all_append,
      List.all_takeWhile]
    exact hall
  rw [trim, ← trimEnd_append _ hstart, trimStart, List.takeWhile_append_dropWhile]

end LogSyntax.Text
