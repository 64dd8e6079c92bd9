import Mathlib.Data.List.Infix
import LogSyntax.Highlight
import LogSyntax.Proofs.ExpressionTemplate.Regions
import LogSyntax.Proofs.MessageTemplate.Regions
/-!
# What is highlighted

In every context the regions of a text describe it, and the regions of the content of a line
describe the line (`classify_describes`).
-/

namespace LogSyntax

/-- Two boundaries cut a text in three. -/
theorem Text.exists_cut {t : Text} {start stop : Nat} (hstart : IsBoundary t start)
    (hstop : IsBoundary t stop) (hle : start ≤ stop) :
    ∃ before s after, t = before ++ (s ++ after) ∧ bytes before = start ∧
      start + bytes s = stop := by
  obtain ⟨before, rest, rfl, rfl⟩ := hstart
  obtain ⟨head, after, heq, rfl⟩ := hstop
  rcases List.append_eq_append_iff.1 heq with ⟨s, rfl, rfl⟩ | ⟨s, rfl, rfl⟩
  · exact ⟨before, s, after, rfl, rfl, (bytes_append _ _).symm⟩
  · have hempty : s = [] := by
      by_contra hne
      have hpos := one_le_bytes hne
      rw [bytes_append] at hle
      omega
    subst hempty
    exact ⟨head, [], rest, by simp, by simp, by simp⟩

theorem shown_classify (context : Context) (t : Text) : Shown 0 (classify context t) t := by
  cases context with
  | filterExpression => exact Expression.shown_regions .standard 0 t
  | computedProperty => exact Expression.shown_regions .standard 0 t
  | conditionalExpression => exact Expression.shown_regions .standard 0 t
  | expressionTemplate => exact ExpressionTemplate.shown_classify .standard t
  | outside => exact MessageTemplate.shown_classify t

/-- The regions of a text describe it in every context, and the regions of the content of a line
describe the line between the ends of the content. -/
theorem classify_describes :
    (∀ context t, Describes t 0 (Text.bytes t) (classify context t)) ∧
      ∀ line start stop, Text.IsBoundary line start → Text.IsBoundary line stop → start ≤ stop →
        Describes line start stop (highlight line start stop).2 := by
  constructor
  · intro context t
    have h : Shown (Text.bytes []) (classify context t) t := shown_classify context t
    simpa using h.describes [] []
  · intro line start stop hstart hstop hle
    obtain ⟨before, s, after, rfl, rfl, rfl⟩ := Text.exists_cut hstart hstop hle
    have hshown := (shown_classify (Context.ofLine (before ++ (s ++ after)) (Text.bytes before))
      s).rebase (Text.bytes before)
    rw [Nat.zero_add] at hshown
    rw [highlight, Text.slice_append]
    exact hshown.describes before after

/-- The character in front of the hole takes two bytes. -/
theorem classify_describes_hole :
    (highlight "info(\"é {A}\")".toList 6 12).2 =
        [⟨.propertyBrace, 9, ['{']⟩, ⟨.propertyName, 10, ['A']⟩, ⟨.propertyBrace, 11, ['}']⟩] ∧
      Describes "info(\"é {A}\")".toList 6 12 (highlight "info(\"é {A}\")".toList 6 12).2 := by
  refine ⟨by decide +kernel, classify_describes.2 _ 6 12 ?_ ?_ (by decide)⟩
  · exact ⟨"info(\"".toList, "é {A}\")".toList, rfl, rfl⟩
  · exact ⟨"info(\"é {A}".toList, "\")".toList, rfl, rfl⟩

end LogSyntax
