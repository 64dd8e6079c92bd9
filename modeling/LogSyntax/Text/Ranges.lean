/-!
# Ranges of code points

A property of characters is a list of closed ranges of code points, ascending and apart. Looking a
code point up stops at the first range that begins above it.
-/

namespace LogSyntax

/-- Closed ranges of code points, ascending and apart. -/
abbrev CodeRanges := List (Nat × Nat)

namespace CodeRanges

/-- Whether one of the ranges holds the code point. -/
def covers : CodeRanges → Nat → Bool
  | [], _ => false
  | (lo, hi) :: rest, n => lo ≤ n && (n ≤ hi || covers rest n)

/-- The ranges are in order, none is empty, and no two touch. -/
def isAscending : CodeRanges → Bool
  | [] => true
  | [(lo, hi)] => lo ≤ hi
  | (lo, hi) :: (lo', hi') :: rest => lo ≤ hi && hi + 1 < lo' && isAscending ((lo', hi') :: rest)

/-- The number of code points in the ranges. -/
def size (ranges : CodeRanges) : Nat :=
  ranges.foldl (fun n range => n + (range.2 + 1 - range.1)) 0

/-- The code points in the ranges, one by one. -/
def points (ranges : CodeRanges) : List Nat :=
  ranges.flatMap fun range => List.range' range.1 (range.2 + 1 - range.1)

theorem mem_points_of_covers {ranges : CodeRanges} {n : Nat} (h : ranges.covers n = true) :
    n ∈ ranges.points := by
  induction ranges with
  | nil => simp [covers] at h
  | cons range rest ih =>
    obtain ⟨lo, hi⟩ := range
    simp only [covers, Bool.and_eq_true, decide_eq_true_eq, Bool.or_eq_true] at h
    rw [points, List.flatMap_cons, List.mem_append]
    rcases h with ⟨hlo, hhi | hrest⟩
    · exact .inl (List.mem_range'_1.2 ⟨hlo, by omega⟩)
    · exact .inr (ih hrest)

end CodeRanges

end LogSyntax
