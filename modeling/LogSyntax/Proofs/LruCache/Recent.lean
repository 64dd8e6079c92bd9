import Mathlib.Data.List.Dedup
import Mathlib.Data.List.DropRight
/-!
# What came last

The last distinct elements of a sequence, in the order in which they came last. An element that
comes again moves to the end (`recent_concat`), and what was not among the last ones cannot come
back by it, so the last ones can be kept up to date without the rest of the sequence.
-/

namespace LogSyntax

variable {α : Type} {n : Nat} {l : List α}

/-! ## The end of a sequence -/

theorem rtake_of_length_le (h : l.length ≤ n) : l.rtake n = l := by
  rw [List.rtake, Nat.sub_eq_zero_of_le h, List.drop_zero]

/-- The last elements of a sequence are those of its end, if there are enough of them in it. -/
theorem rtake_append (s : List α) (h : n ≤ l.length) : (s ++ l).rtake n = l.rtake n := by
  have hlength : (s ++ l).length - n = s.length + (l.length - n) := by
    rw [List.length_append]
    omega
  rw [List.rtake, hlength, List.drop_length_add_append, List.rtake]

/-- The end of a subsequence is one of the end of the sequence, if as much of it is cut off. -/
theorem sublist_rtake {s : List α} {m : Nat} (h : s.Sublist l)
    (hcut : l.length - n ≤ s.length - m) : (s.rtake m).Sublist (l.rtake n) :=
  (List.drop_sublist_drop_left s hcut).trans (h.drop _)

variable [DecidableEq α]

/-- Without one element, a sequence that does not repeat is shorter by one at most. -/
theorem length_le_filter_ne (hl : l.Nodup) (a : α) :
    l.length ≤ (l.filter (· ≠ a)).length + 1 := by
  have herase : l.filter (· ≠ a) = l.erase a := by
    rw [hl.erase_eq_filter]
    exact List.filter_congr fun b _ => by simp [bne, beq_eq_decide]
  have hle := List.le_length_erase (a := a) (l := l)
  rw [herase]
  omega

/-- Without one element, the last `n` of a sequence are among its last `n + 1`. -/
theorem rtake_filter_ne (hl : l.Nodup) (n : Nat) (a : α) :
    ((l.rtake (n + 1)).filter (· ≠ a)).rtake n = (l.filter (· ≠ a)).rtake n := by
  by_cases hlength : l.length ≤ n + 1
  · rw [rtake_of_length_le hlength]
  · have hlast : (l.rtake (n + 1)).length = n + 1 := by
      rw [List.rtake, List.length_drop]
      omega
    have hnodup : (l.rtake (n + 1)).Nodup := hl.sublist (List.drop_sublist _ _)
    have henough : n ≤ ((l.rtake (n + 1)).filter (· ≠ a)).length := by
      have hle := length_le_filter_ne hnodup a
      omega
    have hsplit : l.filter (· ≠ a) =
        (l.take (l.length - (n + 1))).filter (· ≠ a) ++ (l.rtake (n + 1)).filter (· ≠ a) := by
      rw [← List.filter_append, List.rtake, List.take_append_drop]
    rw [hsplit, rtake_append _ henough]

/-! ## The last distinct elements -/

/-- The last `n` distinct elements of a sequence, in the order in which they came last. -/
def recent (n : Nat) (l : List α) : List α := l.dedup.rtake n

theorem recent_nil (n : Nat) : recent n ([] : List α) = [] := List.rtake_nil n

theorem length_recent (n : Nat) (l : List α) : (recent n l).length = min n l.dedup.length := by
  rw [recent, List.rtake, List.length_drop]
  omega

/-- Only the last place of an element counts. -/
theorem dedup_concat (l : List α) (a : α) : (l ++ [a]).dedup = l.dedup.filter (· ≠ a) ++ [a] := by
  induction l with
  | nil => rfl
  | cons b l ih =>
    by_cases hb : b ∈ l
    · have hmem : b ∈ l ++ [a] := List.mem_append_left _ hb
      rw [List.cons_append, List.dedup_cons_of_mem hmem, List.dedup_cons_of_mem hb, ih]
    · rw [List.dedup_cons_of_notMem hb]
      by_cases hba : b = a
      · subst hba
        rw [List.cons_append, List.dedup_cons_of_mem (by simp), ih,
          List.filter_cons_of_neg (by simp)]
      · have hmem : b ∉ l ++ [a] := by simp [hb, hba]
        rw [List.cons_append, List.dedup_cons_of_notMem hmem, ih,
          List.filter_cons_of_pos (by simpa using hba), List.cons_append]

/-- An element that comes again moves to the end. -/
theorem recent_concat (n : Nat) (l : List α) (a : α) :
    recent (n + 1) (l ++ [a]) = ((recent (n + 1) l).filter (· ≠ a)).rtake n ++ [a] := by
  rw [recent, recent, dedup_concat, List.rtake_concat_succ, rtake_filter_ne l.nodup_dedup]

/-- The last two of three elements, one of which comes twice. -/
example : recent 2 ['a', 'b', 'a', 'c'] = ['a', 'c'] := by decide

end LogSyntax
