import LogSyntax.Proofs.Text.Laid
/-!
# Checked slices

A slice of a text is given by the offsets of its two ends. It exists only if both are boundaries
between characters and stand in this order (`slice?`); anything else is a bad slice, not a shorter
one. What stands between two other stretches of a text is always a slice (`slice?_append`).
-/

namespace LogSyntax.Text

variable {t u s before after : Text} {n start stop : Nat}

theorem bytes_eq_zero : bytes t = 0 ↔ t = [] := by
  constructor
  · intro h
    by_contra hne
    have hle := one_le_bytes hne
    omega
  · rintro rfl
    rfl

theorem isBoundary_iff : IsBoundary t n ↔ ∃ k ≤ t.length, bytes (t.take k) = n := by
  constructor
  · rintro ⟨before, after, rfl, rfl⟩
    exact ⟨before.length, by simp, by rw [List.take_left]⟩
  · rintro ⟨k, -, rfl⟩
    exact ⟨t.take k, t.drop k, (List.take_append_drop k t).symm, rfl⟩

instance (t : Text) : DecidablePred (IsBoundary t) := fun n =>
  decidable_of_iff (∃ k, k < t.length + 1 ∧ bytes (t.take k) = n) (by
    simp only [isBoundary_iff, Nat.lt_succ_iff])

theorem isBoundary_append (before after : Text) : IsBoundary (before ++ after) (bytes before) :=
  ⟨before, after, rfl, rfl⟩

/-- No boundary is inside a character. -/
theorem not_isBoundary_inside {p : Place} {c : Char} {k : Nat} (hp : p.In t)
    (hrest : p.rest = c :: u) (hk : 0 < k) (hlt : k < c.utf8Size) :
    ¬ IsBoundary t (p.offset + k) := by
  obtain ⟨behind, rfl, hoffset⟩ := hp
  rintro ⟨before, after, hsplit, hbytes⟩
  rw [hrest] at hsplit
  rcases List.append_eq_append_iff.1 hsplit with ⟨s, rfl, hs⟩ | ⟨s, rfl, -⟩
  · rw [bytes_append] at hbytes
    cases s with
    | nil =>
      rw [bytes_nil] at hbytes
      omega
    | cons d s =>
      obtain rfl : c = d := (List.cons.inj hs).1
      rw [bytes_cons] at hbytes
      omega
  · rw [bytes_append] at hoffset
    omega

/-- The text from an offset on, if the offset is a boundary. -/
def from? (t : Text) (start : Nat) : Option Text :=
  if IsBoundary t start then some (dropBytes start t) else none

/-- The text between two offsets, if they are boundaries and in order. -/
def slice? (t : Text) (start stop : Nat) : Option Text :=
  if start ≤ stop ∧ IsBoundary t start ∧ IsBoundary t stop then some (slice t start stop) else none

@[simp] theorem from?_append (before after : Text) :
    from? (before ++ after) (bytes before) = some after := by
  have hdrop := dropBytes_append before after 0
  rw [Nat.add_zero, dropBytes] at hdrop
  rw [from?, if_pos (isBoundary_append before after), hdrop]

theorem from?_eq_some_iff : from? t n = some u ↔ ∃ before, t = before ++ u ∧ bytes before = n := by
  constructor
  · intro h
    unfold from? at h
    split at h
    · next hn =>
      obtain ⟨before, after, rfl, rfl⟩ := hn
      have hdrop := dropBytes_append before after 0
      rw [Nat.add_zero, dropBytes] at hdrop
      rw [hdrop] at h
      obtain rfl := Option.some.inj h
      exact ⟨before, rfl, rfl⟩
    · contradiction
  · rintro ⟨before, rfl, rfl⟩
    exact from?_append before u

theorem slice?_append (before s after : Text) :
    slice? (before ++ (s ++ after)) (bytes before) (bytes before + bytes s) = some s := by
  rw [slice?, slice_append, if_pos]
  have hstop := isBoundary_append (before ++ s) after
  rw [List.append_assoc, bytes_append] at hstop
  exact ⟨Nat.le_add_right _ _, isBoundary_append before (s ++ after), hstop⟩

/-- A stretch of a text is the slice at its place. -/
theorem StandsAt.slice?_eq (h : StandsAt s t n) : slice? t n (n + bytes s) = some s := by
  obtain ⟨before, after, rfl, rfl⟩ := h
  exact slice?_append before s after

/-- What a text ends with is its slice up to the end. -/
theorem slice?_stop (before after : Text) :
    slice? (before ++ after) (bytes before) (bytes (before ++ after)) = some after := by
  have hslice := slice?_append before after []
  rwa [List.append_nil, ← bytes_append] at hslice

/-- What a text begins with is its slice from the start. -/
theorem slice?_zero (s after : Text) : slice? (s ++ after) 0 (bytes s) = some s := by
  simpa using slice?_append [] s after

theorem from?_take (t : Text) (n : Nat) : from? t (bytes (t.take n)) = some (t.drop n) := by
  have hfrom := from?_append (t.take n) (t.drop n)
  rwa [List.take_append_drop] at hfrom

theorem slice?_take (t : Text) (n : Nat) :
    slice? t 0 (bytes (t.take n)) = some (t.take n) := by
  have hslice := slice?_zero (t.take n) (t.drop n)
  rwa [List.take_append_drop] at hslice

end LogSyntax.Text
