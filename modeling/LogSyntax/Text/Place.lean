import LogSyntax.Text.Basic
/-!
# Places in a text

A reader of a text stands at a place: it knows how many bytes lie behind it and which characters
lie ahead. Moving on keeps the two in step.
-/

namespace LogSyntax

/-- A place in a text. -/
structure Place where
  /-- The bytes behind the place. -/
  offset : Nat
  /-- The characters ahead of it. -/
  rest : Text
deriving DecidableEq, Repr

namespace Place

/-- The place before the first character. -/
def start (t : Text) : Place := ⟨0, t⟩

/-- The place `n` characters further on, or the end of the text. -/
def advance (p : Place) (n : Nat) : Place :=
  ⟨p.offset + Text.bytes (p.rest.take n), p.rest.drop n⟩

/-- The place behind the run of characters that satisfy `f`. -/
def skip (p : Place) (f : Char → Bool) : Place :=
  ⟨p.offset + Text.bytes (p.rest.takeWhile f), p.rest.dropWhile f⟩

@[simp] theorem advance_zero (p : Place) : p.advance 0 = p := by
  simp [advance]

@[simp] theorem advance_succ (offset : Nat) (c : Char) (t : Text) (n : Nat) :
    (⟨offset, c :: t⟩ : Place).advance (n + 1) = (⟨offset + c.utf8Size, t⟩ : Place).advance n := by
  simp [advance, Nat.add_assoc]

theorem advance_advance (p : Place) (m n : Nat) : (p.advance m).advance n = p.advance (m + n) := by
  simp [advance, List.take_add, Nat.add_assoc]

/-- The place lies in the text: what is behind it and what is ahead make up the text. -/
def In (p : Place) (t : Text) : Prop :=
  ∃ behind, behind ++ p.rest = t ∧ Text.bytes behind = p.offset

theorem start_in (t : Text) : (start t).In t := ⟨[], rfl, rfl⟩

theorem In.bytes_eq {p : Place} {t : Text} (h : p.In t) :
    Text.bytes t = p.offset + Text.bytes p.rest := by
  obtain ⟨behind, happ, hoff⟩ := h
  rw [← happ, Text.bytes_append, hoff]

theorem In.advance {p : Place} {t : Text} (h : p.In t) (n : Nat) : (p.advance n).In t := by
  obtain ⟨behind, happ, hoff⟩ := h
  exact ⟨behind ++ p.rest.take n, by simp [Place.advance, happ], by simp [Place.advance, hoff]⟩

theorem In.skip {p : Place} {t : Text} (h : p.In t) (f : Char → Bool) : (p.skip f).In t := by
  obtain ⟨behind, happ, hoff⟩ := h
  exact ⟨behind ++ p.rest.takeWhile f, by simp [Place.skip, happ], by simp [Place.skip, hoff]⟩

theorem length_rest_advance_lt {p : Place} {n : Nat} (hp : p.rest ≠ []) (hn : n ≠ 0) :
    (p.advance n).rest.length < p.rest.length := by
  have := List.length_pos_iff.2 hp
  simp only [advance, List.length_drop]
  omega

theorem length_rest_skip_le (p : Place) (f : Char → Bool) :
    (p.skip f).rest.length ≤ p.rest.length :=
  (List.dropWhile_suffix f).length_le

theorem length_rest_advance_le (p : Place) (n : Nat) :
    (p.advance n).rest.length ≤ p.rest.length := by
  simp [advance]

end Place

end LogSyntax
