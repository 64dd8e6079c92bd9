import LogSyntax.Identifier
import LogSyntax.MessageTemplate.Property
import LogSyntax.Text.Place
/-!
# Attempts at a hole

What is found of a hole before its closing brace is reached. A part that is still being read is kept
as the place where it begins and the number of its characters, and its text is taken once, when the
hole is complete.
-/

namespace LogSyntax.MessageTemplate

/-- A character that can stand in the name of a property. A dot cannot be its first one. -/
def isNameChar (c : Char) : Bool :=
  isIdentChar c || c == '.'

/-- The capture operator that a character stands for. -/
def capture? : Char → Option Capture
  | '@' => some .destructure
  | '$' => some .stringify
  | _ => none

/-- A stretch of a template that is being read. -/
structure Stretch where
  /-- Where it begins. -/
  place : Place
  /-- How many characters it has so far. -/
  length : Nat

namespace Stretch

/-- A stretch with no character yet. -/
def empty (p : Place) : Stretch := ⟨p, 0⟩

/-- The stretch with `n` more characters. -/
def grow (s : Stretch) (n : Nat) : Stretch := { s with length := s.length + n }

theorem grow_grow (s : Stretch) (m n : Nat) : (s.grow m).grow n = s.grow (m + n) := by
  simp [grow, Nat.add_assoc]

theorem map_grow_zero (s : Option Stretch) : s.map (·.grow 0) = s := by
  cases s <;> rfl

theorem map_grow_grow (s : Option Stretch) (m n : Nat) :
    (s.map (·.grow m)).map (·.grow n) = s.map (·.grow (m + n)) := by
  cases s <;> simp [grow_grow]

/-- What stands in the stretch. -/
def part (s : Stretch) : Part := ⟨s.place.rest.take s.length, s.place.offset⟩

end Stretch

/-- What is found of a hole so far. -/
structure Attempt where
  /-- The offset of the opening brace. -/
  braceStart : Nat
  /-- The capture operator and its offset. -/
  capture : Option (Capture × Nat)
  name : Option Stretch
  /-- White space stands behind the name. -/
  spaced : Bool
  alignment : Option Stretch
  format : Option Stretch

namespace Attempt

/-- Only the opening brace is found. -/
def start (braceStart : Nat) : Attempt := ⟨braceStart, none, none, false, none, none⟩

/-- The property of a hole that closes at an offset, if it has a name without white space in it. -/
def finish? (a : Attempt) (braceEnd : Nat) : Option Property :=
  match a.name with
  | none => none
  | some stretch =>
    let name := Text.trim stretch.part.value
    if name.isEmpty || name.any isBlank then none
    else
      some ⟨a.braceStart, braceEnd, a.capture, ⟨name, stretch.part.start⟩,
        a.alignment.bind (·.part.nonempty?), a.format.bind (·.part.nonempty?)⟩

end Attempt

end LogSyntax.MessageTemplate
