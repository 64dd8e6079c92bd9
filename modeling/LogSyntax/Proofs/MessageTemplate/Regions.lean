import LogSyntax.Proofs.MessageTemplate.Parse
import LogSyntax.Proofs.Region
/-!
# The regions of a message template

The pieces of a hole have their regions where the hole is written, and the holes stand in the
template one behind the other.
-/

namespace LogSyntax.MessageTemplate

namespace Hole

theorem shown_capture (offset : Nat) (capture : Option Capture) :
    Shown offset (match capture.map (·, offset) with
      | some (.destructure, start) => Region.visible .destructureOperator start ['@']
      | some (.stringify, start) => Region.visible .stringifyOperator start ['$']
      | none => []) (captureText capture) := by
  match capture with
  | none => exact .nothing _ _
  | some .destructure => exact .visible _ _ _
  | some .stringify => exact .visible _ _ _

/-- A part is shown behind its mark, if there is anything in it. -/
theorem shown_part (category : Category) (mark : Char) (hmark : mark.utf8Size = 1) (offset : Nat)
    (part : Option Text) :
    Shown offset (match part.bind fun t => Part.nonempty? ⟨t, offset + 1⟩ with
      | some part => Region.visible category part.start part.value
      | none => []) (partText mark part) := by
  match part with
  | none => exact .nothing _ _
  | some [] => exact .nothing _ _
  | some (c :: t) =>
    have hoffset : offset + Text.bytes [mark] = offset + 1 := by
      rw [Text.bytes_cons, hmark, Text.bytes_nil]
    have h : Shown (offset + Text.bytes [mark]) (Region.visible category (offset + 1) (c :: t))
        (c :: t) := by
      rw [hoffset]
      exact .visible _ _ _
    exact h.skip [mark]

theorem shown_property (x : Hole) (o : Nat) : Shown o (x.property o).regions x.text := by
  have hparts (offset : Nat) := (shown_part .alignment ',' rfl offset x.alignment).append
    ((shown_part .formatSpecifier ':' rfl _ x.format).append (.visible .propertyBrace _ ['}']))
  have hname (offset : Nat) := (Shown.visible
    (if (x.property o).kind = .positional then .positionalIndex else .propertyName) offset
    x.name).append ((hparts _).skip x.trail)
  have hall := (Shown.visible .propertyBrace o ['{']).append
    (.skip x.lead ((shown_capture _ x.capture).append (hname _)))
  unfold Property.regions
  simp only [List.append_assoc]
  exact hall

end Hole

/-- The regions of the properties that are read stand in the template one behind the other. -/
theorem Reads.shown {o : Nat} {t : Text} {ps : List Property} (h : Reads o t ps) :
    Shown o (ps.flatMap Property.regions) t := by
  induction h with
  | nil => exact .nothing _ _
  | @pass o c t ps _ _ ih => exact ih.skip [c]
  | pair _ ih => exact ih.skip ['{', '{']
  | lone _ _ _ ih => exact ih.skip ['{']
  | hole _ _ ih => exact (Hole.shown_property _ _).append ih

theorem shown_classify (t : Text) : Shown 0 (classify t) t := (reads_properties 0 t).shown

end LogSyntax.MessageTemplate
