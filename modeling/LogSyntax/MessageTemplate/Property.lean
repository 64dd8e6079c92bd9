import LogSyntax.Text.Basic
/-!
# Properties of a message template

A message template is literal text with holes in braces. A hole names a property and may say how to
capture it (`@` keeps its structure, `$` its text), how wide to align it and how to format it:
`{@Name,10:F2}`. A name of ASCII digits refers to an argument by its position.
-/

namespace LogSyntax

/-- How a property is captured, when the hole says so. -/
inductive Capture where
  /-- With its structure, written `@`. -/
  | destructure
  /-- As text, written `$`. -/
  | stringify
deriving DecidableEq, Repr

/-- A stretch of a template, with the offset of its first byte. -/
structure Part where
  value : Text
  start : Nat
deriving DecidableEq, Repr

/-- The part, unless there is nothing in it. -/
def Part.nonempty? (p : Part) : Option Part :=
  if p.value.isEmpty then none else some p

/-- A property of a message template, with the places of the pieces of its hole. -/
structure Property where
  /-- The offset of the opening brace. -/
  braceStart : Nat
  /-- The offset of the closing brace. -/
  braceEnd : Nat
  /-- The capture operator and its offset. -/
  capture : Option (Capture × Nat)
  name : Part
  alignment : Option Part
  format : Option Part
deriving DecidableEq, Repr

namespace Property

/-- What a property is bound to. -/
inductive Kind where
  | standard
  | destructured
  | stringified
  | positional
deriving DecidableEq, Repr

/-- The kind goes by the capture operator, and without one by the name. -/
def kind (p : Property) : Kind :=
  match p.capture with
  | some (.destructure, _) => .destructured
  | some (.stringify, _) => .stringified
  | none => if p.name.value.all Char.isDigit then .positional else .standard

/-- The length of the name in bytes. -/
def nameLength (p : Property) : Nat := Text.bytes p.name.value

/-- The offsets from the opening brace to just behind the closing one. -/
def span (p : Property) : Nat × Nat := (p.braceStart, p.braceEnd + 1)

end Property

end LogSyntax
