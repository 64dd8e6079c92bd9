import LogSyntax.Text.Basic
/-!
# Regions

What a highlighter colours: a stretch of a text, with the category of what stands there.
-/

namespace LogSyntax

/-- What a region shows. The first seven categories are those of templates, the others those of
expressions. -/
inductive Category where
  | propertyName
  | positionalIndex
  | destructureOperator
  | stringifyOperator
  | formatSpecifier
  | alignment
  | propertyBrace
  | expressionProperty
  | expressionOperator
  | expressionFunction
  | expressionLiteral
  | expressionKeyword
  | expressionBuiltin
  | expressionDirective
deriving DecidableEq, Repr

/-- A stretch of a text and its category. -/
structure Region where
  category : Category
  /-- The offset of its first byte. -/
  start : Nat
  text : Text
deriving DecidableEq, Repr

namespace Region

/-- The length in bytes. -/
def length (r : Region) : Nat := Text.bytes r.text

/-- The offset just behind the region. -/
def stop (r : Region) : Nat := r.start + r.length

/-- The region in a text that has `offset` more bytes in front. -/
def rebase (r : Region) (offset : Nat) : Region := { r with start := r.start + offset }

/-- The region of a text, if there is anything to show. -/
def visible (category : Category) (start : Nat) (t : Text) : List Region :=
  if t.isEmpty then [] else [⟨category, start, t⟩]

end Region

end LogSyntax
