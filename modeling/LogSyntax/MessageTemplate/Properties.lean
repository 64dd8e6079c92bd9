import LogSyntax.Drain
import LogSyntax.MessageTemplate.Reader
import LogSyntax.Region
/-!
# Reading a message template

The properties of a template are what its reader finds, one hole after the other. A property is
reported at its closing brace, so a hole that is still open shows nothing.
-/

namespace LogSyntax

namespace MessageTemplate

/-- The next property of a template from a place on, and the place behind its hole. -/
def next? (p : Place) : Option (Property × Place) :=
  (Reader.start p).run

theorem next?_shrinks : Shrinks next? (·.rest.length) :=
  fun _ _ _ h => Reader.length_rest_run h

/-- The properties of a template from a place on. -/
def properties (p : Place) : List Property :=
  drain next? (·.rest.length) next?_shrinks p

/-- The properties of a template. -/
def parse (t : Text) : List Property :=
  properties (.start t)

end MessageTemplate

/-- The regions of a property, in the order in which its hole is written. -/
def Property.regions (p : Property) : List Region :=
  Region.visible .propertyBrace p.braceStart ['{'] ++
    (match p.capture with
      | some (.destructure, start) => Region.visible .destructureOperator start ['@']
      | some (.stringify, start) => Region.visible .stringifyOperator start ['$']
      | none => []) ++
    Region.visible (if p.kind = .positional then .positionalIndex else .propertyName)
      p.name.start p.name.value ++
    (match p.alignment with
      | some part => Region.visible .alignment part.start part.value
      | none => []) ++
    (match p.format with
      | some part => Region.visible .formatSpecifier part.start part.value
      | none => []) ++
    Region.visible .propertyBrace p.braceEnd ['}']

/-- The regions of a message template. -/
def MessageTemplate.classify (t : Text) : List Region :=
  (parse t).flatMap Property.regions

end LogSyntax
