import LogSyntax.Region
import LogSyntax.Tokenizer
/-!
# Expressions

An expression on its own is classified token by token. Parentheses, braces, commas, dots, colons and
unknown characters belong to no category and show no region.
-/

namespace LogSyntax

/-- The category of a token of this kind. -/
def Category.ofKind? : Token.Kind → Option Category
  | .identifier => some .expressionProperty
  | .stringLiteral | .numberLiteral | .booleanLiteral | .nullLiteral => some .expressionLiteral
  | .comparisonOperator | .booleanOperator | .arithmeticOperator | .stringOperator
  | .membershipOperator | .nullOperator | .openBracket | .closeBracket | .spread | .wildcard =>
    some .expressionOperator
  | .caseModifier | .keyword => some .expressionKeyword
  | .function => some .expressionFunction
  | .builtinProperty => some .expressionBuiltin
  | .directiveIf | .directiveElseIf | .directiveElse | .directiveEnd | .directiveEach
  | .directiveDelimit => some .expressionDirective
  | .openParen | .closeParen | .openBrace | .closeBrace | .comma | .dot | .colon | .unknown => none

/-- The region of a token: its source, under the category of its kind. -/
def Region.ofToken? (t : Token) : Option Region :=
  (Category.ofKind? t.kind).map (⟨·, t.start, t.source⟩)

namespace Expression

/-- The tokens of an expression that stands at an offset of a larger text. -/
def tokens (h : Heuristics) (offset : Nat) (t : Text) : List Token :=
  (Tokenizer.start h ⟨offset, t⟩).tokens

/-- The regions of an expression that stands at an offset of a larger text. -/
def regions (h : Heuristics) (offset : Nat) (t : Text) : List Region :=
  (tokens h offset t).filterMap Region.ofToken?

/-- The regions of an expression on its own. -/
def classify (h : Heuristics) (t : Text) : List Region :=
  regions h 0 t

end Expression

end LogSyntax
