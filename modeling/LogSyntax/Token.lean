import LogSyntax.Text.Basic
/-!
# Tokens

A token of an expression has a kind, the stretch of the text that it was read from, and its decoded
text. That is the stretch itself, except that a string literal stands for its content: in the source
a quote inside it is written twice.
-/

namespace LogSyntax

namespace Token

/-- What a token is. -/
inductive Kind where
  | identifier
  | stringLiteral
  | numberLiteral
  | booleanLiteral
  | nullLiteral
  | comparisonOperator
  | booleanOperator
  | arithmeticOperator
  | stringOperator
  | membershipOperator
  | nullOperator
  | caseModifier
  | function
  | keyword
  | openParen
  | closeParen
  | openBracket
  | closeBracket
  | openBrace
  | closeBrace
  | comma
  | dot
  | colon
  | directiveIf
  | directiveElseIf
  | directiveElse
  | directiveEnd
  | directiveEach
  | directiveDelimit
  | builtinProperty
  | spread
  | wildcard
  | unknown
deriving DecidableEq, Repr

/-- A token that opens a directive of an expression template. -/
def Kind.isDirective : Kind → Bool
  | .directiveIf | .directiveElseIf | .directiveElse | .directiveEnd | .directiveEach
  | .directiveDelimit => true
  | _ => false

/-- A token that ends an operand, so that a minus behind it subtracts. -/
def Kind.endsOperand : Kind → Bool
  | .identifier | .stringLiteral | .numberLiteral | .booleanLiteral | .nullLiteral
  | .builtinProperty | .closeParen | .closeBracket => true
  | _ => false

end Token

/-- A token. -/
structure Token where
  kind : Token.Kind
  /-- The characters it was read from. -/
  source : Text
  /-- Its decoded text. -/
  text : Text
  /-- The offset of the first character of the source. -/
  start : Nat
deriving DecidableEq, Repr

namespace Token

/-- The length of the decoded text in bytes. -/
def length (t : Token) : Nat := Text.bytes t.text

/-- The length of the source in bytes. -/
def sourceLength (t : Token) : Nat := Text.bytes t.source

/-- The offset just behind the token. -/
def stop (t : Token) : Nat := t.start + t.sourceLength

end Token

end LogSyntax
