import LogSyntax.Identifier
import LogSyntax.Token
/-!
# Reserved words

A reserved word is a token of its own, alone or together with the words that follow it: `not` is a
boolean operator, `not like` one string operator. A table lists the phrases that begin with a word,
longer ones first; the first phrase that the text spells out is read.
-/

namespace LogSyntax

/-- A reserved word, the words that must follow it, and the kind of the token they make. -/
structure Phrase where
  head : String
  tail : List String
  kind : Token.Kind
deriving DecidableEq, Repr

namespace Phrase

/-- How many characters the given words take at the head of a text. White space stands before each
of them, each is a whole word, and case does not matter. -/
def following? : List String → Text → Option Nat
  | [], _ => some 0
  | expected :: more, t =>
    let gap := Text.run isBlank t
    let word := (t.drop gap).takeWhile isIdentChar
    if gap ≠ 0 ∧ Text.eqIgnoringCase word expected.toList then
      (following? more (t.drop (gap + word.length))).map (gap + word.length + ·)
    else
      none

/-- The first phrase of a table whose head satisfies `isHead` and whose tail the text `t` behind the
head spells out: its kind, and the length of its tail. -/
def find? (table : List Phrase) (isHead : Text → Bool) (t : Text) : Option (Token.Kind × Nat) :=
  table.findSome? fun phrase =>
    if isHead phrase.head.toList then (following? phrase.tail t).map (phrase.kind, ·) else none

end Phrase

/-- The reserved words of expressions. They are written in any ASCII case. -/
def reservedPhrases : List Phrase :=
  [⟨"and", [], .booleanOperator⟩,
   ⟨"or", [], .booleanOperator⟩,
   ⟨"not", ["like"], .stringOperator⟩,
   ⟨"not", ["in"], .membershipOperator⟩,
   ⟨"not", [], .booleanOperator⟩,
   ⟨"like", [], .stringOperator⟩,
   ⟨"in", [], .membershipOperator⟩,
   ⟨"is", ["null"], .nullOperator⟩,
   ⟨"is", ["not", "null"], .nullOperator⟩,
   ⟨"is", [], .keyword⟩,
   ⟨"true", [], .booleanLiteral⟩,
   ⟨"false", [], .booleanLiteral⟩,
   ⟨"null", [], .nullLiteral⟩,
   ⟨"ci", [], .caseModifier⟩,
   ⟨"if", [], .keyword⟩,
   ⟨"then", [], .keyword⟩,
   ⟨"else", [], .keyword⟩]

/-- The markers of directives, without their opening brace and hash. The first word is written in
lower case. -/
def markerPhrases : List Phrase :=
  [⟨"if", [], .directiveIf⟩,
   ⟨"else", ["if"], .directiveElseIf⟩,
   ⟨"else", [], .directiveElse⟩,
   ⟨"end", [], .directiveEnd⟩,
   ⟨"each", [], .directiveEach⟩,
   ⟨"delimit", [], .directiveDelimit⟩]

end LogSyntax
