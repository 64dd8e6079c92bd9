import LogSyntax.Token.Literal
import LogSyntax.Token.Phrase
/-!
# Lexemes

Reading one token at a character that is not white space. The first character says which rule
applies, and the rule answers the kind of the token and how many further characters belong to it.
Every character begins some lexeme: one that no rule knows is an unknown token of its own, and so is
the marker of a directive that does not exist. A lexeme is what it is written as; only a string
literal is decoded, while it is read.
-/

namespace LogSyntax

/-- The kind of a token, and how many characters it takes behind its first one. -/
structure Lexeme where
  kind : Token.Kind
  extra : Nat
deriving DecidableEq, Repr

namespace Lexeme

/-- What an `@` begins: a built-in property, an identifier, or nothing known. -/
def ofSigil (t : Text) : Lexeme :=
  match builtinCode? t with
  | some code => ⟨.builtinProperty, code.length⟩
  | none =>
    if t.head?.any isIdentStart then ⟨.identifier, Text.run isIdentChar t⟩ else ⟨.unknown, 0⟩

/-- A character of the word behind the opening brace and hash of a directive. -/
def isMarkerChar (c : Char) : Bool :=
  !isBlank c && c != '{' && c != '}'

/-- What a `{` begins: the marker of a directive, or a bare brace. -/
def ofBrace : Text → Lexeme
  | '#' :: cs =>
    let word := cs.takeWhile isMarkerChar
    match Phrase.find? markerPhrases (· == word) (cs.drop word.length) with
    | some (kind, more) => ⟨kind, 1 + word.length + more⟩
    | none => ⟨.unknown, 1 + word.length⟩
  | _ => ⟨.openBrace, 0⟩

/-- What a letter or `_` begins: a reserved phrase, a function if its arguments follow, or an
identifier. -/
def ofWord (first : Char) (t : Text) : Lexeme :=
  let more := t.takeWhile isIdentChar
  let rest := t.dropWhile isIdentChar
  match Phrase.find? reservedPhrases (Text.eqIgnoringCase · (first :: more)) rest with
  | some (kind, tail) => ⟨kind, more.length + tail⟩
  | none =>
    if isFunctionName (first :: more) ∧ (Text.trimStart rest).head? = some '(' then
      ⟨.function, more.length⟩
    else
      ⟨.identifier, more.length⟩

/-- What any other character begins: punctuation, an operator, or nothing known. A star is a
wildcard when it is all that brackets hold. -/
def ofSymbol (last : Option Token.Kind) : Char → Text → Lexeme
  | '(', _ => ⟨.openParen, 0⟩
  | ')', _ => ⟨.closeParen, 0⟩
  | '[', _ => ⟨.openBracket, 0⟩
  | ']', _ => ⟨.closeBracket, 0⟩
  | '}', _ => ⟨.closeBrace, 0⟩
  | ',', _ => ⟨.comma, 0⟩
  | ':', _ => ⟨.colon, 0⟩
  | '.', t => if t.head? = some '.' then ⟨.spread, 1⟩ else ⟨.dot, 0⟩
  | '?', _ => ⟨.wildcard, 0⟩
  | '*', t =>
    if last = some .openBracket ∧ t.head? = some ']' then ⟨.wildcard, 0⟩
    else ⟨.arithmeticOperator, 0⟩
  | '=', t => if t.head? = some '=' then ⟨.comparisonOperator, 1⟩ else ⟨.comparisonOperator, 0⟩
  | '<', t =>
    if t.head? = some '=' ∨ t.head? = some '>' then ⟨.comparisonOperator, 1⟩
    else ⟨.comparisonOperator, 0⟩
  | '>', t => if t.head? = some '=' then ⟨.comparisonOperator, 1⟩ else ⟨.comparisonOperator, 0⟩
  | '!', t => if t.head? = some '=' then ⟨.comparisonOperator, 1⟩ else ⟨.unknown, 0⟩
  | c, _ => if isArithmetic c then ⟨.arithmeticOperator, 0⟩ else ⟨.unknown, 0⟩

/-- A minus that begins a negative number: a digit follows it, and no operand precedes it from which
it could subtract. -/
def isSign (last : Option Token.Kind) (c : Char) (t : Text) : Bool :=
  c == '-' && t.head?.any Char.isDigit && !last.any Token.Kind.endsOperand

/-- The lexeme that begins with the character `c`, when `t` follows it and the token before is of
kind `last`. -/
def read (last : Option Token.Kind) (c : Char) (t : Text) : Lexeme :=
  if c.isDigit then ⟨.numberLiteral, Literal.numberTail c t⟩
  else if isSign last c t then ⟨.numberLiteral, 1 + Literal.numberTail (t.headD c) t.tail⟩
  else if c = '@' then ofSigil t
  else if c = '{' then ofBrace t
  else if isIdentStart c then ofWord c t
  else ofSymbol last c t

/-- The token of a lexeme at an offset, which begins with the character `c` before the text `t`. -/
def token (lexeme : Lexeme) (offset : Nat) (c : Char) (t : Text) : Token :=
  let source := c :: t.take lexeme.extra
  ⟨lexeme.kind, source, source, offset⟩

end Lexeme

/-- The token that begins with the character `c` at an offset, when `t` follows it and the token
before is of kind `last`. -/
def Token.read (h : Heuristics) (last : Option Token.Kind) (offset : Nat) (c : Char) (t : Text) :
    Token :=
  if c = '\'' then
    let (extra, text) := Literal.readString h 0 [c] t
    ⟨.stringLiteral, c :: t.take extra, text, offset⟩
  else
    (Lexeme.read last c t).token offset c t

/-- The source of a token is `c` and characters that follow it. -/
theorem Token.source_read (h : Heuristics) (last : Option Token.Kind) (offset : Nat) (c : Char)
    (t : Text) : ∃ s, (Token.read h last offset c t).source = c :: s ∧ s <+: t := by
  unfold Token.read
  split
  · exact ⟨_, rfl, List.take_prefix _ t⟩
  · exact ⟨_, rfl, List.take_prefix _ t⟩

theorem Token.start_read (h : Heuristics) (last : Option Token.Kind) (offset : Nat) (c : Char)
    (t : Text) : (Token.read h last offset c t).start = offset := by
  unfold Token.read
  split <;> rfl

end LogSyntax
