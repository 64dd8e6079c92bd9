import LogSyntax.ExpressionTemplate.Directive
/-!
# Holes of an expression template

A hole holds an expression and perhaps a format behind a colon. A lone identifier names a property,
unless a loop has bound it. A built-in property indexed by a quoted key is read on its own, so that
the key may be written with either kind of quote.
-/

namespace LogSyntax.ExpressionTemplate

/-! ## Indexed built-in properties -/

/-- A built-in property indexed by a quoted key, and what follows the closing bracket. -/
structure Indexer where
  code : String
  quote : Char
  key : Text
  tail : Text
deriving DecidableEq, Repr

namespace Indexer

/-- The bracket, the quoted key and the bracket at the head of a text. -/
def readKey? : Text → Option (Char × Text × Text)
  | '[' :: quote :: cs =>
    if quote = '\'' ∨ quote = '"' then
      let key := cs.takeWhile (· != quote)
      match cs.drop key.length with
      | _ :: ']' :: tail => some (quote, key, tail)
      | _ => none
    else
      none
  | _ => none

/-- The indexer that makes up the head of a hole. -/
def read? : Text → Option Indexer
  | '@' :: cs => do
    let code ← builtinCode? cs
    let (quote, key, tail) ← readKey? (cs.drop code.length)
    return ⟨code, quote, key, tail⟩
  | _ => none

/-- The regions of an indexer at an offset. What follows it is a format behind a colon, or more of
the expression. -/
def regions (h : Heuristics) (offset : Nat) (x : Indexer) : List Region :=
  let builtin : Region := ⟨.expressionBuiltin, offset, '@' :: x.code.toList⟩
  let bracket : Region := ⟨.expressionOperator, builtin.stop, ['[']⟩
  let literal : Region := ⟨.expressionLiteral, bracket.stop, x.quote :: (x.key ++ [x.quote])⟩
  let closing : Region := ⟨.expressionOperator, literal.stop, [']']⟩
  [builtin, bracket, literal, closing] ++
    match x.tail with
    | ':' :: format => Region.visible .formatSpecifier (closing.stop + 1) format
    | tail => Expression.regions h closing.stop tail

end Indexer

/-! ## Expressions with a format -/

namespace Hole

/-- The number of characters before the first colon outside quotes and brackets of any kind, when
`n` are read, `depth` brackets are open and `quoted` says whether a quote is. -/
def colonFrom? (quoted : Bool) (depth n : Nat) : Text → Option Nat
  | [] => none
  | c :: cs =>
    if c = '\'' then colonFrom? (!quoted) depth (n + 1) cs
    else if quoted then colonFrom? quoted depth (n + 1) cs
    else if c = '(' ∨ c = '[' ∨ c = '{' then colonFrom? quoted (depth + 1) (n + 1) cs
    else if c = ')' ∨ c = ']' ∨ c = '}' then colonFrom? quoted (depth - 1) (n + 1) cs
    else if c = ':' ∧ depth = 0 then some n
    else colonFrom? quoted depth (n + 1) cs

/-- The number of characters before the colon that begins the format. -/
def colon? (t : Text) : Option Nat :=
  colonFrom? false 0 0 t

/-- The name of the property that the tokens of a hole refer to, if they are one identifier. -/
def property? : List Token → Option Token
  | [token] => if token.kind = .identifier ∧ token.text.head? ≠ some '@' then some token else none
  | _ => none

/-- The regions of the expression of a hole. -/
def expressionRegions (h : Heuristics) (names : LoopNames) (offset : Nat) (t : Text) :
    List Region :=
  let tokens := Expression.tokens h offset t
  match property? tokens with
  | some token =>
    let category := if names.contains token.text then .expressionProperty else .propertyName
    [⟨category, token.start, token.text⟩]
  | none => tokens.filterMap Region.ofToken?

/-- The regions of a hole: those of the expression, and the format if there is one. -/
def regions (h : Heuristics) (names : LoopNames) (offset : Nat) (t : Text) : List Region :=
  match colon? t with
  | some n =>
    expressionRegions h names offset (Text.trimEnd (t.take n)) ++
      Region.visible .formatSpecifier (offset + Text.bytes (t.take (n + 1))) (t.drop (n + 1))
  | none => expressionRegions h names offset (Text.trimEnd t)

end Hole

end LogSyntax.ExpressionTemplate
