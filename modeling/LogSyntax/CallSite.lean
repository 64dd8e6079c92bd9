import LogSyntax.Text.Basic
import LogSyntax.Text.Word
/-!
# Call sites

A call site is a place in a line of source code where a string literal is passed to a method that
takes an expression or a template. Each kind of call has a pattern: a row of parts, each of which
reads as much of the text as it can, the last of them the quotes that open the literal. No part
reads a character that the next one could need, so none ever has to give one back.
-/

namespace LogSyntax

/-- What the string literal at a call site holds. -/
inductive Context where
  /-- No call site is near; a literal is a message template, if anything. -/
  | outside
  /-- A filter. -/
  | filterExpression
  /-- A template with expressions in its holes. -/
  | expressionTemplate
  /-- The value of a computed property. -/
  | computedProperty
  /-- A condition. -/
  | conditionalExpression
deriving DecidableEq, Repr

instance : Inhabited Context := ⟨.outside⟩

/-- Whether the literal is written in the expression language. -/
def Context.isExpression (context : Context) : Bool :=
  context ≠ .outside

namespace CallSite

/-- A part of a pattern. -/
inductive Part where
  /-- One of these words. -/
  | oneOf (words : List String)
  /-- White space, if any. -/
  | blanks
  /-- The marks of interpolated and verbatim literals, if any. -/
  | marks
  /-- A string literal without quotes inside. -/
  | argument
  /-- One or more quotes. -/
  | quotes
deriving DecidableEq, Repr

/-- How many characters the part reads at the head of a text, if it is there. -/
def Part.length? (t : Text) : Part → Option Nat
  | .oneOf words => (words.find? (·.toList.isPrefixOf t)).map String.length
  | .blanks => some (Text.run isBlank t)
  | .marks => some (Text.run (fun c => c == '@' || c == '$') t)
  | .argument =>
    match t with
    | '"' :: cs =>
      let content := Text.run (· != '"') cs
      if (cs.drop content).isEmpty then none else some (content + 2)
    | _ => none
  | .quotes =>
    match Text.run (· == '"') t with
    | 0 => none
    | n => some n

/-- A kind of call. -/
structure Pattern where
  context : Context
  /-- The first word may not be the end of a longer one. -/
  wholeWord : Bool
  parts : List Part

/-- How many characters the parts read at the head of a text, if all are there. -/
def partsLength? : List Part → Text → Option Nat
  | [], _ => some 0
  | part :: parts, t => do
    let n ← part.length? t
    let more ← partsLength? parts (t.drop n)
    return n + more

/-- How many characters the pattern reads at the head of a text, if it is there. The character
`last` stands in front of the text. -/
def Pattern.length? (pattern : Pattern) (last : Option Char) (t : Text) : Option Nat :=
  if pattern.wholeWord ∧ last.any isWordChar then none else partsLength? pattern.parts t

/-- The opening bracket of a call, and the start of a literal behind it. -/
def Part.call : List Part :=
  [.blanks, .oneOf ["("], .blanks, .marks, .quotes]

/-- The kinds of call that are known. -/
def patterns : List Pattern :=
  [⟨.filterExpression, false,
    [.oneOf ["Filter"], .blanks, .oneOf ["."], .blanks,
      .oneOf ["ByExcluding", "ByIncludingOnly"]] ++ Part.call⟩,
   ⟨.expressionTemplate, true, .oneOf ["ExpressionTemplate"] :: Part.call⟩,
   ⟨.computedProperty, true,
    [.oneOf ["WithComputed"], .blanks, .oneOf ["("], .blanks, .marks, .argument, .blanks,
      .oneOf [","], .blanks, .marks, .quotes]⟩,
   ⟨.conditionalExpression, false,
    [.oneOf ["."], .blanks, .oneOf ["Conditional", "When"]] ++ Part.call⟩]

/-- The offsets of the last opening quotes where a pattern is found in a text, from left to right
and without overlap. The text follows the character `last` at an offset; its first `skip`
characters belong to a call that is already found. -/
def quotesFrom (pattern : Pattern) (last : Option Char) (offset skip : Nat) : Text → List Nat
  | [] => []
  | c :: cs =>
    match skip with
    | skip + 1 => quotesFrom pattern (some c) (offset + c.utf8Size) skip cs
    | 0 =>
      match pattern.length? last (c :: cs) with
      | some n =>
        (offset + Text.bytes ((c :: cs).take n) - 1) ::
          quotesFrom pattern (some c) (offset + c.utf8Size) (n - 1) cs
      | none => quotesFrom pattern (some c) (offset + c.utf8Size) 0 cs

end CallSite

/-- A call in a line of source code: the offset of the quote behind which its literal begins, and
what the literal holds. -/
structure CallSite where
  quote : Nat
  context : Context
deriving DecidableEq, Repr

/-- The call sites of a line, pattern by pattern. -/
def callSites (line : Text) : List CallSite :=
  CallSite.patterns.flatMap fun pattern =>
    (CallSite.quotesFrom pattern none 0 0 line).map (⟨·, pattern.context⟩)

/-- The call site nearest to an offset, of those whose quote is not behind it. -/
def CallSite.nearest? (sites : List CallSite) (offset : Nat) : Option CallSite :=
  (sites.filter (·.quote ≤ offset)).foldl
    (fun nearest? site =>
      match nearest? with
      | some nearest => if nearest.quote < site.quote then some site else some nearest
      | none => some site)
    none

namespace Context

/-- The context at an offset of a line with these call sites. -/
def ofSites (sites : List CallSite) (offset : Nat) : Context :=
  (CallSite.nearest? sites offset).elim .outside (·.context)

/-- The context at an offset of a line. -/
def ofLine (line : Text) (offset : Nat) : Context :=
  ofSites (callSites line) offset

end Context

end LogSyntax
