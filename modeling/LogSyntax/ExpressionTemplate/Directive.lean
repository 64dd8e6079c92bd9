import LogSyntax.Expression
/-!
# Directives of an expression template

A directive begins with `#` and a word. `#if` and `#else if` have a condition, which is an
expression; `#each` binds the names that stand before `in` to the elements of what stands behind it,
until the next `#end`.
-/

namespace LogSyntax.ExpressionTemplate

/-- The names that loops have bound. -/
abbrev LoopNames := List Text

/-- A directive. -/
inductive Directive where
  | ifThen
  | elseIf
  | otherwise
  | endBlock
  | each
  | delimit
deriving DecidableEq, Repr

namespace Directive

/-- How many characters the white space and the word `if` take at the head of a text, where they
make an `else` into an `else if`. -/
def elseIfLength? (t : Text) : Option Nat :=
  let gap := Text.run isBlank t
  match t.drop gap with
  | 'i' :: 'f' :: cs => if gap ≠ 0 ∧ ¬ cs.head?.any isIdentChar then some (gap + 2) else none
  | _ => none

/-- The directive whose `#` the text `t` follows, and the number of characters it takes. -/
def read? (t : Text) : Option (Directive × Nat) :=
  let word := t.takeWhile isIdentChar
  if word = "if".toList then some (.ifThen, 2)
  else if word = "else".toList then
    match elseIfLength? (t.drop 4) with
    | some n => some (.elseIf, 4 + n)
    | none => some (.otherwise, 4)
  else if word = "end".toList then some (.endBlock, 3)
  else if word = "each".toList then some (.each, 4)
  else if word = "delimit".toList then some (.delimit, 7)
  else none

/-- A keyword stands on its own before the end of the text, or before spaces that lead to anything
but a closing brace. -/
def standsAlone : Text → Bool
  | [] => true
  | ' ' :: cs => (cs.dropWhile (· == ' ')).head? != some '}'
  | _ => false

/-- The directive behind an opening brace that needs no closing one, since it is still to be typed:
`#end`, or `#else` without `if`. -/
def readBare? (t : Text) : Option (Directive × Text) :=
  let bare (directive : Directive) (keyword : Text) :=
    if standsAlone (t.drop keyword.length) then some (directive, keyword) else none
  if "#end".toList.isPrefixOf t then bare .endBlock "#end".toList
  else if "#else".toList.isPrefixOf t ∧ (elseIfLength? (t.drop 5)).isNone then
    bare .otherwise "#else".toList
  else none

/-- The names that are bound behind a directive: `#end` unbinds all of them. -/
def scope (names : LoopNames) : Directive → LoopNames
  | .endBlock => []
  | _ => names

/-! ## Loops -/

/-- The word between the names of a loop and its collection. -/
def isSeparator (token : Token) : Bool :=
  token.kind == .membershipOperator && Text.eqIgnoringCase token.text "in".toList

/-- The names that a loop binds: the identifiers before the separator. -/
def boundNames (tokens : List Token) : LoopNames :=
  ((tokens.takeWhile (!isSeparator ·)).filter (·.kind == .identifier)).map (·.text)

/-- The regions of a loop: those of its tokens, but the separator is a keyword. -/
def loopRegions (tokens : List Token) : List Region :=
  let names := tokens.takeWhile (!isSeparator ·)
  names.filterMap Region.ofToken? ++
    match tokens.drop names.length with
    | [] => []
    | separator :: collection =>
      ⟨.expressionKeyword, separator.start, separator.source⟩ ::
        collection.filterMap Region.ofToken?

/-- The regions of the directive whose `#` stands at an offset before the text `t`, and the names
that are bound behind it. A word that is no directive shows nothing. -/
def classify (h : Heuristics) (names : LoopNames) (offset : Nat) (t : Text) :
    List Region × LoopNames :=
  match read? t with
  | none => ([], names)
  | some (directive, n) =>
    let mark : Region := ⟨.expressionDirective, offset, '#' :: t.take n⟩
    let rest := t.drop n
    match directive with
    | .ifThen | .elseIf => (mark :: Expression.regions h mark.stop rest, names)
    | .each =>
      let tokens := Expression.tokens h mark.stop rest
      (mark :: loopRegions tokens, boundNames tokens ++ names)
    | .otherwise | .endBlock | .delimit => ([mark], directive.scope names)

end Directive

end LogSyntax.ExpressionTemplate
