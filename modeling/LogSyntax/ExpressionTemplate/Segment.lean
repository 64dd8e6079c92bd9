import LogSyntax.Text.Basic
import Std.Data.TreeMap.Basic
/-!
# Where a segment of an expression template ends

A segment begins with an opening brace and ends with the closing brace that matches it. Quotes hide
what they enclose, nested groups in braces match among themselves, and a colon outside parentheses
and brackets begins a format, in which nothing is hidden: a closing brace or a stray bracket ends
the segment there, and an opening brace means that it was never closed.

While a segment is being typed its brace has no partner, and the search for one runs to the end of
the text. What it finds out about the groups on its way is kept: a group that an earlier search has
matched is jumped over, and one that never closes ends the search at once. So no group is searched
twice, however many segments hold it.
-/

namespace LogSyntax.ExpressionTemplate

/-- What is known of nested groups, by the offsets of their opening braces: the offset of the
closing brace, or that there is none. -/
abbrev Outcomes := Std.TreeMap Nat (Option Nat)

namespace Segment

/-- How a segment ends. -/
structure End where
  /-- The number of characters between the opening brace and the end. -/
  length : Nat
  /-- The offset of the character that ends the segment. -/
  offset : Nat
  /-- That character: a closing brace, or a bracket that closes a format in its place. -/
  mark : Char
  /-- The offset of the colon that begins the format. -/
  colon : Option Nat
deriving DecidableEq, Repr

/-- What the search is passing over. -/
inductive Mode where
  /-- Code, in which quotes, brackets and braces count. -/
  | code
  /-- A string, up to the quote that closes it. -/
  | string
  /-- A format, begun by the colon at this offset. -/
  | format (colon : Nat)
  /-- A group that is known to close at this offset. -/
  | group (stop : Nat)
deriving DecidableEq, Repr

/-- A search for the end of a segment, some way into it. -/
structure Search where
  mode : Mode
  /-- The parentheses and brackets of the segment itself that are open. -/
  depth : Nat
  /-- The nested groups that are open, by their offsets, the innermost first. -/
  groups : List Nat
  outcomes : Outcomes

/-- What a character means for the search. -/
inductive Step where
  /-- The search goes on. -/
  | next (s : Search)
  /-- The segment ends here. -/
  | ends (colon : Option Nat)
  /-- The segment never ends. -/
  | fails

namespace Search

/-- The search at the start of a segment. -/
def start (outcomes : Outcomes) : Search := ⟨.code, 0, [], outcomes⟩

/-- Brackets inside a nested group are its own matter. -/
def withDepth (s : Search) (f : Nat → Nat) : Search :=
  if s.groups.isEmpty then { s with depth := f s.depth } else s

/-- What the character `c` at an offset means in code. Only where `formats` says so does a colon
begin a format. -/
def stepCode (formats : Bool) (offset : Nat) (c : Char) (s : Search) : Step :=
  if c = '\'' then .next { s with mode := .string }
  else if c = '(' ∨ c = '[' then .next (s.withDepth (· + 1))
  else if c = ')' ∨ c = ']' then .next (s.withDepth (· - 1))
  else if c = ':' then
    if formats ∧ s.groups = [] ∧ s.depth = 0 then .next { s with mode := .format offset }
    else .next s
  else if c = '{' then
    match s.outcomes[offset]? with
    | some (some stop) => .next { s with mode := .group stop }
    | some none => .fails
    | none => .next { s with groups := offset :: s.groups }
  else if c = '}' then
    match s.groups with
    | [] => .ends none
    | group :: groups =>
      .next { s with groups, outcomes := s.outcomes.insert group (some offset) }
  else .next s

/-- What the character `c` at an offset means for the search. -/
def step (formats : Bool) (offset : Nat) (c : Char) (s : Search) : Step :=
  match s.mode with
  | .code => s.stepCode formats offset c
  | .string => .next (if c = '\'' then { s with mode := .code } else s)
  | .format colon =>
    if c = '}' ∨ c = ']' then .ends (some colon) else if c = '{' then .fails else .next s
  | .group stop => .next (if offset = stop then { s with mode := .code } else s)

/-- What is known when the search stops: no group that is still open ever closes. -/
def learned (s : Search) : Outcomes :=
  s.groups.foldl (fun outcomes group => outcomes.insert group none) s.outcomes

/-- Where the segment ends, `length` characters of which are read, and what is known then. -/
def run (formats : Bool) (length offset : Nat) (s : Search) : Text → Option End × Outcomes
  | [] => (none, s.learned)
  | c :: cs =>
    match s.step formats offset c with
    | .next s' => s'.run formats (length + 1) (offset + c.utf8Size) cs
    | .ends colon => (some ⟨length, offset, c, colon⟩, s.learned)
    | .fails => (none, s.learned)

end Search

/-- A segment whose first character behind white space is `#` holds a directive. -/
def isDirective (t : Text) : Bool :=
  (Text.trimStart t).head? == some '#'

/-- Where the segment ends whose opening brace the text `t` follows, at this offset. Directives have
no format. -/
def end? (outcomes : Outcomes) (offset : Nat) (t : Text) : Option End × Outcomes :=
  (Search.start outcomes).run (!isDirective t) 0 offset t

end Segment

end LogSyntax.ExpressionTemplate
