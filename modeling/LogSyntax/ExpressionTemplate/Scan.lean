import LogSyntax.ExpressionTemplate.Hole
import LogSyntax.ExpressionTemplate.Segment
/-!
# Reading an expression template

An expression template is literal text with segments in braces; a doubled brace stands for itself.
A segment is a directive or a hole. One that never ends shows nothing, and reading goes on behind
its brace, so that the segments inside it are found. Besides its place the reader carries the names
that loops have bound and what is known of nested groups. How the end of a segment is found is left
open; a template is read with the search that keeps what it learns.
-/

namespace LogSyntax.ExpressionTemplate

/-- The regions inside the braces of a segment whose trimmed body is `t`, at this offset, and the
names that are bound behind it. -/
def bodyRegions (h : Heuristics) (names : LoopNames) (offset : Nat) (t : Text) :
    List Region × LoopNames :=
  match t with
  | '#' :: cs => Directive.classify h names offset cs
  | _ =>
    match Indexer.read? t with
    | some indexer => (indexer.regions h offset, names)
    | none => (Hole.regions h names offset t, names)

/-- The regions of a segment that begins at `start`, has the text `t` between its braces and ends as
`e` says, and the names that are bound behind it. A blank segment shows nothing. -/
def segmentRegions (h : Heuristics) (names : LoopNames) (start : Nat) (t : Text)
    (e : Segment.End) : List Region × LoopNames :=
  let body := Text.trim t
  if body.isEmpty then ([], names)
  else
    let opening : Region := ⟨.propertyBrace, start, ['{']⟩
    let offset := opening.stop + Text.bytes (t.takeWhile isBlank)
    let (regions, names') := bodyRegions h names offset body
    (opening :: (regions ++ [⟨.propertyBrace, e.offset, [e.mark]⟩]), names')

/-- What finds the end of a segment. It is told what is known of nested groups and the offset and
the text behind the opening brace, and answers where the segment ends and what is known then. -/
abbrev Finder := Outcomes → Nat → Text → Option Segment.End × Outcomes

/-- A reader of an expression template. -/
structure Scan where
  place : Place
  heuristics : Heuristics
  names : LoopNames
  outcomes : Outcomes

namespace Scan

/-- A reader that has read nothing yet. -/
def start (h : Heuristics) (t : Text) : Scan := ⟨.start t, h, [], ∅⟩

/-- Passes over `n` characters. -/
def pass (s : Scan) (n : Nat) : Scan := { s with place := s.place.advance n }

/-- Reads the directive without closing brace, or the segment, or the brace alone, that begins at
the opening brace which the text `t` follows. -/
def readSegment (find : Finder) (s : Scan) (t : Text) : List Region × Scan :=
  match Directive.readBare? t with
  | some (directive, keyword) =>
    let opening : Region := ⟨.propertyBrace, s.place.offset, ['{']⟩
    ([opening, ⟨.expressionDirective, opening.stop, keyword⟩],
      { s.pass (keyword.length + 1) with names := directive.scope s.names })
  | none =>
    match find s.outcomes (s.place.offset + 1) t with
    | (none, outcomes) => ([], { s.pass 1 with outcomes })
    | (some e, outcomes) =>
      let (regions, names) :=
        segmentRegions s.heuristics s.names s.place.offset (t.take e.length) e
      (regions, { s.pass (e.length + 2) with names, outcomes })

/-- One step of reading: a doubled brace, a segment, or a character of literal text. A reader that
goes over literal text octet by octet is inside a character at times; the states here are the ones
where it is between two characters, and it comes to all of them
(`Checked.Template.Scan.exists_stands`, `Checked.Template.Scan.reaches_of`). -/
def next? (find : Finder) (s : Scan) : Option (List Region × Scan) :=
  match s.place.rest with
  | [] => none
  | c :: cs =>
    if (c = '{' ∨ c = '}') ∧ cs.head? = some c then some ([], s.pass 2)
    else if c = '{' then some (s.readSegment find cs)
    else some ([], s.pass 1)

theorem length_rest_pass_lt {s : Scan} {n : Nat} (hs : s.place.rest ≠ []) (hn : n ≠ 0) :
    (s.pass n).place.rest.length < s.place.rest.length :=
  Place.length_rest_advance_lt hs hn

theorem length_rest_readSegment_lt (find : Finder) {s : Scan} (hs : s.place.rest ≠ []) (t : Text) :
    (s.readSegment find t).2.place.rest.length < s.place.rest.length := by
  unfold readSegment
  split
  · exact length_rest_pass_lt hs (Nat.succ_ne_zero _)
  · split
    · exact length_rest_pass_lt hs (Nat.succ_ne_zero _)
    · exact length_rest_pass_lt hs (Nat.succ_ne_zero _)

theorem next?_shrinks (find : Finder) : Shrinks (next? find) (·.place.rest.length) := by
  intro s regions s' h
  unfold next? at h
  split at h
  · contradiction
  · next c cs hrest =>
    have hne : s.place.rest ≠ [] := by simp [hrest]
    split at h
    · cases h; exact length_rest_pass_lt hne (Nat.succ_ne_zero _)
    · split at h
      · have hread : (s.readSegment find cs).2 = s' := congrArg Prod.snd (Option.some.inj h)
        exact hread ▸ length_rest_readSegment_lt find hne cs
      · cases h; exact length_rest_pass_lt hne (Nat.succ_ne_zero _)

/-- The regions ahead, step by step. -/
def steps (find : Finder) (s : Scan) : List (List Region) :=
  drain (next? find) (·.place.rest.length) (next?_shrinks find) s

end Scan

/-- The regions of an expression template, when the ends of its segments are found so. -/
def classifyWith (find : Finder) (h : Heuristics) (t : Text) : List Region :=
  ((Scan.start h t).steps find).flatten

/-- The regions of an expression template. -/
def classify (h : Heuristics) (t : Text) : List Region :=
  classifyWith Segment.end? h t

end LogSyntax.ExpressionTemplate
