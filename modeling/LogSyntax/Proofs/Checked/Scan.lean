import LogSyntax.Proofs.Checked.ExpressionTemplate
import LogSyntax.Proofs.Reaches
/-!
# Expression templates, octet by octet

A reader of an expression template that knows its offset alone goes over literal text octet by
octet, so it is inside a character at times. It comes upon a brace only where one stands, and there
it cuts out what the reader of characters reads. So it is where that one is, or inside the character
that that one is about to pass over (`Stands`), and one step of it leads from the one to the other
(`Stands.turn`). It shows the same, then (`classify?_eq`), and between two characters it is the
reader of characters without what is ahead (`exists_of`, `reaches_of`).
-/

namespace LogSyntax.Checked.Template

open LogSyntax.ExpressionTemplate (LoopNames Outcomes)

/-! ## The reader -/

/-- A reader of an expression template: the template, and the offset of an octet in it. -/
structure Scan where
  input : Text
  pos : Nat
  heuristics : Heuristics
  names : LoopNames
  outcomes : Outcomes

namespace Scan

/-- A reader that has read nothing of a template yet. -/
def start (h : Heuristics) (t : Text) : Scan := ⟨t, 0, h, [], ∅⟩

/-- The reader at another offset. -/
def jump (s : Scan) (pos : Nat) : Scan := { s with pos }

/-- How many octets are ahead. -/
def left (s : Scan) : Nat := Text.bytes s.input - s.pos

/-- The octet that stands `n` octets further on, if the template goes on so far. -/
def octet? (s : Scan) (n : Nat) : Option Char := (Text.octets s.input)[s.pos + n]?

/-- Reads what begins at the opening brace where the reader is. -/
def readSegment? (s : Scan) : Option (List Region × Scan) := do
  let bare ← readBare? s.input s.pos
  match bare with
  | some (directive, keyword) =>
    return ([⟨.propertyBrace, s.pos, ['{']⟩, ⟨.expressionDirective, s.pos + 1, keyword⟩],
      { s.jump (s.pos + 1 + Text.bytes keyword) with names := directive.scope s.names })
  | none =>
    let (found, outcomes) ← segmentEnd? s.input s.outcomes s.pos
    match found with
    | none => return ([], { s.jump (s.pos + 1) with outcomes })
    | some stop =>
      let (regions, names) ← segment? s.heuristics s.names s.input s.pos stop
      return (regions, { s.jump (stop + 1) with names, outcomes })

/-- One step of reading: a doubled brace, a segment, or an octet of literal text. -/
def next? (s : Scan) : Option (Option (List Region × Scan)) :=
  match s.octet? 0 with
  | none => some none
  | some b =>
    if (b = '{' ∨ b = '}') ∧ s.octet? 1 = some b then some (some ([], s.jump (s.pos + 2)))
    else if b = '{' then s.readSegment?.map some
    else some (some ([], s.jump (s.pos + 1)))

/-- The step that the reader takes, if it is not at its end and no cut fails. -/
def step? (s : Scan) : Option (List Region × Scan) := s.next?.join

end Scan

/-- The regions of an expression template. -/
def classify? (h : Heuristics) (t : Text) : Option (List Region) :=
  (drain? Scan.next? Scan.left (.start h t)).map (·.flatten)

/-! ## The reader of characters -/

namespace Scan

/-- The reader of characters in the text `t`, without what is ahead of it. -/
def of (t : Text) (x : ExpressionTemplate.Scan) : Scan :=
  ⟨t, x.place.offset, x.heuristics, x.names, x.outcomes⟩

/-- The reader of octets is where the reader `x` of characters is, or inside the character that `x`
is about to pass over. -/
inductive Stands (t : Text) (x : ExpressionTemplate.Scan) : Scan → Prop
  | between : Stands t x (of t x)
  | inside {c : Char} {cs : Text} {k : Nat} (hrest : x.place.rest = c :: cs) (hpos : 0 < k)
      (hlt : k < c.utf8Size) : Stands t x ((of t x).jump (x.place.offset + k))

/-- What one step of the reader of octets comes to for a reader `x` of characters. -/
inductive Turn (t : Text) (x : ExpressionTemplate.Scan) (s : Scan) : Prop
  /-- Both are at their end. -/
  | ends (hx : x.next? ExpressionTemplate.Segment.end? = none) (hs : s.next? = some none)
  /-- The character is not passed yet. -/
  | stays {s' : Scan} (hs : s.next? = some (some ([], s'))) (hstands : Stands t x s')
      (hless : s'.left < s.left)
  /-- Both have taken one step of the reader of characters. -/
  | moves {regions : List Region} {x' : ExpressionTemplate.Scan}
      (hx : x.next? ExpressionTemplate.Segment.end? = some (regions, x'))
      (hs : s.next? = some (some (regions, of t x'))) (hless : (of t x').left < s.left)

variable {t cs : Text} {x : ExpressionTemplate.Scan} {s s' : Scan} {c : Char} {k n : Nat}

theorem readSegment?_of (hx : x.Knows t) (hrest : x.place.rest = '{' :: cs) :
    (of t x).readSegment? =
      some ((x.readSegment ExpressionTemplate.Segment.end? cs).1,
        of t (x.readSegment ExpressionTemplate.Segment.end? cs).2) := by
  obtain ⟨⟨o, ahead⟩, h, names, outcomes⟩ := x
  obtain rfl : ahead = '{' :: cs := hrest
  obtain ⟨⟨behind, rfl, rfl⟩, hsound⟩ := hx
  simp only [readSegment?, of, readBare?_eq, Option.bind_eq_bind, Option.bind_some,
    ExpressionTemplate.Scan.readSegment]
  cases hbare : ExpressionTemplate.Directive.readBare? cs with
  | some found =>
    obtain ⟨directive, keyword⟩ := found
    obtain ⟨-, tail, rfl⟩ := ExpressionTemplate.Directive.prefix_of_readBare? hbare
    have hpassed : Text.bytes behind + 1 + Text.bytes keyword =
        Text.bytes behind + Text.bytes (('{' :: (keyword ++ tail)).take (keyword.length + 1)) := by
      rw [List.take_succ_cons, List.take_left, Text.bytes_cons, Nat.add_assoc]
      rfl
    dsimp only
    rw [hpassed]
    rfl
  | none =>
    dsimp only
    rw [segmentEnd?_eq hsound]
    cases hend : ExpressionTemplate.Segment.end? outcomes (Text.bytes behind + 1) cs with
    | mk found learned =>
      cases found with
      | none => rfl
      | some e =>
        have hfound := congrArg Prod.fst hend
        obtain ⟨hoffset, hmark⟩ := ExpressionTemplate.Segment.end?_eq_some hfound
        have hsize := utf8Size_mark (ExpressionTemplate.Segment.Search.mark_of_run hfound)
        have hpassed : e.offset + 1 =
            Text.bytes behind + Text.bytes (('{' :: cs).take (e.length + 2)) := by
          have hlast : Text.bytes [e.mark] = 1 := by
            rw [Text.bytes_cons, hsize, Text.bytes_nil]
          rw [hoffset, List.take_succ_cons, List.take_add, hmark, Text.bytes_cons,
            Text.bytes_append, List.take_succ_cons, List.take_zero, hlast, Nat.add_assoc,
            Nat.add_assoc]
          rfl
        dsimp only [Option.map_some, Option.bind_some]
        rw [segment?_eq h names behind cs hoffset hmark hsize, Option.bind_some, hpassed]
        rfl

theorem octet?_of (hx : x.place.In t) :
    (of t x).octet? 0 = (Text.octets x.place.rest).head? := by
  obtain ⟨behind, rfl, hoffset⟩ := hx
  show (Text.octets (behind ++ x.place.rest))[x.place.offset + 0]? = _
  rw [Nat.add_zero, ← hoffset, Text.getElem?_octets]

/-- The octet behind a character of ASCII doubles it if the next character does. -/
theorem octet?_second (hx : x.place.In t) (hrest : x.place.rest = c :: cs) (hc : IsAscii c) :
    (of t x).octet? 1 = some c ↔ cs.head? = some c := by
  obtain ⟨behind, rfl, hoffset⟩ := hx
  have hbytes : Text.bytes (behind ++ [c]) = x.place.offset + 1 := by
    rw [Text.bytes_append, hoffset, Text.bytes_cons, Text.utf8Size_ascii hc, Text.bytes_nil]
  show (Text.octets (behind ++ x.place.rest))[x.place.offset + 1]? = some c ↔ _
  rw [hrest, ← hbytes, List.append_cons, Text.getElem?_octets, Text.head?_octets hc]

theorem jump_of (hcs : x.place.rest.take n = cs) :
    (of t x).jump (x.place.offset + Text.bytes cs) = of t (x.pass n) := by
  rw [← hcs]
  rfl

/-- At a character of ASCII both readers take the same step. -/
theorem next?_ascii (hx : x.Knows t) (hrest : x.place.rest = c :: cs) (hc : IsAscii c) :
    (of t x).next? = some ((x.next? ExpressionTemplate.Segment.end?).map fun (regions, x') =>
      (regions, of t x')) := by
  have hsize : c.utf8Size = 1 := Text.utf8Size_ascii hc
  have hfirst : (of t x).octet? 0 = some c := by
    rw [octet?_of hx.1, hrest, Text.octets_cons, Text.octetsOf_ascii hc]
    rfl
  simp only [next?, hfirst, octet?_second hx.1 hrest hc, ExpressionTemplate.Scan.next?, hrest]
  by_cases hpair : (c = '{' ∨ c = '}') ∧ cs.head? = some c
  · obtain ⟨ds, rfl⟩ := List.head?_eq_some_iff.1 hpair.2
    have hjump : (of t x).jump (x.place.offset + Text.bytes [c, c]) = of t (x.pass 2) :=
      jump_of (by rw [hrest]; rfl)
    rw [Text.bytes_cons, Text.bytes_cons, hsize] at hjump
    rw [if_pos hpair, if_pos hpair]
    exact congrArg (fun s => some (some ([], s))) hjump
  rw [if_neg hpair, if_neg hpair]
  by_cases hopen : c = '{'
  · subst hopen
    rw [if_pos rfl, if_pos rfl, readSegment?_of hx hrest]
    rfl
  · have hjump : (of t x).jump (x.place.offset + Text.bytes [c]) = of t (x.pass 1) :=
      jump_of (by rw [hrest]; rfl)
    rw [Text.bytes_cons, hsize] at hjump
    rw [if_neg hopen, if_neg hopen]
    exact congrArg (fun s => some (some ([], s))) hjump

/-- In a character beyond ASCII the reader of octets passes over one octet. -/
theorem next?_beyond (hx : x.place.In t) (hrest : x.place.rest = c :: cs) (hc : ¬ IsAscii c)
    (hk : k < c.utf8Size) : ((of t x).jump (x.place.offset + k)).next? =
      some (some ([], (of t x).jump (x.place.offset + k + 1))) := by
  obtain ⟨b, hoctet, hb⟩ := Text.octet_beyond hx hrest hc hk
  have hopen : b ≠ '{' := ne_of_not_isAscii hb (by decide)
  have hclose : b ≠ '}' := ne_of_not_isAscii hb (by decide)
  have hfirst : ((of t x).jump (x.place.offset + k)).octet? 0 = some b := hoctet
  simp only [next?, hfirst, hopen, hclose, or_self, false_and, if_false]
  rfl

/-- The reader of characters passes over the whole of it. -/
theorem pass_beyond (hrest : x.place.rest = c :: cs) (hc : ¬ IsAscii c) :
    x.next? ExpressionTemplate.Segment.end? = some ([], x.pass 1) := by
  have hopen : c ≠ '{' := ne_of_not_isAscii hc (by decide)
  have hclose : c ≠ '}' := ne_of_not_isAscii hc (by decide)
  simp [ExpressionTemplate.Scan.next?, hrest, hopen, hclose]

/-! ## Both readers -/

theorem left_lt (hinput : s.input = t) (hinput' : s'.input = t) (hlt : s.pos < s'.pos)
    (hle : s'.pos ≤ Text.bytes t) : s'.left < s.left := by
  rw [left, left, hinput, hinput']
  omega

/-- A character beyond ASCII is passed octet by octet. -/
theorem turn_beyond (hx : x.place.In t) (hrest : x.place.rest = c :: cs) (hc : ¬ IsAscii c)
    (hk : k < c.utf8Size) : Turn t x ((of t x).jump (x.place.offset + k)) := by
  have hnext := next?_beyond hx hrest hc hk
  have hless : ((of t x).jump (x.place.offset + k + 1)).left <
      ((of t x).jump (x.place.offset + k)).left := by
    refine left_lt (t := t) rfl rfl (Nat.lt_succ_self _) ?_
    rw [hx.bytes_eq, hrest, Text.bytes_cons]
    show x.place.offset + k + 1 ≤ _
    omega
  rcases Nat.lt_or_ge (k + 1) c.utf8Size with hlt | hge
  · exact .stays hnext (.inside hrest (Nat.succ_pos k) hlt) hless
  · -- that was the last octet of the character
    have hlast : k + 1 = Text.bytes [c] := by
      rw [Text.bytes_cons, Text.bytes_nil]
      omega
    have hjump : (of t x).jump (x.place.offset + k + 1) = of t (x.pass 1) := by
      rw [Nat.add_assoc, hlast]
      exact jump_of (by rw [hrest]; rfl)
    rw [hjump] at hnext hless
    exact .moves (pass_beyond hrest hc) hnext hless

/-- At a character of ASCII both readers take a step. -/
theorem turn_ascii (hx : x.Knows t) (hrest : x.place.rest = c :: cs) (hc : IsAscii c) :
    Turn t x (of t x) := by
  have hnext := next?_ascii hx hrest hc
  cases hread : x.next? ExpressionTemplate.Segment.end? with
  | none => exact .ends hread (by rw [hnext, hread]; rfl)
  | some found =>
    obtain ⟨regions, x'⟩ := found
    have hle : x'.place.offset ≤ Text.bytes t := by
      rw [(hx.next hread).1.bytes_eq]
      exact Nat.le_add_right _ _
    exact .moves hread (by rw [hnext, hread]; rfl)
      (left_lt rfl rfl (ExpressionTemplate.Scan.offset_lt_of_next? hread) hle)

/-- At the end of the text there is no octet. -/
theorem turn_end (hx : x.place.In t) (hrest : x.place.rest = []) : Turn t x (of t x) := by
  have hend : x.next? ExpressionTemplate.Segment.end? = none := by
    rw [ExpressionTemplate.Scan.next?, hrest]
  have hoctet : (of t x).octet? 0 = none := by
    rw [octet?_of hx, hrest]
    rfl
  exact .ends hend (by rw [next?, hoctet])

/-- A step of the reader of octets is one of three. -/
theorem Stands.turn (hs : Stands t x s) (hx : x.Knows t) : Turn t x s := by
  cases hs with
  | inside hrest hpos hlt =>
    -- a character of ASCII has no inside
    refine turn_beyond hx.1 hrest (fun hc => ?_) hlt
    rw [Text.utf8Size_ascii hc] at hlt
    omega
  | between =>
    cases hrest : x.place.rest with
    | nil => exact turn_end hx.1 hrest
    | cons c cs =>
      by_cases hc : IsAscii c
      · exact turn_ascii hx hrest hc
      · exact turn_beyond hx.1 hrest hc c.utf8Size_pos

/-- The reader of octets does not fail. -/
theorem Stands.next?_ne_none (hs : Stands t x s) (hx : x.Knows t) : s.next? ≠ none := by
  cases hs.turn hx with
  | ends _ hnext => simp [hnext]
  | stays hnext _ _ => simp [hnext]
  | moves _ hnext _ => simp [hnext]

theorem Stands.input_eq (hs : Stands t x s) : s.input = t := by
  cases hs with
  | between => rfl
  | inside => rfl

theorem Stands.pos_le (hs : Stands t x s) (hx : x.place.In t) : s.pos ≤ Text.bytes t := by
  rw [hx.bytes_eq]
  cases hs with
  | between => exact Nat.le_add_right _ _
  | inside hrest hpos hlt =>
    rw [hrest, Text.bytes_cons]
    show x.place.offset + _ ≤ _
    omega

/-- Between two characters the reader of octets is the reader of characters, without what is ahead
of it. -/
theorem Stands.eq_of (hs : Stands t x s) (hx : x.place.In t) (hpos : Text.IsBoundary t s.pos) :
    s = of t x := by
  cases hs with
  | between => rfl
  | inside hrest hk hlt => exact absurd hpos (Text.not_isBoundary_inside hx hrest hk hlt)

/-! ## What is shown -/

/-- The reader of octets reads on to the end of its text, and shows what is ahead of the reader of
characters. -/
theorem Stands.drain? (hs : Stands t x s) (hx : x.Knows t) :
    (drain? next? left s).map (·.flatten) = some x.ahead := by
  -- an octet of a character shows nothing, so the induction is on the octets ahead
  induction hn : s.left using Nat.strongRecOn generalizing x s with
  | ind n ih =>
    subst hn
    cases hs.turn hx with
    | ends hend hnext =>
      rw [Checked.drain?, hnext, ExpressionTemplate.Scan.ahead_of_none hend]
      rfl
    | stays hnext hstands hless =>
      rw [drain?_of_some hnext hless, Option.map_map]
      exact ih _ hless hstands hx rfl
    | moves hmove hnext hless =>
      have hrest := ih _ hless .between (hx.next hmove) rfl
      obtain ⟨items, hitems, hflat⟩ := Option.map_eq_some_iff.1 hrest
      rw [drain?_of_some hnext hless, hitems, ExpressionTemplate.Scan.ahead_of_some hmove, ← hflat]
      rfl

end Scan

/-- Showing the segments of a template does not fail. -/
theorem classify?_eq (h : Heuristics) (t : Text) :
    classify? h t = some (ExpressionTemplate.classify h t) :=
  Scan.Stands.drain? .between (ExpressionTemplate.Scan.knows_start h t)

/-! ## The states of both readers -/

namespace Scan

variable {h : Heuristics} {t : Text} {x x' : ExpressionTemplate.Scan} {s s' s₀ : Scan}
  {regions : List Region}

theorem step?_of_next? (hs : s.next? = some (some (regions, s'))) :
    s.step? = some (regions, s') := by
  rw [step?, hs]
  rfl

/-- In every state the reader of octets is where a reader of characters is, or inside the character
ahead of it. -/
theorem exists_stands (hs : Reaches step? (start h t) s) :
    ∃ x, Reaches (ExpressionTemplate.Scan.next? ExpressionTemplate.Segment.end?) (.start h t) x ∧
      x.Knows t ∧ Stands t x s := by
  induction hs with
  | start => exact ⟨_, .start, ExpressionTemplate.Scan.knows_start h t, .between⟩
  | @next s₁ s₂ regions _ hstep ih =>
    obtain ⟨x, hreach, hx, hstands⟩ := ih
    have hnext : s₁.next? = some (some (regions, s₂)) := Option.join_eq_some_iff.1 hstep
    cases hstands.turn hx with
    | ends _ hs =>
      rw [hs] at hnext
      cases hnext
    | stays hs hstays _ =>
      rw [hs] at hnext
      cases hnext
      exact ⟨x, hreach, hx, hstays⟩
    | moves hmove hs _ =>
      rw [hs] at hnext
      cases hnext
      exact ⟨_, .next hreach hmove, hx.next hmove, .between⟩

/-- From wherever it is in a character, the reader of octets comes to where the reader of characters
goes next. -/
theorem Stands.reaches (hs : Stands t x s) (hx : x.Knows t) (hreach : Reaches step? s₀ s)
    (hnext : x.next? ExpressionTemplate.Segment.end? = some (regions, x')) :
    Reaches step? s₀ (of t x') := by
  induction hn : s.left using Nat.strongRecOn generalizing s with
  | ind n ih =>
    subst hn
    cases hs.turn hx with
    | ends hend _ =>
      rw [hend] at hnext
      contradiction
    | stays hs hstands hless => exact ih _ hless hstands (hreach.next (step?_of_next? hs)) rfl
    | moves hmove hs _ =>
      rw [hmove] at hnext
      cases hnext
      exact hreach.next (step?_of_next? hs)

/-- The reader of octets comes to every state of the reader of characters. -/
theorem reaches_of
    (hx : Reaches (ExpressionTemplate.Scan.next? ExpressionTemplate.Segment.end?) (.start h t) x) :
    Reaches step? (start h t) (of t x) := by
  have hboth : x.Knows t ∧ Reaches step? (start h t) (of t x) := by
    refine hx.invariant (P := fun x => x.Knows t ∧ Reaches step? (start h t) (of t x))
      ⟨ExpressionTemplate.Scan.knows_start h t, .start⟩ ?_
    rintro x regions x' ⟨hknows, hreach⟩ hnext
    exact ⟨hknows.next hnext, Stands.between.reaches hknows hreach hnext⟩
  exact hboth.2

end Scan

end LogSyntax.Checked.Template
