import LogSyntax.Proofs.Checked.Tokenizer
import LogSyntax.Proofs.MessageTemplate.Answers
import LogSyntax.Proofs.MessageTemplate.Regions
/-!
# Message templates, read through a cursor

The reader of a message template on a cursor keeps the parts of a hole as ranges of offsets and cuts
them from the template when the hole closes. It makes the steps of the reader that carries the text
ahead, and no step fails (`answer?_of`).
-/

namespace LogSyntax.Checked.Message

open Cursor
open LogSyntax.MessageTemplate (Stage Stretch Progress capture? isNameChar)

/-! ## Attempts -/

/-- A stretch of a template by the offsets of its ends. -/
structure Range where
  start : Nat
  stop : Nat

/-- What is found of a hole so far, by offsets. -/
structure Attempt where
  braceStart : Nat
  capture : Option (Capture × Nat)
  name : Option Range
  spaced : Bool
  alignment : Option Range
  format : Option Range

/-- Only the opening brace is found. -/
def Attempt.start (braceStart : Nat) : Attempt := ⟨braceStart, none, none, false, none, none⟩

/-- What stands in a range of the template, if there is anything in it. -/
def part? (input : Text) : Option Range → Option (Option Part)
  | none => some none
  | some range => (input.slice? range.start range.stop).map fun value =>
      Part.nonempty? ⟨value, range.start⟩

/-- The property of a hole that closes at an offset of the template, if it has a name without white
space in it. -/
def Attempt.finish? (input : Text) (a : Attempt) (braceEnd : Nat) : Option (Option Property) :=
  match a.name with
  | none => some none
  | some range => do
    let name := Text.trim (← input.slice? range.start range.stop)
    let alignment ← part? input a.alignment
    let format ← part? input a.format
    if name.isEmpty || name.any isBlank then return none
    else return some ⟨a.braceStart, braceEnd, a.capture, ⟨name, range.start⟩, alignment, format⟩

/-! ## The reader -/

/-- A reader of a message template. -/
structure Reader where
  cursor : Cursor
  stage : Stage
  attempt : Attempt

namespace Reader

/-- A reader in the literal text. -/
def start (z : Cursor) : Reader := ⟨z, .outside, .start 0⟩

/-- The reader back in the literal text. -/
def leave (r : Reader) : Reader := { r with stage := .outside }

/-- The reader behind the next character, in another stage and with what is found then. -/
def move? (r : Reader) (stage : Stage) (found : Nat → Attempt) : Option Reader :=
  r.cursor.bump?.map fun z => ⟨z, stage, found z.pos⟩

/-- The reader behind the next character. -/
def pass? (r : Reader) : Option Reader := r.move? r.stage fun _ => r.attempt

/-- The cursor behind the next closing brace, unless an opening brace comes first. -/
def resynchronize? (z : Cursor) : Option Cursor := do
  let z ← z.eatWhile? fun c => c != '{' && c != '}'
  let next ← z.peek? 0
  if next = some '}' then z.bump? else return z

/-- The reader gives up a hole. -/
def abandon? (r : Reader) : Option Reader :=
  (resynchronize? r.cursor).map ({ r.leave with cursor := · })

/-- The reader is at the closing brace of a hole. -/
def close? (r : Reader) : Option (Option Property × Reader) := do
  let behind ← r.cursor.bump?
  let found ← r.attempt.finish? r.cursor.input r.cursor.pos
  match found with
  | some property => return (some property, start behind)
  | none => return (none, { r.leave with cursor := behind })

/-- The reader enters an alignment behind its comma. -/
def enterAlignment? (r : Reader) : Option Reader :=
  r.move? .alignment fun o => { r.attempt with alignment := some ⟨o, o⟩ }

/-- The reader enters a format behind its colon. -/
def enterFormat? (r : Reader) : Option Reader :=
  r.move? .format fun o => { r.attempt with format := some ⟨o, o⟩ }

/-! ### The stages -/

/-- In literal text a doubled opening brace stands for itself. -/
def stepOutside? (r : Reader) (c : Char) : Option Reader := do
  let next ← r.cursor.peek? 1
  if c = '{' then
    if next = some '{' then (← r.pass?).pass? else r.move? .opening fun _ => .start r.cursor.pos
  else r.pass?

/-- White space may stand in front of the capture operator, and none between it and the name. -/
def stepOpening? (r : Reader) (c : Char) : Option Reader :=
  match (if r.attempt.capture.isNone then capture? c else none) with
  | some capture =>
    r.move? r.stage fun _ => { r.attempt with capture := some (capture, r.cursor.pos) }
  | none =>
    if isBlank c then
      if r.attempt.capture.isSome then r.abandon? else r.pass?
    else if isIdentChar c then
      r.move? .name fun o => { r.attempt with name := some ⟨r.cursor.pos, o⟩ }
    else if c = '}' then r.move? .outside fun _ => r.attempt
    else if c = '{' then some r.leave
    else r.abandon?

/-- The reader goes on. -/
def goes (r : Option Reader) : Option (Option Property × Reader) := r.map (none, ·)

/-- The name goes on until white space; then the hole must close, or a part follow. -/
def stepName? (r : Reader) (c : Char) : Option (Option Property × Reader) :=
  if isNameChar c then
    if r.attempt.spaced then goes r.abandon?
    else goes (r.move? r.stage fun o =>
      { r.attempt with name := r.attempt.name.map ({ · with stop := o }) })
  else if isBlank c then goes (r.move? r.stage fun _ => { r.attempt with spaced := true })
  else if c = ':' then goes r.enterFormat?
  else if c = ',' then goes r.enterAlignment?
  else if c = '}' then r.close?
  else if c = '{' then goes (some r.leave)
  else goes r.abandon?

/-- An alignment goes on to the closing brace or to a colon. -/
def stepAlignment? (r : Reader) (c : Char) : Option (Option Property × Reader) :=
  if c = ':' then goes r.enterFormat?
  else if c = '}' then r.close?
  else if c = '{' then goes (some r.leave)
  else if c = '|' then goes (r.move? .outside fun _ => r.attempt)
  else goes (r.move? r.stage fun o =>
    { r.attempt with alignment := r.attempt.alignment.map ({ · with stop := o }) })

/-- A doubled closing brace is part of a format, and the first two of a row make a pair. -/
def stepFormat? (r : Reader) (c : Char) : Option (Option Property × Reader) := do
  let next ← r.cursor.peek? 1
  let grown (o : Nat) : Attempt :=
    { r.attempt with format := r.attempt.format.map ({ · with stop := o }) }
  if c = '}' ∧ next = some '}' then goes ((← r.pass?).move? r.stage grown)
  else if c = '}' then r.close?
  else if c = '{' then goes (some r.leave)
  else if c = '|' then goes (r.move? .outside fun _ => r.attempt)
  else goes (r.move? r.stage grown)

/-- What the character `c` at the cursor means. -/
def step? (r : Reader) (c : Char) : Option (Option Property × Reader) :=
  match r.stage with
  | .outside => goes (r.stepOutside? c)
  | .opening => goes (r.stepOpening? c)
  | .name => r.stepName? c
  | .alignment => r.stepAlignment? c
  | .format => r.stepFormat? c

/-- How much is left to do. -/
def size (r : Reader) : Nat := 2 * r.cursor.left + if r.stage = .outside then 0 else 1

/-- One character of a template: the hole that is complete behind it, if there is one, and the
reader behind it, which begins anew behind a hole. -/
def answer? (r : Reader) : Option (Option (Option Property × Reader)) := do
  let next ← r.cursor.peek? 0
  match next with
  | none => return none
  | some c => return some (← r.step? c)

end Reader

/-! ## In the template -/

section Of

variable {t cs : Text} {c : Char} {p : Place} {r : MessageTemplate.Reader}

/-- The range of a stretch. -/
def Range.of (s : Stretch) : Range :=
  ⟨s.place.offset, s.place.offset + Text.bytes (s.place.rest.take s.length)⟩

/-- What is found of a hole, by offsets. -/
def Attempt.of (a : MessageTemplate.Attempt) : Attempt :=
  ⟨a.braceStart, a.capture, a.name.map .of, a.spaced, a.alignment.map .of, a.format.map .of⟩

/-- A reader of the text `t`, without what is ahead of it. -/
def Reader.of (t : Text) (r : MessageTemplate.Reader) : Reader :=
  ⟨.of t r.place, r.stage, .of r.attempt⟩

/-- The stretch, if there is one, lies in the text. -/
def Lies (t : Text) (s : Option Stretch) : Prop := ∀ x ∈ s, x.place.In t

/-- The stretch, if there is one, ends at a place. -/
def Ends (s : Option Stretch) (p : Place) : Prop := ∀ x ∈ s, x.place.advance x.length = p

/-- The stretch that is being read ends at the reader. -/
def Growing (r : MessageTemplate.Reader) : Prop :=
  match r.stage with
  | .outside | .opening => True
  | .name => r.attempt.spaced = false → Ends r.attempt.name r.place
  | .alignment => Ends r.attempt.alignment r.place
  | .format => Ends r.attempt.format r.place

/-- The reader and what it has found are in the text. -/
structure Sound (t : Text) (r : MessageTemplate.Reader) : Prop where
  place : r.place.In t
  name : Lies t r.attempt.name
  alignment : Lies t r.attempt.alignment
  format : Lies t r.attempt.format
  growing : Growing r

theorem slice?_of {s : Stretch} (hs : s.place.In t) :
    t.slice? (Range.of s).start (Range.of s).stop = some s.part.value := by
  obtain ⟨behind, rfl, hbytes⟩ := hs
  have hstands : Text.StandsAt (s.place.rest.take s.length) (behind ++ s.place.rest)
      s.place.offset :=
    ⟨behind, s.place.rest.drop s.length, by rw [List.take_append_drop], hbytes⟩
  exact hstands.slice?_eq

theorem part?_of {s : Option Stretch} (hs : Lies t s) :
    part? t (s.map .of) = some (s.bind (·.part.nonempty?)) := by
  cases s with
  | none => rfl
  | some s =>
    rw [Option.map_some, part?, slice?_of (hs s rfl)]
    rfl

/-- Every part of a hole is cut from the template where it stands. -/
theorem finish?_of (hr : Sound t r) (braceEnd : Nat) :
    (Attempt.of r.attempt).finish? t braceEnd = some (r.attempt.finish? braceEnd) := by
  have halignment := part?_of hr.alignment
  have hformat := part?_of hr.format
  have hname := hr.name
  unfold Attempt.finish? MessageTemplate.Attempt.finish?
  cases hcase : r.attempt.name with
  | none => simp [Attempt.of, hcase]
  | some s =>
    rw [hcase] at hname
    simp only [Attempt.of, hcase, Option.map_some, slice?_of (hname s rfl), halignment, hformat,
      Option.bind_eq_bind, Option.bind_some]
    split
    · rfl
    · rfl

namespace Reader

theorem move?_of {a : MessageTemplate.Attempt} {found : Nat → Attempt} (hp : r.place.In t)
    (hrest : r.place.rest = c :: cs) (stage : Stage)
    (hfound : found (r.place.advance 1).offset = .of a) :
    (of t r).move? stage found = some (of t ⟨r.place.advance 1, stage, a⟩) := by
  rw [move?, of, bump?_of hp hrest, Option.map_some]
  dsimp only [Cursor.of]
  rw [hfound]
  rfl

theorem resynchronize?_of (hp : p.In t) :
    resynchronize? (.of t p) = some (.of t (MessageTemplate.Reader.resynchronize p)) := by
  have hskip := hp.skip fun c => c != '{' && c != '}'
  simp only [resynchronize?, eatWhile?_of hp, peek?_of hskip, Option.bind_eq_bind, Option.bind_some,
    MessageTemplate.Reader.resynchronize, ← List.head?_eq_getElem?]
  split
  · next hclose =>
    obtain ⟨cs, hrest⟩ := List.head?_eq_some_iff.1 hclose
    exact bump?_of hskip hrest
  · rfl

theorem abandon?_of (hr : Sound t r) : (of t r).abandon? = some (of t r.abandon) := by
  rw [abandon?, of, resynchronize?_of hr.place]
  rfl

end Reader

/-! ### What a step comes to -/

/-- A step does not fail, and comes to where the step of the other reader comes to, in the text. -/
structure Follows (t : Text) (checked : Option (Option Property × Reader)) (progress : Progress) :
    Prop where
  sound : Sound t progress.answer.2
  eq : checked = some (progress.answer.1, .of t progress.answer.2)

theorem Sound.outside (hr : Sound t r) (hp : p.In t) : Sound t ⟨p, .outside, r.attempt⟩ :=
  ⟨hp, hr.name, hr.alignment, hr.format, trivial⟩

theorem Sound.opening (hr : Sound t r) (hp : p.In t) : Sound t ⟨p, .opening, r.attempt⟩ :=
  ⟨hp, hr.name, hr.alignment, hr.format, trivial⟩

theorem lies_none (t : Text) : Lies t none := fun _ h => nomatch h

theorem Sound.fresh (hp : p.In t) (stage : Stage) (hstage : stage = .outside ∨ stage = .opening)
    (braceStart : Nat) : Sound t ⟨p, stage, .start braceStart⟩ := by
  refine ⟨hp, lies_none t, lies_none t, lies_none t, ?_⟩
  rcases hstage with rfl | rfl
  · trivial
  · trivial

/-! #### Stretches that grow -/

variable {s : Option Stretch}

theorem Lies.grow (hs : Lies t s) (n : Nat) : Lies t (s.map (·.grow n)) := by
  rintro x hx
  obtain ⟨y, hy, rfl⟩ := Option.map_eq_some_iff.1 hx
  exact hs y hy

theorem Ends.grow (hs : Ends s p) (n : Nat) : Ends (s.map (·.grow n)) (p.advance n) := by
  rintro x hx
  obtain ⟨y, hy, rfl⟩ := Option.map_eq_some_iff.1 hx
  rw [← hs y hy, Place.advance_advance]
  rfl

/-- A stretch that grows up to the reader ends at its offset. -/
theorem Ends.map_stop (hs : Ends s p) (n : Nat) :
    (s.map Range.of).map ({ · with stop := (p.advance n).offset }) =
      (s.map (·.grow n)).map Range.of := by
  cases s with
  | none => rfl
  | some s =>
    rw [← hs.grow n (s.grow n) rfl]
    rfl

theorem ends_empty (p : Place) : Ends (some (.empty p)) p := by
  rintro x ⟨⟩
  exact Place.advance_zero p

namespace Reader

theorem follows_goes {checked : Option Reader} {r' : MessageTemplate.Reader} (hr' : Sound t r')
    (hchecked : checked = some (of t r')) : Follows t (goes checked) (.goes r') :=
  ⟨hr', by rw [hchecked]; rfl⟩

theorem follows_move {a : MessageTemplate.Attempt} {found : Nat → Attempt} {stage : Stage}
    (hp : r.place.In t) (hrest : r.place.rest = c :: cs)
    (hr' : Sound t ⟨r.place.advance 1, stage, a⟩)
    (hfound : found (r.place.advance 1).offset = .of a) :
    Follows t (goes ((of t r).move? stage found)) (.goes ⟨r.place.advance 1, stage, a⟩) :=
  follows_goes hr' (move?_of hp hrest stage hfound)

theorem follows_leave (hr : Sound t r) : Follows t (goes (some (of t r).leave)) (.goes r.leave) :=
  follows_goes (hr.outside hr.place) rfl

theorem follows_abandon (hr : Sound t r) : Follows t (goes (of t r).abandon?) (.goes r.abandon) :=
  follows_goes (hr.outside (MessageTemplate.Reader.in_resynchronize hr.place)) (abandon?_of hr)

theorem follows_close (hr : Sound t r) (hrest : r.place.rest = c :: cs) :
    Follows t (of t r).close? r.close := by
  have hbehind := hr.place.advance 1
  have hfinish := finish?_of hr r.place.offset
  have hclose : (of t r).close? = (match r.attempt.finish? r.place.offset with
      | some property => some (some property, of t (.start (r.place.advance 1)))
      | none => some (none, of t (r.pass 1).leave)) := by
    simp only [close?, of, bump?_of hr.place hrest, Option.bind_eq_bind, Option.bind_some]
    dsimp only [Cursor.of]
    rw [hfinish, Option.bind_some]
    cases r.attempt.finish? r.place.offset with
    | some property => rfl
    | none => rfl
  unfold MessageTemplate.Reader.close
  rw [hclose]
  cases r.attempt.finish? r.place.offset with
  | some property => exact ⟨.fresh hbehind _ (.inl rfl) 0, rfl⟩
  | none => exact ⟨hr.outside hbehind, rfl⟩

theorem follows_enterAlignment (hr : Sound t r) (hrest : r.place.rest = c :: cs) :
    Follows t (goes (of t r).enterAlignment?) (.goes r.enterAlignment) := by
  have hbehind := hr.place.advance 1
  refine follows_move hr.place hrest ⟨hbehind, hr.name, ?_, hr.format, ends_empty _⟩ ?_
  · rintro x ⟨⟩
    exact hbehind
  · simp [Attempt.of, of, Range.of, Stretch.empty]

theorem follows_enterFormat (hr : Sound t r) (hrest : r.place.rest = c :: cs) :
    Follows t (goes (of t r).enterFormat?) (.goes r.enterFormat) := by
  have hbehind := hr.place.advance 1
  refine follows_move hr.place hrest ⟨hbehind, hr.name, hr.alignment, ?_, ends_empty _⟩ ?_
  · rintro x ⟨⟩
    exact hbehind
  · simp [Attempt.of, of, Range.of, Stretch.empty]

/-! #### The stages -/

variable {a : MessageTemplate.Attempt}

theorem follows_stepOutside (hr : Sound t ⟨p, .outside, a⟩) (hrest : p.rest = c :: cs) :
    Follows t (goes ((of t ⟨p, .outside, a⟩).stepOutside? c))
      (.goes (MessageTemplate.Reader.stepOutside ⟨p, .outside, a⟩ c cs)) := by
  have hpass : (of t ⟨p, .outside, a⟩).pass? = some (of t ⟨p.advance 1, .outside, a⟩) :=
    move?_of hr.place hrest .outside rfl
  have hpeek : (of t ⟨p, .outside, a⟩).cursor.peek? 1 = some cs.head? := by
    rw [of, peek?_of hr.place, hrest, List.getElem?_cons_succ, List.head?_eq_getElem?]
  unfold stepOutside? MessageTemplate.Reader.stepOutside
  rw [hpeek, Option.bind_eq_bind, Option.bind_some]
  by_cases hopen : c = '{'
  · rw [if_pos hopen, if_pos hopen]
    by_cases hdouble : cs.head? = some '{'
    · rw [if_pos hdouble, if_pos hdouble, hpass, Option.bind_eq_bind, Option.bind_some]
      obtain ⟨d, hd⟩ := List.head?_eq_some_iff.1 hdouble
      have hbehind : (p.advance 1).rest = '{' :: d := by
        rw [Place.advance, hrest, hd]
        rfl
      have hsecond : (of t ⟨p.advance 1, .outside, a⟩).pass? =
          some (of t ⟨(p.advance 1).advance 1, .outside, a⟩) :=
        move?_of (hr.place.advance 1) hbehind .outside rfl
      rw [Place.advance_advance] at hsecond
      exact follows_goes (hr.outside (hr.place.advance 2)) hsecond
    · rw [if_neg hdouble, if_neg hdouble]
      exact follows_move hr.place hrest (.fresh (hr.place.advance 1) _ (.inr rfl) _) rfl
  · rw [if_neg hopen, if_neg hopen]
    exact follows_goes (hr.outside (hr.place.advance 1)) hpass

theorem follows_stepOpening (hr : Sound t ⟨p, .opening, a⟩) (hrest : p.rest = c :: cs) :
    Follows t (goes ((of t ⟨p, .opening, a⟩).stepOpening? c))
      (.goes (MessageTemplate.Reader.stepOpening ⟨p, .opening, a⟩ c)) := by
  have hbehind := hr.place.advance 1
  unfold stepOpening? MessageTemplate.Reader.stepOpening
  change Follows t (goes (match (if a.capture.isNone then capture? c else none) with
    | some capture => _
    | none => _)) _
  cases (if a.capture.isNone then capture? c else none) with
  | some capture =>
    exact follows_move hr.place hrest ⟨hbehind, hr.name, hr.alignment, hr.format, trivial⟩ rfl
  | none =>
    dsimp only
    by_cases hblank : isBlank c
    · rw [if_pos hblank, if_pos hblank]
      by_cases hcapture : a.capture.isSome
      · rw [if_pos hcapture, if_pos (by exact hcapture)]
        exact follows_abandon hr
      · rw [if_neg hcapture, if_neg (by exact hcapture)]
        exact follows_move hr.place hrest (hr.opening hbehind) rfl
    rw [if_neg hblank, if_neg hblank]
    by_cases hident : isIdentChar c
    · rw [if_pos hident, if_pos hident]
      refine follows_move hr.place hrest ⟨hbehind, ?_, hr.alignment, hr.format, fun _ => ?_⟩ rfl
      · rintro x ⟨⟩
        exact hr.place
      · rintro x ⟨⟩
        rfl
    rw [if_neg hident, if_neg hident]
    by_cases hclose : c = '}'
    · rw [if_pos hclose, if_pos hclose]
      exact follows_move hr.place hrest (hr.outside hbehind) rfl
    rw [if_neg hclose, if_neg hclose]
    by_cases hopen : c = '{'
    · rw [if_pos hopen, if_pos hopen]
      exact follows_leave hr
    · rw [if_neg hopen, if_neg hopen]
      exact follows_abandon hr

theorem follows_stepName (hr : Sound t ⟨p, .name, a⟩) (hrest : p.rest = c :: cs) :
    Follows t ((of t ⟨p, .name, a⟩).stepName? c)
      (MessageTemplate.Reader.stepName ⟨p, .name, a⟩ c) := by
  have hbehind := hr.place.advance 1
  unfold stepName? MessageTemplate.Reader.stepName
  by_cases hname : isNameChar c
  · rw [if_pos hname, if_pos hname]
    by_cases hspaced : a.spaced
    · rw [if_pos hspaced, if_pos (by exact hspaced)]
      exact follows_abandon hr
    · rw [if_neg hspaced, if_neg (by exact hspaced)]
      have hends := hr.growing (by simpa using hspaced)
      refine follows_move hr.place hrest
        ⟨hbehind, hr.name.grow 1, hr.alignment, hr.format, fun _ => hends.grow 1⟩ ?_
      exact congrArg (fun name => ({ Attempt.of a with name } : Attempt)) (hends.map_stop 1)
  rw [if_neg hname, if_neg hname]
  by_cases hblank : isBlank c
  · rw [if_pos hblank, if_pos hblank]
    exact follows_move hr.place hrest
      ⟨hbehind, hr.name, hr.alignment, hr.format, fun h => nomatch h⟩ rfl
  rw [if_neg hblank, if_neg hblank]
  by_cases hcolon : c = ':'
  · rw [if_pos hcolon, if_pos hcolon]
    exact follows_enterFormat hr hrest
  rw [if_neg hcolon, if_neg hcolon]
  by_cases hcomma : c = ','
  · rw [if_pos hcomma, if_pos hcomma]
    exact follows_enterAlignment hr hrest
  rw [if_neg hcomma, if_neg hcomma]
  by_cases hclose : c = '}'
  · rw [if_pos hclose, if_pos hclose]
    exact follows_close hr hrest
  rw [if_neg hclose, if_neg hclose]
  by_cases hopen : c = '{'
  · rw [if_pos hopen, if_pos hopen]
    exact follows_leave hr
  · rw [if_neg hopen, if_neg hopen]
    exact follows_abandon hr

theorem follows_stepAlignment (hr : Sound t ⟨p, .alignment, a⟩) (hrest : p.rest = c :: cs) :
    Follows t ((of t ⟨p, .alignment, a⟩).stepAlignment? c)
      (MessageTemplate.Reader.stepAlignment ⟨p, .alignment, a⟩ c) := by
  have hbehind := hr.place.advance 1
  have hends : Ends a.alignment p := hr.growing
  unfold stepAlignment? MessageTemplate.Reader.stepAlignment
  by_cases hcolon : c = ':'
  · rw [if_pos hcolon, if_pos hcolon]
    exact follows_enterFormat hr hrest
  rw [if_neg hcolon, if_neg hcolon]
  by_cases hclose : c = '}'
  · rw [if_pos hclose, if_pos hclose]
    exact follows_close hr hrest
  rw [if_neg hclose, if_neg hclose]
  by_cases hopen : c = '{'
  · rw [if_pos hopen, if_pos hopen]
    exact follows_leave hr
  rw [if_neg hopen, if_neg hopen]
  by_cases hbar : c = '|'
  · rw [if_pos hbar, if_pos hbar]
    exact follows_move hr.place hrest (hr.outside hbehind) rfl
  · rw [if_neg hbar, if_neg hbar]
    refine follows_move hr.place hrest
      ⟨hbehind, hr.name, hr.alignment.grow 1, hr.format, hends.grow 1⟩ ?_
    exact congrArg (fun alignment => ({ Attempt.of a with alignment } : Attempt)) (hends.map_stop 1)

theorem follows_stepFormat (hr : Sound t ⟨p, .format, a⟩) (hrest : p.rest = c :: cs) :
    Follows t ((of t ⟨p, .format, a⟩).stepFormat? c)
      (MessageTemplate.Reader.stepFormat ⟨p, .format, a⟩ c cs) := by
  have hbehind := hr.place.advance 1
  have hends : Ends a.format p := hr.growing
  have hpeek : (of t ⟨p, .format, a⟩).cursor.peek? 1 = some cs.head? := by
    rw [of, peek?_of hr.place, hrest, List.getElem?_cons_succ, List.head?_eq_getElem?]
  unfold stepFormat? MessageTemplate.Reader.stepFormat
  rw [hpeek, Option.bind_eq_bind, Option.bind_some]
  dsimp only
  by_cases hpair : c = '}' ∧ cs.head? = some '}'
  · rw [if_pos hpair, if_pos hpair]
    obtain ⟨d, rfl⟩ := List.head?_eq_some_iff.1 hpair.2
    have hsecond : (p.advance 1).rest = '}' :: d := by
      rw [Place.advance, hrest]
      rfl
    have hpass : (of t ⟨p, .format, a⟩).pass? = some (of t ⟨p.advance 1, .format, a⟩) :=
      move?_of hr.place hrest .format rfl
    have hmove {found : Nat → Attempt} (hfound : found ((p.advance 1).advance 1).offset =
        .of { a with format := a.format.map (·.grow 2) }) :
        (of t ⟨p.advance 1, .format, a⟩).move? .format found = some (of t
          ⟨(p.advance 1).advance 1, .format, { a with format := a.format.map (·.grow 2) }⟩) :=
      move?_of hbehind hsecond .format hfound
    simp only [Place.advance_advance] at hmove
    rw [hpass, Option.bind_eq_bind, Option.bind_some]
    refine follows_goes
      ⟨hr.place.advance 2, hr.name, hr.alignment, hr.format.grow 2, hends.grow 2⟩ (hmove ?_)
    exact congrArg (fun format => ({ Attempt.of a with format } : Attempt)) (hends.map_stop 2)
  rw [if_neg hpair, if_neg hpair]
  by_cases hclose : c = '}'
  · rw [if_pos hclose, if_pos hclose]
    exact follows_close hr hrest
  rw [if_neg hclose, if_neg hclose]
  by_cases hopen : c = '{'
  · rw [if_pos hopen, if_pos hopen]
    exact follows_leave hr
  rw [if_neg hopen, if_neg hopen]
  by_cases hbar : c = '|'
  · rw [if_pos hbar, if_pos hbar]
    exact follows_move hr.place hrest (hr.outside hbehind) rfl
  · rw [if_neg hbar, if_neg hbar]
    refine follows_move hr.place hrest
      ⟨hbehind, hr.name, hr.alignment, hr.format.grow 1, hends.grow 1⟩ ?_
    exact congrArg (fun format => ({ Attempt.of a with format } : Attempt)) (hends.map_stop 1)

theorem follows_step (hr : Sound t r) (hrest : r.place.rest = c :: cs) :
    Follows t ((of t r).step? c) (r.step c cs) := by
  obtain ⟨p, stage, a⟩ := r
  cases stage with
  | outside => exact follows_stepOutside hr hrest
  | opening => exact follows_stepOpening hr hrest
  | name => exact follows_stepName hr hrest
  | alignment => exact follows_stepAlignment hr hrest
  | format => exact follows_stepFormat hr hrest

/-- A reader does not fail in its template, and it makes the steps of the one that knows what is
ahead. -/
theorem answer?_of (hr : Sound t r) :
    (of t r).answer? = some (r.answer?.map fun (found, r') => (found, of t r')) := by
  have hpeek : (of t r).cursor.peek? 0 = some r.place.rest.head? := by
    rw [of, peek?_of hr.place, List.head?_eq_getElem?]
  rw [answer?, hpeek, Option.bind_eq_bind, Option.bind_some, MessageTemplate.Reader.answer?]
  cases hrest : r.place.rest with
  | nil => rfl
  | cons c cs =>
    rw [List.head?_cons]
    dsimp only
    rw [(follows_step hr hrest).eq]
    rfl

theorem size_of (hr : Sound t r) : (of t r).size = r.size := by
  rw [size, of, left_of hr.place]
  rfl

theorem sound_answer? {r' : MessageTemplate.Reader} {found : Option Property} (hr : Sound t r)
    (hanswer : r.answer? = some (found, r')) : Sound t r' := by
  unfold MessageTemplate.Reader.answer? at hanswer
  split at hanswer
  · contradiction
  · next c cs hrest =>
    have hsound := (follows_step hr hrest).sound
    rwa [Option.some.inj hanswer] at hsound

end Reader

end Of

/-! ## Templates -/

/-- The holes of a template, one for each character behind which one is complete. -/
def parse? (t : Text) : Option (List Property) :=
  (drain? Reader.answer? Reader.size (.start ⟨t, 0⟩)).map (·.filterMap id)

theorem parse?_eq (t : Text) : parse? t = some (LogSyntax.MessageTemplate.parse t) := by
  have hdrain : drain? Reader.answer? Reader.size (.start ⟨t, 0⟩) =
      some ((drain MessageTemplate.Reader.answer? MessageTemplate.Reader.size
        MessageTemplate.Reader.answer?_shrinks (.start (.start t))).map id) :=
    drain?_eq (Reader.of t) id (Sound t) (fun _ hr => Reader.answer?_of hr)
      (fun _ _ _ hr => Reader.sound_answer? hr) (fun _ hr => Reader.size_of hr) (.start (.start t))
      (.fresh (Place.start_in t) _ (.inl rfl) 0)
  rw [parse?, hdrain, List.map_id, LogSyntax.MessageTemplate.parse_eq_answers]
  rfl

/-- The category of a capture operator. -/
def captureCategory : Capture → Category
  | .stringify => .stringifyOperator
  | .destructure => .destructureOperator

/-- The region of a capture operator, which is cut from the template. -/
def captureRegions? (t : Text) : Option (Capture × Nat) → Option (List Region)
  | none => some []
  | some (capture, index) =>
    (t.slice? index (index + 1)).map (Region.visible (captureCategory capture) index)

/-- The regions of a property of the template. -/
def regions? (t : Text) (p : Property) : Option (List Region) :=
  let part (category : Category) (part : Option Part) : List Region :=
    part.elim [] fun part => Region.visible category part.start part.value
  (captureRegions? t p.capture).map fun operator =>
    Region.visible .propertyBrace p.braceStart ['{'] ++ operator ++
      Region.visible (if p.kind = .positional then .positionalIndex else .propertyName)
        p.name.start p.name.value ++
      part .alignment p.alignment ++ part .formatSpecifier p.format ++
      Region.visible .propertyBrace p.braceEnd ['}']

/-- The regions of a message template. -/
def classify? (t : Text) : Option (List Region) := do
  let properties ← parse? t
  let regions ← properties.mapM (regions? t)
  return regions.flatten

/-- The text of a region of the template is where the region says. -/
theorem slice?_of_mem {region : Region}
    (hregion : region ∈ LogSyntax.MessageTemplate.classify t) :
    t.slice? region.start (region.start + Text.bytes region.text) = some region.text :=
  ((LogSyntax.MessageTemplate.shown_classify t).standsAt [] rfl region hregion).slice?_eq

theorem regions?_of {property : Property}
    (hproperty : property ∈ LogSyntax.MessageTemplate.parse t) :
    regions? t property = some property.regions := by
  have hslice (category : Category) (start : Nat) (text : Text)
      (hregion : (⟨category, start, text⟩ : Region) ∈ property.regions) :
      t.slice? start (start + Text.bytes text) = some text :=
    slice?_of_mem (List.mem_flatMap.2 ⟨property, hproperty, hregion⟩)
  obtain ⟨braceStart, braceEnd, capture, name, alignment, format⟩ := property
  rcases capture with - | ⟨- | -, index⟩
  · cases alignment <;> cases format <;> rfl
  · have hoperator : t.slice? index (index + 1) = some ['@'] :=
      hslice .destructureOperator index ['@'] (by simp [Property.regions, Region.visible])
    rw [regions?, captureRegions?, hoperator]
    cases alignment <;> cases format <;> rfl
  · have hoperator : t.slice? index (index + 1) = some ['$'] :=
      hslice .stringifyOperator index ['$'] (by simp [Property.regions, Region.visible])
    rw [regions?, captureRegions?, hoperator]
    cases alignment <;> cases format <;> rfl

/-- Showing the holes of a template does not fail. -/
theorem classify?_eq (t : Text) : classify? t = some (LogSyntax.MessageTemplate.classify t) := by
  rw [classify?, parse?_eq, Option.bind_eq_bind, Option.bind_some,
    mapM_some fun property hproperty => regions?_of hproperty]
  rfl

end LogSyntax.Checked.Message
