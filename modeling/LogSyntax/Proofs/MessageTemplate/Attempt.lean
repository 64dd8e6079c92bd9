import LogSyntax.Proofs.MessageTemplate.Answers
import LogSyntax.Proofs.MessageTemplate.Reading
import LogSyntax.Proofs.Reaches
/-!
# What an attempt has found

While a hole is read, the reader stands behind the beginning of one that the grammar allows, and its
attempt holds the pieces of this hole where they are written (`Hole.reader`); nothing is left in it
of a hole that was given up. So a closing brace always completes a property, the one that the
grammar gives the hole (`Reader.attempt_exact`).
-/

namespace LogSyntax.MessageTemplate

variable {t cs : Text} {c : Char}

theorem IsName.concat {name : Text} (hname : IsName name) (hc : isNameChar c) :
    IsName (name ++ [c]) := by
  obtain ⟨d, ds, rfl, hd, hds⟩ := hname
  have hall : (ds ++ [c]).all isNameChar := by simp [hds, hc]
  exact ⟨d, ds ++ [c], rfl, hd, hall⟩

theorem IsFormat.append {f g : Text} (hf : IsFormat f) (hg : IsFormat g) : IsFormat (f ++ g) := by
  induction hf with
  | nil => exact hg
  | char hopen hclose hbar _ ih => exact .char hopen hclose hbar ih
  | pair _ ih => exact .pair ih

/-! ## Holes that are begun -/

/-- The stretch that is `text`, behind the text `front` and in front of `ahead`. -/
def Stretch.between (front text ahead : Text) : Stretch :=
  ⟨⟨Text.bytes front, text ++ ahead⟩, text.length⟩

theorem Stretch.part_between (front text ahead : Text) :
    (between front text ahead).part = ⟨text, Text.bytes front⟩ := by
  simp [between, part]

namespace Hole

/-- A hole without its closing brace: what stands in a template while the hole is read. -/
def opened (x : Hole) : Text :=
  '{' :: (x.lead ++ (captureText x.capture ++ (x.name ++ (x.trail ++
    (partText ',' x.alignment ++ partText ':' x.format)))))

/-- The stage of the last piece that is begun. -/
def stage (x : Hole) : Stage :=
  if x.format.isSome then .format else if x.alignment.isSome then .alignment else .name

/-- What is found of a hole that stands between two texts and is not closed yet: each stretch is
its piece. -/
def attempt (x : Hole) (behind ahead : Text) : Attempt :=
  let sign := behind ++ '{' :: x.lead
  let name := sign ++ captureText x.capture
  let alignment := name ++ (x.name ++ x.trail)
  let format := alignment ++ partText ',' x.alignment
  { braceStart := Text.bytes behind
    capture := x.capture.map (·, Text.bytes sign)
    name := some (.between name x.name
      (x.trail ++ (partText ',' x.alignment ++ (partText ':' x.format ++ ahead))))
    spaced := !x.trail.isEmpty
    alignment := x.alignment.map (.between (alignment ++ [',']) · (partText ':' x.format ++ ahead))
    format := x.format.map (.between (format ++ [':']) · ahead) }

/-- The reader behind a hole that is not closed yet. -/
def reader (x : Hole) (behind ahead : Text) : Reader :=
  ⟨⟨Text.bytes (behind ++ x.opened), ahead⟩, x.stage, x.attempt behind ahead⟩

/-- A hole that goes no further than white space behind its name has no parts to look at. -/
theorem valid_named {lead name trail : Text} (capture : Option Capture)
    (hlead : lead.all isBlank) (hname : IsName name) (htrail : trail.all isBlank) :
    Valid ⟨lead, capture, name, trail, none, none⟩ :=
  ⟨hlead, hname, htrail, by simp, by simp⟩

/-- What is found of a hole makes the property that the grammar gives it. -/
theorem finish?_attempt {x : Hole} (hx : x.Valid) (behind ahead : Text) :
    (x.attempt behind ahead).finish? (Text.bytes (behind ++ x.opened)) =
      some (x.property (Text.bytes behind)) := by
  rw [Reader.finish?_of_isName hx.name rfl]
  have hopen : '{'.utf8Size = 1 := rfl
  have hcomma : ','.utf8Size = 1 := rfl
  have hcolon : ':'.utf8Size = 1 := rfl
  obtain ⟨lead, capture, name, trail, alignment, format⟩ := x
  cases alignment <;> cases format <;>
    simp [attempt, property, opened, partText, Stretch.part_between, Nat.add_assoc, hopen, hcomma,
      hcolon]

end Hole

namespace Reader

/-- The reader in front of the name of a hole. -/
def opening (behind lead : Text) (capture : Option Capture) (ahead : Text) : Reader :=
  ⟨⟨Text.bytes (behind ++ '{' :: (lead ++ Hole.captureText capture)), ahead⟩, .opening,
    ⟨Text.bytes behind, capture.map (·, Text.bytes (behind ++ '{' :: lead)), none, false, none,
      none⟩⟩

/-- What a reader of the template has found of a hole is what stands behind it. -/
inductive Tracks (t : Text) : Reader → Prop
  | outside {p : Place} {a : Attempt} (hp : p.In t) : Tracks t ⟨p, .outside, a⟩
  | opening {behind lead ahead : Text} {capture : Option Capture}
      (ht : t = behind ++ ('{' :: (lead ++ Hole.captureText capture) ++ ahead))
      (hlead : lead.all isBlank) : Tracks t (opening behind lead capture ahead)
  | hole {behind ahead : Text} {x : Hole} (ht : t = behind ++ (x.opened ++ ahead))
      (hx : x.Valid) : Tracks t (x.reader behind ahead)

theorem Tracks.place {r : Reader} (hr : Tracks t r) : r.place.In t := by
  cases hr with
  | outside hp => exact hp
  | opening ht => exact ⟨_, by rw [ht, ← List.append_assoc]; rfl, rfl⟩
  | hole ht => exact ⟨_, by rw [ht, ← List.append_assoc]; rfl, rfl⟩

/-! ## What a step comes to

One lemma for each stage, and from them the step: each piece of a hole either takes the character,
which makes a longer hole, or gives the hole up or completes it. -/

/-- What a step may come to: the reader goes on behind a character, it gives up a hole in front of
an opening brace, or a hole is complete. -/
inductive Turn (t : Text) (r : Reader) (c : Char) : Progress → Prop
  | passes {r' : Reader} (hr' : Tracks t r')
      (hlt : r'.place.rest.length < r.place.rest.length) : Turn t r c (.goes r')
  | leaves (hc : c = '{') (hp : r.place.In t) : Turn t r c (.goes r.leave)
  | finds {property : Property} (hp : (r.place.advance 1).In t) :
      Turn t r c (.finds property (r.place.advance 1))

variable {r : Reader} {p : Place} {a : Attempt} {behind lead name trail s f : Text}
  {capture : Option Capture} {alignment : Option Text}

theorem length_rest_resynchronize_lt (hrest : p.rest = c :: cs) (hopen : c ≠ '{')
    (hclose : c ≠ '}') : (resynchronize p).rest.length < p.rest.length := by
  have hskip : (p.skip fun c => c != '{' && c != '}').rest.length < p.rest.length := by
    have hdrop : (p.skip fun c => c != '{' && c != '}').rest =
        cs.dropWhile fun c => c != '{' && c != '}' := by
      rw [Place.skip, hrest, List.dropWhile_cons_of_pos (by simp [hopen, hclose])]
    rw [hdrop, hrest, List.length_cons]
    exact Nat.lt_succ_of_le (List.dropWhile_suffix _).length_le
  unfold resynchronize
  dsimp only
  split
  · exact Nat.lt_of_le_of_lt (Place.length_rest_advance_le _ 1) hskip
  · exact hskip

theorem turn_pass (hp : r.place.In t) (hrest : r.place.rest = c :: cs) (n : Nat) (a : Attempt) :
    Turn t r c (.goes ⟨r.place.advance (n + 1), .outside, a⟩) :=
  .passes (.outside (hp.advance _))
    (Place.length_rest_advance_lt (by simp [hrest]) (Nat.succ_ne_zero n))

theorem turn_abandon (hp : r.place.In t) (hrest : r.place.rest = c :: cs) (hopen : c ≠ '{')
    (hclose : c ≠ '}') : Turn t r c (.goes r.abandon) :=
  .passes (.outside (in_resynchronize hp)) (length_rest_resynchronize_lt hrest hopen hclose)

theorem turn_opening {r' : Reader} (behind lead : Text) (capture : Option Capture)
    (hrest : r.place.rest = c :: cs) (heq : r' = opening behind lead capture cs)
    (ht : t = behind ++ ('{' :: (lead ++ Hole.captureText capture) ++ cs))
    (hlead : lead.all isBlank) : Turn t r c (.goes r') := by
  rw [heq]
  exact .passes (.opening ht hlead) (by simp [hrest, opening])

theorem turn_hole {r' : Reader} {x : Hole} (hrest : r'.place.rest.length < r.place.rest.length)
    (heq : r' = x.reader behind cs) (ht : t = behind ++ (x.opened ++ cs)) (hx : x.Valid) :
    Turn t r c (.goes r') :=
  .passes (heq ▸ .hole ht hx) hrest

/-! ### In front of the name -/

theorem turn_stepOutside (hp : p.In t) (hrest : p.rest = c :: cs) :
    Turn t ⟨p, .outside, a⟩ c (.goes (stepOutside ⟨p, .outside, a⟩ c cs)) := by
  unfold stepOutside
  split
  · next hc =>
    split
    · exact turn_pass hp hrest 1 a
    · obtain ⟨behind, ht, hbytes⟩ := hp
      rw [hrest, hc] at ht
      refine turn_opening behind [] none hrest ?_ (by simp [← ht, Hole.captureText]) rfl
      simp [opening, Place.advance, hrest, hc, hbytes, Hole.captureText]
      rfl
  · exact turn_pass hp hrest 0 a

theorem turn_stepOpening
    (ht : t = behind ++ ('{' :: (lead ++ Hole.captureText capture) ++ c :: cs))
    (hlead : lead.all isBlank) :
    Turn t (opening behind lead capture (c :: cs)) c
      ((opening behind lead capture (c :: cs)).step c cs) := by
  have hp : (opening behind lead capture (c :: cs)).place.In t := (Tracks.opening ht hlead).place
  have hrest : (opening behind lead capture (c :: cs)).place.rest = c :: cs := rfl
  cases hsign : (if capture.isNone then capture? c else none) with
  | some sign =>
    obtain rfl : capture = none := by
      cases capture with
      | none => rfl
      | some capture => contradiction
    have hwritten : [c] = Hole.captureText (some sign) := captureText_of_capture? hsign
    have hstep : (opening behind lead none (c :: cs)).step c cs = _ :=
      step_opening_capture _ rfl hsign
    rw [hstep]
    refine turn_opening behind lead (some sign) hrest ?_ ?_ hlead
    · simp only [opening, ← hwritten]
      simp [Hole.captureText, Nat.add_assoc]
    · rw [← hwritten]
      simpa [Hole.captureText] using ht
  | none =>
    have hnone : (if (opening behind lead capture (c :: cs)).attempt.capture.isNone then capture? c
        else none) = none := by
      simpa [opening] using hsign
    have hstep : (opening behind lead capture (c :: cs)).step c cs = _ := step_opening _ hnone
    rw [hstep]
    by_cases hblank : isBlank c
    · rw [if_pos hblank]
      split
      · exact turn_abandon hp hrest (ne_open_of_isBlank hblank) (ne_close_of_isBlank hblank)
      · next hcapture =>
        obtain rfl : capture = none := by simpa using hcapture
        refine turn_opening behind (lead ++ [c]) none hrest ?_ ?_ (by simp [hlead, hblank])
        · simp [opening, Hole.captureText, Nat.add_assoc]
        · simpa [Hole.captureText] using ht
    rw [if_neg hblank]
    by_cases hident : isIdentChar c
    · rw [if_pos hident]
      refine turn_hole (x := ⟨lead, capture, [c], [], none, none⟩) (Nat.lt_succ_self _) ?_
        (by simpa [Hole.opened, Hole.partText] using ht)
        (Hole.valid_named capture hlead ⟨c, [], rfl, hident, rfl⟩ rfl)
      simp [Hole.reader, Hole.opened, Hole.stage, Hole.attempt, Hole.partText, Stretch.between,
        Nat.add_assoc]
    rw [if_neg hident]
    by_cases hclose : c = '}'
    · rw [if_pos hclose]
      exact turn_pass hp hrest 0 _
    rw [if_neg hclose]
    by_cases hopen : c = '{'
    · rw [if_pos hopen]
      exact .leaves hopen hp
    · rw [if_neg hopen]
      exact turn_abandon hp hrest hopen hclose

/-! ### In a hole -/

/-- A piece that takes the next characters makes a longer hole. -/
theorem turn_longer {x : Hole} (x' : Hole) {more : Text} (hmore : more ≠ [])
    (ht : t = behind ++ (x.opened ++ (more ++ cs))) (hopened : x'.opened = x.opened ++ more)
    (hattempt : a = x'.attempt behind cs) (hx' : x'.Valid) :
    Turn t (x.reader behind (more ++ cs)) c
      (.goes ⟨(x.reader behind (more ++ cs)).place.advance more.length, x'.stage, a⟩) := by
  have hplace : (x.reader behind (more ++ cs)).place.advance more.length =
      ⟨Text.bytes (behind ++ x'.opened), cs⟩ := by
    simp [Hole.reader, Place.advance, hopened, Nat.add_assoc]
  rw [hplace, hattempt]
  refine .passes (.hole (by simp [ht, hopened]) hx') ?_
  have := List.length_pos_iff.2 hmore
  simp only [Hole.reader, List.length_append]
  omega

/-- A closing brace completes a hole. -/
theorem close_reader {x : Hole} (hx : x.Valid) (behind ahead : Text) :
    (x.reader behind ahead).close =
      .finds (x.property (Text.bytes behind)) ((x.reader behind ahead).place.advance 1) := by
  unfold close
  rw [show (x.reader behind ahead).attempt.finish? (x.reader behind ahead).place.offset = _ from
    x.finish?_attempt hx behind ahead]

theorem turn_close {x : Hole} (ht : t = behind ++ (x.opened ++ cs)) (hx : x.Valid) :
    Turn t (x.reader behind cs) c (x.reader behind cs).close := by
  rw [close_reader hx]
  exact .finds ((Tracks.hole ht hx).place.advance 1)

/-- Where a reader may go on to a format: behind the name or behind an alignment. -/
theorem turn_enterFormat
    (ht : t =
      behind ++ ((⟨lead, capture, name, trail, alignment, none⟩ : Hole).opened ++ ':' :: cs))
    (hx : (⟨lead, capture, name, trail, alignment, none⟩ : Hole).Valid) :
    Turn t (Hole.reader ⟨lead, capture, name, trail, alignment, none⟩ behind (':' :: cs)) ':'
      (.goes (enterFormat
        (Hole.reader ⟨lead, capture, name, trail, alignment, none⟩ behind (':' :: cs)))) := by
  have hempty : ∀ f, some ([] : Text) = some f → IsFormat f := by
    rintro f ⟨⟩
    exact .nil
  refine turn_longer ⟨lead, capture, name, trail, alignment, some []⟩
    (List.cons_ne_nil ':' []) ht ?_ ?_ ⟨hx.lead, hx.name, hx.trail, hx.alignment, hempty⟩
  · simp [Hole.opened, Hole.partText]
  · simp [Hole.reader, Hole.attempt, Hole.opened, Hole.partText, Stretch.between, Stretch.empty,
      Nat.add_assoc]

theorem turn_stepName
    (ht : t = behind ++ ((⟨lead, capture, name, trail, none, none⟩ : Hole).opened ++ c :: cs))
    (hx : (⟨lead, capture, name, trail, none, none⟩ : Hole).Valid) :
    Turn t (Hole.reader ⟨lead, capture, name, trail, none, none⟩ behind (c :: cs)) c
      (stepName (Hole.reader ⟨lead, capture, name, trail, none, none⟩ behind (c :: cs)) c) := by
  have hp := (Tracks.hole ht hx).place
  have hrest : (Hole.reader ⟨lead, capture, name, trail, none, none⟩ behind (c :: cs)).place.rest =
    c :: cs := rfl
  have hmore : [c] ≠ [] := List.cons_ne_nil c []
  unfold stepName
  by_cases hname : isNameChar c
  · rw [if_pos hname]
    split
    · exact turn_abandon hp hrest (ne_open_of_isNameChar hname) (ne_close_of_isNameChar hname)
    · next hspaced =>
      obtain rfl : trail = [] := by simpa [Hole.reader, Hole.attempt] using hspaced
      refine turn_longer ⟨lead, capture, name ++ [c], [], none, none⟩ hmore ht ?_ ?_
        (Hole.valid_named capture hx.lead (hx.name.concat hname) rfl)
      · simp [Hole.opened, Hole.partText]
      · simp [Hole.reader, Hole.attempt, Hole.partText, Stretch.between, Stretch.grow]
  rw [if_neg hname]
  by_cases hblank : isBlank c
  · rw [if_pos hblank]
    refine turn_longer ⟨lead, capture, name, trail ++ [c], none, none⟩ hmore ht ?_ ?_
      (Hole.valid_named capture hx.lead hx.name (by simp [hx.trail, hblank]))
    · simp [Hole.opened, Hole.partText]
    · simp [Hole.reader, Hole.attempt, Hole.partText]
  rw [if_neg hblank]
  by_cases hcolon : c = ':'
  · rw [if_pos hcolon]
    subst hcolon
    exact turn_enterFormat ht hx
  rw [if_neg hcolon]
  by_cases hcomma : c = ','
  · rw [if_pos hcomma]
    subst hcomma
    have hempty : ∀ s, some ([] : Text) = some s → s.all isAlignmentChar := by
      rintro s ⟨⟩
      rfl
    refine turn_longer ⟨lead, capture, name, trail, some [], none⟩ hmore ht ?_ ?_
      ⟨hx.lead, hx.name, hx.trail, hempty, hx.format⟩
    · simp [Hole.opened, Hole.partText]
    · simp [Hole.reader, Hole.attempt, Hole.opened, Hole.partText, Stretch.between, Stretch.empty,
        Nat.add_assoc]
  rw [if_neg hcomma]
  by_cases hclose : c = '}'
  · rw [if_pos hclose]
    exact turn_close ht hx
  rw [if_neg hclose]
  by_cases hopen : c = '{'
  · rw [if_pos hopen]
    exact .leaves hopen hp
  · rw [if_neg hopen]
    exact turn_abandon hp hrest hopen hclose

theorem turn_stepAlignment
    (ht : t = behind ++ ((⟨lead, capture, name, trail, some s, none⟩ : Hole).opened ++ c :: cs))
    (hx : (⟨lead, capture, name, trail, some s, none⟩ : Hole).Valid) :
    Turn t (Hole.reader ⟨lead, capture, name, trail, some s, none⟩ behind (c :: cs)) c
      (stepAlignment (Hole.reader ⟨lead, capture, name, trail, some s, none⟩ behind (c :: cs))
        c) := by
  have hp := (Tracks.hole ht hx).place
  have hrest : (Hole.reader ⟨lead, capture, name, trail, some s, none⟩ behind (c :: cs)).place.rest
    = c :: cs := rfl
  unfold stepAlignment
  by_cases hcolon : c = ':'
  · rw [if_pos hcolon]
    subst hcolon
    exact turn_enterFormat ht hx
  rw [if_neg hcolon]
  by_cases hclose : c = '}'
  · rw [if_pos hclose]
    exact turn_close ht hx
  rw [if_neg hclose]
  by_cases hopen : c = '{'
  · rw [if_pos hopen]
    exact .leaves hopen hp
  rw [if_neg hopen]
  by_cases hbar : c = '|'
  · rw [if_pos hbar]
    exact turn_pass hp hrest 0 _
  rw [if_neg hbar]
  have hlonger : ∀ s', some (s ++ [c]) = some s' → s'.all isAlignmentChar := by
    rintro s' ⟨⟩
    simp [hx.alignment s rfl, isAlignmentChar, hcolon, hclose, hopen, hbar]
  refine turn_longer ⟨lead, capture, name, trail, some (s ++ [c]), none⟩ (List.cons_ne_nil c []) ht
    ?_ ?_ ⟨hx.lead, hx.name, hx.trail, hlonger, hx.format⟩
  · simp [Hole.opened, Hole.partText]
  · simp [Hole.reader, Hole.attempt, Hole.partText, Stretch.between, Stretch.grow]

/-- A format takes one character, or a pair of closing braces. -/
theorem turn_longerFormat (more : Text) (hmore : more ≠ []) (hformat : IsFormat more)
    (ht : t =
      behind ++ ((⟨lead, capture, name, trail, alignment, some f⟩ : Hole).opened ++ (more ++ cs)))
    (hx : (⟨lead, capture, name, trail, alignment, some f⟩ : Hole).Valid)
    (hr : r = Hole.reader ⟨lead, capture, name, trail, alignment, some f⟩ behind (more ++ cs)) :
    Turn t r c (.goes { r.pass more.length with
      attempt := { r.attempt with format := r.attempt.format.map (·.grow more.length) } }) := by
  have hlonger : ∀ f', some (f ++ more) = some f' → IsFormat f' := by
    rintro f' ⟨⟩
    exact (hx.format f rfl).append hformat
  subst hr
  refine turn_longer ⟨lead, capture, name, trail, alignment, some (f ++ more)⟩ hmore ht ?_ ?_
    ⟨hx.lead, hx.name, hx.trail, hx.alignment, hlonger⟩
  · simp [Hole.opened, Hole.partText]
  · simp [Hole.reader, Hole.attempt, Hole.partText, Stretch.between, Stretch.grow]

theorem turn_stepFormat
    (ht : t =
      behind ++ ((⟨lead, capture, name, trail, alignment, some f⟩ : Hole).opened ++ c :: cs))
    (hx : (⟨lead, capture, name, trail, alignment, some f⟩ : Hole).Valid) :
    Turn t (Hole.reader ⟨lead, capture, name, trail, alignment, some f⟩ behind (c :: cs)) c
      (stepFormat (Hole.reader ⟨lead, capture, name, trail, alignment, some f⟩ behind (c :: cs)) c
        cs) := by
  have hp := (Tracks.hole ht hx).place
  have hrest : (Hole.reader ⟨lead, capture, name, trail, alignment, some f⟩ behind
    (c :: cs)).place.rest = c :: cs := rfl
  unfold stepFormat
  by_cases hpair : c = '}' ∧ cs.head? = some '}'
  · rw [if_pos hpair]
    obtain ⟨rfl, hhead⟩ := hpair
    obtain ⟨cs, rfl⟩ := List.head?_eq_some_iff.1 hhead
    exact turn_longerFormat ['}', '}'] (List.cons_ne_nil _ _) (.pair .nil) ht hx rfl
  rw [if_neg hpair]
  by_cases hclose : c = '}'
  · rw [if_pos hclose]
    exact turn_close ht hx
  rw [if_neg hclose]
  by_cases hopen : c = '{'
  · rw [if_pos hopen]
    exact .leaves hopen hp
  rw [if_neg hopen]
  by_cases hbar : c = '|'
  · rw [if_pos hbar]
    exact turn_pass hp hrest 0 _
  rw [if_neg hbar]
  exact turn_longerFormat [c] (List.cons_ne_nil c []) (.char hopen hclose hbar .nil) ht hx rfl

/-! ## The states of a reader -/

theorem turn_step (hr : Tracks t r) (hrest : r.place.rest = c :: cs) :
    Turn t r c (r.step c cs) := by
  cases hr with
  | outside hp => exact turn_stepOutside hp hrest
  | opening ht hlead =>
    obtain rfl : _ = c :: cs := hrest
    exact turn_stepOpening ht hlead
  | @hole behind ahead x ht hx =>
    obtain rfl : ahead = c :: cs := hrest
    obtain ⟨lead, capture, name, trail, alignment, format⟩ := x
    match alignment, format with
    | _, some f => exact turn_stepFormat ht hx
    | some s, none => exact turn_stepAlignment ht hx
    | none, none => exact turn_stepName ht hx

theorem Tracks.answer? (hr : Tracks t r) {found : Option Property} {r' : Reader}
    (h : r.answer? = some (found, r')) : Tracks t r' := by
  unfold Reader.answer? at h
  split at h
  · contradiction
  · next c cs hrest =>
    have hturn := turn_step hr hrest
    revert h
    generalize r.step c cs = progress at hturn
    cases hturn with
    | passes hr' => rintro ⟨⟩; exact hr'
    | leaves _ hp => rintro ⟨⟩; exact .outside hp
    | finds hp => rintro ⟨⟩; exact .outside hp

theorem tracks_of_reaches (hr : Reaches Reader.answer? (.start (.start t)) r) : Tracks t r :=
  hr.invariant (.outside ⟨[], rfl, rfl⟩) fun _ _ _ hr h => hr.answer? h

/-- The attempt at a hole is exact. In every state in a hole, from its name on, the reader stands
behind the beginning `x` of a hole that the grammar allows, and the attempt holds the pieces of `x`
where they stand: the name right behind the opening brace, its white space and the capture operator,
the alignment behind the white space and the comma, the format behind its colon. So a closing brace
always completes the property of `x`, with the name as it is read. And a step that takes no
character goes back to the literal text at an opening brace, which the next step takes. -/
theorem attempt_exact (hr : Reaches Reader.answer? (.start (.start t)) r) :
    (r.stage = .name ∨ r.stage = .alignment ∨ r.stage = .format →
      ∃ (behind : Text) (x : Hole),
        t = behind ++ (x.opened ++ r.place.rest) ∧ x.Valid ∧ r = x.reader behind r.place.rest ∧
          (∀ d ∈ x.name, isBlank d = false) ∧ Text.trim x.name = x.name ∧
          r.attempt.finish? r.place.offset = some (x.property (Text.bytes behind)) ∧
          r.close = .finds (x.property (Text.bytes behind)) (r.place.advance 1)) ∧
    ∀ c cs r', r.place.rest = c :: cs → r.step c cs = .goes r' →
      r'.place.rest.length < r.place.rest.length ∨
        c = '{' ∧ r' = r.leave ∧
          ∃ r'', r'.step c cs = .goes r'' ∧ r''.place.rest.length < r'.place.rest.length := by
  have htracks := tracks_of_reaches hr
  constructor
  · intro hstage
    cases htracks with
    | outside => rcases hstage with h | h | h <;> contradiction
    | opening => rcases hstage with h | h | h <;> contradiction
    | @hole behind ahead x ht hx =>
      have hblank : ∀ d ∈ x.name, isBlank d = false := fun d hd =>
        isBlank_of_isNameChar (List.all_eq_true.1 hx.name.all_isNameChar d hd)
      exact ⟨behind, x, ht, hx, rfl, hblank, trim_of_isName hx.name,
        Hole.finish?_attempt hx behind ahead, close_reader hx behind ahead⟩
  · intro c cs r' hrest hstep
    have hturn := turn_step htracks hrest
    rw [hstep] at hturn
    cases hturn with
    | passes _ hlt => exact .inl hlt
    | leaves hc =>
      have hmoves : Moves r.leave (r.leave.stepOutside c cs) :=
        moves_stepOutside (by simp [leave, hrest])
      exact .inr ⟨hc, rfl, _, rfl, hmoves.resolve_right fun h => h.2.2 rfl⟩

/-- The first hole breaks off at the second opening brace, and the attempt at the second hole, with
its empty alignment and its pair of closing braces, has nothing of it. -/
theorem attempt_exact_trace : ∃ r,
    Reaches Reader.answer?
      (.start (.start ['{', 'x', '{', '@', 'é', ' ', ',', ':', '}', '}'])) r ∧
    r.stage = .format ∧
    ∃ (behind : Text) (x : Hole),
      ['{', 'x', '{', '@', 'é', ' ', ',', ':', '}', '}'] = behind ++ (x.opened ++ r.place.rest) ∧
        x.Valid ∧ r = x.reader behind r.place.rest ∧
        r.close = .finds (x.property (Text.bytes behind)) (r.place.advance 1) := by
  let x : Hole := ⟨[], some .destructure, ['é'], [' '], some [], some ['}', '}']⟩
  have hr : Reaches Reader.answer?
      (.start (.start ['{', 'x', '{', '@', 'é', ' ', ',', ':', '}', '}']))
      (x.reader ['{', 'x'] []) :=
    .next (.next (.next (.next (.next (.next (.next (.next (.next (.next .start rfl) rfl) rfl) rfl)
      rfl) rfl) rfl) rfl) rfl) rfl
  obtain ⟨behind, x, ht, hx, hreader, -, -, -, hclose⟩ := (attempt_exact hr).1 (.inr (.inr rfl))
  exact ⟨_, hr, rfl, behind, x, ht, hx, hreader, hclose⟩

end Reader

end LogSyntax.MessageTemplate
