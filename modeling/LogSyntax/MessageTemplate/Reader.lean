import LogSyntax.MessageTemplate.Attempt
/-!
# Reading the holes of a message template

The reader goes through a template character by character, and what a character means depends on the
stage it is in. A hole that breaks off brings it back to the literal text: on an opening brace it
stays where it is, so that the brace begins the next attempt; after a character that fits nowhere it
goes on behind the next closing brace.
-/

namespace LogSyntax.MessageTemplate

/-- What the reader is passing over. -/
inductive Stage where
  /-- Literal text. -/
  | outside
  /-- What stands between the opening brace and the name. -/
  | opening
  /-- The name and white space behind it. -/
  | name
  /-- An alignment. -/
  | alignment
  /-- A format. -/
  | format
deriving DecidableEq, Repr

/-- A reader at a place of a template. -/
structure Reader where
  place : Place
  stage : Stage
  attempt : Attempt

/-- What a character brings the reader to. -/
inductive Progress where
  /-- The reader goes on. -/
  | goes (r : Reader)
  /-- A hole is complete, and this place is behind it. -/
  | finds (property : Property) (p : Place)

namespace Reader

/-- A reader in the literal text. -/
def start (p : Place) : Reader := ⟨p, .outside, .start 0⟩

/-- The reader `n` characters further on. -/
def pass (r : Reader) (n : Nat) : Reader := { r with place := r.place.advance n }

/-- The reader back in the literal text. -/
def leave (r : Reader) : Reader := { r with stage := .outside }

/-- The place behind the next closing brace, unless an opening brace comes first. -/
def resynchronize (p : Place) : Place :=
  let q := p.skip (fun c => c != '{' && c != '}')
  if q.rest.head? = some '}' then q.advance 1 else q

/-- The reader gives up a hole at a character that fits nowhere. -/
def abandon (r : Reader) : Reader := { r.leave with place := resynchronize r.place }

/-- The reader is at the closing brace of a hole. -/
def close (r : Reader) : Progress :=
  match r.attempt.finish? r.place.offset with
  | some property => .finds property (r.place.advance 1)
  | none => .goes (r.pass 1).leave

/-- The reader enters an alignment behind its comma. -/
def enterAlignment (r : Reader) : Reader :=
  let p := r.place.advance 1
  ⟨p, .alignment, { r.attempt with alignment := some (.empty p) }⟩

/-- The reader enters a format behind its colon. -/
def enterFormat (r : Reader) : Reader :=
  let p := r.place.advance 1
  ⟨p, .format, { r.attempt with format := some (.empty p) }⟩

/-! ## The stages

What the character `c` means, when the text `t` follows it. -/

/-- In literal text a doubled opening brace stands for itself. -/
def stepOutside (r : Reader) (c : Char) (t : Text) : Reader :=
  if c = '{' then
    if t.head? = some '{' then r.pass 2 else ⟨r.place.advance 1, .opening, .start r.place.offset⟩
  else r.pass 1

/-- White space may stand in front of the capture operator, and none between it and the name. -/
def stepOpening (r : Reader) (c : Char) : Reader :=
  match (if r.attempt.capture.isNone then capture? c else none) with
  | some capture =>
    { r.pass 1 with attempt := { r.attempt with capture := some (capture, r.place.offset) } }
  | none =>
    if isBlank c then
      if r.attempt.capture.isSome then r.abandon else r.pass 1
    else if isIdentChar c then
      ⟨r.place.advance 1, .name, { r.attempt with name := some ⟨r.place, 1⟩ }⟩
    else if c = '}' then (r.pass 1).leave
    else if c = '{' then r.leave
    else r.abandon

/-- The name goes on until white space; then the hole must close, or a part follow. -/
def stepName (r : Reader) (c : Char) : Progress :=
  if isNameChar c then
    if r.attempt.spaced then .goes r.abandon
    else .goes { r.pass 1 with attempt := { r.attempt with name := r.attempt.name.map (·.grow 1) } }
  else if isBlank c then .goes { r.pass 1 with attempt := { r.attempt with spaced := true } }
  else if c = ':' then .goes r.enterFormat
  else if c = ',' then .goes r.enterAlignment
  else if c = '}' then r.close
  else if c = '{' then .goes r.leave
  else .goes r.abandon

/-- An alignment goes on to the closing brace or to a colon. -/
def stepAlignment (r : Reader) (c : Char) : Progress :=
  if c = ':' then .goes r.enterFormat
  else if c = '}' then r.close
  else if c = '{' then .goes r.leave
  else if c = '|' then .goes (r.pass 1).leave
  else
    .goes { r.pass 1 with
      attempt := { r.attempt with alignment := r.attempt.alignment.map (·.grow 1) } }

/-- A doubled closing brace is part of a format, and the first two of a row make a pair. -/
def stepFormat (r : Reader) (c : Char) (t : Text) : Progress :=
  if c = '}' ∧ t.head? = some '}' then
    .goes { r.pass 2 with attempt := { r.attempt with format := r.attempt.format.map (·.grow 2) } }
  else if c = '}' then r.close
  else if c = '{' then .goes r.leave
  else if c = '|' then .goes (r.pass 1).leave
  else
    .goes { r.pass 1 with attempt := { r.attempt with format := r.attempt.format.map (·.grow 1) } }

/-- What the character `c` means, when the text `t` follows it. -/
def step (r : Reader) (c : Char) (t : Text) : Progress :=
  match r.stage with
  | .outside => .goes (r.stepOutside c t)
  | .opening => .goes (r.stepOpening c)
  | .name => r.stepName c
  | .alignment => r.stepAlignment c
  | .format => r.stepFormat c t

/-! ## Reading goes forward -/

/-- The reader moves on, or goes back to the literal text where it stands. -/
def Moves (r r' : Reader) : Prop :=
  r'.place.rest.length < r.place.rest.length ∨
    r'.place.rest.length ≤ r.place.rest.length ∧ r'.stage = .outside ∧ r.stage ≠ .outside

theorem length_rest_resynchronize (p : Place) : (resynchronize p).rest.length ≤ p.rest.length := by
  have hskip := p.length_rest_skip_le (fun c => c != '{' && c != '}')
  unfold resynchronize
  dsimp only
  split
  · exact Nat.le_trans (Place.length_rest_advance_le _ 1) hskip
  · exact hskip

theorem moves_pass {r : Reader} (hr : r.place.rest ≠ []) (stage : Stage) (a : Attempt) (n : Nat) :
    Moves r ⟨r.place.advance (n + 1), stage, a⟩ :=
  .inl (Place.length_rest_advance_lt hr (Nat.succ_ne_zero n))

theorem moves_leave {r : Reader} (hr : r.stage ≠ .outside) : Moves r r.leave :=
  .inr ⟨Nat.le_refl _, rfl, hr⟩

theorem moves_abandon {r : Reader} (hr : r.stage ≠ .outside) : Moves r r.abandon :=
  .inr ⟨length_rest_resynchronize r.place, rfl, hr⟩

/-- What a step may lead to: the reader moves, or a hole ends behind the closing brace at which it
is found. -/
def Leads (r : Reader) : Progress → Prop
  | .goes r' => Moves r r'
  | .finds _ p => p = r.place.advance 1

theorem leads_close {r : Reader} (hr : r.place.rest ≠ []) : Leads r r.close := by
  unfold close
  split
  · rfl
  · exact moves_pass hr _ _ 0

theorem moves_stepOutside {r : Reader} {c : Char} {t : Text} (hr : r.place.rest ≠ []) :
    Moves r (r.stepOutside c t) := by
  unfold stepOutside
  split
  · split
    · exact moves_pass hr _ _ 1
    · exact moves_pass hr _ _ 0
  · exact moves_pass hr _ _ 0

theorem moves_stepOpening {r : Reader} {c : Char} (hr : r.place.rest ≠ [])
    (hstage : r.stage ≠ .outside) : Moves r (r.stepOpening c) := by
  unfold stepOpening
  split
  · exact moves_pass hr _ _ 0
  · split
    · split
      · exact moves_abandon hstage
      · exact moves_pass hr _ _ 0
    · split
      · exact moves_pass hr _ _ 0
      · split
        · exact moves_pass hr _ _ 0
        · split
          · exact moves_leave hstage
          · exact moves_abandon hstage

theorem leads_stepName {r : Reader} {c : Char} (hr : r.place.rest ≠ [])
    (hstage : r.stage ≠ .outside) : Leads r (r.stepName c) := by
  unfold stepName
  split
  · split
    · exact moves_abandon hstage
    · exact moves_pass hr _ _ 0
  · split
    · exact moves_pass hr _ _ 0
    · split
      · exact moves_pass hr _ _ 0
      · split
        · exact moves_pass hr _ _ 0
        · split
          · exact leads_close hr
          · split
            · exact moves_leave hstage
            · exact moves_abandon hstage

theorem leads_stepAlignment {r : Reader} {c : Char} (hr : r.place.rest ≠ [])
    (hstage : r.stage ≠ .outside) : Leads r (r.stepAlignment c) := by
  unfold stepAlignment
  split
  · exact moves_pass hr _ _ 0
  · split
    · exact leads_close hr
    · split
      · exact moves_leave hstage
      · split
        · exact moves_pass hr _ _ 0
        · exact moves_pass hr _ _ 0

theorem leads_stepFormat {r : Reader} {c : Char} {t : Text} (hr : r.place.rest ≠ [])
    (hstage : r.stage ≠ .outside) : Leads r (r.stepFormat c t) := by
  unfold stepFormat
  split
  · exact moves_pass hr _ _ 1
  · split
    · exact leads_close hr
    · split
      · exact moves_leave hstage
      · split
        · exact moves_pass hr _ _ 0
        · exact moves_pass hr _ _ 0

theorem leads_step {r : Reader} (c : Char) (t : Text) (hr : r.place.rest ≠ []) :
    Leads r (r.step c t) := by
  unfold step
  split
  · exact moves_stepOutside hr
  · next hstage => exact moves_stepOpening hr (by simp [hstage])
  · next hstage => exact leads_stepName hr (by simp [hstage])
  · next hstage => exact leads_stepAlignment hr (by simp [hstage])
  · next hstage => exact leads_stepFormat hr (by simp [hstage])

/-- A step that finds nothing moves the reader. -/
theorem moves_step {r r' : Reader} {c : Char} {t : Text} (hr : r.place.rest ≠ [])
    (h : r.step c t = .goes r') : Moves r r' := by
  have hleads := leads_step c t hr
  rwa [h] at hleads

/-- How much is left to do: going back to the literal text counts as one step. -/
def size (r : Reader) : Nat :=
  2 * r.place.rest.length + if r.stage = .outside then 0 else 1

theorem Moves.size_lt {r r' : Reader} (h : Moves r r') : r'.size < r.size := by
  unfold size
  rcases h with hlt | ⟨hle, hout, hstage⟩
  · split <;> split <;> omega
  · rw [if_pos hout, if_neg hstage]
    omega

theorem Moves.length_rest_le {r r' : Reader} (h : Moves r r') :
    r'.place.rest.length ≤ r.place.rest.length :=
  h.elim Nat.le_of_lt (·.1)

/-- Reads on to the end of the next hole. -/
def run (r : Reader) : Option (Property × Place) :=
  match _hrest : r.place.rest with
  | [] => none
  | c :: t =>
    match _hstep : r.step c t with
    | .goes r' => run r'
    | .finds property p => some (property, p)
termination_by r.size
decreasing_by exact (moves_step (by simp [_hrest]) _hstep).size_lt

/-- At the end of the text no hole is complete. -/
theorem run_of_nil {r : Reader} (h : r.place.rest = []) : r.run = none := by
  rw [run]
  split
  · rfl
  · simp_all

/-- A step that moves the reader changes nothing about what it will find. -/
theorem run_of_goes {r r' : Reader} {c : Char} {t : Text} (h : r.place.rest = c :: t)
    (hstep : r.step c t = .goes r') : r.run = r'.run := by
  rw [run]
  split
  · simp_all
  · next c' t' h' =>
    obtain ⟨rfl, rfl⟩ : c = c' ∧ t = t' := by simpa [h] using h'
    split
    · next hgoes => rw [hstep] at hgoes; cases hgoes; rfl
    · next hfinds => rw [hstep] at hfinds; contradiction

theorem run_of_finds {r : Reader} {c : Char} {t : Text} {property : Property} {p : Place}
    (h : r.place.rest = c :: t) (hstep : r.step c t = .finds property p) :
    r.run = some (property, p) := by
  rw [run]
  split
  · simp_all
  · next c' t' h' =>
    obtain ⟨rfl, rfl⟩ : c = c' ∧ t = t' := by simpa [h] using h'
    split
    · next hgoes => rw [hstep] at hgoes; contradiction
    · next hfinds => rw [hstep] at hfinds; cases hfinds; rfl

theorem length_rest_run {r : Reader} {property : Property} {p : Place}
    (h : r.run = some (property, p)) : p.rest.length < r.place.rest.length := by
  fun_induction run r with
  | case1 => contradiction
  | case2 r c t hrest r' hstep ih =>
    exact Nat.lt_of_lt_of_le (ih h) (moves_step (by simp [hrest]) hstep).length_rest_le
  | case3 r c t hrest property' p' hstep =>
    cases h
    have hne : r.place.rest ≠ [] := by simp [hrest]
    have hplace := leads_step c t hne
    rw [hstep] at hplace
    rw [show p = r.place.advance 1 from hplace]
    exact Place.length_rest_advance_lt hne Nat.one_ne_zero

end Reader

end LogSyntax.MessageTemplate
