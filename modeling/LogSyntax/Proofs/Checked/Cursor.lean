import LogSyntax.Drain
import LogSyntax.Proofs.Text.Run
import LogSyntax.Proofs.Text.Slice
/-!
# Cursors

A cursor is a reader of a text that knows the text and how many bytes are behind it, and nothing
else: to see a character it cuts the text at its offset. Where that is no boundary there is nothing
to see, and every reader that is built on it fails. Between two characters nothing fails
(`between`): a cursor sees what is ahead there, moves on over it, and cuts out what it has passed.
-/

namespace LogSyntax.Checked

/-! ## Readers that may fail -/

section Drain

variable {σ τ α β : Type}

/-- The items that a reader answers until it is at its end. It fails if a step fails, or if one does
not make the state smaller. -/
def drain? (step : σ → Option (Option (α × σ))) (size : σ → Nat) (s : σ) : Option (List α) :=
  match step s with
  | none => none
  | some none => some []
  | some (some (a, s')) =>
    if size s' < size s then (drain? step size s').map (a :: ·) else none
termination_by size s

theorem drain?_of_some {step : σ → Option (Option (α × σ))} {size : σ → Nat} {s s' : σ} {a : α}
    (h : step s = some (some (a, s'))) (hless : size s' < size s) :
    drain? step size s = (drain? step size s').map (a :: ·) := by
  rw [drain?, h]
  exact if_pos hless

variable {step : σ → Option (α × σ)} {size : σ → Nat} {shrinks : Shrinks step size}
  {step' : τ → Option (Option (β × τ))} {size' : τ → Nat}

/-- A reader does not fail that takes the steps of one that cannot: `f` leads from the states of
that one, as long as they satisfy `P`, and `g` from its items. -/
theorem drain?_eq (f : σ → τ) (g : α → β) (P : σ → Prop)
    (hstep : ∀ s, P s → step' (f s) = some ((step s).map fun (a, s') => (g a, f s')))
    (hnext : ∀ s a s', P s → step s = some (a, s') → P s')
    (hsize : ∀ s, P s → size' (f s) = size s) (s : σ) (hs : P s) :
    drain? step' size' (f s) = some ((drain step size shrinks s).map g) := by
  refine drain_induction
    (motive := fun s items => P s → drain? step' size' (f s) = some (items.map g)) s ?_ ?_ hs
  · intro s h hs
    rw [drain?, hstep s hs, h]
    rfl
  · intro s a s' items h ih hs
    have hs' := hnext s a s' hs h
    have hmapped : step' (f s) = some (some (g a, f s')) := by
      rw [hstep s hs, h]
      rfl
    have hless : size' (f s') < size' (f s) := by
      rw [hsize s hs, hsize s' hs']
      exact shrinks h
    rw [drain?_of_some hmapped hless, ih hs']
    rfl

end Drain

/-! ## Cursors -/

/-- A reader of a text that knows how many bytes are behind it. -/
structure Cursor where
  input : Text
  pos : Nat

namespace Cursor

variable {z : Cursor} {behind ahead r s : Text} {c : Char}

/-- What is ahead. -/
def rest? (z : Cursor) : Option Text := Text.from? z.input z.pos

/-- The character that stands `n` characters further on, if the text goes on so far. -/
def peek? (z : Cursor) (n : Nat) : Option (Option Char) := z.rest?.map (·[n]?)

/-- The cursor as many bytes further on as the character has. -/
def past (z : Cursor) (c : Char) : Cursor := { z with pos := z.pos + c.utf8Size }

/-- The cursor behind the next character, if there is one. -/
def bump? (z : Cursor) : Option Cursor := (z.peek? 0).map fun next => next.elim z z.past

/-- What stands between an offset and the cursor. -/
def since? (z : Cursor) (start : Nat) : Option Text := Text.slice? z.input start z.pos

/-- How many characters are ahead. -/
def left (z : Cursor) : Nat := (z.rest?.getD []).length

/-! ## Between two characters -/

/-- The cursor of a text between what is behind it and what is ahead. -/
def between (behind ahead : Text) : Cursor := ⟨behind ++ ahead, Text.bytes behind⟩

/-- A cursor that sees anything is between two characters. -/
theorem exists_between (h : z.rest? = some r) : ∃ behind, z = between behind r := by
  obtain ⟨before, hinput, hbytes⟩ := Text.from?_eq_some_iff.1 h
  obtain ⟨input, pos⟩ := z
  obtain rfl : input = before ++ r := hinput
  obtain rfl : Text.bytes before = pos := hbytes
  exact ⟨before, rfl⟩

@[simp] theorem pos_between : (between behind ahead).pos = Text.bytes behind := rfl

@[simp] theorem input_between : (between behind ahead).input = behind ++ ahead := rfl

@[simp] theorem rest?_between : (between behind ahead).rest? = some ahead :=
  Text.from?_append behind ahead

@[simp] theorem peek?_between (n : Nat) : (between behind ahead).peek? n = some ahead[n]? := by
  rw [peek?, rest?_between, Option.map_some]

@[simp] theorem left_between : (between behind ahead).left = ahead.length := by
  rw [left, rest?_between, Option.getD_some]

@[simp] theorem past_between : (between behind (c :: r)).past c = between (behind ++ [c]) r := by
  simp [past, between]

@[simp] theorem bump?_between (behind r : Text) (c : Char) :
    (between behind (c :: r)).bump? = some (between (behind ++ [c]) r) := by
  rw [bump?, peek?_between]
  exact congrArg some past_between

@[simp] theorem since?_between : (between (behind ++ s) r).since? (Text.bytes behind) = some s := by
  rw [since?, pos_between, input_between, List.append_assoc, Text.bytes_append]
  exact Text.slice?_append behind s r

theorem left_past_lt (h : z.rest? = some (c :: r)) : (z.past c).left < z.left := by
  obtain ⟨behind, rfl⟩ := exists_between h
  simp

/-- The cursor behind the run of characters that satisfy `f`. -/
def eatWhile? (f : Char → Bool) (z : Cursor) : Option Cursor :=
  match _h : z.rest? with
  | none => none
  | some [] => some z
  | some (c :: _) => if f c then eatWhile? f (z.past c) else some z
termination_by z.left
decreasing_by exact left_past_lt _h

@[simp] theorem eatWhile?_between (behind r : Text) (f : Char → Bool) :
    (between behind r).eatWhile? f =
    some (between (behind ++ r.takeWhile f) (r.dropWhile f)) := by
  induction r generalizing behind with
  | nil =>
    rw [eatWhile?]
    split
    · simp_all
    · simp
    · simp_all
  | cons c r ih =>
    rw [eatWhile?]
    split
    · simp_all
    · simp_all
    · next d _ hrest =>
      rw [rest?_between] at hrest
      obtain rfl : c = d := (List.cons.inj (Option.some.inj hrest)).1
      split
      · next hc => rw [past_between, ih]; simp [hc]
      · next hc => simp [hc]

theorem eatWhile?_run {f : Char → Bool} (hs : s.all f) (hr : Text.Stops f r) :
    (between behind (s ++ r)).eatWhile? f = some (between (behind ++ s) r) := by
  rw [eatWhile?_between, Text.takeWhile_run hs hr, Text.dropWhile_run hs hr]

/-- The cursor `n` characters further on. -/
def passed (behind ahead : Text) (n : Nat) : Cursor :=
  between (behind ++ ahead.take n) (ahead.drop n)

@[simp] theorem passed_zero : passed behind ahead 0 = between behind ahead := by
  simp [passed]

theorem passed_append (behind s r : Text) (n : Nat) :
    passed behind (s ++ r) (s.length + n) = passed (behind ++ s) r n := by
  simp [passed, List.take_length_add_append, List.drop_length_add_append]

@[simp] theorem passed_length (behind s r : Text) :
    passed behind (s ++ r) s.length = between (behind ++ s) r := by
  simpa using passed_append behind s r 0

theorem passed_eq (n : Nat) : passed behind r n =
    ⟨behind ++ r, Text.bytes behind + Text.bytes (r.take n)⟩ := by
  simp [passed, between]

/-- The cursor as many bytes further on as a text has that it sees. -/
theorem jump_between :
    { between behind (s ++ r) with pos := Text.bytes behind + Text.bytes s } =
      between (behind ++ s) r := by
  simp [between]

/-! ## At a place -/

/-- The cursor of the text `t` at a place. -/
def of (t : Text) (p : Place) : Cursor := ⟨t, p.offset⟩

variable {t : Text} {p : Place}

/-- At a place of its text a cursor is between two characters. -/
theorem exists_of (hp : p.In t) :
    ∃ behind, Text.bytes behind = p.offset ∧ behind ++ p.rest = t ∧
      of t p = between behind p.rest := by
  obtain ⟨behind, rfl, hbytes⟩ := hp
  exact ⟨behind, hbytes, rfl, by rw [of, between, hbytes]⟩

theorem left_of (hp : p.In t) : (of t p).left = p.rest.length := by
  obtain ⟨behind, -, -, hof⟩ := exists_of hp
  rw [hof, left_between]

theorem peek?_of (hp : p.In t) (n : Nat) : (of t p).peek? n = some p.rest[n]? := by
  obtain ⟨behind, -, -, hof⟩ := exists_of hp
  rw [hof, peek?_between]

theorem bump?_of (hp : p.In t) (hrest : p.rest = c :: r) :
    (of t p).bump? = some (of t (p.advance 1)) := by
  obtain ⟨o, rest⟩ := p
  obtain rfl : rest = c :: r := hrest
  obtain ⟨behind, rfl, rfl⟩ := hp
  have hbump := bump?_between behind r c
  rw [between, between] at hbump
  simpa [of, Place.advance] using hbump

theorem eatWhile?_of (hp : p.In t) (f : Char → Bool) :
    (of t p).eatWhile? f = some (of t (p.skip f)) := by
  obtain ⟨o, rest⟩ := p
  obtain ⟨behind, rfl, rfl⟩ := hp
  have heat := eatWhile?_between behind rest f
  rw [between, between, List.append_assoc, List.takeWhile_append_dropWhile] at heat
  simpa [of, Place.skip] using heat

end Cursor

end LogSyntax.Checked
