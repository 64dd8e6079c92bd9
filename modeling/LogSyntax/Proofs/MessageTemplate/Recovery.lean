import Mathlib.Data.List.TakeWhile
import LogSyntax.MessageTemplate.Properties
import LogSyntax.Proofs.MessageTemplate.Hole
/-!
# What is lost with a failed attempt

Nothing is. A text that the grammar does not allow in a stage brings the reader back to the literal
text, and there it finds what it would have found without the attempt (`opening_or`). The stages
never pass an opening brace, and in literal text every other character is passed over.
-/

namespace LogSyntax.MessageTemplate

variable {o : Nat} {c : Char} {t : Text} {a : Attempt}

namespace Reader

/-! ## Literal text -/

theorem run_outside_pass (hc : c ≠ '{') :
    run ⟨⟨o, c :: t⟩, .outside, a⟩ = run ⟨⟨o + c.utf8Size, t⟩, .outside, a⟩ :=
  run_of_goes rfl (by simp [step, stepOutside, hc, pass])

theorem run_outside_pair :
    run ⟨⟨o, '{' :: '{' :: t⟩, .outside, a⟩ = run ⟨⟨o + 2, t⟩, .outside, a⟩ :=
  run_of_goes rfl (by simp [step, stepOutside, pass]; rfl)

theorem run_outside_open (ht : t.head? ≠ some '{') :
    run ⟨⟨o, '{' :: t⟩, .outside, a⟩ = run ⟨⟨o + 1, t⟩, .opening, .start o⟩ :=
  run_of_goes rfl (by simp [step, stepOutside, ht]; rfl)

/-- In literal text it does not matter what the last attempt has found. -/
theorem run_outside (p : Place) (a : Attempt) : run ⟨p, .outside, a⟩ = next? p := by
  obtain ⟨o, t⟩ := p
  unfold next? start
  induction hn : t.length using Nat.strongRecOn generalizing o t with
  | ind n ih =>
    cases t with
    | nil => rw [run_of_nil rfl, run_of_nil rfl]
    | cons c t =>
      by_cases hc : c = '{'
      · subst hc
        by_cases ht : t.head? = some '{'
        · obtain ⟨u, rfl⟩ := List.head?_eq_some_iff.1 ht
          have hlt : u.length < n := by
            simp only [← hn, List.length_cons]
            omega
          rw [run_outside_pair, run_outside_pair]
          exact ih u.length hlt (o + 2) u rfl
        · rw [run_outside_open ht, run_outside_open ht]
      · rw [run_outside_pass hc, run_outside_pass hc]
        exact ih t.length (by simp [← hn]) _ t rfl

end Reader

open Reader

theorem next?_nil : next? ⟨o, []⟩ = none := run_of_nil rfl

theorem next?_pass (hc : c ≠ '{') : next? ⟨o, c :: t⟩ = next? ⟨o + c.utf8Size, t⟩ :=
  run_outside_pass hc

theorem next?_pair : next? ⟨o, '{' :: '{' :: t⟩ = next? ⟨o + 2, t⟩ := run_outside_pair

theorem next?_open (ht : t.head? ≠ some '{') :
    next? ⟨o, '{' :: t⟩ = run ⟨⟨o + 1, t⟩, .opening, .start o⟩ :=
  run_outside_open ht

/-- Literal text without an opening brace is passed over. -/
theorem next?_append {s : Text} (hs : '{' ∉ s) (o : Nat) (t : Text) :
    next? ⟨o, s ++ t⟩ = next? ⟨o + Text.bytes s, t⟩ := by
  induction s generalizing o with
  | nil => rfl
  | cons c s ih =>
    have hc : c ≠ '{' := fun hc => hs (hc ▸ List.mem_cons_self)
    rw [List.cons_append, next?_pass hc, ih (fun h => hs (List.mem_cons_of_mem _ h)),
      Text.bytes_cons, Nat.add_assoc]

theorem next?_skip (p : Place) {f : Char → Bool} (hf : f '{' = false) :
    next? (p.skip f) = next? p := by
  have hopen : '{' ∉ p.rest.takeWhile f := by
    intro hmem
    have := List.mem_takeWhile_imp hmem
    rw [hf] at this
    contradiction
  rw [Place.skip, ← next?_append hopen, List.takeWhile_append_dropWhile]

theorem Reader.in_resynchronize {p : Place} (hp : p.In t) : (resynchronize p).In t := by
  unfold resynchronize
  dsimp only
  split
  · exact (hp.skip _).advance 1
  · exact hp.skip _

theorem next?_resynchronize (p : Place) : next? (resynchronize p) = next? p := by
  have hskip := next?_skip p (f := fun c => c != '{' && c != '}') rfl
  unfold resynchronize
  dsimp only
  generalize p.skip (fun c => c != '{' && c != '}') = q at hskip ⊢
  obtain ⟨o, t⟩ := q
  split
  · next hclose =>
    obtain ⟨u, rfl⟩ := List.head?_eq_some_iff.1 hclose
    rw [← hskip, next?_pass (by decide), Place.advance_succ, Place.advance_zero]
  · exact hskip

namespace Reader

theorem run_leave (r : Reader) : r.leave.run = next? r.place := run_outside _ _

theorem run_abandon (r : Reader) : r.abandon.run = next? r.place :=
  (run_outside _ _).trans (next?_resynchronize r.place)

theorem run_of_leaves {r : Reader} (hrest : r.place.rest = c :: t)
    (hstep : r.step c t = .goes r.leave) : r.run = next? r.place :=
  (run_of_goes hrest hstep).trans (run_leave r)

theorem run_of_abandons {r : Reader} (hrest : r.place.rest = c :: t)
    (hstep : r.step c t = .goes r.abandon) : r.run = next? r.place :=
  (run_of_goes hrest hstep).trans (run_abandon r)

/-! ## The format -/

theorem format_or (o : Nat) (t : Text) (a : Attempt) :
    (∃ f after, t = f ++ '}' :: after ∧ IsFormat f ∧ after.head? ≠ some '}') ∨
      run ⟨⟨o, t⟩, .format, a⟩ = next? ⟨o, t⟩ := by
  -- a pair takes two characters, so the induction is on the length
  induction hn : t.length using Nat.strongRecOn generalizing o t a with
  | ind n ih =>
    cases t with
    | nil => exact .inr (by rw [run_of_nil rfl, next?_nil])
    | cons c t =>
      by_cases hclose : c = '}'
      · subst hclose
        by_cases hpair : t.head? = some '}'
        · obtain ⟨u, rfl⟩ := List.head?_eq_some_iff.1 hpair
          have hlt : u.length < n := by
            simp only [← hn, List.length_cons]
            omega
          rw [run_of_goes rfl (by simp [step, stepFormat]; rfl), next?_pass (by decide),
            next?_pass (by decide)]
          rcases ih u.length hlt (o + 1 + 1) u _ rfl with ⟨f, after, rfl, hf, hafter⟩ | hrun
          · exact .inl ⟨'}' :: '}' :: f, after, rfl, .pair hf, hafter⟩
          · exact .inr hrun
        · exact .inl ⟨[], t, rfl, .nil, hpair⟩
      · by_cases hopen : c = '{'
        · -- the brace is left to the next attempt
          subst hopen
          right
          apply run_of_leaves rfl
          simp [step, stepFormat]
        · rw [next?_pass hopen]
          by_cases hbar : c = '|'
          · subst hbar
            right
            rw [run_of_goes rfl (by simp [step, stepFormat]; rfl)]
            exact run_leave _
          · rw [run_of_goes rfl (by simp [step, stepFormat, hclose, hopen, hbar]; rfl)]
            rcases ih t.length (by simp [← hn]) (o + c.utf8Size) t _ rfl with
              ⟨f, after, rfl, hf, hafter⟩ | hrun
            · exact .inl ⟨c :: f, after, rfl, .char hopen hclose hbar hf, hafter⟩
            · exact .inr hrun

/-! ## The alignment -/

theorem alignment_or (o : Nat) (t : Text) (a : Attempt) :
    (∃ s format after, t = s ++ (Hole.partText ':' format ++ '}' :: after) ∧
      s.all isAlignmentChar ∧ ∀ f, format = some f → IsFormat f ∧ after.head? ≠ some '}') ∨
      run ⟨⟨o, t⟩, .alignment, a⟩ = next? ⟨o, t⟩ := by
  induction t generalizing o a with
  | nil => exact .inr (by rw [run_of_nil rfl, next?_nil])
  | cons c t ih =>
    by_cases hcolon : c = ':'
    · subst hcolon
      rw [next?_pass (by decide), run_of_goes rfl (by simp [step, stepAlignment]; rfl)]
      rcases format_or (o + 1) t _ with ⟨f, after, rfl, hf, hafter⟩ | hrun
      · exact .inl ⟨[], some f, after, rfl, rfl, by rintro f ⟨⟩; exact ⟨hf, hafter⟩⟩
      · exact .inr hrun
    · by_cases hclose : c = '}'
      · subst hclose
        exact .inl ⟨[], none, t, rfl, rfl, by simp⟩
      · by_cases hopen : c = '{'
        · subst hopen
          right
          apply run_of_leaves rfl
          simp [step, stepAlignment]
        · rw [next?_pass hopen]
          by_cases hbar : c = '|'
          · subst hbar
            right
            rw [run_of_goes rfl (by simp [step, stepAlignment]; rfl)]
            exact run_leave _
          · rw [run_of_goes rfl (by simp [step, stepAlignment, hclose, hopen, hcolon, hbar]; rfl)]
            rcases ih (o + c.utf8Size) _ with ⟨s, format, after, rfl, hs, hformat⟩ | hrun
            · refine .inl ⟨c :: s, format, after, rfl, ?_, hformat⟩
              rw [List.all_cons, hs, Bool.and_true]
              simp [isAlignmentChar, hclose, hopen, hcolon, hbar]
            · exact .inr hrun

/-! ## The name -/

/-- The text begins with parts and the closing brace of a hole. -/
def Tailed (t : Text) : Prop :=
  ∃ alignment format after, t = Hole.tailText alignment format ++ after ∧
    Hole.TailFormed alignment format after

theorem tail_or (o : Nat) (t : Text) (a : Attempt)
    (ht : ∀ c, t.head? = some c → isNameChar c = false ∧ isBlank c = false) :
    Tailed t ∨ run ⟨⟨o, t⟩, .name, a⟩ = next? ⟨o, t⟩ := by
  cases t with
  | nil => exact .inr (by rw [run_of_nil rfl, next?_nil])
  | cons c t =>
    obtain ⟨hname, hblank⟩ := ht c rfl
    by_cases hcolon : c = ':'
    · subst hcolon
      rw [next?_pass (by decide), run_of_goes rfl (by simp [step, stepName, hname, hblank]; rfl)]
      rcases format_or (o + 1) t _ with ⟨f, after, rfl, hf, hafter⟩ | hrun
      · refine .inl ⟨none, some f, after, by simp [Hole.tailText, Hole.partText], by simp, ?_⟩
        rintro f ⟨⟩
        exact ⟨hf, hafter⟩
      · exact .inr hrun
    · by_cases hcomma : c = ','
      · subst hcomma
        rw [next?_pass (by decide), run_of_goes rfl (by simp [step, stepName, hname, hblank]; rfl)]
        rcases alignment_or (o + 1) t _ with ⟨s, format, after, rfl, hs, hformat⟩ | hrun
        · refine .inl ⟨some s, format, after, by simp [Hole.tailText, Hole.partText], ?_, hformat⟩
          rintro s ⟨⟩
          exact hs
        · exact .inr hrun
      · by_cases hclose : c = '}'
        · subst hclose
          exact .inl ⟨none, none, t, rfl, by simp, by simp⟩
        · by_cases hopen : c = '{'
          · subst hopen
            right
            apply run_of_leaves rfl
            simp [step, stepName, hname, hblank]
          · right
            apply run_of_abandons rfl
            simp [step, stepName, hname, hblank, hcolon, hcomma, hclose, hopen]

theorem trail_or (o : Nat) (t : Text) (a : Attempt) (ha : a.spaced = true) :
    (∃ trail rest, t = trail ++ rest ∧ trail.all isBlank ∧ Tailed rest) ∨
      run ⟨⟨o, t⟩, .name, a⟩ = next? ⟨o, t⟩ := by
  induction t generalizing o a with
  | nil => exact .inr (by rw [run_of_nil rfl, next?_nil])
  | cons c t ih =>
    cases hname : isNameChar c with
    | true =>
      -- white space ends the name, so no further character of a name fits
      right
      apply run_of_abandons rfl
      simp [step, stepName, hname, ha]
    | false =>
      cases hblank : isBlank c with
      | true =>
        rw [next?_pass (ne_open_of_isBlank hblank),
          run_of_goes rfl (by simp [step, stepName, hname, hblank]; rfl)]
        rcases ih (o + c.utf8Size) { a with spaced := true } rfl with
          ⟨trail, rest, rfl, htrail, hrest⟩ | hrun
        · exact .inl ⟨c :: trail, rest, rfl, by rw [List.all_cons, hblank, htrail]; rfl, hrest⟩
        · exact .inr hrun
      | false =>
        rcases tail_or o (c :: t) a (by rintro _ ⟨⟩; exact ⟨hname, hblank⟩) with htail | hrun
        · exact .inl ⟨[], c :: t, rfl, rfl, htail⟩
        · exact .inr hrun

theorem name_or (o : Nat) (t : Text) (a : Attempt) (ha : a.spaced = false) :
    (∃ name trail rest, t = name ++ (trail ++ rest) ∧ name.all isNameChar ∧ trail.all isBlank ∧
      Tailed rest) ∨ run ⟨⟨o, t⟩, .name, a⟩ = next? ⟨o, t⟩ := by
  induction t generalizing o a with
  | nil => exact .inr (by rw [run_of_nil rfl, next?_nil])
  | cons c t ih =>
    cases hname : isNameChar c with
    | true =>
      rw [next?_pass (ne_open_of_isNameChar hname),
        run_of_goes rfl (by simp [step, stepName, hname, ha]; rfl)]
      rcases ih (o + c.utf8Size) { a with name := a.name.map (·.grow 1), spaced := false } rfl with
        ⟨name, trail, rest, rfl, hall, htrail, hrest⟩ | hrun
      · exact .inl ⟨c :: name, trail, rest, rfl, by rw [List.all_cons, hname, hall]; rfl, htrail,
          hrest⟩
      · exact .inr hrun
    | false =>
      cases hblank : isBlank c with
      | true =>
        rw [next?_pass (ne_open_of_isBlank hblank),
          run_of_goes rfl (by simp [step, stepName, hname, hblank]; rfl)]
        rcases trail_or (o + c.utf8Size) t { a with spaced := true } rfl with
          ⟨trail, rest, rfl, htrail, hrest⟩ | hrun
        · exact .inl ⟨[], c :: trail, rest, rfl, rfl, by rw [List.all_cons, hblank, htrail]; rfl,
            hrest⟩
        · exact .inr hrun
      | false =>
        rcases tail_or o (c :: t) a (by rintro _ ⟨⟩; exact ⟨hname, hblank⟩) with htail | hrun
        · exact .inl ⟨[], [], c :: t, rfl, rfl, rfl, htail⟩
        · exact .inr hrun

/-! ## The opening -/

/-- The text begins with a name and what may follow it in a hole. -/
def Named (t : Text) : Prop :=
  ∃ name trail rest, t = name ++ (trail ++ rest) ∧ IsName name ∧ trail.all isBlank ∧ Tailed rest

theorem step_opening (o : Nat)
    (hcapture : (if a.capture.isNone then capture? c else none) = none) :
    step ⟨⟨o, c :: t⟩, .opening, a⟩ c t = .goes (
      if isBlank c then
        if a.capture.isSome then abandon ⟨⟨o, c :: t⟩, .opening, a⟩
        else ⟨⟨o + c.utf8Size, t⟩, .opening, a⟩
      else if isIdentChar c then
        ⟨⟨o + c.utf8Size, t⟩, .name, { a with name := some ⟨⟨o, c :: t⟩, 1⟩ }⟩
      else if c = '}' then ⟨⟨o + c.utf8Size, t⟩, .outside, a⟩
      else if c = '{' then leave ⟨⟨o, c :: t⟩, .opening, a⟩
      else abandon ⟨⟨o, c :: t⟩, .opening, a⟩) := by
  simp only [step, stepOpening, hcapture, pass, leave, Place.advance_succ, Place.advance_zero]

theorem step_opening_capture (o : Nat) {capture : Capture} (ha : a.capture = none)
    (hc : capture? c = some capture) :
    step ⟨⟨o, c :: t⟩, .opening, a⟩ c t =
      .goes ⟨⟨o + c.utf8Size, t⟩, .opening, { a with capture := some (capture, o) }⟩ := by
  simp [step, stepOpening, ha, hc, pass]

theorem entry_or (o : Nat) (c : Char) (t : Text) (a : Attempt) (ha : a.spaced = false)
    (hcapture : (if a.capture.isNone then capture? c else none) = none)
    (hblank : isBlank c = false) :
    Named (c :: t) ∨ run ⟨⟨o, c :: t⟩, .opening, a⟩ = next? ⟨o, c :: t⟩ := by
  rw [run_of_goes rfl (step_opening o hcapture), hblank, if_neg Bool.false_ne_true]
  cases hident : isIdentChar c with
  | true =>
    have hname : isNameChar c = true := isNameChar_of_isIdentChar hident
    rw [next?_pass (ne_open_of_isNameChar hname), if_pos rfl]
    rcases name_or (o + c.utf8Size) t { a with name := some ⟨⟨o, c :: t⟩, 1⟩ } ha with
      ⟨name, trail, rest, rfl, hall, htrail, hrest⟩ | hrun
    · exact .inl ⟨c :: name, trail, rest, rfl, ⟨c, name, rfl, hident, hall⟩, htrail, hrest⟩
    · exact .inr hrun
  | false =>
    rw [if_neg Bool.false_ne_true]
    by_cases hclose : c = '}'
    · subst hclose
      rw [next?_pass (by decide), if_pos rfl]
      exact .inr (run_outside _ _)
    · rw [if_neg hclose]
      by_cases hopen : c = '{'
      · rw [if_pos hopen]
        exact .inr (run_leave _)
      · rw [if_neg hopen]
        exact .inr (run_abandon _)

theorem captured_or (o : Nat) (t : Text) (a : Attempt) (ha : a.spaced = false)
    (hcapture : a.capture.isSome) :
    Named t ∨ run ⟨⟨o, t⟩, .opening, a⟩ = next? ⟨o, t⟩ := by
  cases t with
  | nil => exact .inr (by rw [run_of_nil rfl, next?_nil])
  | cons c t =>
    have hnone : (if a.capture.isNone then capture? c else none) = none :=
      if_neg (by simpa using Option.isSome_iff_ne_none.1 hcapture)
    cases hblank : isBlank c with
    | true =>
      rw [run_of_goes rfl (step_opening o hnone), if_pos hblank, if_pos hcapture]
      exact .inr (run_abandon _)
    | false => exact entry_or o c t a ha hnone hblank

/-- What stands behind an opening brace makes a hole, or leads back to the literal text. -/
theorem opening_or (o : Nat) (t : Text) (a : Attempt) (ha : a.spaced = false)
    (hcapture : a.capture = none) :
    (∃ x : Hole, ∃ after, '{' :: t = x.text ++ after ∧ x.WellFormed after) ∨
      run ⟨⟨o, t⟩, .opening, a⟩ = next? ⟨o, t⟩ := by
  induction t generalizing o a with
  | nil => exact .inr (by rw [run_of_nil rfl, next?_nil])
  | cons c t ih =>
    cases hc : capture? c with
    | some capture =>
      have hwritten : [c] = Hole.captureText (some capture) := captureText_of_capture? hc
      rw [next?_pass (ne_open_of_capture? hc),
        run_of_goes rfl (step_opening_capture o hcapture hc)]
      rcases captured_or (o + c.utf8Size) t { a with capture := some (capture, o) } ha rfl with
        ⟨name, trail, rest, rfl, hname, htrail, alignment, format, after, rfl, htail⟩ | hrun
      · refine .inl ⟨⟨[], some capture, name, trail, alignment, format⟩, after, ?_,
          ⟨rfl, hname, htrail, htail⟩⟩
        simp [Hole.text, ← hwritten]
      · exact .inr hrun
    | none =>
      have hnone : (if a.capture.isNone then capture? c else none) = none := by
        rw [hc, ite_self]
      cases hblank : isBlank c with
      | true =>
        rw [next?_pass (ne_open_of_isBlank hblank), run_of_goes rfl (step_opening o hnone),
          if_pos hblank, if_neg (by simp [hcapture])]
        rcases ih (o + c.utf8Size) a ha hcapture with ⟨x, after, heq, hx⟩ | hrun
        · refine .inl ⟨{ x with lead := c :: x.lead }, after, ?_, ⟨?_, hx.name, hx.trail, hx.tail⟩⟩
          · simpa [Hole.text] using heq
          · rw [List.all_cons, hblank, hx.lead, Bool.and_self]
        · exact .inr hrun
      | false =>
        rcases entry_or o c t a ha hnone hblank with
          ⟨name, trail, rest, heq, hname, htrail, alignment, format, after, rfl, htail⟩ | hrun
        · refine .inl ⟨⟨[], none, name, trail, alignment, format⟩, after, ?_,
            ⟨rfl, hname, htrail, htail⟩⟩
          simp [heq, Hole.text, Hole.captureText]
        · exact .inr hrun

end Reader

end LogSyntax.MessageTemplate
