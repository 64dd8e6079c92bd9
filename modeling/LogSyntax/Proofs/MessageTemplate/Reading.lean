import LogSyntax.Proofs.MessageTemplate.Recovery
import LogSyntax.Proofs.Text.Trim
/-!
# A hole is read as it is written

The reader goes over the pieces of a well formed hole one after the other and reports the property
that the grammar gives it, at the place behind its closing brace (`run_hole`).
-/

namespace LogSyntax.MessageTemplate

variable {o : Nat} {c : Char} {a : Attempt}

namespace Reader

/-! ## Up to the name -/

theorem capture?_of_isBlank (hc : isBlank c = true) : capture? c = none := by
  unfold capture?
  split
  · exact absurd hc (by decide)
  · exact absurd hc (by decide)
  · rfl

theorem capture?_of_isIdentChar (hc : isIdentChar c = true) : capture? c = none := by
  unfold capture?
  split
  · exact absurd hc (by decide +kernel)
  · exact absurd hc (by decide +kernel)
  · rfl

theorem run_lead {lead : Text} (hlead : lead.all isBlank) (o : Nat) (t : Text)
    (ha : a.capture = none) :
    run ⟨⟨o, lead ++ t⟩, .opening, a⟩ = run ⟨⟨o + Text.bytes lead, t⟩, .opening, a⟩ := by
  induction lead generalizing o with
  | nil => rfl
  | cons c lead ih =>
    rw [List.all_cons, Bool.and_eq_true] at hlead
    have hnone : (if a.capture.isNone then capture? c else none) = none := by
      rw [capture?_of_isBlank hlead.1, ite_self]
    rw [List.cons_append, run_of_goes rfl (step_opening o hnone), if_pos hlead.1,
      if_neg (by simp [ha]), ih hlead.2, Text.bytes_cons, Nat.add_assoc]

theorem run_capture (capture : Option Capture) (o : Nat) (t : Text) (ha : a.capture = none) :
    run ⟨⟨o, Hole.captureText capture ++ t⟩, .opening, a⟩ =
      run ⟨⟨o + Text.bytes (Hole.captureText capture), t⟩, .opening,
        { a with capture := capture.map (·, o) }⟩ := by
  match capture with
  | none => rw [Option.map_none, ← ha]; rfl
  | some .destructure => exact run_of_goes rfl (step_opening_capture o ha rfl)
  | some .stringify => exact run_of_goes rfl (step_opening_capture o ha rfl)

/-! ## The name -/

theorem step_name (hc : isNameChar c = true) (ha : a.spaced = false) (o : Nat) (t : Text) :
    step ⟨⟨o, c :: t⟩, .name, a⟩ c t =
      .goes ⟨⟨o + c.utf8Size, t⟩, .name, { a with name := a.name.map (·.grow 1) }⟩ := by
  simp [step, stepName, hc, ha, pass]

theorem run_name_append {name : Text} (hname : name.all isNameChar) (o : Nat) (t : Text)
    (ha : a.spaced = false) :
    run ⟨⟨o, name ++ t⟩, .name, a⟩ = run ⟨⟨o + Text.bytes name, t⟩, .name,
      { a with name := a.name.map (·.grow name.length) }⟩ := by
  induction name generalizing o a with
  | nil => simp [Stretch.map_grow_zero]
  | cons c name ih =>
    rw [List.all_cons, Bool.and_eq_true] at hname
    rw [List.cons_append, run_of_goes rfl (step_name hname.1 ha o _),
      ih hname.2 _ (by exact ha), Text.bytes_cons, Nat.add_assoc, Stretch.map_grow_grow,
      List.length_cons, Nat.add_comm 1]

theorem run_name {name : Text} (hname : IsName name) (o : Nat) (t : Text) (ha : a.spaced = false) :
    run ⟨⟨o, name ++ t⟩, .opening, a⟩ = run ⟨⟨o + Text.bytes name, t⟩, .name,
      { a with name := some ⟨⟨o, name ++ t⟩, name.length⟩ }⟩ := by
  obtain ⟨c, cs, rfl, hc, hcs⟩ := hname
  have hnone : (if a.capture.isNone then capture? c else none) = none := by
    rw [capture?_of_isIdentChar hc, ite_self]
  have hblank : isBlank c = false := isBlank_of_isNameChar (isNameChar_of_isIdentChar hc)
  rw [List.cons_append, run_of_goes rfl (step_opening o hnone), hblank,
    if_neg Bool.false_ne_true, if_pos hc, run_name_append hcs _ _ (by exact ha), Text.bytes_cons,
    Nat.add_assoc]
  simp [Stretch.grow, Nat.add_comm 1]

theorem run_trail {trail : Text} (htrail : trail.all isBlank) (o : Nat) (t : Text) (a : Attempt) :
    ∃ spaced, run ⟨⟨o, trail ++ t⟩, .name, a⟩ =
      run ⟨⟨o + Text.bytes trail, t⟩, .name, { a with spaced }⟩ := by
  induction trail generalizing o a with
  | nil => exact ⟨a.spaced, rfl⟩
  | cons c trail ih =>
    rw [List.all_cons, Bool.and_eq_true] at htrail
    have hname : isNameChar c = false := isNameChar_of_isBlank htrail.1
    obtain ⟨spaced, hrun⟩ := ih htrail.2 (o + c.utf8Size) { a with spaced := true }
    refine ⟨spaced, ?_⟩
    rw [List.cons_append, run_of_goes rfl (by simp [step, stepName, hname, htrail.1]; rfl),
      Text.bytes_cons, ← Nat.add_assoc]
    exact hrun

/-! ## The parts -/

theorem run_format_append {f : Text} (hf : IsFormat f) (o : Nat) (t : Text) (a : Attempt) :
    run ⟨⟨o, f ++ t⟩, .format, a⟩ = run ⟨⟨o + Text.bytes f, t⟩, .format,
      { a with format := a.format.map (·.grow f.length) }⟩ := by
  induction hf generalizing o a with
  | nil => simp [Stretch.map_grow_zero]
  | @char c f hopen hclose hbar _ ih =>
    rw [List.cons_append, run_of_goes rfl (by simp [step, stepFormat, hopen, hclose, hbar]; rfl)]
    simp only [pass, Place.advance_succ, Place.advance_zero]
    rw [ih, Text.bytes_cons, Nat.add_assoc, Stretch.map_grow_grow, List.length_cons, Nat.add_comm 1]
  | @pair f _ ih =>
    rw [List.cons_append, List.cons_append, run_of_goes rfl (by simp [step, stepFormat]; rfl)]
    simp only [pass, Place.advance_succ, Place.advance_zero]
    rw [ih, Text.bytes_cons, Text.bytes_cons, Stretch.map_grow_grow, List.length_cons,
      List.length_cons, Nat.add_comm 2, Nat.add_assoc, Nat.add_assoc]

theorem run_alignment_append {s : Text} (hs : s.all isAlignmentChar) (o : Nat) (t : Text)
    (a : Attempt) :
    run ⟨⟨o, s ++ t⟩, .alignment, a⟩ = run ⟨⟨o + Text.bytes s, t⟩, .alignment,
      { a with alignment := a.alignment.map (·.grow s.length) }⟩ := by
  induction s generalizing o a with
  | nil => simp [Stretch.map_grow_zero]
  | cons c s ih =>
    obtain ⟨hc, hs⟩ := by simpa [isAlignmentChar] using hs
    obtain ⟨⟨⟨hopen, hclose⟩, hcolon⟩, hbar⟩ := hc
    rw [List.cons_append,
      run_of_goes rfl (by simp [step, stepAlignment, hopen, hclose, hcolon, hbar]; rfl)]
    simp only [pass, Place.advance_succ, Place.advance_zero]
    rw [ih (by simpa [isAlignmentChar] using hs), Text.bytes_cons, Nat.add_assoc,
      Stretch.map_grow_grow, List.length_cons, Nat.add_comm 1]

/-! ## The closing brace -/

theorem trim_of_isName {name : Text} (hname : IsName name) : Text.trim name = name :=
  Text.trim_eq_self fun c hc =>
    isBlank_of_isNameChar (List.all_eq_true.1 hname.all_isNameChar c hc)

/-- A name that is read to its end makes a property. -/
theorem finish?_of_isName {name : Text} (hname : IsName name) {n : Nat} {rest : Text}
    (ha : a.name = some ⟨⟨n, name ++ rest⟩, name.length⟩) (braceEnd : Nat) :
    a.finish? braceEnd = some ⟨a.braceStart, braceEnd, a.capture, ⟨name, n⟩,
      a.alignment.bind (·.part.nonempty?), a.format.bind (·.part.nonempty?)⟩ := by
  have hany : name.any isBlank = false := by
    rw [List.any_eq_false]
    intro c hc
    exact Bool.eq_false_iff.1 (isBlank_of_isNameChar (List.all_eq_true.1 hname.all_isNameChar c hc))
  have hpart : (⟨⟨n, name ++ rest⟩, name.length⟩ : Stretch).part = ⟨name, n⟩ := by
    simp [Stretch.part]
  have hempty : name.isEmpty = false := List.isEmpty_eq_false_iff.2 hname.ne_nil
  simp only [Attempt.finish?, ha, hpart, trim_of_isName hname, hempty, hany]
  rfl

theorem run_close {stage : Stage} {after : Text} {property : Property}
    (hstage : stage = .name ∨ stage = .alignment ∨ stage = .format ∧ after.head? ≠ some '}')
    (hfinish : a.finish? o = some property) :
    run ⟨⟨o, '}' :: after⟩, stage, a⟩ = some (property, ⟨o + 1, after⟩) := by
  have hclose : close ⟨⟨o, '}' :: after⟩, stage, a⟩ = .finds property ⟨o + 1, after⟩ := by
    simp only [close, hfinish, Place.advance_succ, Place.advance_zero]
    rfl
  obtain ⟨hname, hblank⟩ := not_isNameChar_of_mark (c := '}') (by simp)
  apply run_of_finds rfl
  rcases hstage with rfl | rfl | ⟨rfl, hafter⟩
  · rw [← hclose]
    simp [step, stepName, hname, hblank]
  · rw [← hclose]
    simp [step, stepAlignment]
  · rw [← hclose]
    simp [step, stepFormat, hafter]

theorem part_append (o : Nat) (s t : Text) :
    ((Stretch.empty ⟨o, s ++ t⟩).grow s.length).part = ⟨s, o⟩ := by
  simp [Stretch.part, Stretch.grow, Stretch.empty]

theorem step_colon {stage : Stage} (hstage : stage = .name ∨ stage = .alignment) (o : Nat)
    (t : Text) (a : Attempt) :
    step ⟨⟨o, ':' :: t⟩, stage, a⟩ ':' t =
      .goes ⟨⟨o + 1, t⟩, .format, { a with format := some (.empty ⟨o + 1, t⟩) }⟩ := by
  obtain ⟨hname, hblank⟩ := not_isNameChar_of_mark (c := ':') (by simp)
  rcases hstage with rfl | rfl
  · simp [step, stepName, hname, hblank, enterFormat]
    exact ⟨rfl, rfl⟩
  · simp [step, stepAlignment, enterFormat]
    exact ⟨rfl, rfl⟩

theorem run_formatPart {name rest after : Text} {format : Option Text} {stage : Stage} {n : Nat}
    (hname : IsName name) (hstage : stage = .name ∨ stage = .alignment)
    (hformat : ∀ f, format = some f → IsFormat f ∧ after.head? ≠ some '}')
    (ha : a.name = some ⟨⟨n, name ++ rest⟩, name.length⟩) (hnone : a.format = none) :
    run ⟨⟨o, Hole.partText ':' format ++ '}' :: after⟩, stage, a⟩ =
      some (⟨a.braceStart, o + Text.bytes (Hole.partText ':' format), a.capture, ⟨name, n⟩,
          a.alignment.bind (·.part.nonempty?), format.bind fun f => Part.nonempty? ⟨f, o + 1⟩⟩,
        ⟨o + Text.bytes (Hole.partText ':' format) + 1, after⟩) := by
  cases format with
  | none =>
    apply run_close (hstage.imp_right .inl)
    rw [finish?_of_isName hname ha, hnone]
    rfl
  | some f =>
    obtain ⟨hf, hafter⟩ := hformat f rfl
    rw [Hole.partText, List.cons_append, run_of_goes rfl (step_colon hstage o _ a),
      run_format_append hf, Text.bytes_cons, ← Nat.add_assoc]
    apply run_close (.inr (.inr ⟨rfl, hafter⟩))
    rw [finish?_of_isName hname (by exact ha)]
    simp only [Option.map_some, Option.bind_some, part_append]
    rfl

theorem step_comma (o : Nat) (t : Text) (a : Attempt) :
    step ⟨⟨o, ',' :: t⟩, .name, a⟩ ',' t =
      .goes ⟨⟨o + 1, t⟩, .alignment, { a with alignment := some (.empty ⟨o + 1, t⟩) }⟩ := by
  obtain ⟨hname, hblank⟩ := not_isNameChar_of_mark (c := ',') (by simp)
  simp [step, stepName, hname, hblank, enterAlignment]
  exact ⟨rfl, rfl⟩

theorem run_tail {name rest after : Text} {alignment format : Option Text} {n : Nat}
    (hname : IsName name) (htail : Hole.TailFormed alignment format after)
    (ha : a.name = some ⟨⟨n, name ++ rest⟩, name.length⟩) (halignment : a.alignment = none)
    (hformat : a.format = none) :
    run ⟨⟨o, Hole.tailText alignment format ++ after⟩, .name, a⟩ =
      some (⟨a.braceStart,
          o + Text.bytes (Hole.partText ',' alignment) + Text.bytes (Hole.partText ':' format),
          a.capture, ⟨name, n⟩, alignment.bind fun s => Part.nonempty? ⟨s, o + 1⟩,
          format.bind fun f =>
            Part.nonempty? ⟨f, o + Text.bytes (Hole.partText ',' alignment) + 1⟩⟩,
        ⟨o + Text.bytes (Hole.tailText alignment format), after⟩) := by
  have hbytes : Text.bytes ['}'] = 1 := rfl
  rw [Hole.tailText, List.append_assoc, List.append_assoc, Text.bytes_append, Text.bytes_append,
    hbytes, ← Nat.add_assoc, ← Nat.add_assoc]
  cases alignment with
  | none =>
    refine (run_formatPart hname (.inl rfl) htail.format ha hformat).trans ?_
    rw [halignment]
    rfl
  | some s =>
    have hs : s.all isAlignmentChar := htail.alignment s rfl
    rw [Hole.partText, List.cons_append, run_of_goes rfl (step_comma o _ a),
      run_alignment_append hs, Text.bytes_cons, ← Nat.add_assoc]
    refine (run_formatPart hname (.inr rfl) htail.format (by exact ha) (by exact hformat)).trans ?_
    simp only [Option.map_some, Option.bind_some, part_append]
    rfl

/-- From behind its opening brace, a hole is read to its end. -/
theorem run_hole {x : Hole} {after : Text} (hx : x.WellFormed after) (b : Nat) :
    run ⟨⟨b + 1, x.text.tail ++ after⟩, .opening, .start b⟩ =
      some (x.property b, ⟨b + Text.bytes x.text, after⟩) := by
  have htext : x.text.tail ++ after = x.lead ++ (Hole.captureText x.capture ++ (x.name ++
      (x.trail ++ (Hole.tailText x.alignment x.format ++ after)))) := by
    simp [Hole.text]
  rw [htext, run_lead hx.lead _ _ rfl, run_capture _ _ _ rfl, run_name hx.name _ _ rfl]
  obtain ⟨spaced, htrail⟩ := run_trail hx.trail
    (b + 1 + Text.bytes x.lead + Text.bytes (Hole.captureText x.capture) + Text.bytes x.name)
    (Hole.tailText x.alignment x.format ++ after) _
  rw [htrail, run_tail hx.name hx.tail rfl rfl rfl]
  have hbytes : Text.bytes x.text =
      1 + Text.bytes x.lead + Text.bytes (Hole.captureText x.capture) + Text.bytes x.name +
        Text.bytes x.trail + Text.bytes (Hole.tailText x.alignment x.format) := by
    simp [Hole.text, ← Nat.add_assoc]
    rfl
  rw [hbytes]
  simp only [← Nat.add_assoc]
  rfl

end Reader

theorem next?_hole {x : Hole} {after : Text} (hx : x.WellFormed after) (b : Nat) :
    next? ⟨b, x.text ++ after⟩ = some (x.property b, ⟨b + Text.bytes x.text, after⟩) :=
  (next?_open (hx.head?_tail_append after)).trans (Reader.run_hole hx b)

end LogSyntax.MessageTemplate
