import LogSyntax.MessageTemplate.Attempt
/-!
# How a hole is written

The grammar of the holes of a message template, as a property of their pieces: `Hole.text` writes a
hole down, `WellFormed` says which pieces make one, and `Hole.property` is what it means at an
offset. None of them knows how a template is read.
-/

namespace LogSyntax.MessageTemplate

/-- A character of an alignment. -/
def isAlignmentChar (c : Char) : Bool :=
  c != '{' && c != '}' && c != ':' && c != '|'

/-- A name is an identifier character and further ones or dots. -/
def IsName (t : Text) : Prop :=
  ∃ c cs, t = c :: cs ∧ isIdentChar c ∧ cs.all isNameChar

/-- A format holds no brace but closing ones in pairs, and no bar. -/
inductive IsFormat : Text → Prop
  | nil : IsFormat []
  | char {c : Char} {t : Text} (hopen : c ≠ '{') (hclose : c ≠ '}') (hbar : c ≠ '|')
      (ht : IsFormat t) : IsFormat (c :: t)
  | pair {t : Text} (ht : IsFormat t) : IsFormat ('}' :: '}' :: t)

/-- The pieces of a hole. -/
structure Hole where
  /-- White space behind the opening brace. -/
  lead : Text
  capture : Option Capture
  name : Text
  /-- White space behind the name. -/
  trail : Text
  /-- What stands behind the comma, if there is one. -/
  alignment : Option Text
  /-- What stands behind the colon, if there is one. -/
  format : Option Text

namespace Hole

/-- The character of a capture operator. -/
def captureText : Option Capture → Text
  | some .destructure => ['@']
  | some .stringify => ['$']
  | none => []

/-- A part behind its mark. -/
def partText (mark : Char) : Option Text → Text
  | some t => mark :: t
  | none => []

/-- What follows the name: the parts and the closing brace. -/
def tailText (alignment format : Option Text) : Text :=
  partText ',' alignment ++ (partText ':' format ++ ['}'])

/-- A hole as it is written. -/
def text (x : Hole) : Text :=
  '{' :: (x.lead ++ (captureText x.capture ++ (x.name ++ (x.trail ++
    tailText x.alignment x.format))))

/-- The parts may stand in a hole before the text `after`. Since a format takes closing braces in
pairs from the left, the brace behind it is not followed by another one. -/
structure TailFormed (alignment format : Option Text) (after : Text) : Prop where
  alignment : ∀ t, alignment = some t → t.all isAlignmentChar
  format : ∀ t, format = some t → IsFormat t ∧ after.head? ≠ some '}'

/-- The pieces make a hole before the text `after`. -/
structure WellFormed (x : Hole) (after : Text) : Prop where
  lead : x.lead.all isBlank
  name : IsName x.name
  trail : x.trail.all isBlank
  tail : TailFormed x.alignment x.format after

/-- The pieces of the hole are right, whatever the hole stands between. -/
structure Valid (x : Hole) : Prop where
  lead : x.lead.all isBlank
  name : IsName x.name
  trail : x.trail.all isBlank
  alignment : ∀ t, x.alignment = some t → t.all isAlignmentChar
  format : ∀ t, x.format = some t → IsFormat t

/-- The property of a hole whose opening brace stands at an offset. -/
def property (x : Hole) (braceStart : Nat) : Property :=
  let captureStart := braceStart + 1 + Text.bytes x.lead
  let nameStart := captureStart + Text.bytes (captureText x.capture)
  let alignmentMark := nameStart + Text.bytes x.name + Text.bytes x.trail
  let formatMark := alignmentMark + Text.bytes (partText ',' x.alignment)
  { braceStart
    braceEnd := formatMark + Text.bytes (partText ':' x.format)
    capture := x.capture.map (·, captureStart)
    name := ⟨x.name, nameStart⟩
    alignment := x.alignment.bind fun t => Part.nonempty? ⟨t, alignmentMark + 1⟩
    format := x.format.bind fun t => Part.nonempty? ⟨t, formatMark + 1⟩ }

end Hole

/-! ## Characters of the grammar -/

theorem isNameChar_of_isIdentChar {c : Char} (h : isIdentChar c = true) : isNameChar c = true := by
  simp [isNameChar, h]

theorem isNameChar_of_isBlank {c : Char} (h : isBlank c = true) : isNameChar c = false := by
  have hdot : isBlank '.' = false := by decide
  have hc : c ≠ '.' := by
    rintro rfl
    exact Bool.false_ne_true (hdot ▸ h)
  simp [isNameChar, isIdentChar_of_isBlank h, hc]

theorem isBlank_of_isNameChar {c : Char} (h : isNameChar c = true) : isBlank c = false := by
  cases hblank : isBlank c with
  | false => rfl
  | true => rw [isNameChar_of_isBlank hblank] at h; contradiction

theorem ne_open_of_isBlank {c : Char} (h : isBlank c = true) : c ≠ '{' := by
  rintro rfl
  exact absurd h (by decide)

theorem ne_open_of_isNameChar {c : Char} (h : isNameChar c = true) : c ≠ '{' := by
  rintro rfl
  exact absurd h (by decide +kernel)

theorem ne_close_of_isBlank {c : Char} (h : isBlank c = true) : c ≠ '}' := by
  rintro rfl
  exact absurd h (by decide)

theorem ne_close_of_isNameChar {c : Char} (h : isNameChar c = true) : c ≠ '}' := by
  rintro rfl
  exact absurd h (by decide +kernel)

/-- What stands behind a name in a hole is neither part of it nor white space. -/
theorem not_isNameChar_of_mark {c : Char} (hc : c ∈ [',', ':', '}']) :
    isNameChar c = false ∧ isBlank c = false := by
  have hall : [',', ':', '}'].all (fun c => !isNameChar c && !isBlank c) := by decide +kernel
  simpa using List.all_eq_true.1 hall c hc

theorem captureText_of_capture? {c : Char} {capture : Capture} (h : capture? c = some capture) :
    [c] = Hole.captureText (some capture) := by
  unfold capture? at h
  split at h <;> cases h <;> rfl

theorem ne_open_of_capture? {c : Char} {capture : Capture} (h : capture? c = some capture) :
    c ≠ '{' := by
  rintro rfl
  exact Option.some_ne_none capture h.symm

namespace IsName

theorem all_isNameChar {t : Text} (h : IsName t) : t.all isNameChar := by
  obtain ⟨c, cs, rfl, hc, hcs⟩ := h
  rw [List.all_cons, isNameChar_of_isIdentChar hc, hcs, Bool.and_self]

theorem ne_nil {t : Text} (h : IsName t) : t ≠ [] := by
  obtain ⟨c, cs, rfl, -, -⟩ := h
  exact List.cons_ne_nil c cs

end IsName

theorem not_mem_of_all {f : Char → Bool} {t : Text} {c : Char} (ht : t.all f) (hc : f c = false) :
    c ∉ t := by
  intro hmem
  have hf := List.all_eq_true.1 ht c hmem
  rw [hc] at hf
  contradiction

theorem IsFormat.open_not_mem {t : Text} (h : IsFormat t) : '{' ∉ t := by
  induction h with
  | nil => exact List.not_mem_nil
  | char hopen _ _ _ ih => exact List.not_mem_cons_of_ne_of_not_mem hopen.symm ih
  | pair _ ih => simpa using ih

namespace Hole.WellFormed

variable {x : Hole} {after : Text}

/-- Only the opening brace of a hole is one. -/
theorem open_not_mem (h : x.WellFormed after) : '{' ∉ x.text.tail := by
  have hlead : '{' ∉ x.lead := not_mem_of_all h.lead (by decide)
  have hcapture : '{' ∉ captureText x.capture := by
    rcases x.capture with _ | _ | _ <;> decide
  have hname : '{' ∉ x.name := not_mem_of_all h.name.all_isNameChar (by decide +kernel)
  have htrail : '{' ∉ x.trail := not_mem_of_all h.trail (by decide)
  have halignment : '{' ∉ partText ',' x.alignment := by
    cases heq : x.alignment with
    | none => exact List.not_mem_nil
    | some s =>
      apply List.not_mem_cons_of_ne_of_not_mem (by decide)
      exact not_mem_of_all (h.tail.alignment s heq) (by decide)
  have hformat : '{' ∉ partText ':' x.format := by
    cases heq : x.format with
    | none => exact List.not_mem_nil
    | some f =>
      apply List.not_mem_cons_of_ne_of_not_mem (by decide)
      exact (h.tail.format f heq).1.open_not_mem
  simp [text, tailText, hlead, hcapture, hname, htrail, halignment, hformat]

theorem head?_tail_append (h : x.WellFormed after) (t : Text) :
    (x.text.tail ++ t).head? ≠ some '{' := by
  have hne : x.text.tail ≠ [] := by simp [text, h.name.ne_nil]
  obtain ⟨c, s, hs⟩ := List.exists_cons_of_ne_nil hne
  have hopen := h.open_not_mem
  rw [hs] at hopen ⊢
  rintro ⟨⟩
  exact hopen List.mem_cons_self

end Hole.WellFormed

end LogSyntax.MessageTemplate
