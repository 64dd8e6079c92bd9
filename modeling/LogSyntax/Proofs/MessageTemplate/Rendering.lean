import LogSyntax.Proofs.ExpressionTemplate.Passing
/-!
# Templates that are put together

A template that is put together from literal text and holes gives back its holes, each where it was
written (`parse_text`). Literal text keeps its opening braces in pairs, so a run of them in front of
a hole leaves the brace of the hole over; and behind the format of a hole no second closing brace
may stand, since the format would take both.
-/

namespace LogSyntax.MessageTemplate

open ExpressionTemplate (BracesPaired)

/-! ## What is put together -/

/-- A hole and the literal text behind it. -/
structure Slot where
  hole : Hole
  valid : hole.Valid
  literal : Text
  paired : BracesPaired literal
  /-- The closing brace behind a format is alone. -/
  closed : hole.format.isSome → literal.head? ≠ some '}'

/-- Literal text, and holes with the literal text behind them. -/
structure Rendering where
  literal : Text
  paired : BracesPaired literal
  slots : List Slot

namespace Rendering

/-- The text of holes and the literals behind them. -/
def textOf (slots : List Slot) : Text :=
  slots.flatMap fun s => s.hole.text ++ s.literal

def text (r : Rendering) : Text := r.literal ++ textOf r.slots

/-- The properties of holes, the first of which begins at an offset. -/
def propertiesOf (offset : Nat) : List Slot → List Property
  | [] => []
  | s :: slots =>
    s.hole.property offset :: propertiesOf (offset + Text.bytes (s.hole.text ++ s.literal)) slots

/-! ## What it gives back -/

variable {o : Nat} {s : Text}

theorem properties_literal (hs : BracesPaired s) (o : Nat) (t : Text) :
    properties ⟨o, s ++ t⟩ = properties ⟨o + Text.bytes s, t⟩ := by
  -- a pair takes two characters, so the induction is on the length
  induction hn : s.length using Nat.strongRecOn generalizing s o with
  | ind n ih =>
    subst hn
    cases s with
    | nil => rfl
    | cons c s =>
      by_cases hc : c = '{'
      · subst hc
        obtain ⟨u, rfl, hu⟩ := hs.pair
        have hlt : u.length < ('{' :: '{' :: u).length := by
          simp only [List.length_cons]
          omega
        rw [List.cons_append, List.cons_append, properties, drain_congr next?_pair, ← properties,
          ih _ hlt hu _ rfl, Text.bytes_cons, Text.bytes_cons, ← Nat.add_assoc, ← Nat.add_assoc]
        rfl
      · rw [List.cons_append, properties, drain_congr (next?_pass hc), ← properties,
          ih _ (by simp) (hs.tail hc) _ rfl, Text.bytes_cons, Nat.add_assoc]

theorem textOf_cons (s : Slot) (slots : List Slot) :
    textOf (s :: slots) = s.hole.text ++ (s.literal ++ textOf slots) := by
  simp [textOf]

theorem head?_textOf (slots : List Slot) : (textOf slots).head? ≠ some '}' := by
  cases slots with
  | nil => simp [textOf]
  | cons s slots => simp [textOf, Hole.text]

theorem wellFormed (s : Slot) (slots : List Slot) :
    s.hole.WellFormed (s.literal ++ textOf slots) := by
  refine ⟨s.valid.lead, s.valid.name, s.valid.trail, s.valid.alignment, ?_⟩
  intro f hf
  refine ⟨s.valid.format f hf, ?_⟩
  cases hliteral : s.literal with
  | nil => exact head?_textOf slots
  | cons c t =>
    have hclosed := s.closed (by rw [hf]; rfl)
    rwa [hliteral] at hclosed

theorem properties_textOf (slots : List Slot) (o : Nat) :
    properties ⟨o, textOf slots⟩ = propertiesOf o slots := by
  induction slots generalizing o with
  | nil => exact drain_of_none next?_nil
  | cons s slots ih =>
    rw [textOf_cons, properties, drain_of_some (next?_hole (wellFormed s slots) o), ← properties,
      properties_literal s.paired, ih, propertiesOf, Text.bytes_append, Nat.add_assoc]

theorem parse_eq (r : Rendering) : parse r.text = propertiesOf (Text.bytes r.literal) r.slots := by
  rw [parse, Place.start, text, properties_literal r.paired, Nat.zero_add, properties_textOf]

theorem length_propertiesOf (o : Nat) (slots : List Slot) :
    (propertiesOf o slots).length = slots.length := by
  induction slots generalizing o with
  | nil => rfl
  | cons s slots ih => rw [propertiesOf, List.length_cons, ih, List.length_cons]

theorem getElem?_propertiesOf (o : Nat) (before : List Slot) (s : Slot) (behind : List Slot) :
    (propertiesOf o (before ++ s :: behind))[before.length]? =
      some (s.hole.property (o + Text.bytes (textOf before))) := by
  induction before generalizing o with
  | nil => rfl
  | cons b before ih =>
    rw [List.cons_append, propertiesOf, List.length_cons, List.getElem?_cons_succ, ih, textOf_cons,
      ← List.append_assoc, Text.bytes_append _ (textOf before), Nat.add_assoc]

/-- A template that is put together gives back as many properties as it has holes, in their order.
Each has the pieces of its hole at the places where they were written, the hole behind all that
stands in front of it. -/
theorem parse_text (r : Rendering) :
    (parse r.text).length = r.slots.length ∧
      ∀ before s behind, r.slots = before ++ s :: behind →
        ∃ p, (parse r.text)[before.length]? = some p ∧
          s.hole.Fills (Text.bytes (r.literal ++ textOf before)) p := by
  rw [parse_eq]
  refine ⟨length_propertiesOf _ _, ?_⟩
  intro before s behind hslots
  refine ⟨_, hslots ▸ getElem?_propertiesOf _ before s behind, ?_⟩
  rw [Text.bytes_append]
  exact Hole.fills_iff.2 rfl

/-- In `{{{ @é:}}}{b,5}}` a pair of braces stands in front of the first hole, another one is its
format, and a closing brace stands behind the second hole. -/
theorem parse_text_pairs :
    (parse ['{', '{', '{', ' ', '@', 'é', ':', '}', '}', '}', '{', 'b', ',', '5', '}', '}'])[1]? =
      some ⟨11, 15, none, ⟨['b'], 12⟩, some ⟨['5'], 14⟩, none⟩ := by
  have hnone {t : Text} (ht : '{' ∉ t) : BracesPaired t :=
    ExpressionTemplate.bracesPaired_of_not_mem ht
  let first : Slot :=
    { hole := ⟨[' '], some .destructure, ['é'], [], none, some ['}', '}']⟩
      valid := ⟨by decide, ⟨'é', [], rfl, by decide +kernel, rfl⟩, rfl, by simp,
        by rintro f ⟨⟩; exact .pair .nil⟩
      literal := []
      paired := hnone (by decide)
      closed := by simp }
  let second : Slot :=
    { hole := ⟨[], none, ['b'], [], some ['5'], none⟩
      valid := ⟨rfl, ⟨'b', [], rfl, by decide +kernel, rfl⟩, rfl, by rintro t ⟨⟩; decide, by simp⟩
      literal := ['}']
      paired := hnone (by decide)
      closed := by simp }
  obtain ⟨p, hp, hfills⟩ :=
    (parse_text ⟨['{', '{'], (hnone (by simp)).cons_pair, [first, second]⟩).2 [first] second [] rfl
  obtain rfl := Hole.fills_iff.1 hfills
  exact hp

end Rendering

end LogSyntax.MessageTemplate
