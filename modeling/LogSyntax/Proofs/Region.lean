import LogSyntax.Expression
import LogSyntax.Proofs.Text.Laid
import LogSyntax.Proofs.Token.Lossless
/-!
# Regions laid out in a text

`Shown` says of regions that their texts stand in a text one behind the other, each where its region
says. Regions of two texts are shown in their concatenation, so those of a reader come from those of
its parts. What this means for a highlighter is `Describes`.
-/

namespace LogSyntax

/-- The regions stand in a text that begins at `offset`, one behind the other. -/
abbrev Shown (offset : Nat) (regions : List Region) (t : Text) : Prop :=
  Laid Region.text Region.start (fun _ => True) offset regions t

namespace Shown

variable {offset : Nat} {regions : List Region} {s t : Text}

theorem nothing (offset : Nat) (t : Text) : Shown offset [] t := .nil trivial

/-- Text in front of the regions. -/
theorem skip (s : Text) (h : Shown (offset + Text.bytes s) regions t) :
    Shown offset regions (s ++ t) := by
  cases h with
  | nil _ => exact .nil trivial
  | @cons _ gap r regions rest _ hsource hstart hitems =>
    rw [← List.append_assoc]
    refine Laid.cons trivial hsource ?_ hitems
    rw [hstart, Text.bytes_append, Nat.add_assoc]

/-- A region in front of the regions. -/
theorem first {r : Region} (htext : r.text ≠ []) (hstart : r.start = offset)
    (h : Shown r.stop regions t) : Shown offset (r :: regions) (r.text ++ t) := by
  rw [← List.nil_append (r.text ++ t)]
  exact Laid.cons trivial htext hstart h

theorem append {more : List Region} (h : Shown offset regions s)
    (hmore : Shown (offset + Text.bytes s) more t) : Shown offset (regions ++ more) (s ++ t) := by
  induction h with
  | nil _ => exact hmore.skip _
  | @cons offset gap r regions rest _ hsource hstart hitems ih =>
    rw [List.append_assoc, List.append_assoc]
    refine Laid.cons trivial hsource hstart (ih ?_)
    rw [hstart]
    rwa [Text.bytes_append, Text.bytes_append, ← Nat.add_assoc, ← Nat.add_assoc] at hmore

/-- Text behind the regions. -/
theorem extend (h : Shown offset regions s) (t : Text) : Shown offset regions (s ++ t) := by
  have happ := h.append (.nothing _ t)
  rwa [List.append_nil] at happ

theorem widen (h : Shown offset regions s) (hs : s <+: t) : Shown offset regions t := by
  obtain ⟨u, rfl⟩ := hs
  exact h.extend u

theorem visible (category : Category) (offset : Nat) (t : Text) :
    Shown offset (Region.visible category offset t) t := by
  cases t with
  | nil => exact .nothing _ _
  | cons c t =>
    have h := Shown.first (r := ⟨category, offset, c :: t⟩) (List.cons_ne_nil c t) rfl
      (.nothing _ [])
    rwa [List.append_nil] at h

theorem rebase (h : Shown offset regions t) (n : Nat) :
    Shown (offset + n) (regions.map (·.rebase n)) t := by
  induction h with
  | nil _ => exact .nothing _ _
  | @cons offset gap r regions rest _ hsource hstart _ ih =>
    refine Laid.cons (a := r.rebase n) trivial hsource ?_ ?_
    · show r.start + n = _
      omega
    · rwa [Nat.add_right_comm] at ih

end Shown

/-! ## The regions of tokens -/

section Tokens

variable {offset : Nat} {tokens : List Token} {t : Text}

theorem Laid.shown_filterMap (h : Laid Token.source Token.start (·.all isBlank) offset tokens t) :
    Shown offset (tokens.filterMap Region.ofToken?) t := by
  induction h with
  | nil _ => exact .nothing _ _
  | @cons offset gap token tokens rest _ hsource hstart _ ih =>
    rw [hstart] at ih
    apply Shown.skip gap
    unfold Region.ofToken? at ih ⊢
    rw [List.filterMap_cons]
    cases Category.ofKind? token.kind with
    | none => exact ih.skip _
    | some category =>
      rw [← hstart] at ih ⊢
      exact Shown.first (r := ⟨category, token.start, token.source⟩) hsource rfl ih

theorem Expression.laid_tokens (h : Heuristics) (offset : Nat) (t : Text) :
    Laid Token.source Token.start (·.all isBlank) offset (Expression.tokens h offset t) t :=
  Tokenizer.laid_tokens (.start h ⟨offset, t⟩)

theorem Expression.shown_regions (h : Heuristics) (offset : Nat) (t : Text) :
    Shown offset (regions h offset t) t :=
  (laid_tokens h offset t).shown_filterMap

end Tokens

/-! ## What regions say about a text -/

/-- The regions describe the bytes of a text that they point at, from the left to the right and
without overlap, all between two offsets. -/
structure Describes (t : Text) (start stop : Nat) (regions : List Region) : Prop where
  nonempty : ∀ r ∈ regions, 1 ≤ r.length
  inside : ∀ r ∈ regions, start ≤ r.start ∧ r.stop ≤ stop
  boundaries : ∀ r ∈ regions, Text.IsBoundary t r.start ∧ Text.IsBoundary t r.stop
  length : ∀ r ∈ regions, r.length = Text.bytes r.text
  text : ∀ r ∈ regions, Text.slice t r.start r.stop = r.text
  ordered : regions.Pairwise fun r next => r.stop ≤ next.start

/-- Regions that are shown in a stretch of a text describe it there. -/
theorem Shown.describes (before after : Text) {s : Text} {regions : List Region}
    (h : Shown (Text.bytes before) regions s) :
    Describes (before ++ (s ++ after)) (Text.bytes before) (Text.bytes before + Text.bytes s)
      regions := by
  have hwhole := (h.extend after).standsAt before rfl
  have hstretch := h.standsAt before rfl
  constructor
  · intro r hr
    exact Text.one_le_bytes (h.source_ne_nil r hr)
  · intro r hr
    have hstop := (hstretch r hr).stop_le
    rw [Text.bytes_append] at hstop
    exact ⟨h.offset_le r hr, hstop⟩
  · intro r hr
    exact ⟨(hwhole r hr).isBoundary_start, (hwhole r hr).isBoundary_stop⟩
  · intro r _
    rfl
  · intro r hr
    exact (hwhole r hr).slice_eq
  · exact h.ordered

end LogSyntax
