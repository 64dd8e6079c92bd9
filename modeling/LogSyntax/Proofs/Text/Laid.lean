import Mathlib.Data.List.Basic
import LogSyntax.Text.Place
/-!
# Stretches of a text

A stretch of a text is a text that stands in it at an offset. `Laid` says of a list of items that
their sources stand in a text one behind the other, with gaps between them: concatenation keeps the
offsets right, so no proof about a reader has to add them up. What follows from it is that every
source is where its item says and that no item begins before the one in front of it ends.
-/

namespace LogSyntax

namespace Text

theorem one_le_bytes {t : Text} (h : t ≠ []) : 1 ≤ bytes t := by
  cases t with
  | nil => exact absurd rfl h
  | cons c t =>
    have := c.utf8Size_pos
    simp only [bytes_cons]
    omega

/-- A character of a concatenation stands in its left or in its right part. -/
theorem append_eq_append_cons {s t before after : Text} {c : Char}
    (h : s ++ t = before ++ c :: after) :
    (∃ x, s = before ++ c :: x) ∨ ∃ y, before = s ++ y ∧ t = y ++ c :: after := by
  rcases List.append_eq_append_iff.1 h with ⟨y, hbefore, ht⟩ | ⟨x, hs, hx⟩
  · exact .inr ⟨y, hbefore, ht⟩
  · cases x with
    | nil => exact .inr ⟨[], by simp [hs], hx.symm⟩
    | cons d x =>
      obtain ⟨rfl, -⟩ := List.cons.inj hx
      exact .inl ⟨x, hs⟩

/-- An offset between two characters of a text, or at one of its ends. -/
def IsBoundary (t : Text) (n : Nat) : Prop :=
  ∃ before after, t = before ++ after ∧ bytes before = n

/-- The text `s` stands in `t` at an offset. -/
def StandsAt (s t : Text) (n : Nat) : Prop :=
  ∃ before after, t = before ++ (s ++ after) ∧ bytes before = n

theorem dropBytes_append (s t : Text) (n : Nat) :
    dropBytes (bytes s + n) (s ++ t) = dropBytes n t := by
  induction s generalizing n with
  | nil => simp
  | cons c s ih =>
    have hc := c.utf8Size_pos
    rw [bytes_cons, List.cons_append, dropBytes.eq_3 _ _ _ (by omega),
      show c.utf8Size + bytes s + n - c.utf8Size = bytes s + n by omega, ih]

theorem takeBytes_append (s t : Text) : takeBytes (bytes s) (s ++ t) = s := by
  induction s with
  | nil => rw [bytes_nil, takeBytes]
  | cons c s ih =>
    have hc := c.utf8Size_pos
    rw [bytes_cons, List.cons_append, takeBytes.eq_3 _ _ _ (by omega), Nat.add_sub_cancel_left, ih]

/-- Cutting a text at the ends of a stretch gives the stretch. -/
theorem slice_append (before s after : Text) :
    slice (before ++ (s ++ after)) (bytes before) (bytes before + bytes s) = s := by
  rw [slice, Nat.add_sub_cancel_left, ← Nat.add_zero (bytes before), dropBytes_append]
  rw [dropBytes, takeBytes_append]

namespace StandsAt

variable {s t : Text} {n : Nat}

theorem slice_eq (h : StandsAt s t n) : slice t n (n + bytes s) = s := by
  obtain ⟨before, after, rfl, rfl⟩ := h
  exact slice_append before s after

theorem isBoundary_start (h : StandsAt s t n) : IsBoundary t n := by
  obtain ⟨before, after, rfl, rfl⟩ := h
  exact ⟨before, s ++ after, rfl, rfl⟩

theorem isBoundary_stop (h : StandsAt s t n) : IsBoundary t (n + bytes s) := by
  obtain ⟨before, after, rfl, rfl⟩ := h
  exact ⟨before ++ s, after, by simp, by simp⟩

/-- What stands behind the first bytes of a text begins the rest of it. -/
theorem prefix_of_append {before after : Text} (h : StandsAt s (before ++ after) (bytes before)) :
    s <+: after := by
  obtain ⟨before', after', heq, hbytes⟩ := h
  have hdrop := congrArg (dropBytes (bytes before + 0)) heq
  rw [dropBytes_append, ← hbytes, dropBytes_append, dropBytes, dropBytes] at hdrop
  exact ⟨after', hdrop.symm⟩

theorem stop_le (h : StandsAt s t n) : n + bytes s ≤ bytes t := by
  obtain ⟨before, after, rfl, rfl⟩ := h
  simp only [bytes_append]
  omega

end StandsAt

end Text

/-! ## Items laid out in a text -/

/-- The gaps and the texts between them, in turn. -/
def interleave : List Text → List Text → Text
  | gap :: gaps, s :: rest => gap ++ (s ++ interleave gaps rest)
  | gap :: _, [] => gap
  | [], _ => []

section Laid

variable {α : Type} {source : α → Text} {start : α → Nat} {Gap : Text → Prop}

/-- The sources of the items stand one behind the other in a text that begins at `offset`, each at
the start of its item. None is empty, and what stands before, between and behind them is a gap. -/
inductive Laid (source : α → Text) (start : α → Nat) (Gap : Text → Prop) :
    Nat → List α → Text → Prop
  | nil {offset : Nat} {gap : Text} (hgap : Gap gap) : Laid source start Gap offset [] gap
  | cons {offset : Nat} {gap : Text} {a : α} {items : List α} {rest : Text} (hgap : Gap gap)
      (hsource : source a ≠ []) (hstart : start a = offset + Text.bytes gap)
      (hitems : Laid source start Gap (start a + Text.bytes (source a)) items rest) :
      Laid source start Gap offset (a :: items) (gap ++ (source a ++ rest))

namespace Laid

variable {offset : Nat} {items : List α} {t : Text}

theorem source_ne_nil (h : Laid source start Gap offset items t) : ∀ a ∈ items, source a ≠ [] := by
  induction h with
  | nil _ => simp
  | cons _ hsource _ _ ih => exact List.forall_mem_cons.2 ⟨hsource, ih⟩

theorem offset_le (h : Laid source start Gap offset items t) : ∀ a ∈ items, offset ≤ start a := by
  induction h with
  | nil _ => simp
  | cons _ _ hstart _ ih =>
    refine List.forall_mem_cons.2 ⟨by omega, fun b hb => ?_⟩
    have := ih b hb
    omega

/-- Each item ends before the next one begins. -/
theorem ordered (h : Laid source start Gap offset items t) :
    items.Pairwise fun a b => start a + Text.bytes (source a) ≤ start b := by
  induction h with
  | nil _ => exact .nil
  | cons _ _ _ hitems ih => exact .cons hitems.offset_le ih

/-- Only one item begins at an offset. -/
theorem eq_of_start_eq (h : Laid source start Gap offset items t) {a b : α} (ha : a ∈ items)
    (hb : b ∈ items) (heq : start a = start b) : a = b := by
  induction h with
  | nil _ => contradiction
  | @cons _ _ first _ _ _ hsource _ hitems ih =>
    have hlength := Text.one_le_bytes hsource
    rcases List.mem_cons.1 ha with rfl | hatail
    · rcases List.mem_cons.1 hb with rfl | hbtail
      · rfl
      · have hle := hitems.offset_le b hbtail
        omega
    · rcases List.mem_cons.1 hb with rfl | hbtail
      · have hle := hitems.offset_le a hatail
        omega
      · exact ih hatail hbtail

/-- Every source stands in the text at the start of its item. -/
theorem standsAt (h : Laid source start Gap offset items t) (before : Text)
    (hbefore : Text.bytes before = offset) :
    ∀ a ∈ items, Text.StandsAt (source a) (before ++ t) (start a) := by
  induction h generalizing before with
  | nil _ => simp
  | @cons offset gap a items rest _ _ hstart _ ih =>
    refine List.forall_mem_cons.2 ⟨⟨before ++ gap, rest, by simp, by simp [hbefore, hstart]⟩, ?_⟩
    have hrest := ih (before ++ (gap ++ source a)) (by
      simp only [Text.bytes_append, hbefore, hstart]
      omega)
    simpa using hrest

/-- Gaps and sources in turn make up the text. -/
theorem interleaved (h : Laid source start Gap offset items t) :
    ∃ gaps : List Text, gaps.length = items.length + 1 ∧ (∀ gap ∈ gaps, Gap gap) ∧
      interleave gaps (items.map source) = t := by
  induction h with
  | @nil _ gap hgap => exact ⟨[gap], rfl, by simpa using hgap, rfl⟩
  | @cons _ gap _ _ _ hgap _ _ _ ih =>
    obtain ⟨gaps, hlen, hgaps, rfl⟩ := ih
    refine ⟨gap :: gaps, by simp [hlen], List.forall_mem_cons.2 ⟨hgap, hgaps⟩, ?_⟩
    rw [List.map_cons, interleave]

/-- A character of the text stands in a gap or in the source of an item. -/
theorem mem_gap_or (h : Laid source start Gap offset items t) {before after : Text} {c : Char}
    (ht : t = before ++ c :: after) :
    (∃ gap, Gap gap ∧ c ∈ gap) ∨ ∃ a ∈ items, start a ≤ offset + Text.bytes before ∧
      offset + Text.bytes before + c.utf8Size ≤ start a + Text.bytes (source a) := by
  induction h generalizing before with
  | @nil _ gap hgap => exact .inl ⟨gap, hgap, by simp [ht]⟩
  | @cons offset gap a items rest hgap _ hstart _ ih =>
    -- the character stands in the gap, in the source of the first item, or behind it
    rcases Text.append_eq_append_cons ht with ⟨x, rfl⟩ | ⟨x, rfl, hx⟩
    · exact .inl ⟨_, hgap, by simp⟩
    · simp only [Text.bytes_append]
      rcases Text.append_eq_append_cons hx with ⟨y, hy⟩ | ⟨y, rfl, hy⟩
      · refine .inr ⟨a, List.mem_cons_self, by omega, ?_⟩
        simp only [hy, Text.bytes_append, Text.bytes_cons]
        omega
      · rcases ih hy with hin | ⟨b, hb, hle, hstop⟩
        · exact .inl hin
        · refine .inr ⟨b, List.mem_cons_of_mem _ hb, ?_, ?_⟩
          · simp only [Text.bytes_append]
            omega
          · simp only [Text.bytes_append]
            omega

end Laid

end Laid

end LogSyntax
