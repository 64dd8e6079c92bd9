import LogSyntax.Proofs.MessageTemplate.Reading
import LogSyntax.Proofs.Text.Laid
/-!
# Which properties are read

`Written` says which properties stand in a template: it looks for runs of opening braces, as long as
they go, whose last brace opens a hole, and knows nothing of how a template is read. `parse_exact`
says that these are the properties that are read, from the left to the right.
-/

namespace LogSyntax.MessageTemplate

/-- What a property without a capture operator is bound to goes by its name. -/
def Hole.kind (x : Hole) : Property.Kind :=
  match x.capture with
  | some .destructure => .destructured
  | some .stringify => .stringified
  | none => if x.name.all Char.isDigit then .positional else .standard

/-- The property has the pieces of a hole whose opening brace stands at `braceStart`. -/
def Hole.Fills (x : Hole) (braceStart : Nat) (p : Property) : Prop :=
  p = x.property braceStart ∧ p.kind = x.kind ∧ p.nameLength = Text.bytes x.name

theorem Hole.fills_iff {x : Hole} {b : Nat} {p : Property} : x.Fills b p ↔ p = x.property b := by
  refine ⟨And.left, ?_⟩
  rintro rfl
  refine ⟨rfl, ?_, rfl⟩
  rcases hcapture : x.capture with _ | _ | _ <;>
    simp [Property.kind, Hole.property, Hole.kind, hcapture]

/-- A text has `n` opening braces between `before` and `behind`, and no other one touches them. -/
structure IsRun (t before : Text) (n : Nat) (behind : Text) : Prop where
  text : t = before ++ (List.replicate n '{' ++ behind)
  left : before.getLast? ≠ some '{'
  right : behind.head? ≠ some '{'

/-- The property is written in a text that begins at `offset`: the last brace of a run of an odd
number of opening braces begins its hole. -/
def WrittenAt (offset : Nat) (t : Text) (p : Property) : Prop :=
  ∃ before k behind, IsRun t before (2 * k + 1) behind ∧
    ∃ x : Hole, ∃ after, '{' :: behind = x.text ++ after ∧ x.WellFormed after ∧
      x.Fills (offset + Text.bytes before + 2 * k) p

/-- The property is written in a template. -/
def Written (t : Text) (p : Property) : Prop := WrittenAt 0 t p

variable {o : Nat} {c : Char} {t : Text} {p : Property}

/-! ## Runs of opening braces -/

namespace IsRun

variable {before behind : Text} {n k : Nat}

theorem cons (h : IsRun t before n behind) (hc : before = [] → c ≠ '{') :
    IsRun (c :: t) (c :: before) n behind := by
  refine ⟨by rw [h.text, List.cons_append], ?_, h.right⟩
  cases before with
  | nil => simpa using hc rfl
  | cons d before =>
    rw [List.getLast?_cons_cons]
    exact h.left

theorem cons_cases (h : IsRun (c :: t) before (n + 1) behind) :
    (before = [] ∧ c = '{' ∧ t = List.replicate n '{' ++ behind) ∨
      ∃ rest, before = c :: rest ∧ (rest = [] → c ≠ '{') ∧ IsRun t rest (n + 1) behind := by
  obtain ⟨htext, hleft, hright⟩ := h
  cases before with
  | nil =>
    rw [List.nil_append, List.replicate_succ, List.cons_append, List.cons.injEq] at htext
    exact .inl ⟨rfl, htext⟩
  | cons d rest =>
    rw [List.cons_append, List.cons.injEq] at htext
    obtain ⟨rfl, ht⟩ := htext
    refine .inr ⟨rest, rfl, ?_, ht, ?_, hright⟩
    · rintro rfl
      simpa using hleft
    · cases rest with
      | nil => simp
      | cons e rest =>
        rw [List.getLast?_cons_cons] at hleft
        exact hleft

end IsRun

/-! ## Written properties, character by character -/

theorem not_writtenAt_nil : ¬ WrittenAt o [] p := by
  rintro ⟨before, k, behind, hrun, -⟩
  have := congrArg List.length hrun.text
  simp at this
  omega

theorem writtenAt_pass (hc : c ≠ '{') :
    WrittenAt o (c :: t) p ↔ WrittenAt (o + c.utf8Size) t p := by
  constructor
  · rintro ⟨before, k, behind, hrun, x, after, heq, hx, hp⟩
    rcases hrun.cons_cases with ⟨-, hopen, -⟩ | ⟨rest, rfl, -, hrest⟩
    · exact absurd hopen hc
    · refine ⟨rest, k, behind, hrest, x, after, heq, hx, ?_⟩
      rwa [Nat.add_assoc o]
  · rintro ⟨before, k, behind, hrun, x, after, heq, hx, hp⟩
    refine ⟨c :: before, k, behind, hrun.cons fun _ => hc, x, after, heq, hx, ?_⟩
    rwa [Nat.add_assoc o] at hp

theorem writtenAt_pair : WrittenAt o ('{' :: '{' :: t) p ↔ WrittenAt (o + 2) t p := by
  constructor
  · rintro ⟨before, k, behind, hrun, x, after, heq, hx, hp⟩
    rcases hrun.cons_cases with ⟨rfl, -, ht⟩ | ⟨rest, rfl, hrest, hrun⟩
    · cases k with
      | zero =>
        -- a single brace would be followed by the second one
        have hright := hrun.right
        rw [Nat.mul_zero, List.replicate_zero, List.nil_append] at ht
        rw [← ht] at hright
        exact absurd rfl hright
      | succ k =>
        rw [Nat.mul_succ, List.replicate_succ, List.cons_append, List.cons.injEq] at ht
        refine ⟨[], k, behind, ⟨ht.2, by simp, hrun.right⟩, x, after, heq, hx, ?_⟩
        rw [Text.bytes_nil] at hp ⊢
        rwa [show o + 2 + 0 + 2 * k = o + 0 + 2 * (k + 1) by omega]
    · rcases hrun.cons_cases with ⟨rfl, -, -⟩ | ⟨rest, rfl, -, hrun⟩
      · exact absurd rfl (hrest rfl)
      · refine ⟨rest, k, behind, hrun, x, after, heq, hx, ?_⟩
        rw [Text.bytes_cons, Text.bytes_cons, ← Nat.add_assoc, ← Nat.add_assoc] at hp
        exact hp
  · rintro ⟨before, k, behind, hrun, x, after, heq, hx, hp⟩
    cases before with
    | nil =>
      refine ⟨[], k + 1, behind, ⟨?_, by simp, hrun.right⟩, x, after, heq, hx, ?_⟩
      · rw [hrun.text]
        rfl
      · rw [Text.bytes_nil] at hp ⊢
        rwa [show o + 0 + 2 * (k + 1) = o + 2 + 0 + 2 * k by omega]
    | cons d before =>
      refine ⟨'{' :: '{' :: d :: before, k, behind, (hrun.cons (by simp)).cons (by simp), x, after,
        heq, hx, ?_⟩
      rw [Text.bytes_cons, Text.bytes_cons, ← Nat.add_assoc, ← Nat.add_assoc]
      exact hp

theorem writtenAt_single (ht : t.head? ≠ some '{') :
    WrittenAt o ('{' :: t) p ↔
      (∃ x : Hole, ∃ after, '{' :: t = x.text ++ after ∧ x.WellFormed after ∧ x.Fills o p) ∨
        WrittenAt (o + 1) t p := by
  constructor
  · rintro ⟨before, k, behind, hrun, x, after, heq, hx, hp⟩
    rcases hrun.cons_cases with ⟨rfl, -, hbehind⟩ | ⟨rest, rfl, -, hrest⟩
    · cases k with
      | zero =>
        rw [Nat.mul_zero, List.replicate_zero, List.nil_append] at hbehind
        exact .inl ⟨x, after, hbehind ▸ heq, hx, hp⟩
      | succ k =>
        rw [hbehind] at ht
        exact absurd rfl ht
    · refine .inr ⟨rest, k, behind, hrest, x, after, heq, hx, ?_⟩
      rwa [Nat.add_assoc o]
  · rintro (⟨x, after, heq, hx, hp⟩ | ⟨before, k, behind, hrun, x, after, heq, hx, hp⟩)
    · exact ⟨[], 0, t, ⟨rfl, by simp, ht⟩, x, after, heq, hx, hp⟩
    · cases before with
      | nil =>
        rw [hrun.text] at ht
        exact absurd rfl ht
      | cons d before =>
        refine ⟨'{' :: d :: before, k, behind, hrun.cons (by simp), x, after, heq, hx, ?_⟩
        rwa [Nat.add_assoc o] at hp

theorem writtenAt_append {s : Text} (hs : '{' ∉ s) :
    WrittenAt o (s ++ t) p ↔ WrittenAt (o + Text.bytes s) t p := by
  induction s generalizing o with
  | nil => rfl
  | cons c s ih =>
    have hc : c ≠ '{' := fun hc => hs (hc ▸ List.mem_cons_self)
    rw [List.cons_append, writtenAt_pass hc, ih fun h => hs (List.mem_cons_of_mem _ h),
      Text.bytes_cons, Nat.add_assoc]

theorem WrittenAt.le_braceStart (h : WrittenAt o t p) : o ≤ p.braceStart := by
  obtain ⟨before, k, behind, -, x, after, -, -, rfl, -⟩ := h
  simp only [Hole.property]
  omega

/-! ## Reading, character by character -/

/-- The properties that are read in a text that begins at an offset, with what is passed over. -/
inductive Reads : Nat → Text → List Property → Prop
  | nil {o : Nat} : Reads o [] []
  | pass {o : Nat} {c : Char} {t : Text} {ps : List Property} (hc : c ≠ '{')
      (h : Reads (o + c.utf8Size) t ps) : Reads o (c :: t) ps
  | pair {o : Nat} {t : Text} {ps : List Property} (h : Reads (o + 2) t ps) :
      Reads o ('{' :: '{' :: t) ps
  | lone {o : Nat} {t : Text} {ps : List Property} (ht : t.head? ≠ some '{')
      (hnone : ∀ x : Hole, ∀ after, '{' :: t = x.text ++ after → ¬ x.WellFormed after)
      (h : Reads (o + 1) t ps) : Reads o ('{' :: t) ps
  | hole {o : Nat} {x : Hole} {after : Text} {ps : List Property} (hx : x.WellFormed after)
      (h : Reads (o + Text.bytes x.text) after ps) : Reads o (x.text ++ after) (x.property o :: ps)

theorem reads_properties (o : Nat) (t : Text) : Reads o t (properties ⟨o, t⟩) := by
  -- a pair and a hole take more than one character, so the induction is on the length
  induction hn : t.length using Nat.strongRecOn generalizing o t with
  | ind n ih =>
    cases t with
    | nil =>
      rw [properties, drain_of_none next?_nil]
      exact .nil
    | cons c t =>
      by_cases hc : c = '{'
      · subst hc
        by_cases ht : t.head? = some '{'
        · obtain ⟨u, rfl⟩ := List.head?_eq_some_iff.1 ht
          have hlt : u.length < n := by
            simp only [← hn, List.length_cons]
            omega
          rw [properties, drain_congr next?_pair]
          exact .pair (ih u.length hlt (o + 2) u rfl)
        · by_cases hhole : ∃ x : Hole, ∃ after, '{' :: t = x.text ++ after ∧ x.WellFormed after
          · obtain ⟨x, after, heq, hx⟩ := hhole
            have hlt : after.length < n := by
              have hlen := congrArg List.length heq
              simp only [Hole.text, List.length_cons, List.length_append] at hlen hn
              omega
            rw [heq, properties, drain_of_some (next?_hole hx o)]
            exact .hole hx (ih after.length hlt _ after rfl)
          · have hrun := (Reader.opening_or (o + 1) t (.start o) rfl rfl).resolve_left hhole
            rw [properties, drain_congr ((next?_open ht).trans hrun)]
            refine .lone ht ?_ (ih t.length (by simp [← hn]) (o + 1) t rfl)
            intro x after heq hx
            exact hhole ⟨x, after, heq, hx⟩
      · rw [properties, drain_congr (next?_pass hc)]
        exact .pass hc (ih t.length (by simp [← hn]) _ t rfl)

/-! ## Reading finds what is written -/

/-- Two holes that are written in one place are the same to a reader. -/
theorem property_unique {x y : Hole} {s t : Text} (heq : x.text ++ s = y.text ++ t)
    (hx : x.WellFormed s) (hy : y.WellFormed t) (b : Nat) : x.property b = y.property b := by
  have hread := next?_hole hx b
  rw [heq, next?_hole hy b] at hread
  exact (Prod.mk.inj (Option.some.inj hread)).1.symm

theorem writtenAt_hole {x : Hole} {after : Text} (hx : x.WellFormed after) :
    WrittenAt o (x.text ++ after) p ↔
      p = x.property o ∨ WrittenAt (o + Text.bytes x.text) after p := by
  have hbytes : Text.bytes x.text = 1 + Text.bytes x.text.tail := rfl
  have hskip : WrittenAt (o + 1) (x.text.tail ++ after) p ↔
      WrittenAt (o + Text.bytes x.text) after p := by
    rw [writtenAt_append hx.open_not_mem, hbytes, Nat.add_assoc]
  show WrittenAt o ('{' :: (x.text.tail ++ after)) p ↔ _
  rw [writtenAt_single (hx.head?_tail_append after), hskip]
  refine or_congr_left ⟨?_, ?_⟩
  · rintro ⟨y, t, heq, hy, hp⟩
    rw [Hole.fills_iff.1 hp]
    exact property_unique heq.symm hy hx o
  · rintro rfl
    exact ⟨x, after, rfl, hx, Hole.fills_iff.2 rfl⟩

namespace Reads

variable {ps : List Property}

theorem mem_iff (h : Reads o t ps) (p : Property) : p ∈ ps ↔ WrittenAt o t p := by
  induction h with
  | nil => simp [not_writtenAt_nil]
  | pass hc _ ih => rw [ih, writtenAt_pass hc]
  | pair _ ih => rw [ih, writtenAt_pair]
  | lone ht hnone _ ih =>
    rw [ih, writtenAt_single ht, or_iff_right]
    rintro ⟨x, after, heq, hx, -⟩
    exact hnone x after heq hx
  | hole hx _ ih => rw [List.mem_cons, ih, writtenAt_hole hx]

/-- The holes are read from the left to the right. -/
theorem ordered (h : Reads o t ps) : ps.Pairwise fun p q => p.braceStart < q.braceStart := by
  induction h with
  | nil => exact .nil
  | pass _ _ ih => exact ih
  | pair _ ih => exact ih
  | lone _ _ _ ih => exact ih
  | @hole o x after ps hx h ih =>
    refine .cons (fun q hq => ?_) ih
    have hle := ((h.mem_iff q).1 hq).le_braceStart
    have hpos : 1 ≤ Text.bytes x.text := Text.one_le_bytes (List.cons_ne_nil _ _)
    show o < q.braceStart
    omega

end Reads

/-- The properties that are read in a template are those that are written in it, from the left to
the right and each of them once. -/
theorem parse_exact (t : Text) :
    (∀ p, p ∈ parse t ↔ Written t p) ∧
      (parse t).Pairwise fun p q => p.braceStart < q.braceStart :=
  ⟨(reads_properties 0 t).mem_iff, (reads_properties 0 t).ordered⟩

/-- The first hole breaks off at `b`, and of the three braces the last one opens the second hole. -/
example : parse ['{', 'a', ' ', 'b', '{', '{', '{', 'c', '}'] =
    [⟨6, 8, none, ⟨['c'], 7⟩, none, none⟩] := by
  decide +kernel

end LogSyntax.MessageTemplate
