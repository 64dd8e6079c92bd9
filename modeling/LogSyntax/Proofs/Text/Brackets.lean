import Mathlib.Algebra.Group.Nat.Even
import Mathlib.Data.List.Basic
import LogSyntax.Text.Basic
/-!
# Quotes and brackets

Single quotes hide what they enclose; `Text.outside` is what they leave of a text. In it brackets of
one kind or another are counted. A count that a closing bracket without partner does not lower
(`Brackets.depth`) is the difference of opening and closing brackets as long as every closing
bracket has a partner (`Brackets.Within`), and two kinds of brackets may then be counted apart or
together (`depth_both`). Where brackets in braces are a matter of their own, those outside braces
are what counts (`Text.ungrouped`).
-/

namespace LogSyntax

namespace Text

/-- Whether a quote is open behind a text, when `quoted` says whether one is open before it. -/
def quotedAfter (quoted : Bool) (t : Text) : Bool :=
  t.foldl (fun quoted c => if c = '\'' then !quoted else quoted) quoted

/-- What stands outside single quotes, without the quotes, when `quoted` says whether one is open
before the text. -/
def outside (quoted : Bool) : Text → Text
  | [] => []
  | c :: cs =>
    if c = '\'' then outside (!quoted) cs
    else if quoted then outside quoted cs
    else c :: outside quoted cs

/-- No brace stands in the text. -/
def BraceFree (t : Text) : Prop := '{' ∉ t ∧ '}' ∉ t

instance (t : Text) : Decidable (BraceFree t) :=
  inferInstanceAs (Decidable ('{' ∉ t ∧ '}' ∉ t))

variable {q : Bool} {c : Char} {s t : Text}

theorem BraceFree.of_cons (h : BraceFree (c :: t)) : c ≠ '{' ∧ c ≠ '}' ∧ BraceFree t := by
  simp only [BraceFree, List.mem_cons, not_or] at h
  exact ⟨fun hc => h.1.1 hc.symm, fun hc => h.2.1 hc.symm, h.1.2, h.2.2⟩

theorem braceFree_append : BraceFree (s ++ t) ↔ BraceFree s ∧ BraceFree t := by
  simp only [BraceFree, List.mem_append, not_or]
  tauto

@[simp] theorem quotedAfter_nil : quotedAfter q [] = q := rfl

theorem quotedAfter_cons :
    quotedAfter q (c :: t) = quotedAfter (if c = '\'' then !q else q) t := rfl

theorem quotedAfter_append : quotedAfter q (s ++ t) = quotedAfter (quotedAfter q s) t := by
  simp [quotedAfter]

/-- An even number of quotes leaves no quote open that was not open before. -/
theorem quotedAfter_eq (q : Bool) (t : Text) :
    quotedAfter q t = if Even (t.count '\'') then q else !q := by
  induction t generalizing q with
  | nil => simp
  | cons c t ih =>
    rw [quotedAfter_cons, ih]
    by_cases hc : c = '\''
    · simp only [hc, if_true, List.count_cons_self, Nat.even_add_one]
      split <;> simp
    · simp [hc]

theorem quotedAfter_of_even (h : Even (t.count '\'')) : quotedAfter q t = q := by
  rw [quotedAfter_eq, if_pos h]

@[simp] theorem outside_nil : outside q [] = [] := rfl

theorem outside_quote : outside q ('\'' :: t) = outside (!q) t := by
  simp [outside]

theorem outside_quoted (hc : c ≠ '\'') : outside true (c :: t) = outside true t := by
  simp [outside, hc]

theorem outside_plain (hc : c ≠ '\'') : outside false (c :: t) = c :: outside false t := by
  simp [outside, hc]

theorem outside_append : outside q (s ++ t) = outside q s ++ outside (quotedAfter q s) t := by
  induction s generalizing q with
  | nil => rfl
  | cons c s ih =>
    rw [List.cons_append, quotedAfter_cons]
    by_cases hc : c = '\''
    · rw [hc, outside_quote, outside_quote, ih]
      rfl
    · rw [if_neg hc]
      cases q with
      | true => rw [outside_quoted hc, outside_quoted hc, ih]
      | false => rw [outside_plain hc, outside_plain hc, ih, List.cons_append]

/-- A character that is no brace outside quotes leaves none. -/
theorem braceFree_outside (hopen : ¬ (q = false ∧ c = '{')) (hclose : ¬ (q = false ∧ c = '}')) :
    BraceFree (outside q [c]) := by
  by_cases hquote : c = '\''
  · simp [outside, hquote, BraceFree]
  · cases q with
    | true => simp [outside, hquote, BraceFree]
    | false => simp_all [outside, BraceFree, eq_comm]

/-- A text without quotes is all outside of them. -/
theorem outside_of_not_mem (h : '\'' ∉ t) : outside false t = t ∧ quotedAfter false t = false := by
  induction t with
  | nil => exact ⟨rfl, rfl⟩
  | cons c t ih =>
    rw [List.mem_cons, not_or] at h
    obtain ⟨hout, hafter⟩ := ih h.2
    have hc : c ≠ '\'' := fun hc => h.1 hc.symm
    exact ⟨by rw [outside_plain hc, hout], by rw [quotedAfter_cons, if_neg hc, hafter]⟩

/-- A text without quotes inside an open quote is all hidden. -/
theorem outside_hidden (h : '\'' ∉ t) : outside true t = [] ∧ quotedAfter true t = true := by
  induction t with
  | nil => exact ⟨rfl, rfl⟩
  | cons c t ih =>
    rw [List.mem_cons, not_or] at h
    obtain ⟨hout, hafter⟩ := ih h.2
    have hc : c ≠ '\'' := fun hc => h.1 hc.symm
    exact ⟨by rw [outside_quoted hc, hout], by rw [quotedAfter_cons, if_neg hc, hafter]⟩

end Text

/-! ## Counting brackets -/

/-- A kind of brackets: the characters that open one and those that close one. -/
structure Brackets where
  opening : Char → Bool
  closing : Char → Bool
  apart : ∀ c, opening c → closing c = false

namespace Brackets

/-- Parentheses and square brackets. -/
def straight : Brackets where
  opening c := c == '(' || c == '['
  closing c := c == ')' || c == ']'
  apart := by
    intro c h
    rcases (show c = '(' ∨ c = '[' by simpa using h) with rfl | rfl <;> rfl

/-- Braces. -/
def curly : Brackets where
  opening c := c == '{'
  closing c := c == '}'
  apart := by
    intro c h
    obtain rfl : c = '{' := by simpa using h
    rfl

/-- Brackets of either kind. -/
def both : Brackets where
  opening c := straight.opening c || curly.opening c
  closing c := straight.closing c || curly.closing c
  apart := by
    intro c h
    rcases (show (c = '(' ∨ c = '[') ∨ c = '{' by simpa [straight, curly] using h) with
      (rfl | rfl) | rfl <;> rfl

/-- The number of open brackets behind a character. A closing one without partner does not count. -/
def turn (b : Brackets) (depth : Nat) (c : Char) : Nat :=
  if b.opening c then depth + 1 else if b.closing c then depth - 1 else depth

/-- The number of open brackets behind a text. -/
def depth (b : Brackets) (depth : Nat) (t : Text) : Nat :=
  t.foldl b.turn depth

/-- No more brackets are closed in a text, or at its beginning, than `depth` and those it opens. -/
def Within (b : Brackets) (depth : Nat) (t : Text) : Prop :=
  ∀ s, s <+: t → s.countP b.closing ≤ depth + s.countP b.opening

/-- Every bracket of a text has its partner in it. -/
structure Balanced (b : Brackets) (t : Text) : Prop where
  closed : b.Within 0 t
  opened : t.countP b.opening = t.countP b.closing

/-- No colon of a text stands where no bracket is open. -/
def HidesColons (b : Brackets) (depth : Nat) (t : Text) : Prop :=
  ∀ s, s ++ [':'] <+: t → b.depth depth s ≠ 0

variable {b : Brackets} {d e : Nat} {c : Char} {s t : Text}

@[simp] theorem depth_nil : b.depth d [] = d := rfl

theorem depth_cons : b.depth d (c :: t) = b.depth (b.turn d c) t := rfl

theorem depth_append : b.depth d (s ++ t) = b.depth (b.depth d s) t := by
  simp [depth]

theorem turn_opening (h : b.opening c) : b.turn d c = d + 1 := by
  simp [turn, h]

theorem turn_closing (h : b.closing c) : b.turn d c = d - 1 := by
  have hopen : b.opening c = false := by
    cases hc : b.opening c with
    | false => rfl
    | true => rw [b.apart c hc] at h; contradiction
  simp [turn, h, hopen]

theorem turn_other (hopen : b.opening c = false) (hclose : b.closing c = false) :
    b.turn d c = d := by
  simp [turn, hopen, hclose]

/-- A character that opens or closes no bracket changes no depth. -/
theorem depth_of_forall (h : ∀ c ∈ t, b.opening c = false ∧ b.closing c = false) :
    b.depth d t = d := by
  induction t with
  | nil => rfl
  | cons c t ih =>
    rw [List.forall_mem_cons] at h
    rw [depth_cons, turn_other h.1.1 h.1.2, ih h.2]

/-! ### Texts that close no more than is open -/

theorem Within.mono (h : b.Within d t) (hle : d ≤ e) : b.Within e t := by
  intro s hs
  have := h s hs
  omega

theorem Within.of_prefix (h : b.Within d t) (hs : s <+: t) : b.Within d s := by
  intro r hr
  exact h r (hr.trans hs)

theorem Within.tail (h : b.Within d (c :: t)) : b.Within (b.turn d c) t := by
  intro s hs
  have hcons := h (c :: s) (by simpa using hs)
  rw [List.countP_cons, List.countP_cons] at hcons
  cases hopen : b.opening c with
  | true =>
    rw [turn_opening hopen]
    simp [hopen, b.apart c hopen] at hcons
    omega
  | false =>
    cases hclose : b.closing c with
    | true =>
      rw [turn_closing hclose]
      simp [hopen, hclose] at hcons
      omega
    | false =>
      rw [turn_other hopen hclose]
      simpa [hopen, hclose] using hcons

theorem Within.pos (h : b.Within d (c :: t)) (hc : b.closing c) : 0 < d := by
  have hhead := h [c] (by simp)
  have hopen : b.opening c = false := by
    cases hopen : b.opening c with
    | false => rfl
    | true => rw [b.apart c hopen] at hc; contradiction
  simp [hc, hopen] at hhead
  omega

theorem within_cons : b.Within d (c :: t) ↔ (b.closing c → 0 < d) ∧ b.Within (b.turn d c) t := by
  constructor
  · intro h
    exact ⟨h.pos, h.tail⟩
  · rintro ⟨hc, ht⟩ s hs
    cases s with
    | nil => simp
    | cons c' s =>
      obtain ⟨rfl, hprefix⟩ : c' = c ∧ s <+: t := by simpa using hs
      have hcount := ht s hprefix
      rw [List.countP_cons, List.countP_cons]
      cases hopen : b.opening c' with
      | true =>
        rw [turn_opening hopen] at hcount
        simp [b.apart c' hopen]
        omega
      | false =>
        cases hclose : b.closing c' with
        | true =>
          have := hc hclose
          rw [turn_closing hclose] at hcount
          simp
          omega
        | false =>
          rw [turn_other hopen hclose] at hcount
          simpa using hcount

instance decidableWithin (b : Brackets) : ∀ (d : Nat) (t : Text), Decidable (b.Within d t)
  | d, [] => isTrue (by simp [Within])
  | d, c :: t =>
    have := decidableWithin b (b.turn d c) t
    decidable_of_iff _ within_cons.symm

instance (b : Brackets) (t : Text) : Decidable (b.Balanced t) :=
  decidable_of_iff (b.Within 0 t ∧ t.countP b.opening = t.countP b.closing)
    ⟨fun h => ⟨h.1, h.2⟩, fun h => ⟨h.closed, h.opened⟩⟩

theorem within_append : b.Within d (s ++ t) ↔ b.Within d s ∧ b.Within (b.depth d s) t := by
  induction s generalizing d with
  | nil => simp [Within]
  | cons c s ih => rw [List.cons_append, within_cons, within_cons, ih, and_assoc]; rfl

theorem Within.depth_eq (h : b.Within d t) :
    b.depth d t + t.countP b.closing = d + t.countP b.opening := by
  induction t generalizing d with
  | nil => rfl
  | cons c t ih =>
    have htail := ih h.tail
    rw [depth_cons, List.countP_cons, List.countP_cons]
    cases hopen : b.opening c with
    | true =>
      rw [turn_opening hopen] at htail ⊢
      simp [b.apart c hopen]
      omega
    | false =>
      cases hclose : b.closing c with
      | true =>
        have := h.pos hclose
        rw [turn_closing hclose] at htail ⊢
        simp
        omega
      | false =>
        rw [turn_other hopen hclose] at htail ⊢
        simpa using htail

theorem balanced_of_forall (h : ∀ c ∈ t, b.opening c = false ∧ b.closing c = false) :
    b.Balanced t := by
  have hnone {f : Char → Bool} {s : Text} (hs : ∀ c ∈ s, f c = false) : s.countP f = 0 := by
    rw [List.countP_eq_zero]
    intro c hc
    rw [hs c hc]
    exact Bool.false_ne_true
  constructor
  · intro s hs
    rw [hnone fun c hc => (h c (hs.subset hc)).2]
    exact Nat.zero_le _
  · rw [hnone fun c hc => (h c hc).1, hnone fun c hc => (h c hc).2]

theorem Balanced.depth_eq (h : b.Balanced t) (d : Nat) : b.depth d t = d := by
  have hdepth := (h.closed.mono d.zero_le).depth_eq
  have := h.opened
  omega

theorem Balanced.append (hs : b.Balanced s) (ht : b.Balanced t) : b.Balanced (s ++ t) := by
  constructor
  · rw [within_append, hs.depth_eq]
    exact ⟨hs.closed, ht.closed⟩
  · rw [List.countP_append, List.countP_append, hs.opened, ht.opened]

/-- In a balanced text no bracket is closed that was open before. -/
theorem Balanced.le_depth (h : b.Balanced t) (hs : s <+: t) (d : Nat) : d ≤ b.depth d s := by
  have hdepth := ((h.closed.of_prefix hs).mono d.zero_le).depth_eq
  have := h.closed s hs
  omega

/-- As long as every closing bracket has a partner, brackets of both kinds may be counted apart. -/
theorem depth_both (hd : straight.Within d t) (he : curly.Within e t) :
    both.depth (d + e) t = straight.depth d t + curly.depth e t := by
  induction t generalizing d e with
  | nil => rfl
  | cons c t ih =>
    rw [depth_cons, depth_cons, depth_cons, ← ih hd.tail he.tail]
    congr 1
    by_cases hopen : c = '(' ∨ c = '['
    · rcases hopen with rfl | rfl <;> simp [turn, both, straight, curly] <;> omega
    · by_cases hclose : c = ')' ∨ c = ']'
      · have := hd.pos (by simpa [straight] using hclose)
        rcases hclose with rfl | rfl <;> simp [turn, both, straight, curly] <;> omega
      · by_cases hbrace : c = '}'
        · have := he.pos (by simpa [curly] using hbrace)
          subst hbrace
          simp [turn, both, straight, curly]
          omega
        · rw [not_or] at hopen hclose
          by_cases hcurly : c = '{'
          · subst hcurly
            simp [turn, both, straight, curly]
            omega
          · simp [turn, both, straight, curly, hopen, hclose, hbrace, hcurly]

/-- Where no brace stands, the two counts are the same. -/
theorem depth_both_of_braceFree (h : Text.BraceFree t) : both.depth d t = straight.depth d t := by
  induction t generalizing d with
  | nil => rfl
  | cons c t ih =>
    obtain ⟨hopen, hclose, ht⟩ := h.of_cons
    have hturn : both.turn d c = straight.turn d c := by
      simp [turn, both, curly, hopen, hclose]
    rw [depth_cons, depth_cons, hturn, ih ht]

/-! ### Colons -/

theorem hidesColons_nil : b.HidesColons d [] := by
  intro s hs
  simp at hs

theorem hidesColons_cons :
    b.HidesColons d (c :: t) ↔ (c = ':' → d ≠ 0) ∧ b.HidesColons (b.turn d c) t := by
  constructor
  · intro h
    refine ⟨?_, ?_⟩
    · rintro rfl
      exact h [] (by simp)
    · intro s hs
      exact h (c :: s) (by simpa using hs)
  · rintro ⟨hc, ht⟩ s hs
    cases s with
    | nil =>
      obtain rfl : ':' = c := by simpa using hs
      exact hc rfl
    | cons c' s =>
      obtain ⟨rfl, hprefix⟩ : c' = c ∧ s ++ [':'] <+: t := by simpa using hs
      exact ht s hprefix

instance decidableHidesColons (b : Brackets) :
    ∀ (d : Nat) (t : Text), Decidable (b.HidesColons d t)
  | _, [] => isTrue hidesColons_nil
  | d, c :: t =>
    have := decidableHidesColons b (b.turn d c) t
    decidable_of_iff _ hidesColons_cons.symm

theorem hidesColons_append :
    b.HidesColons d (s ++ t) ↔ b.HidesColons d s ∧ b.HidesColons (b.depth d s) t := by
  induction s generalizing d with
  | nil => simp [hidesColons_nil]
  | cons c s ih => rw [List.cons_append, hidesColons_cons, hidesColons_cons, ih, and_assoc]; rfl

theorem hidesColons_both_of_braceFree (h : Text.BraceFree t) (ht : straight.HidesColons d t) :
    both.HidesColons d t := by
  intro s hs
  have hfree : Text.BraceFree s := by
    obtain ⟨rest, rfl⟩ := hs
    exact (Text.braceFree_append.1 (Text.braceFree_append.1 h).1).1
  rw [depth_both_of_braceFree hfree]
  exact ht s hs

theorem hidesColons_of_not_mem (h : ':' ∉ t) : b.HidesColons d t := by
  intro s hs
  exact absurd (hs.subset (by simp)) h

end Brackets

/-! ### Texts without what stands in braces -/

namespace Text

open Brackets (curly)

variable {k : Nat} {c : Char} {s t : Text}

/-- What stands outside braces in a text, in front of which `depth` braces are open. -/
def ungrouped (depth : Nat) : Text → Text
  | [] => []
  | c :: cs =>
    if depth = 0 ∧ c ≠ '{' ∧ c ≠ '}' then c :: ungrouped depth cs
    else ungrouped (curly.turn depth c) cs

theorem ungrouped_plain (hopen : c ≠ '{') (hclose : c ≠ '}') :
    ungrouped 0 (c :: t) = c :: ungrouped 0 t := by
  rw [ungrouped, if_pos ⟨rfl, hopen, hclose⟩]

theorem ungrouped_turn (hc : k ≠ 0 ∨ c = '{' ∨ c = '}') :
    ungrouped k (c :: t) = ungrouped (curly.turn k c) t := by
  rw [ungrouped, if_neg]
  rintro ⟨hk, hopen, hclose⟩
  simp [hk, hopen, hclose] at hc

theorem ungrouped_append :
    ungrouped k (s ++ t) = ungrouped k s ++ ungrouped (curly.depth k s) t := by
  induction s generalizing k with
  | nil => rfl
  | cons c s ih =>
    rw [List.cons_append, Brackets.depth_cons]
    by_cases hc : k ≠ 0 ∨ c = '{' ∨ c = '}'
    · rw [ungrouped_turn hc, ungrouped_turn hc, ih]
    · simp only [not_or, not_not] at hc
      obtain ⟨rfl, hopen, hclose⟩ := hc
      have hturn : curly.turn 0 c = 0 :=
        Brackets.turn_other (by simpa [curly] using hopen) (by simpa [curly] using hclose)
      rw [ungrouped_plain hopen hclose, ungrouped_plain hopen hclose, ih, hturn, List.cons_append]

theorem ungrouped_of_braceFree (h : BraceFree t) : ungrouped 0 t = t := by
  induction t with
  | nil => rfl
  | cons c t ih =>
    obtain ⟨hopen, hclose, ht⟩ := h.of_cons
    rw [ungrouped_plain hopen hclose, ih ht]

/-- A text without braces leaves as many of them open as are. -/
theorem BraceFree.depth_curly (h : BraceFree t) : curly.depth k t = k := by
  apply Brackets.depth_of_forall
  intro c hc
  have hopen : c ≠ '{' := fun heq => h.1 (heq ▸ hc)
  have hclose : c ≠ '}' := fun heq => h.2 (heq ▸ hc)
  simp [curly, hopen, hclose]

/-- All of a text without braces is in those that are open. -/
theorem ungrouped_of_open (h : BraceFree t) : ungrouped (k + 1) t = [] := by
  induction t with
  | nil => rfl
  | cons c t ih =>
    obtain ⟨hopen, hclose, ht⟩ := h.of_cons
    have hturn : curly.turn (k + 1) c = k + 1 :=
      Brackets.turn_other (by simpa [curly] using hopen) (by simpa [curly] using hclose)
    rw [ungrouped_turn (.inl (Nat.succ_ne_zero k)), hturn, ih ht]

end Text

end LogSyntax
