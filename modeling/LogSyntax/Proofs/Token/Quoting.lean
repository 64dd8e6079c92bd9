import Mathlib.Data.List.Induction
import LogSyntax.Proofs.Token.Locality
/-!
# Quoted texts

A text is written between quotes with every quote in it twice. Reading it gives it back, unless the
limits for string literals cut it short: `Heuristics.EndsEarly` says of a character of the text, by
what stands in front of it, whether a literal ends there. Up to the first such character the literal
takes the text as it stands (`Literal.readString_doubleQuotes`), and there it ends
(`tokenize_quoted`).
-/

namespace LogSyntax

namespace Text

/-- The text as it stands in a string literal: every quote is written twice. -/
def doubleQuotes (t : Text) : Text :=
  t.flatMap fun c => if c = '\'' then ['\'', '\''] else [c]

/-- The text as a string literal. -/
def quoted (t : Text) : Text := '\'' :: (doubleQuotes t ++ ['\''])

theorem doubleQuotes_append (s t : Text) :
    doubleQuotes (s ++ t) = doubleQuotes s ++ doubleQuotes t := by
  simp [doubleQuotes]

theorem doubleQuotes_char {c : Char} (hc : c ≠ '\'') : doubleQuotes [c] = [c] := by
  simp [doubleQuotes, hc]

end Text

open Text (doubleQuotes quoted)

namespace Heuristics

variable {h : Heuristics} {s : Text} {c : Char}

/-- A literal whose content begins with this text ends in front of the character `c`: an operator
behind a dot, in the window, or a bracket beyond the limit. -/
def EndsEarly (h : Heuristics) (before : Text) (c : Char) : Prop :=
  (isArithmetic c ∧ (doubleQuotes before).length < h.operatorWindow ∧
    before.getLast? = some '.') ∨
    ((c = ')' ∨ c = ']' ∨ c = '}') ∧ h.runawayLiteralLimit < (doubleQuotes before).length)

/-- A literal with this content ends at none of its characters. -/
def Spares (h : Heuristics) (s : Text) : Prop :=
  ∀ before c after, s = before ++ c :: after → ¬ h.EndsEarly before c

instance (h : Heuristics) (s : Text) (c : Char) : Decidable (h.EndsEarly s c) :=
  inferInstanceAs (Decidable (_ ∨ _))

theorem spares_iff :
    h.Spares s ↔ ∀ i, (hi : i < s.length) → ¬ h.EndsEarly (s.take i) (s.get ⟨i, hi⟩) := by
  constructor
  · intro hspares i hi
    refine hspares _ _ (s.drop (i + 1)) ?_
    rw [List.get_eq_getElem, List.getElem_cons_drop, List.take_append_drop]
  · rintro hspares before c after rfl
    simpa using hspares before.length (by simp)

instance (h : Heuristics) (s : Text) : Decidable (h.Spares s) :=
  decidable_of_iff _ spares_iff.symm

theorem EndsEarly.ne_quote (hc : h.EndsEarly s c) : c ≠ '\'' := by
  rintro rfl
  rcases hc with ⟨harithmetic, -⟩ | ⟨hbracket, -⟩
  · contradiction
  · simp at hbracket

/-- The limits look at the last character in front of `c`, which may be the opening quote. -/
theorem endsBefore_iff :
    h.endsBefore (doubleQuotes s).length (s.reverse ++ ['\'']).head? c ↔ h.EndsEarly s c := by
  have hlast : (s.reverse ++ ['\'']).head? = some '.' ↔ s.getLast? = some '.' := by
    rw [List.head?_append, List.head?_reverse]
    cases s.getLast? with
    | none => simp
    | some d => simp
  simp only [endsBefore, EndsEarly, Bool.or_eq_true, Bool.and_eq_true, decide_eq_true_eq,
    beq_iff_eq, hlast, or_assoc]
  tauto

theorem spares_nil (h : Heuristics) : h.Spares [] := by
  intro before c after heq
  simp at heq

theorem spares_concat : h.Spares (s ++ [c]) ↔ h.Spares s ∧ ¬ h.EndsEarly s c := by
  constructor
  · intro hspares
    refine ⟨?_, hspares s c [] rfl⟩
    rintro before d after rfl
    exact hspares before d (after ++ [c]) (by simp)
  · rintro ⟨hspares, hc⟩ before d after heq
    rcases List.eq_nil_or_concat' after with rfl | ⟨after, e, rfl⟩
    · obtain ⟨rfl, hd⟩ := List.append_inj' heq rfl
      obtain rfl : c = d := by simpa using hd
      exact hc
    · rw [← List.cons_append, ← List.append_assoc] at heq
      exact hspares before d after (List.append_inj' heq rfl).1

/-- A literal that ends at some character ends at a first one. -/
theorem exists_first (hs : ¬ h.Spares s) :
    ∃ before c after, s = before ++ c :: after ∧ h.EndsEarly before c ∧ h.Spares before := by
  induction s using List.reverseRecOn with
  | nil => exact absurd (spares_nil h) hs
  | append_singleton s c ih =>
    by_cases hspares : h.Spares s
    · rw [spares_concat, not_and, not_not] at hs
      exact ⟨s, c, [], rfl, hs hspares, hspares⟩
    · obtain ⟨before, d, after, rfl, hd, hbefore⟩ := ih hspares
      exact ⟨before, d, after ++ [c], by simp, hd, hbefore⟩

end Heuristics

/-! ## Reading what is quoted -/

namespace Literal

variable {h : Heuristics} {s before after rest t : Text} {c : Char}

/-- As long as the limits spare it, the content is decoded to the text, with its quotes counted
twice. -/
theorem readString_doubleQuotes (hs : h.Spares s) (t : Text) :
    readString h 0 ['\''] (doubleQuotes s ++ t) =
      readString h (doubleQuotes s).length (s.reverse ++ ['\'']) t := by
  induction s using List.reverseRecOn generalizing t with
  | nil => rfl
  | append_singleton s c ih =>
    obtain ⟨hspares, hc⟩ := Heuristics.spares_concat.1 hs
    rw [Text.doubleQuotes_append, List.append_assoc, ih hspares, List.length_append,
      List.reverse_append]
    by_cases hquote : c = '\''
    · subst hquote
      exact readString_pair t
    · rw [← Heuristics.endsBefore_iff] at hc
      rw [Text.doubleQuotes_char hquote, List.singleton_append, readString_char hquote, if_neg hc]
      rfl

theorem readString_quoted (hs : h.Spares s) (hrest : rest.head? ≠ some '\'') :
    readString h 0 ['\''] (doubleQuotes s ++ ['\''] ++ rest) =
      ((doubleQuotes s ++ ['\'']).length, '\'' :: (s ++ ['\''])) := by
  rw [List.append_assoc, readString_doubleQuotes hs, List.singleton_append, readString_close hrest]
  simp

theorem readString_early (hbefore : h.Spares before) (hc : h.EndsEarly before c) (t : Text) :
    readString h 0 ['\''] (doubleQuotes (before ++ c :: after) ++ t) =
      ((doubleQuotes before).length, '\'' :: before) := by
  have hsplit : doubleQuotes (before ++ c :: after) ++ t =
      doubleQuotes before ++ c :: (doubleQuotes after ++ t) := by
    rw [Text.doubleQuotes_append, List.append_assoc, ← List.singleton_append (l := after),
      Text.doubleQuotes_append, Text.doubleQuotes_char hc.ne_quote]
    rfl
  rw [hsplit, readString_doubleQuotes hbefore, readString_char hc.ne_quote,
    if_pos (Heuristics.endsBefore_iff.2 hc)]
  simp

end Literal

namespace Token

variable {h : Heuristics} {last : Option Kind} {o : Nat} {s before after rest : Text} {c : Char}

theorem read_quoted (hs : h.Spares s) (hrest : rest.head? ≠ some '\'') :
    Token.read h last o '\'' (doubleQuotes s ++ ['\''] ++ rest) =
      ⟨.stringLiteral, quoted s, '\'' :: (s ++ ['\'']), o⟩ := by
  simp only [Token.read, if_true, Literal.readString_quoted hs hrest, List.take_left, quoted]

theorem read_early (hbefore : h.Spares before) (hc : h.EndsEarly before c) (rest : Text) :
    Token.read h last o '\'' (doubleQuotes (before ++ c :: after) ++ rest) =
      ⟨.stringLiteral, '\'' :: doubleQuotes before, '\'' :: before, o⟩ := by
  simp only [Token.read, if_true, Literal.readString_early hbefore hc]
  rw [Text.doubleQuotes_append, List.append_assoc, List.take_left]

end Token

/-- What the first token of a quoted text is. It stands for the whole text exactly if the limits
spare it, and otherwise ends in front of the first character that they do not. -/
theorem tokenize_quoted (h : Heuristics) (s rest : Text) (hrest : rest.head? ≠ some '\'') :
    ∃ token, (tokenize h (quoted s ++ rest)).head? = some token ∧
      token.kind = .stringLiteral ∧ token.start = 0 ∧
      (token.text = '\'' :: (s ++ ['\'']) ∧ token.source = quoted s ↔ h.Spares s) ∧
      ∀ before c after, s = before ++ c :: after → h.EndsEarly before c → h.Spares before →
        token.text = '\'' :: before ∧ token.source = '\'' :: doubleQuotes before := by
  have hnext : Tokenizer.next? ⟨⟨0, '\'' :: (doubleQuotes s ++ ['\''] ++ rest)⟩, h, none⟩ = _ :=
    Tokenizer.next?_cons (by decide)
  have hfirst : (tokenize h (quoted s ++ rest)).head? =
      some (Token.read h none 0 '\'' (doubleQuotes s ++ ['\''] ++ rest)) :=
    congrArg List.head? (drain_of_some hnext)
  refine ⟨_, hfirst, rfl, rfl, ⟨?_, ?_⟩, ?_⟩
  · -- a literal that ends early is too short
    rintro ⟨htext, -⟩
    by_contra hs
    obtain ⟨before, c, after, rfl, hc, hbefore⟩ := Heuristics.exists_first hs
    rw [List.append_assoc, Token.read_early hbefore hc] at htext
    simp at htext
  · intro hs
    rw [Token.read_quoted hs hrest]
    exact ⟨rfl, rfl⟩
  · rintro before c after rfl hc hbefore
    rw [List.append_assoc, Token.read_early hbefore hc]
    exact ⟨rfl, rfl⟩

/-- In `'a''.+b'` the plus stands behind four characters of the content: a window of four spares it,
and one of five does not. -/
theorem tokenize_quoted_window :
    (∃ token, (tokenize ⟨50, 4⟩ (quoted "a'.+b".toList ++ [' '])).head? = some token ∧
      token.text = "'a'.+b'".toList) ∧
    ∃ token, (tokenize ⟨50, 5⟩ (quoted "a'.+b".toList ++ [' '])).head? = some token ∧
      token.text = "'a'.".toList := by
  constructor
  · obtain ⟨token, hhead, -, -, hwhole, -⟩ :=
      tokenize_quoted ⟨50, 4⟩ "a'.+b".toList [' '] (by decide)
    exact ⟨token, hhead, (hwhole.2 (by decide)).1⟩
  · obtain ⟨token, hhead, -, -, -, hearly⟩ :=
      tokenize_quoted ⟨50, 5⟩ "a'.+b".toList [' '] (by decide)
    exact ⟨token, hhead, (hearly "a'.".toList '+' ['b'] rfl (by decide) (by decide)).1⟩

end LogSyntax
