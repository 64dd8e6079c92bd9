import LogSyntax.Expression
import LogSyntax.Proofs.Token.Lossless
/-!
# What the tokens of a text depend on

Tokens do not depend on where the text stands: further on they are the same tokens, moved
(`Tokenizer.tokens_move`). White space in front of them is skipped (`tokens_blanks`). The kind of
the token before matters only for a minus sign and for a star in brackets (`tokens_last`), and only
if it opens brackets or ends an operand (`tokens_neutral`). A string literal ends at its closing
quote, whatever stands behind it (`Token.read_literal`).
-/

namespace LogSyntax

/-- The token in a text that has `n` more bytes in front. -/
def Token.move (n : Nat) (token : Token) : Token := { token with start := token.start + n }

theorem Token.read_add (h : Heuristics) (last : Option Kind) (o n : Nat) (c : Char) (t : Text) :
    Token.read h last (o + n) c t = (Token.read h last o c t).move n := by
  unfold Token.read
  split <;> rfl

theorem Region.ofToken?_move (n : Nat) (token : Token) :
    Region.ofToken? (token.move n) = (Region.ofToken? token).map (·.rebase n) := by
  unfold Region.ofToken?
  rw [Option.map_map]
  rfl

/-- The regions of moved tokens are those of the tokens, moved. -/
theorem Region.filterMap_move (n : Nat) (tokens : List Token) :
    (tokens.map (Token.move n)).filterMap Region.ofToken? =
      (tokens.filterMap Region.ofToken?).map (·.rebase n) := by
  rw [List.filterMap_map, List.map_filterMap]
  congr 1
  funext token
  exact Region.ofToken?_move n token

/-- A text begins with a minus sign and a digit. -/
def BeginsNegative (t : Text) : Prop :=
  ∃ d rest, t = '-' :: d :: rest ∧ d.isDigit

namespace Tokenizer

variable {h : Heuristics} {last : Option Token.Kind} {o : Nat} {c : Char} {s t rest : Text}

theorem tokens_nil (o : Nat) (h : Heuristics) (last : Option Token.Kind) :
    tokens ⟨⟨o, []⟩, h, last⟩ = [] := drain_of_none rfl

theorem next?_cons (hc : isBlank c = false) :
    next? ⟨⟨o, c :: t⟩, h, last⟩ =
      some (Token.read h last o c t,
        ⟨(⟨o, c :: t⟩ : Place).advance (Token.read h last o c t).source.length, h,
          some (Token.read h last o c t).kind⟩) := by
  simp [next?, Place.skip, hc]

/-- The first token of a text that does not begin with white space. -/
theorem head?_tokenize (hc : isBlank c = false) :
    (tokenize h (c :: t)).head? = some (Token.read h none 0 c t) := by
  have hnext : next? ⟨⟨0, c :: t⟩, h, none⟩ = _ := next?_cons hc
  exact congrArg List.head? (drain_of_some hnext)

/-- The next token, and the tokenizer behind it. -/
theorem next?_of_read {token : Token} (hc : isBlank c = false)
    (hread : Token.read h last o c (s ++ rest) = token) (hsource : token.source = c :: s) :
    next? ⟨⟨o, c :: (s ++ rest)⟩, h, last⟩ =
      some (token, ⟨⟨o + Text.bytes token.source, rest⟩, h, some token.kind⟩) := by
  have hplace : (⟨o, c :: (s ++ rest)⟩ : Place).advance token.source.length =
      ⟨o + Text.bytes token.source, rest⟩ := by
    rw [hsource, ← List.cons_append, Place.advance, List.take_left, List.drop_left]
  rw [next?_cons hc, hread, hplace]

/-- A token, and those behind it. -/
theorem tokens_cons {token : Token} (hc : isBlank c = false)
    (hread : Token.read h last o c (s ++ rest) = token) (hsource : token.source = c :: s) :
    tokens ⟨⟨o, c :: (s ++ rest)⟩, h, last⟩ =
      token :: tokens ⟨⟨o + Text.bytes token.source, rest⟩, h, some token.kind⟩ :=
  drain_of_some (next?_of_read hc hread hsource)

/-- A text that one token takes up. -/
theorem tokenize_singleton {token : Token} (hc : isBlank c = false)
    (hread : Token.read h none 0 c t = token) (hsource : token.source = c :: t) :
    tokenize h (c :: t) = [token] := by
  have hcons : tokens ⟨⟨0, c :: (t ++ [])⟩, h, none⟩ = _ :=
    tokens_cons hc (by rwa [List.append_nil]) hsource
  rw [List.append_nil, tokens_nil] at hcons
  exact hcons

/-- White space in front of the tokens is skipped. -/
theorem tokens_blanks (hs : s.all isBlank) :
    tokens ⟨⟨o, s ++ t⟩, h, last⟩ = tokens ⟨⟨o + Text.bytes s, t⟩, h, last⟩ := by
  have hall : ∀ c ∈ s, isBlank c = true := List.all_eq_true.1 hs
  apply drain_congr
  have hskip : (⟨o, s ++ t⟩ : Place).skip isBlank =
      (⟨o + Text.bytes s, t⟩ : Place).skip isBlank := by
    simp only [Place.skip, List.takeWhile_append_of_pos hall, List.dropWhile_append_of_pos hall,
      Text.bytes_append, Nat.add_assoc]
  simp only [next?, hskip]

/-- The tokenizer in a text that has `n` more bytes in front. -/
def move (n : Nat) (z : Tokenizer) : Tokenizer :=
  { z with place := ⟨z.place.offset + n, z.place.rest⟩ }

theorem next?_move (n : Nat) (z : Tokenizer) :
    (z.move n).next? = z.next?.map fun (token, z') => (token.move n, z'.move n) := by
  obtain ⟨⟨o, t⟩, h, last⟩ := z
  have hskip : (⟨o + n, t⟩ : Place).skip isBlank =
      ⟨((⟨o, t⟩ : Place).skip isBlank).offset + n, ((⟨o, t⟩ : Place).skip isBlank).rest⟩ := by
    simp only [Place.skip, Nat.add_right_comm]
  simp only [next?, move, hskip]
  cases hrest : ((⟨o, t⟩ : Place).skip isBlank).rest with
  | nil => rfl
  | cons c cs =>
    simp only [Option.map_some, Token.read_add, Place.advance, Token.move, Nat.add_right_comm,
      hrest]

/-- Further on in a text the tokens are the same, moved. -/
theorem tokens_move (n : Nat) (z : Tokenizer) : (z.move n).tokens = z.tokens.map (Token.move n) :=
  drain_mapItems (move n) (Token.move n) (fun _ => True) (fun z _ => next?_move n z)
    (fun _ _ _ _ _ => trivial) z trivial

/-! ### The token before -/

theorem ofSymbol_last (hlast : last ≠ some .openBracket) (c : Char) (t : Text) :
    Lexeme.ofSymbol last c t = Lexeme.ofSymbol none c t := by
  unfold Lexeme.ofSymbol
  split <;> simp [hlast]

/-- Where a sign is a sign behind no token, too, the same token is read there. -/
theorem read_of_isSign (hlast : last ≠ some .openBracket)
    (hsign : Lexeme.isSign last c t = Lexeme.isSign none c t) (o : Nat) :
    Token.read h last o c t = Token.read h none o c t := by
  unfold Token.read Lexeme.read
  rw [hsign, ofSymbol_last hlast]

theorem read_last (hlast : last ≠ some .openBracket) (ht : ¬ BeginsNegative (c :: t)) (o : Nat) :
    Token.read h last o c t = Token.read h none o c t := by
  have hsign (last : Option Token.Kind) : Lexeme.isSign last c t = false := by
    by_contra hne
    simp only [Lexeme.isSign, Bool.not_eq_false, Bool.and_eq_true, beq_iff_eq] at hne
    obtain ⟨⟨rfl, hdigit⟩, -⟩ := hne
    cases t with
    | nil => simp at hdigit
    | cons d rest => exact ht ⟨d, rest, rfl, by simpa using hdigit⟩
  exact read_of_isSign hlast ((hsign last).trans (hsign none).symm) o

/-- Behind a token that is neither an opening bracket nor the end of an operand a token is what it
is behind none. -/
theorem read_neutral (hlast : last ≠ some .openBracket)
    (hoperand : last.any Token.Kind.endsOperand = false) (o : Nat) :
    Token.read h last o c t = Token.read h none o c t :=
  read_of_isSign hlast (by rw [Lexeme.isSign, Lexeme.isSign, hoperand]; rfl) o

/-- The token before matters for the next one only. -/
theorem tokens_of_read (hread : ∀ c cs, Text.trimStart t = c :: cs → ∀ o,
    Token.read h last o c cs = Token.read h none o c cs) :
    tokens ⟨⟨o, t⟩, h, last⟩ = tokens ⟨⟨o, t⟩, h, none⟩ := by
  apply drain_congr
  simp only [next?]
  cases hrest : ((⟨o, t⟩ : Place).skip isBlank).rest with
  | nil => rfl
  | cons c cs => simp only [hread c cs hrest]

/-- Behind any token but an opening bracket stand the tokens of the text on its own, unless it
begins with a minus sign and a digit. -/
theorem tokens_last (hlast : last ≠ some .openBracket)
    (ht : ¬ BeginsNegative (Text.trimStart t)) :
    tokens ⟨⟨o, t⟩, h, last⟩ = tokens ⟨⟨o, t⟩, h, none⟩ := by
  apply tokens_of_read
  intro c cs hcons
  rw [hcons] at ht
  exact read_last hlast ht

/-- Behind a token that is neither an opening bracket nor the end of an operand stand the tokens of
the text on its own. -/
theorem tokens_neutral (hlast : last ≠ some .openBracket)
    (hoperand : last.any Token.Kind.endsOperand = false) :
    tokens ⟨⟨o, t⟩, h, last⟩ = tokens ⟨⟨o, t⟩, h, none⟩ :=
  tokens_of_read fun _ _ _ => read_neutral hlast hoperand

end Tokenizer

/-! ## String literals -/

namespace Literal

variable {h : Heuristics} {n : Nat} {value key rest text : Text}

/-- Two quotes belong to a literal and stand for one. -/
theorem readString_pair (t : Text) :
    readString h n value ('\'' :: '\'' :: t) = readString h (n + 2) ('\'' :: value) t := rfl

/-- A single quote closes a literal. -/
theorem readString_close (hrest : rest.head? ≠ some '\'') :
    readString h n value ('\'' :: rest) = (n + 1, ('\'' :: value).reverse) := by
  unfold readString
  split
  · next cs heq =>
    rw [(List.cons.inj heq).2] at hrest
    exact absurd rfl hrest
  · rfl
  · next hquote heq => exact absurd (List.cons.inj heq).1.symm hquote
  · contradiction

/-- Any other character belongs to a literal, unless the literal is cut short before it. -/
theorem readString_char {c : Char} (hc : c ≠ '\'') :
    readString h n value (c :: rest) =
      if h.endsBefore n value.head? c then (n, value.reverse)
      else readString h (n + 1) (c :: value) rest := by
  rw [readString.eq_def]
  split
  · next heq => exact absurd (List.cons.inj heq).1 hc
  · next heq => exact absurd (List.cons.inj heq).1 hc
  · next heq =>
    cases heq
    rfl
  · contradiction

theorem le_readString (h : Heuristics) (n : Nat) (value t : Text) :
    n ≤ (readString h n value t).1 := by
  obtain ⟨content, closing, -, -, -, heq⟩ := readString_eq h n value t
  rw [heq]
  exact Nat.le_add_right _ _

/-- A literal that is read up to its closing quote is the same whatever stands behind it, but for
another quote. -/
theorem readString_closed {content rest' : Text} (hpaired : Token.QuotesPaired content)
    (hrest' : rest'.head? ≠ some '\'')
    (hread : (readString h n value (content ++ '\'' :: rest)).1 = n + content.length + 1) :
    readString h n value (content ++ '\'' :: rest') =
      readString h n value (content ++ '\'' :: rest) := by
  induction content using Token.QuotesPaired.induct generalizing n value with
  | case1 content ih =>
    simp only [List.cons_append, List.length_cons, readString_pair] at hread ⊢
    exact ih hpaired (by omega)
  | case2 content hpair =>
    rw [Token.QuotesPaired] at hpaired
    · exact hpaired.elim
    · exact hpair
  | case3 c content hpair hquote ih =>
    have hc : c ≠ '\'' := fun hc => hquote hc
    rw [Token.quotesPaired_cons hc] at hpaired
    rw [List.cons_append, readString_char hc, List.length_cons] at hread
    rw [List.cons_append, List.cons_append, readString_char hc, readString_char hc]
    split
    · rfl
    · next hends =>
      rw [if_neg hends] at hread
      exact ih hpaired (by omega)
  | case4 =>
    have hrest : rest.head? ≠ some '\'' := by
      intro hhead
      obtain ⟨rest, rfl⟩ := List.head?_eq_some_iff.1 hhead
      rw [List.nil_append, readString_pair] at hread
      have hle := le_readString h (n + 2) ('\'' :: value) rest
      rw [List.length_nil] at hread
      omega
    rw [List.nil_append, List.nil_append, readString_close hrest', readString_close hrest]

end Literal

/-- The token that a quoted text makes on its own is the one that it makes in front of other
text. -/
theorem Token.read_literal {h : Heuristics} {last : Option Kind} {o : Nat} {key rest text : Text}
    (hkey : '\'' ∉ key) (hrest : rest.head? ≠ some '\'')
    (htokens : tokenize h ('\'' :: (key ++ ['\''])) =
      [⟨.stringLiteral, '\'' :: (key ++ ['\'']), text, 0⟩]) :
    Token.read h last o '\'' (key ++ '\'' :: rest) =
      ⟨.stringLiteral, '\'' :: (key ++ ['\'']), text, o⟩ := by
  have hquote : isBlank '\'' = false := by decide
  -- the token of the quoted text is the one read at its quote
  have hread : Token.read h none 0 '\'' (key ++ ['\'']) =
      ⟨.stringLiteral, '\'' :: (key ++ ['\'']), text, 0⟩ := by
    have hfirst : (tokenize h ('\'' :: (key ++ ['\'']))).head? = _ := Tokenizer.head?_tokenize hquote
    rw [htokens] at hfirst
    exact (Option.some.inj hfirst).symm
  obtain ⟨content, closing, -, -, hpre, heq⟩ := Literal.readString_eq h 0 ['\''] (key ++ ['\''])
  have hle := hpre.length_le
  simp only [Token.read, if_true, heq, Token.mk.injEq, true_and, and_true, Nat.zero_add,
    List.cons.injEq] at hread
  obtain ⟨hsource, htext⟩ := hread
  have hlength : (content ++ closing).length = key.length + 1 := by
    have htake := congrArg List.length hsource
    rw [List.length_take, List.length_append] at htake
    simp at htake hle ⊢
    omega
  rw [htext, hlength] at heq
  have hlong : Literal.readString h 0 ['\''] (key ++ '\'' :: rest) =
      Literal.readString h 0 ['\''] (key ++ ['\'']) :=
    Literal.readString_closed (quotesPaired_of_notMem hkey) hrest (by rw [heq, Nat.add_assoc])
  rw [heq] at hlong
  simp only [Token.read, if_true, hlong, Token.mk.injEq, true_and, and_true, List.cons.injEq]
  rw [show key ++ '\'' :: rest = (key ++ ['\'']) ++ rest by simp,
    show 0 + (key.length + 1) = (key ++ ['\'']).length by simp, List.take_left]

/-! ## The regions of an expression -/

namespace Expression

variable {h : Heuristics} {s t : Text}

theorem tokens_add (o n : Nat) (t : Text) :
    tokens h (o + n) t = (tokens h o t).map (Token.move n) :=
  Tokenizer.tokens_move n (.start h ⟨o, t⟩)

theorem tokens_eq_move (h : Heuristics) (o : Nat) (t : Text) :
    tokens h o t = (tokenize h t).map (Token.move o) := by
  have hmove := tokens_add (h := h) 0 o t
  rwa [Nat.zero_add] at hmove

theorem regions_add (o n : Nat) (t : Text) :
    regions h (o + n) t = (regions h o t).map (·.rebase n) := by
  rw [regions, tokens_add, Region.filterMap_move, regions]

/-- The regions of an expression in a larger text are those of the expression on its own, moved. -/
theorem regions_eq_rebase (o : Nat) (t : Text) :
    regions h o t = (classify h t).map (·.rebase o) := by
  have hadd := regions_add (h := h) 0 o t
  rwa [Nat.zero_add] at hadd

theorem regions_blanks (hs : s.all isBlank) (o : Nat) :
    regions h o (s ++ t) = regions h (o + Text.bytes s) t := by
  rw [regions, regions, tokens, tokens, Tokenizer.start, Tokenizer.start,
    Tokenizer.tokens_blanks hs]

end Expression

end LogSyntax
