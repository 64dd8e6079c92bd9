import Mathlib.Data.List.TakeWhile
import LogSyntax.Proofs.Text.Laid
import LogSyntax.Tokenizer
/-!
# The tokens of a text lose nothing

The sources of the tokens stand in the text one behind the other, and what stands between them is
white space (`Tokenizer.laid_tokens`). A string literal is decoded while it is read, and
`Literal.readString_eq` says what comes out, against its source. `tokenize_lossless` puts both
together for all tokens of a text.
-/

namespace LogSyntax

namespace Token

/-- Each doubled quote, from left to right, as one quote. -/
def collapseQuotes : Text → Text
  | '\'' :: '\'' :: cs => '\'' :: collapseQuotes cs
  | c :: cs => c :: collapseQuotes cs
  | [] => []

/-- Read from left to right, every quote of the text stands in a pair. -/
def QuotesPaired : Text → Prop
  | '\'' :: '\'' :: cs => QuotesPaired cs
  | '\'' :: _ => False
  | _ :: cs => QuotesPaired cs
  | [] => True

theorem collapseQuotes_cons {c : Char} (hc : c ≠ '\'') (cs : Text) :
    collapseQuotes (c :: cs) = c :: collapseQuotes cs := by
  rw [collapseQuotes]
  rintro cs rfl
  exact absurd rfl hc

theorem quotesPaired_cons {c : Char} (hc : c ≠ '\'') (cs : Text) :
    QuotesPaired (c :: cs) = QuotesPaired cs := by
  rw [QuotesPaired]
  · rintro cs rfl
    exact absurd rfl hc
  · rintro rfl
    exact absurd rfl hc

theorem quotesPaired_of_notMem {t : Text} (ht : '\'' ∉ t) : QuotesPaired t := by
  induction t with
  | nil => trivial
  | cons c t ih =>
    rw [List.mem_cons, not_or] at ht
    rw [quotesPaired_cons fun hc => ht.1 hc.symm]
    exact ih ht.2

/-- What the decoded text of a token is. Only a string literal differs from its source: behind the
opening quote each doubled quote stands for one, and a quote without partner is the last character
of the source. -/
structure Faithful (token : Token) : Prop where
  plain : token.kind ≠ .stringLiteral →
    token.text = token.source ∧ token.length = token.sourceLength
  literal : token.kind = .stringLiteral → ∃ content closing,
    token.source = '\'' :: (content ++ closing) ∧ QuotesPaired content ∧
      (closing = [] ∨ closing = ['\'']) ∧
      token.text = '\'' :: collapseQuotes (content ++ closing)

end Token

/-- Reading a string literal takes its content and the closing quote, if there is one, and decodes
both. -/
theorem Literal.readString_eq (h : Heuristics) (scanned : Nat) (value t : Text) :
    ∃ content closing, Token.QuotesPaired content ∧ (closing = [] ∨ closing = ['\'']) ∧
      content ++ closing <+: t ∧
      readString h scanned value t =
        (scanned + (content ++ closing).length,
          value.reverse ++ Token.collapseQuotes (content ++ closing)) := by
  fun_induction readString h scanned value t with
  | case1 scanned value cs ih =>
    obtain ⟨content, closing, hpaired, hclosing, hpre, heq⟩ := ih
    refine ⟨'\'' :: '\'' :: content, closing, hpaired, hclosing, by simpa using hpre, ?_⟩
    rw [heq]
    simp only [List.cons_append, List.length_cons, Token.collapseQuotes, List.reverse_cons,
      List.append_assoc, List.nil_append, Prod.mk.injEq, and_true]
    omega
  | case2 scanned value cs _ =>
    exact ⟨[], ['\''], trivial, .inr rfl, by simp, by simp [Token.collapseQuotes]⟩
  | case3 scanned value c cs _ _ hends =>
    exact ⟨[], [], trivial, .inl rfl, by simp, by simp [Token.collapseQuotes]⟩
  | case4 scanned value c cs hpair hquote _ ih =>
    have hc : c ≠ '\'' := fun hc => hquote hc
    obtain ⟨content, closing, hpaired, hclosing, hpre, heq⟩ := ih
    refine ⟨c :: content, closing, by rwa [Token.quotesPaired_cons hc], hclosing,
      by simpa using hpre, ?_⟩
    rw [heq, List.cons_append, Token.collapseQuotes_cons hc]
    simp only [List.length_cons, List.reverse_cons, List.append_assoc, List.cons_append,
      List.nil_append, Prod.mk.injEq, and_true]
    omega
  | case5 scanned value =>
    exact ⟨[], [], trivial, .inl rfl, by simp, by simp [Token.collapseQuotes]⟩

theorem Literal.readString_le (h : Heuristics) (value t : Text) :
    (readString h 0 value t).1 ≤ t.length := by
  obtain ⟨content, closing, -, -, hpre, hread⟩ := readString_eq h 0 value t
  rw [hread, Nat.zero_add]
  exact hpre.length_le

/-! ## The kinds of lexemes -/

theorem Phrase.mem_of_find? {table : List Phrase} {isHead : Text → Bool} {t : Text}
    {kind : Token.Kind} {n : Nat} (h : find? table isHead t = some (kind, n)) :
    kind ∈ table.map (·.kind) := by
  obtain ⟨phrase, hmem, hphrase⟩ := List.exists_of_findSome?_eq_some h
  split at hphrase
  · obtain ⟨m, -, hm⟩ := Option.map_eq_some_iff.1 hphrase
    cases hm
    exact List.mem_map_of_mem hmem
  · contradiction

namespace Lexeme

/-- The kinds of punctuation and operators. -/
def symbolKinds : List Token.Kind :=
  [.openParen, .closeParen, .openBracket, .closeBracket, .closeBrace, .comma, .colon, .spread, .dot,
   .wildcard, .arithmeticOperator, .comparisonOperator, .unknown]

theorem kind_ofSigil (t : Text) :
    (ofSigil t).kind ∈ [Token.Kind.builtinProperty, .identifier, .unknown] := by
  unfold ofSigil
  split
  · simp
  · split <;> simp

theorem kind_ofBrace (t : Text) :
    (ofBrace t).kind ∈ .openBrace :: .unknown :: markerPhrases.map (·.kind) := by
  unfold ofBrace
  split
  · dsimp only
    split
    · next kind more hfind =>
      exact List.mem_cons_of_mem _ (List.mem_cons_of_mem _ (Phrase.mem_of_find? hfind))
    · simp
  · simp

theorem kind_ofWord (c : Char) (t : Text) :
    (ofWord c t).kind ∈ .function :: .identifier :: reservedPhrases.map (·.kind) := by
  unfold ofWord
  dsimp only
  split
  · next kind tail hfind =>
    exact List.mem_cons_of_mem _ (List.mem_cons_of_mem _ (Phrase.mem_of_find? hfind))
  · split <;> simp

theorem kind_ofSymbol (last : Option Token.Kind) (c : Char) (t : Text) :
    (ofSymbol last c t).kind ∈ symbolKinds := by
  unfold ofSymbol
  split <;> first | (split <;> decide) | decide

/-- Only quotes begin a string literal. -/
theorem kind_read (last : Option Token.Kind) (c : Char) (t : Text) :
    (read last c t).kind ≠ .stringLiteral := by
  fun_cases read last c t with
  | case1 => simp
  | case2 => simp
  | case3 => exact ne_of_mem_of_not_mem (kind_ofSigil t) (by decide)
  | case4 => exact ne_of_mem_of_not_mem (kind_ofBrace t) (by decide)
  | case5 => exact ne_of_mem_of_not_mem (kind_ofWord c t) (by decide)
  | case6 => exact ne_of_mem_of_not_mem (kind_ofSymbol last c t) (by decide)

end Lexeme

theorem Token.faithful_read (h : Heuristics) (last : Option Kind) (offset : Nat) (c : Char)
    (t : Text) : (read h last offset c t).Faithful := by
  unfold read
  split
  · next hc =>
    obtain ⟨content, closing, hpaired, hclosing, hpre, heq⟩ := Literal.readString_eq h 0 [c] t
    rw [heq]
    refine ⟨fun hkind => absurd rfl hkind, fun _ => ⟨content, closing, ?_, hpaired, hclosing, ?_⟩⟩
    · simp only [hc, Nat.zero_add, List.cons.injEq, true_and]
      exact (List.prefix_iff_eq_take.1 hpre).symm
    · simp [hc]
  · exact ⟨fun _ => ⟨rfl, rfl⟩, fun hkind => absurd hkind (Lexeme.kind_read last c t)⟩

/-! ## The tokenizer -/

namespace Tokenizer

/-- At the end of a text the tokenizer leaves white space behind. -/
theorem all_isBlank_of_none {z : Tokenizer} (h : z.next? = none) : z.place.rest.all isBlank := by
  simp only [next?] at h
  split at h
  · next hrest => exact List.all_eq_true.2 (List.dropWhile_eq_nil_iff.1 hrest)
  · contradiction

/-- What a step of the tokenizer reads: white space and a token. -/
theorem read_of_some {z z' : Tokenizer} {token : Token} (h : z.next? = some (token, z')) :
    ∃ gap c t, gap.all isBlank ∧
      token = Token.read z.heuristics z.last (z.place.offset + Text.bytes gap) c t ∧
      z.place.rest = gap ++ (token.source ++ z'.place.rest) ∧ z'.place.offset = token.stop := by
  simp only [next?] at h
  split at h
  · contradiction
  · next c t hrest =>
    cases h
    set token := Token.read z.heuristics z.last (z.place.skip isBlank).offset c t with htoken
    obtain ⟨s, hsource, t', rfl⟩ : ∃ s, token.source = c :: s ∧ s <+: t := Token.source_read ..
    have hgap : z.place.rest = z.place.rest.takeWhile isBlank ++ c :: (s ++ t') := by
      rw [← hrest]
      exact List.takeWhile_append_dropWhile.symm
    have hadvance : (z.place.skip isBlank).advance token.source.length =
        ⟨(z.place.skip isBlank).offset + Text.bytes token.source, t'⟩ := by
      rw [Place.advance, hrest, hsource, ← List.cons_append, List.take_left, List.drop_left]
    have hstart : token.start = (z.place.skip isBlank).offset := Token.start_read ..
    refine ⟨z.place.rest.takeWhile isBlank, c, s ++ t', List.all_takeWhile, rfl, ?_, ?_⟩
    · rw [hadvance, hsource]
      exact hgap
    · rw [hadvance, Token.stop, hstart, Token.sourceLength]

/-- The tokens stand in the text one behind the other, with white space between them. -/
theorem laid_tokens (z : Tokenizer) :
    Laid Token.source Token.start (·.all isBlank) z.place.offset z.tokens z.place.rest := by
  refine drain_induction (motive := fun z tokens =>
    Laid Token.source Token.start (·.all isBlank) z.place.offset tokens z.place.rest) z ?_ ?_
  · intro z h
    exact .nil (all_isBlank_of_none h)
  · intro z token z' tokens h ih
    obtain ⟨gap, c, t, hgap, rfl, hrest, hstop⟩ := read_of_some h
    obtain ⟨s, hsource, -⟩ :=
      Token.source_read z.heuristics z.last (z.place.offset + Text.bytes gap) c t
    rw [hrest]
    rw [hstop] at ih
    exact .cons hgap (by simp [hsource]) (Token.start_read ..) ih

theorem faithful_of_mem_tokens (z : Tokenizer) : ∀ token ∈ z.tokens, token.Faithful := by
  refine drain_induction (motive := fun _ tokens => ∀ token ∈ tokens, Token.Faithful token) z ?_ ?_
  · intro z _
    simp
  · intro z token z' tokens h ih
    obtain ⟨gap, c, t, -, rfl, -, -⟩ := read_of_some h
    exact List.forall_mem_cons.2 ⟨Token.faithful_read .., ih⟩

end Tokenizer

/-! ## The tokens of a text -/

/-- The tokens lose nothing of a text: they cover it but for white space, and each of them decodes
its source faithfully. -/
structure Lossless (tokens : List Token) (t : Text) : Prop where
  nonempty : ∀ token ∈ tokens, token.start < token.stop
  inside : ∀ token ∈ tokens, token.stop ≤ Text.bytes t
  boundaries : ∀ token ∈ tokens, Text.IsBoundary t token.start ∧ Text.IsBoundary t token.stop
  source : ∀ token ∈ tokens, Text.slice t token.start token.stop = token.source
  ordered : tokens.Pairwise fun token next => token.stop ≤ next.start
  /-- A byte outside all tokens belongs to white space. -/
  blank : ∀ before c after n, t = before ++ c :: after →
    Text.bytes before ≤ n → n < Text.bytes before + c.utf8Size →
    (∀ token ∈ tokens, n < token.start ∨ token.stop ≤ n) → isBlank c
  /-- White space and the sources of the tokens in turn rebuild the text. -/
  rebuilt : ∃ gaps : List Text, gaps.length = tokens.length + 1 ∧
    (∀ gap ∈ gaps, gap.all isBlank) ∧ interleave gaps (tokens.map (·.source)) = t
  faithful : ∀ token ∈ tokens, token.Faithful

theorem Laid.lossless {tokens : List Token} {t : Text}
    (h : Laid Token.source Token.start (·.all isBlank) 0 tokens t)
    (hfaithful : ∀ token ∈ tokens, token.Faithful) : Lossless tokens t where
  nonempty token htoken := by
    have := Text.one_le_bytes (h.source_ne_nil token htoken)
    unfold Token.stop Token.sourceLength
    omega
  inside token htoken := (h.standsAt [] rfl token htoken).stop_le
  boundaries token htoken :=
    ⟨(h.standsAt [] rfl token htoken).isBoundary_start,
      (h.standsAt [] rfl token htoken).isBoundary_stop⟩
  source token htoken := (h.standsAt [] rfl token htoken).slice_eq
  ordered := h.ordered
  blank before c after n ht hle hlt hout := by
    rcases h.mem_gap_or ht with ⟨gap, hgap, hc⟩ | ⟨token, htoken, hstart, hstop⟩
    · exact List.all_eq_true.1 hgap c hc
    · have := hout token htoken
      unfold Token.stop Token.sourceLength at this
      omega
  rebuilt := h.interleaved
  faithful := hfaithful

/-- Reading a text loses nothing of it, whatever the limits for string literals are. -/
theorem tokenize_lossless (h : Heuristics) (t : Text) : Lossless (tokenize h t) t :=
  (Tokenizer.laid_tokens (.start h (.start t))).lossless
    (Tokenizer.faithful_of_mem_tokens (.start h (.start t)))

/-- The decoded text is shorter than the source, and the white space is in no token. -/
example : tokenize .standard "é = 'it''s'".toList =
    [⟨.identifier, ['é'], ['é'], 0⟩, ⟨.comparisonOperator, ['='], ['='], 3⟩,
      ⟨.stringLiteral, "'it''s'".toList, "'it's'".toList, 5⟩] := by
  decide +kernel

end LogSyntax
