import LogSyntax.Proofs.Token.Behind
/-!
# Tighter limits

Limits for string literals are tighter than others if they cut a literal short wherever the others
do (`Heuristics.Tighter`). Under both a literal is read in step, character by character, until the
tighter limits end it. So what is read under them is the beginning of what is read under the others,
and the two are the same unless the tighter ones cut the literal short, in front of any closing
quote (`Literal.readString_tighter`).
-/

namespace LogSyntax

/-- A literal may grow no longer before a closing bracket ends it, and an operator behind a dot ends
it at least as far into it. -/
structure Heuristics.Tighter (h h' : Heuristics) : Prop where
  limit : h.runawayLiteralLimit ≤ h'.runawayLiteralLimit
  window : h'.operatorWindow ≤ h.operatorWindow

variable {h h' : Heuristics} {content : Text}

theorem Heuristics.Tighter.endsBefore (hh : h.Tighter h') {n : Nat} {last : Option Char} {c : Char}
    (hends : h'.endsBefore n last c = true) : h.endsBefore n last c = true := by
  have hlimit := hh.limit
  have hwindow := hh.window
  simp only [Heuristics.endsBefore, Bool.or_eq_true, Bool.and_eq_true, decide_eq_true_eq]
    at hends ⊢
  rcases hends with ⟨⟨harithmetic, hinside⟩, hdot⟩ | ⟨hbeyond, hbracket⟩
  · exact .inl ⟨⟨harithmetic, by omega⟩, hdot⟩
  · exact .inr ⟨by omega, hbracket⟩

/-- A quote behind quotes in pairs has no partner. -/
theorem Token.not_quotesPaired_concat (hpaired : QuotesPaired content) :
    ¬ QuotesPaired (content ++ ['\'']) := by
  induction content using QuotesPaired.induct with
  | case1 content ih => exact ih hpaired
  | case2 content hpair =>
    rw [QuotesPaired] at hpaired
    · exact hpaired.elim
    · exact hpair
  | case3 c content _ hquote ih =>
    have hc : c ≠ '\'' := fun hc => hquote hc
    rw [List.cons_append, quotesPaired_cons hc]
    rw [quotesPaired_cons hc] at hpaired
    exact ih hpaired
  | case4 => exact id

/-- Either the same is read under both limits, or the tighter ones cut the literal short, behind
quotes in pairs only, and what is read under them is read under the others, too. -/
theorem Literal.readString_tighter (hh : h.Tighter h') (n : Nat) (value t : Text) :
    readString h' n value t = readString h n value t ∨
      ∃ content, Token.QuotesPaired content ∧ content <+: t ∧
        (readString h n value t).1 = n + content.length ∧
        (readString h n value t).1 ≤ (readString h' n value t).1 ∧
        (readString h n value t).2 <+: (readString h' n value t).2 := by
  fun_induction readString h n value t with
  | case1 n value cs ih =>
    rw [readString_pair]
    rcases ih with heq | ⟨content, hpaired, hpre, hlength, hle, htext⟩
    · exact .inl heq
    · refine .inr ⟨'\'' :: '\'' :: content, hpaired, by simpa using hpre, ?_, hle, htext⟩
      rw [hlength, List.length_cons, List.length_cons]
      omega
  | case2 n value cs hpair =>
    refine .inl (readString_close fun hhead => ?_)
    obtain ⟨cs, rfl⟩ := List.head?_eq_some_iff.1 hhead
    exact hpair cs rfl
  | case3 n value c cs _ hquote hends =>
    -- the others go on or end here as well
    obtain ⟨content, closing, -, -, -, heq⟩ := readString_eq h' n value (c :: cs)
    refine .inr ⟨[], trivial, List.nil_prefix, rfl, ?_, ?_⟩
    · exact le_readString h' n value (c :: cs)
    · rw [heq]
      exact List.prefix_append _ _
  | case4 n value c cs _ hquote hends ih =>
    have hc : c ≠ '\'' := fun hc => hquote hc
    have hends' : ¬ h'.endsBefore n value.head? c = true := fun hcut => hends (hh.endsBefore hcut)
    rw [readString_char hc, if_neg hends']
    rcases ih with heq | ⟨content, hpaired, hpre, hlength, hle, htext⟩
    · exact .inl heq
    · refine .inr ⟨c :: content, by rwa [Token.quotesPaired_cons hc], by simpa using hpre, ?_, hle,
        htext⟩
      rw [hlength, List.length_cons]
      omega
  | case5 n value => exact .inl rfl

namespace Token

/-- A literal that is read under tighter limits begins the one that is read under the others, and if
its closing quote ends it, it is the same one. -/
theorem read_tighter (hh : h.Tighter h') (last : Option Kind) (o : Nat) (t : Text) :
    (Token.read h last o '\'' t).source <+: (Token.read h' last o '\'' t).source ∧
      (Token.read h last o '\'' t).text <+: (Token.read h' last o '\'' t).text ∧
      ((Token.read h last o '\'' t).IsClosed →
        Token.read h last o '\'' t = Token.read h' last o '\'' t) := by
  rw [read_quote, read_quote]
  rcases Literal.readString_tighter hh 0 ['\''] t with
    heq | ⟨content, hpaired, hpre, hlength, hle, htext⟩
  · rw [heq]
    exact ⟨List.prefix_refl _, List.prefix_refl _, fun _ => rfl⟩
  · refine ⟨?_, htext, ?_⟩
    · simpa using List.take_prefix_take_left hle
    · rintro ⟨content', hpaired', hsource⟩
      -- content that ends in a closing quote would not have its quotes in pairs
      rw [hlength, Nat.zero_add, ← List.prefix_iff_eq_take.1 hpre] at hsource
      rw [(List.cons.inj hsource).2] at hpaired
      exact absurd hpaired (not_quotesPaired_concat hpaired')

end Token

/-- The string literal at the head of a text, read under two limits. Under the tighter ones it
covers a beginning of what it covers under the others, its decoded text is a beginning of the other
one's, and if it ends with its closing quote, both are the same. -/
theorem tokenize_tighter (h h' : Heuristics)
    (hlimit : h.runawayLiteralLimit ≤ h'.runawayLiteralLimit)
    (hwindow : h'.operatorWindow ≤ h.operatorWindow) (t : Text) :
    ∃ token token', (tokenize h ('\'' :: t)).head? = some token ∧
      (tokenize h' ('\'' :: t)).head? = some token' ∧
      (token.kind = .stringLiteral ∧ token.start = 0) ∧
      (token'.kind = .stringLiteral ∧ token'.start = 0) ∧
      token.source <+: token'.source ∧ token.text <+: token'.text ∧
      (token.IsClosed → token = token') :=
  ⟨_, _, Tokenizer.head?_tokenize (by decide), Tokenizer.head?_tokenize (by decide), ⟨rfl, rfl⟩,
    ⟨rfl, rfl⟩, Token.read_tighter ⟨hlimit, hwindow⟩ none 0 t⟩

/-- A limit of two characters ends `'a''b)c'` in front of the bracket, and one of fifty does not.
Both spare `'a''b'`, which its closing quote ends. -/
theorem tokenize_tighter_bracket :
    (∃ token token', (tokenize ⟨2, 3⟩ ('\'' :: "a''b)c'".toList)).head? = some token ∧
      (tokenize ⟨50, 0⟩ ('\'' :: "a''b)c'".toList)).head? = some token' ∧
      token.source <+: token'.source ∧ token.text <+: token'.text ∧
      token.source = "'a''b".toList ∧ token'.source = "'a''b)c'".toList) ∧
    ∃ token, (tokenize ⟨2, 3⟩ ('\'' :: "a''b')".toList)).head? = some token ∧ token.IsClosed ∧
      (tokenize ⟨50, 0⟩ ('\'' :: "a''b')".toList)).head? = some token := by
  constructor
  · obtain ⟨token, token', hhead, hhead', -, -, hsource, htext, -⟩ :=
      tokenize_tighter ⟨2, 3⟩ ⟨50, 0⟩ (by decide) (by decide) "a''b)c'".toList
    have hread : (tokenize ⟨2, 3⟩ ('\'' :: "a''b)c'".toList)).head? =
        some ⟨.stringLiteral, "'a''b".toList, "'a'b".toList, 0⟩ := by decide +kernel
    have hread' : (tokenize ⟨50, 0⟩ ('\'' :: "a''b)c'".toList)).head? =
        some ⟨.stringLiteral, "'a''b)c'".toList, "'a'b)c'".toList, 0⟩ := by decide +kernel
    obtain rfl := Option.some.inj (hhead.symm.trans hread)
    obtain rfl := Option.some.inj (hhead'.symm.trans hread')
    exact ⟨_, _, hread, hread', hsource, htext, rfl, rfl⟩
  · obtain ⟨token, token', hhead, hhead', -, -, -, -, hsame⟩ :=
      tokenize_tighter ⟨2, 3⟩ ⟨50, 0⟩ (by decide) (by decide) "a''b')".toList
    have hread : (tokenize ⟨2, 3⟩ ('\'' :: "a''b')".toList)).head? =
        some ⟨.stringLiteral, "'a''b'".toList, "'a'b'".toList, 0⟩ := by decide +kernel
    obtain rfl := Option.some.inj (hhead.symm.trans hread)
    have hclosed : Token.IsClosed ⟨.stringLiteral, "'a''b'".toList, "'a'b'".toList, 0⟩ :=
      ⟨"a''b".toList, by simp [Token.QuotesPaired], rfl⟩
    exact ⟨_, hhead, hclosed, hsame hclosed ▸ hhead'⟩

end LogSyntax
