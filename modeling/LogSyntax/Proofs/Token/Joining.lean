import LogSyntax.Proofs.Text.Trim
import LogSyntax.Proofs.Token.Behind
/-!
# Joining texts

Two texts with a comma between them, and a blank on either side of it, have the tokens of the one, a
comma, and the tokens of the other (`tokenize_joined`). At the end of the first text every rule that
looks further looks past a blank for a word or a parenthesis, and the comma is neither
(`Separator`), so it reads what it reads at the end of the text (`Token.read_append`). Only a string
literal that has lost its closing quote goes on. To the second text a comma in front of it is as
good as nothing (`Tokenizer.tokens_neutral`).
-/

namespace LogSyntax

/-- No rule that reads in front of this text finds anything in it: it begins with white space, if
with anything, and neither a word nor an opening parenthesis stands behind that. -/
structure Separator (t : Text) : Prop where
  blank : Text.Stops (!isBlank ·) t
  word : Text.Stops isIdentChar (Text.trimStart t)
  opens : (Text.trimStart t).head? ≠ some '('

namespace Separator

variable {f : Char → Bool} {c : Char} {t rest : Text}

theorem stops (hrest : Separator rest) (hf : ∀ n ∈ blankRanges.points, f (Char.ofNat n) = false) :
    Text.Stops f rest :=
  stops_of_points hrest.blank hf

/-- Where a run of characters ends in front of the separator, it ends with the separator, too. -/
theorem stops_append (hrest : Text.Stops f rest) (ht : Text.Stops f t) :
    Text.Stops f (t ++ rest) :=
  Text.Stops.append (t := []) (by rwa [List.append_nil]) hrest

/-- Behind the white space of a text stands the same with the separator and without, unless nothing
does. -/
theorem head?_trimStart (t rest : Text) :
    (Text.trimStart (t ++ rest)).head? = (Text.trimStart t).head? ∨
      (Text.trimStart t = [] ∧ Text.trimStart (t ++ rest) = Text.trimStart rest) := by
  by_cases ht : t.all isBlank
  · have hall := List.all_eq_true.1 ht
    exact .inr ⟨List.dropWhile_eq_nil_iff.2 hall, List.dropWhile_append_of_pos hall⟩
  · left
    have hne : Text.trimStart t ≠ [] := fun hnil =>
      ht (List.all_eq_true.2 (List.dropWhile_eq_nil_iff.1 hnil))
    rw [Text.trimStart_append ht, List.head?_append_of_ne_nil _ hne]

theorem stops_trimStart (hrest : Separator rest) (ht : Text.Stops isIdentChar (Text.trimStart t)) :
    Text.Stops isIdentChar (Text.trimStart (t ++ rest)) := by
  rcases head?_trimStart t rest with hhead | ⟨-, heq⟩
  · rwa [Text.Stops, hhead]
  · rw [heq]
    exact hrest.word

theorem opens_append (hrest : Separator rest) (t : Text) :
    (Text.trimStart (t ++ rest)).head? = some '(' ↔ (Text.trimStart t).head? = some '(' := by
  rcases head?_trimStart t rest with hhead | ⟨hnil, heq⟩
  · rw [hhead]
  · rw [hnil, heq]
    simp [hrest.opens]

end Separator

variable {rest t : Text}

theorem Text.run_append_stops {f : Char → Bool} (hrest : Stops f rest) (t : Text) :
    run f (t ++ rest) = run f t := by
  obtain ⟨s, u, rfl, -, hs, hu⟩ := exists_run f t
  rw [List.append_assoc, run_append hs (Separator.stops_append hrest hu), run_append hs hu]

/-! ## Phrases -/

namespace Phrase

variable {w : String} {words more : List String}

/-- Where no word stands behind white space, no words follow. -/
theorem following?_of_stops (hw : w.toList ≠ []) (ht : Text.Stops isIdentChar (Text.trimStart t)) :
    following? (w :: more) t = none := by
  by_contra hne
  obtain ⟨n, hn⟩ := Option.ne_none_iff_exists'.1 hne
  obtain ⟨gap, word, u, m, rfl, -, hgap, hword, hident, -⟩ := exists_of_following? hw hn
  obtain ⟨d, word, rfl⟩ := List.exists_cons_of_ne_nil hword
  have hd : isIdentChar d := List.all_eq_true.1 hident d List.mem_cons_self
  rw [Text.trimStart, Text.dropWhile_run hgap] at ht
  · rw [ht d rfl] at hd
    contradiction
  · rintro _ ⟨⟩
    exact isBlank_of_isIdentChar hd

/-- Without white space in front of them no words follow. -/
theorem following?_of_not_blank (ht : Text.Stops isBlank t) : following? (w :: more) t = none := by
  have hrun : Text.run isBlank t = 0 := Text.run_append (s := []) rfl ht
  simp [following?, hrun]

theorem following?_append (hrest : Separator rest) (hwords : ∀ w ∈ words, w.toList ≠ [])
    (t : Text) : following? words (t ++ rest) = following? words t := by
  induction words generalizing t with
  | nil => rfl
  | cons w more ih =>
    rw [List.forall_mem_cons] at hwords
    obtain ⟨gap, t, rfl, -, hgap, ht⟩ := Text.exists_run isBlank t
    obtain ⟨word, u, rfl, -, hident, hu⟩ := Text.exists_run isIdentChar t
    by_cases hword : word = []
    · -- nothing is there to be read, with the separator or without
      subst hword
      have hstops : Text.Stops isIdentChar (Text.trimStart (gap ++ u)) := by
        rw [List.nil_append] at ht
        rwa [Text.trimStart, Text.dropWhile_run hgap ht]
      rw [List.nil_append, following?_of_stops hwords.1 hstops,
        following?_of_stops hwords.1 (hrest.stops_trimStart hstops)]
    · by_cases hne : gap = []
      · subst hne
        have hhead (u : Text) : (word ++ u).head? = word.head? :=
          List.head?_append_of_ne_nil word hword
        have hstops : Text.Stops isBlank (word ++ (u ++ rest)) := by
          rw [Text.Stops, hhead] at ht ⊢
          exact ht
        rw [List.nil_append, List.append_assoc, following?_of_not_blank hstops,
          following?_of_not_blank ht]
      · have hstops : Text.Stops isIdentChar (u ++ rest) :=
          Separator.stops_append (stops_isIdentChar hrest.blank) hu
        rw [List.append_assoc, List.append_assoc,
          following?_cons w more hne hgap hword hident hstops,
          following?_cons w more hne hgap hword hident hu, ih hwords.2]

theorem find?_append {table : List Phrase} (htable : Ordered table) (isHead : Text → Bool)
    (hrest : Separator rest) (t : Text) :
    find? table isHead (t ++ rest) = find? table isHead t := by
  unfold find?
  rw [← List.head?_filterMap, ← List.head?_filterMap]
  congr 1
  refine List.filterMap_congr fun phrase hphrase => ?_
  rw [following?_append hrest (htable.words phrase hphrase)]

end Phrase

/-! ## Lexemes -/

theorem Literal.numberTail_append (hrest : Separator rest) (first : Char) (t : Text) :
    numberTail first (t ++ rest) = numberTail first t := by
  have hdecimal : Text.Stops isDecimalChar rest := hrest.stops (by decide)
  have hhex : Text.Stops isHexDigit rest := hrest.stops (by decide)
  match t with
  | [] =>
    have hnone : numberTail first ([] ++ []) = ([] : Text).length := rfl
    exact numberTail_behind hrest.blank hnone
  | [x] =>
    cases rest with
    | nil => rfl
    | cons b rest =>
      have hb : ¬ (first = '0' ∧ (x = 'x' ∨ x = 'X') ∧ isHexDigit b) := by
        simp [hhex b rfl]
      rw [List.singleton_append, numberTail, if_neg hb]
      exact Text.run_append_stops hdecimal [x]
  | x :: d :: t =>
    have hdigits := Text.run_append_stops hhex (d :: t)
    have hall := Text.run_append_stops hdecimal (x :: d :: t)
    simp only [List.cons_append] at hdigits hall ⊢
    rw [numberTail, numberTail, hdigits, hall]

namespace Lexeme

variable {last : Option Token.Kind} {c : Char}

theorem isSign_append (hrest : Separator rest) (t : Text) :
    isSign last c (t ++ rest) = isSign last c t := by
  cases t with
  | nil =>
    rw [List.nil_append, isSign_stops (hrest.stops (by decide)), isSign_stops (Text.stops_nil _)]
  | cons d t => exact isSign_congr rfl

theorem ofSigil_append (hrest : Separator rest) (t : Text) :
    ofSigil (t ++ rest) = ofSigil t := by
  obtain ⟨word, u, rfl, -, hword, hu⟩ := Text.exists_run isIdentChar t
  rw [List.append_assoc,
    ofSigil_run hword (Separator.stops_append (stops_isIdentChar hrest.blank) hu),
    ofSigil_run hword hu]

theorem ofBrace_append (hrest : Separator rest) (t : Text) :
    ofBrace (t ++ rest) = ofBrace t := by
  have hmark : rest.head? ≠ some '#' := Text.head?_ne (hrest.stops (by decide))
  have hstops : Text.Stops isMarkerChar rest := hrest.stops (by decide)
  by_cases ht : t.head? = some '#'
  · obtain ⟨cs, rfl⟩ := List.head?_eq_some_iff.1 ht
    obtain ⟨word, u, rfl, -, hword, hu⟩ := Text.exists_run isMarkerChar cs
    rw [List.cons_append, List.append_assoc,
      ofBrace_run hword (Separator.stops_append hstops hu), ofBrace_run hword hu,
      Phrase.find?_append Phrase.ordered_markerPhrases _ hrest]
  · have happend : (t ++ rest).head? ≠ some '#' := by
      cases t with
      | nil => exact hmark
      | cons d t => exact ht
    rw [ofBrace_bare happend, ofBrace_bare ht]

theorem ofWord_append (hrest : Separator rest) (t : Text) :
    ofWord c (t ++ rest) = ofWord c t := by
  obtain ⟨more, u, rfl, -, hmore, hu⟩ := Text.exists_run isIdentChar t
  rw [List.append_assoc,
    ofWord_run hmore (Separator.stops_append (stops_isIdentChar hrest.blank) hu),
    ofWord_run hmore hu, Phrase.find?_append Phrase.ordered_reservedPhrases _ hrest]
  simp only [hrest.opens_append]

theorem ofSymbol_append (hrest : Separator rest) (t : Text) :
    ofSymbol last c (t ++ rest) = ofSymbol last c t := by
  cases t with
  | nil =>
    have hnone (last : Option Token.Kind) : (ofSymbol last c []).extra = 0 := by
      have hle := extra_ofSymbol_le last c []
      simpa using hle
    refine ofSymbol_behind hrest.blank (hnone last) ?_
    rintro rfl
    simp [ofSymbol]
  | cons d t => exact ofSymbol_congr rfl

/-- The separator behind a text changes no lexeme in it. -/
theorem read_append (hrest : Separator rest) (t : Text) :
    read last c (t ++ rest) = read last c t := by
  unfold read
  rw [isSign_append hrest, Literal.numberTail_append hrest, ofSigil_append hrest,
    ofBrace_append hrest, ofWord_append hrest, ofSymbol_append hrest]
  by_cases hsign : isSign last c t
  · cases t with
    | nil => simp [isSign] at hsign
    | cons d t =>
      rw [List.cons_append, List.headD_cons, List.headD_cons, List.tail_cons, List.tail_cons,
        Literal.numberTail_append hrest]
  · rw [if_neg hsign, if_neg hsign]

end Lexeme

/-! ## String literals -/

namespace Token

/-- A pair of quotes in front of a content that a quote closes. -/
theorem closed_of_pair
    (h : ∃ content, QuotesPaired content ∧ '\'' :: '\'' :: t = content ++ ['\'']) :
    ∃ content, QuotesPaired content ∧ t = content ++ ['\''] := by
  obtain ⟨content, hpaired, heq⟩ := h
  match content with
  | [] => simp at heq
  | [d] =>
    obtain ⟨rfl, -⟩ := List.cons.inj heq
    exact hpaired.elim
  | d :: e :: content =>
    simp only [List.cons_append, List.cons.injEq] at heq
    obtain ⟨rfl, rfl, rfl⟩ := heq
    exact ⟨content, hpaired, rfl⟩

/-- A character of a content that a quote closes. -/
theorem closed_of_char {c : Char} (hc : c ≠ '\'')
    (h : ∃ content, QuotesPaired content ∧ c :: t = content ++ ['\'']) :
    ∃ content, QuotesPaired content ∧ t = content ++ ['\''] := by
  obtain ⟨content, hpaired, heq⟩ := h
  cases content with
  | nil => exact absurd (List.cons.inj heq).1 hc
  | cons d content =>
    obtain ⟨rfl, rfl⟩ := List.cons.inj heq
    rw [quotesPaired_cons hc] at hpaired
    exact ⟨content, hpaired, rfl⟩

end Token

/-- A literal that does not run to the end of a text, or is closed there, is the same with the
separator behind the text. -/
theorem Literal.readString_append (hrest : Separator rest) (h : Heuristics) (n : Nat)
    (value t : Text)
    (hclosed : (readString h n value t).1 = n + t.length →
      ∃ content, Token.QuotesPaired content ∧ t = content ++ ['\'']) :
    readString h n value (t ++ rest) = readString h n value t := by
  have hquote : rest.head? ≠ some '\'' := Text.head?_ne (hrest.stops (by decide))
  fun_induction readString h n value t with
  | case1 n value cs ih =>
    apply ih
    intro hend
    apply Token.closed_of_pair
    apply hclosed
    rw [hend, List.length_cons, List.length_cons]
    omega
  | case2 n value cs hpair =>
    have hcs : (cs ++ rest).head? ≠ some '\'' := by
      cases cs with
      | nil => exact hquote
      | cons d cs =>
        intro hd
        exact hpair cs (by rw [Option.some.inj hd])
    exact readString_close hcs
  | case3 n value c cs hpair hc hends =>
    have hne : c ≠ '\'' := fun hc' => hc hc'
    rw [List.cons_append, readString_char hne, if_pos hends]
  | case4 n value c cs hpair hc hends ih =>
    have hne : c ≠ '\'' := fun hc' => hc hc'
    rw [List.cons_append, readString_char hne, if_neg hends]
    apply ih
    intro hend
    apply Token.closed_of_char hne
    apply hclosed
    rw [hend, List.length_cons]
    omega
  | case5 n value =>
    obtain ⟨content, -, heq⟩ := hclosed rfl
    simp at heq

/-- A token is the same with the separator behind the text, unless it is a string literal that runs
to the end of the text and is not closed there. -/
theorem Token.read_append {h : Heuristics} {last : Option Kind} {o : Nat} {c : Char}
    (hrest : Separator rest)
    (hclosed : (Token.read h last o c t).kind = .stringLiteral →
      (Token.read h last o c t).source = c :: t → (Token.read h last o c t).IsClosed) :
    Token.read h last o c (t ++ rest) = Token.read h last o c t := by
  by_cases hc : c = '\''
  · subst hc
    simp only [read_quote] at hclosed ⊢
    have hread : Literal.readString h 0 ['\''] (t ++ rest) = Literal.readString h 0 ['\''] t := by
      apply Literal.readString_append hrest
      intro hend
      rw [Nat.zero_add] at hend
      rw [hend, List.take_length] at hclosed
      obtain ⟨content, hpaired, heq⟩ := hclosed trivial rfl
      exact ⟨content, hpaired, (List.cons.inj heq).2⟩
    rw [hread, List.take_append_of_le_length (Literal.readString_le ..)]
  · simp only [Token.read, if_neg hc, Lexeme.read_append hrest, Lexeme.token,
      List.take_append_of_le_length (Lexeme.extra_read_le last c t)]

/-! ## The tokens of both texts -/

namespace Tokenizer

variable {h : Heuristics} {last : Option Token.Kind} {o : Nat} {expected : List Token}

theorem all_isBlank_of_tokens (htokens : tokens ⟨⟨o, t⟩, h, last⟩ = []) : t.all isBlank := by
  apply all_isBlank_of_none (z := ⟨⟨o, t⟩, h, last⟩)
  cases hnext : next? ⟨⟨o, t⟩, h, last⟩ with
  | none => rfl
  | some found => exact absurd ((drain_of_some hnext).symm.trans htokens) (List.cons_ne_nil _ _)

/-- In front of a separator stand the tokens of the text, and then those of the separator. -/
theorem tokens_append (hrest : Separator rest) (htokens : tokens ⟨⟨o, t⟩, h, last⟩ = expected)
    (hclosed : ∀ token ∈ expected.getLast?, token.kind = .stringLiteral →
      token.stop = o + Text.bytes t → token.IsClosed) :
    ∃ last', tokens ⟨⟨o, t ++ rest⟩, h, last⟩ =
      expected ++ tokens ⟨⟨o + Text.bytes t, rest⟩, h, last'⟩ := by
  induction expected generalizing o t last with
  | nil => exact ⟨last, tokens_blanks (all_isBlank_of_tokens htokens)⟩
  | cons token behind ih =>
    obtain ⟨gap, c, s, more, rfl, hgap, hc, hread, hsource, hbehind⟩ :=
      exists_of_tokens_cons htokens
    have hbytes : o + Text.bytes gap + Text.bytes token.source + Text.bytes more =
        o + Text.bytes (gap ++ c :: (s ++ more)) := by
      rw [hsource]
      simp only [Text.bytes_append, Text.bytes_cons]
      omega
    have hstop : token.stop = o + Text.bytes gap + Text.bytes token.source := by
      rw [Token.stop, hread, Token.start_read]
      rfl
    -- a literal that runs to the end of the text is the last token
    have hagain : Token.read h last (o + Text.bytes gap) c (s ++ (more ++ rest)) = token := by
      rw [← List.append_assoc, Token.read_append hrest, ← hread]
      rw [← hread]
      intro hkind hend
      obtain rfl : more = [] := by
        rw [hsource] at hend
        simpa using hend
      rw [tokens_nil] at hbehind
      rw [hbehind] at hclosed
      exact hclosed token rfl hkind (by rw [hstop, ← hbytes, Text.bytes_nil, Nat.add_zero])
    have hlast : ∀ x ∈ behind.getLast?, x.kind = .stringLiteral →
        x.stop = o + Text.bytes gap + Text.bytes token.source + Text.bytes more →
          x.IsClosed := by
      intro x hx
      rw [hbytes]
      exact hclosed x (by rw [List.getLast?_cons, Option.mem_def.1 hx]; rfl)
    obtain ⟨last', hmore⟩ := ih hbehind.symm hlast
    refine ⟨last', ?_⟩
    rw [List.append_assoc, List.cons_append, List.append_assoc, tokens_blanks hgap,
      tokens_cons hc hagain hsource, hmore, hbytes]
    rfl

theorem read_comma (h : Heuristics) (last : Option Token.Kind) (o : Nat) (t : Text) :
    Token.read h last o ',' t = ⟨.comma, [','], [','], o⟩ := by
  have hstart : isIdentStart ',' = false := by decide +kernel
  have hsign : Lexeme.isSign last ',' t = false := rfl
  simp [Token.read, Lexeme.read, Lexeme.token, Lexeme.ofSymbol, hstart, hsign]

/-- Behind any token a comma stands for itself, and what stands behind it is read on its own. -/
theorem tokens_comma (h : Heuristics) (last : Option Token.Kind) (o : Nat) (t : Text) :
    tokens ⟨⟨o, ' ' :: ',' :: ' ' :: t⟩, h, last⟩ =
      ⟨.comma, [','], [','], o + 1⟩ :: tokens ⟨⟨o + 3, t⟩, h, none⟩ := by
  have hblank (o : Nat) (last : Option Token.Kind) (t : Text) :
      tokens ⟨⟨o, ' ' :: t⟩, h, last⟩ = tokens ⟨⟨o + 1, t⟩, h, last⟩ :=
    tokens_blanks (s := [' ']) (by decide)
  have hcomma : tokens ⟨⟨o + 1, ',' :: ([] ++ ' ' :: t)⟩, h, last⟩ = _ :=
    tokens_cons (by decide) (read_comma h last (o + 1) _) rfl
  have hbehind : tokens ⟨⟨o + 2, ' ' :: t⟩, h, some .comma⟩ = tokens ⟨⟨o + 3, t⟩, h, none⟩ :=
    (tokens_neutral (by decide) rfl).trans (hblank (o + 2) none t)
  exact (hblank o last _).trans (hcomma.trans (congrArg (_ :: ·) hbehind))

end Tokenizer

theorem separator_comma (t : Text) : Separator (' ' :: ',' :: ' ' :: t) where
  blank := by
    rintro c ⟨⟩
    decide
  word := by
    rintro c ⟨⟩
    decide +kernel
  opens := by
    have htrim : Text.trimStart (' ' :: ',' :: ' ' :: t) = ',' :: ' ' :: t := rfl
    rw [htrim]
    simp

/-- A text behind a comma has the tokens that it has on its own, and so has the text in front of it,
unless that ends in a string literal that is not closed. -/
theorem tokenize_joined (h : Heuristics) (s t : Text)
    (hclosed : ∀ token ∈ (tokenize h s).getLast?, token.kind = .stringLiteral →
      token.stop = Text.bytes s → token.IsClosed) :
    tokenize h (s ++ " , ".toList ++ t) =
      tokenize h s ++ ⟨.comma, [','], [','], Text.bytes s + 1⟩ ::
        (tokenize h t).map (Token.move (Text.bytes s + 3)) := by
  rw [List.append_assoc]
  have hs : Tokenizer.tokens ⟨⟨0, s⟩, h, none⟩ = tokenize h s := rfl
  obtain ⟨last, htokens⟩ := Tokenizer.tokens_append (separator_comma t) hs (by rwa [Nat.zero_add])
  rw [Nat.zero_add, Tokenizer.tokens_comma] at htokens
  refine htokens.trans ?_
  rw [← Expression.tokens_eq_move]
  rfl

/-- The words on either side of the comma make no operator. -/
theorem tokenize_joined_words :
    tokenize .standard "a not , in -1".toList =
      [⟨.identifier, ['a'], ['a'], 0⟩, ⟨.booleanOperator, "not".toList, "not".toList, 2⟩,
        ⟨.comma, [','], [','], 6⟩, ⟨.membershipOperator, "in".toList, "in".toList, 8⟩,
        ⟨.numberLiteral, "-1".toList, "-1".toList, 11⟩] := by
  have hleft : tokenize .standard "a not".toList =
      [⟨.identifier, ['a'], ['a'], 0⟩, ⟨.booleanOperator, "not".toList, "not".toList, 2⟩] := by
    decide +kernel
  have hright : tokenize .standard "in -1".toList =
      [⟨.membershipOperator, "in".toList, "in".toList, 0⟩,
        ⟨.numberLiteral, "-1".toList, "-1".toList, 3⟩] := by
    decide +kernel
  have hjoined := tokenize_joined .standard "a not".toList "in -1".toList
  rw [hleft, hright] at hjoined
  apply hjoined
  rintro token ⟨⟩ ⟨⟩

end LogSyntax
