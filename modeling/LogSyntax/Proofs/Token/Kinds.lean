import LogSyntax.Proofs.Token.Lookahead
/-!
# What the kind of a token tells

From its kind one can tell what a token is written as: `null` and nothing else is a null literal,
only `(` opens a parenthesis, and a word that no phrase takes is a function exactly if a parenthesis
opens behind it.
-/

namespace LogSyntax

namespace Lexeme

variable {c : Char} {more t u : Text}

/-! ## Words -/

/-- A word that is neither a function nor an identifier is the head of a phrase. -/
theorem exists_phrase_of_ofWord (hmore : more.all isIdentChar) (hu : Text.Stops isIdentChar u)
    (hfunction : (ofWord c (more ++ u)).kind ≠ .function)
    (hidentifier : (ofWord c (more ++ u)).kind ≠ .identifier) :
    ∃ phrase ∈ reservedPhrases, phrase.kind = (ofWord c (more ++ u)).kind ∧
      Text.eqIgnoringCase phrase.head.toList (c :: more) ∧
      ∃ n, Phrase.following? phrase.tail u = some n ∧
        (ofWord c (more ++ u)).extra = more.length + n := by
  rw [ofWord_run hmore hu] at hfunction hidentifier ⊢
  cases hfound : Phrase.find? reservedPhrases (Text.eqIgnoringCase · (c :: more)) u with
  | none =>
    rw [hfound] at hfunction hidentifier
    dsimp only at hfunction hidentifier
    split at hfunction
    · exact absurd rfl hfunction
    · next hname =>
      rw [if_neg hname] at hidentifier
      exact absurd rfl hidentifier
  | some found =>
    obtain ⟨kind, n⟩ := found
    obtain ⟨before, phrase, after, htable, hhead, hfollowing, hkind, -⟩ :=
      Phrase.find?_eq_some_iff.1 hfound
    exact ⟨phrase, by simp [htable], hkind, hhead, n, hfollowing, rfl⟩

/-- A word that no phrase takes ends where it ends, and a parenthesis behind it decides whether it
is a function. -/
theorem ofWord_name (hmore : more.all isIdentChar) (hu : Text.Stops isIdentChar u)
    (hkind : (ofWord c (more ++ u)).kind = .function ∨
      (ofWord c (more ++ u)).kind = .identifier) :
    (ofWord c (more ++ u)).extra = more.length ∧
      ((ofWord c (more ++ u)).kind = .function ↔
        isFunctionName (c :: more) ∧ (Text.trimStart u).head? = some '(') := by
  rw [ofWord_run hmore hu] at hkind ⊢
  cases hfound : Phrase.find? reservedPhrases (Text.eqIgnoringCase · (c :: more)) u with
  | none =>
    dsimp only
    split
    · next hname => simp [hname]
    · next hname => simp [hname]
  | some found =>
    -- no phrase is a function or an identifier
    obtain ⟨kind, n⟩ := found
    have hmem := Phrase.mem_of_find? hfound
    rw [hfound] at hkind
    rcases hkind with rfl | rfl
    · exact absurd hmem (by decide)
    · exact absurd hmem (by decide)

/-! ## Punctuation -/

theorem ofSymbol_openParen {last : Option Token.Kind}
    (hkind : (ofSymbol last c t).kind = .openParen) : c = '(' := by
  unfold ofSymbol at hkind
  split at hkind
  · rfl
  all_goals first | contradiction | (split at hkind <;> contradiction)

end Lexeme

namespace Token

variable {h : Heuristics} {last : Option Kind} {kind : Kind} {o : Nat} {c : Char} {t : Text}

/-- Which characters may begin a token of a kind. -/
theorem begins_of_kind (hkind : (Token.read h last o c t).kind = kind) :
    kind = .stringLiteral ∨ (kind = .numberLiteral ∧ (c.isDigit ∨ Lexeme.isSign last c t)) ∨
      (kind ∈ [.builtinProperty, .identifier, .unknown] ∧ c = '@') ∨
      (kind ∈ .openBrace :: .unknown :: markerPhrases.map (·.kind) ∧ c = '{') ∨
      (kind ∈ .function :: .identifier :: reservedPhrases.map (·.kind) ∧ isIdentStart c) ∨
      (kind ∈ Lexeme.symbolKinds ∧ (Lexeme.ofSymbol last c t).kind = kind) := by
  subst hkind
  unfold Token.read
  split
  · exact .inl rfl
  · right
    simp only [Lexeme.token]
    fun_cases Lexeme.read last c t with
    | case1 hdigit => exact .inl ⟨rfl, .inl hdigit⟩
    | case2 _ hsign => exact .inl ⟨rfl, .inr hsign⟩
    | case3 _ _ hsigil => exact .inr (.inl ⟨Lexeme.kind_ofSigil t, hsigil⟩)
    | case4 _ _ _ hbrace => exact .inr (.inr (.inl ⟨Lexeme.kind_ofBrace t, hbrace⟩))
    | case5 _ _ _ _ hword => exact .inr (.inr (.inr (.inl ⟨Lexeme.kind_ofWord c t, hword⟩)))
    | case6 => exact .inr (.inr (.inr (.inr ⟨Lexeme.kind_ofSymbol last c t, rfl⟩)))

theorem isIdentStart_of_function (hkind : (Token.read h last o c t).kind = .function) :
    isIdentStart c := by
  simpa [markerPhrases, reservedPhrases, Lexeme.symbolKinds] using begins_of_kind hkind

theorem begins_of_identifier (hkind : (Token.read h last o c t).kind = .identifier) :
    c = '@' ∨ isIdentStart c := by
  simpa [markerPhrases, reservedPhrases, Lexeme.symbolKinds] using begins_of_kind hkind

theorem begins_of_number (hkind : (Token.read h last o c t).kind = .numberLiteral) :
    c.isDigit ∨ Lexeme.isSign last c t := by
  simpa [markerPhrases, reservedPhrases, Lexeme.symbolKinds] using begins_of_kind hkind

theorem openParen_iff : (Token.read h last o c t).kind = .openParen ↔ c = '(' := by
  constructor
  · intro hkind
    have hsymbol : (Lexeme.ofSymbol last c t).kind = .openParen := by
      simpa [markerPhrases, reservedPhrases, Lexeme.symbolKinds] using begins_of_kind hkind
    exact Lexeme.ofSymbol_openParen hsymbol
  · rintro rfl
    rfl

/-- Only the word itself is a null literal. -/
theorem source_of_nullLiteral (hkind : (Token.read h last o c t).kind = .nullLiteral) :
    Text.lower (Token.read h last o c t).source = Text.lower "null".toList := by
  have hc : isIdentStart c := by
    simpa [markerPhrases, reservedPhrases, Lexeme.symbolKinds] using begins_of_kind hkind
  obtain ⟨more, u, rfl, -, hmore, hu⟩ := Text.exists_run isIdentChar t
  rw [Token.read_word hc] at hkind ⊢
  change (Lexeme.ofWord c (more ++ u)).kind = .nullLiteral at hkind
  obtain ⟨phrase, hphrase, hsame, hhead, n, hfollowing, hextra⟩ :=
    Lexeme.exists_phrase_of_ofWord hmore hu (by rw [hkind]; decide) (by rw [hkind]; decide)
  have hlone : ∀ phrase ∈ reservedPhrases, phrase.kind = .nullLiteral →
      phrase = ⟨"null", [], .nullLiteral⟩ := by decide
  obtain rfl := hlone phrase hphrase (hsame.trans hkind)
  obtain rfl : 0 = n := Option.some.inj hfollowing
  rw [Text.eqIgnoringCase, beq_iff_eq] at hhead
  rw [Lexeme.token, hextra, Nat.add_zero, List.take_left]
  exact hhead.symm

theorem read_brace (h : Heuristics) (last : Option Kind) (o : Nat) (t : Text) :
    Token.read h last o '{' t = (Lexeme.ofBrace t).token o '{' t := rfl

/-- The directive for an alternative is only its marker, if no word belongs to it. -/
theorem source_of_directiveElse (hkind : (Token.read h last o c t).kind = .directiveElse) :
    (Token.read h last o c t).source = "\x7b#else".toList := by
  obtain rfl : c = '{' := by
    simpa [markerPhrases, reservedPhrases, Lexeme.symbolKinds] using begins_of_kind hkind
  rw [read_brace] at hkind ⊢
  change (Lexeme.ofBrace t).kind = .directiveElse at hkind
  unfold Lexeme.ofBrace at hkind
  split at hkind
  · next cs =>
    obtain ⟨word, u, rfl, -, hword, hu⟩ := Text.exists_run Lexeme.isMarkerChar cs
    change (Lexeme.ofBrace ('#' :: (word ++ u))).kind = .directiveElse at hkind
    have hextra := Lexeme.extra_ofBrace hword hu
    rw [Lexeme.ofBrace_run hword hu] at hkind
    cases hfound : Phrase.find? markerPhrases (· == word) u with
    | none =>
      rw [hfound] at hkind
      contradiction
    | some found =>
      obtain ⟨kind, n⟩ := found
      obtain rfl : kind = .directiveElse := by rwa [hfound] at hkind
      obtain ⟨before, phrase, after, htable, hhead, hfollowing, hsame, -⟩ :=
        Phrase.find?_eq_some_iff.1 hfound
      have hlone : ∀ phrase ∈ markerPhrases, phrase.kind = .directiveElse →
          phrase = ⟨"else", [], .directiveElse⟩ := by decide
      obtain rfl := hlone phrase (by simp [htable]) hsame
      obtain rfl : 0 = n := Option.some.inj hfollowing
      obtain rfl : "else".toList = word := by simpa using hhead
      rw [hfound] at hextra
      rw [Lexeme.token, hextra]
      rfl
  · contradiction

end Token

end LogSyntax
