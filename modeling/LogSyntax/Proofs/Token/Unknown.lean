import LogSyntax.Proofs.Token.NormalForm
/-!
# Unknown tokens

A character that begins no lexeme is a token of its own, and what stands behind it is read as a text
of its own. The one unknown token that is longer is the marker of a directive that does not exist:
it is read as far as its word goes (`tokenize_unknown`).
-/

namespace LogSyntax

/-! ## Words of directives -/

namespace Phrase

/-- A word with which the marker of a directive begins. -/
def IsMarkerWord (word : Text) : Prop :=
  ∃ phrase ∈ markerPhrases, phrase.head.toList = word

instance : DecidablePred IsMarkerWord :=
  fun word => inferInstanceAs (Decidable (∃ phrase ∈ markerPhrases, phrase.head.toList = word))

/-- A marker is found exactly if its word is that of a directive: each of these words is a marker
without any other behind it. -/
theorem find?_marker_eq_none_iff {word u : Text} :
    find? markerPhrases (· == word) u = none ↔ ¬ IsMarkerWord word := by
  have hlone : ∀ phrase ∈ markerPhrases, ∃ q ∈ markerPhrases, q.head = phrase.head ∧ q.tail = [] := by
    decide
  rw [find?_eq_none_iff]
  constructor
  · rintro hnone ⟨phrase, hphrase, rfl⟩
    obtain ⟨q, hq, hhead, htail⟩ := hlone phrase hphrase
    have hfollowing := hnone q hq (by simp [hhead])
    rw [htail] at hfollowing
    contradiction
  · intro hword phrase hphrase hhead
    exact absurd ⟨phrase, hphrase, by simpa using hhead⟩ hword

end Phrase

namespace Lexeme

variable {last : Option Token.Kind} {c : Char} {word t u : Text}

/-- Behind a hash a brace begins a directive exactly if it is followed by the word of one. -/
theorem isDirective_ofBrace (hword : word.all isMarkerChar) (hu : Text.Stops isMarkerChar u) :
    (ofBrace ('#' :: (word ++ u))).kind.isDirective ↔ Phrase.IsMarkerWord word := by
  have hkinds : ∀ kind ∈ markerPhrases.map (·.kind), kind.isDirective := by decide
  rw [ofBrace_run hword hu, ← not_iff_not, ← Phrase.find?_marker_eq_none_iff (u := u)]
  cases hfound : Phrase.find? markerPhrases (· == word) u with
  | none => simp [Token.Kind.isDirective]
  | some found =>
    obtain ⟨kind, n⟩ := found
    simp [hkinds kind (Phrase.mem_of_find? hfound)]

/-! ## Lexemes that are unknown -/

theorem extra_ofSigil_unknown (hkind : (ofSigil t).kind = .unknown) : (ofSigil t).extra = 0 := by
  unfold ofSigil at hkind ⊢
  split at hkind
  · contradiction
  · split at hkind
    · contradiction
    · next hstart => rw [if_neg hstart]

theorem extra_ofSymbol_unknown (hkind : (ofSymbol last c t).kind = .unknown) :
    (ofSymbol last c t).extra = 0 := by
  unfold ofSymbol at hkind ⊢
  split at hkind
  all_goals first | contradiction | (split at hkind <;> first | contradiction | simp_all)

/-- A brace is unknown only with a hash behind it and a word that belongs to no directive. -/
theorem ofBrace_unknown (hkind : (ofBrace t).kind = .unknown) :
    ∃ word u, t = '#' :: (word ++ u) ∧ word.all isMarkerChar ∧ Text.Stops isMarkerChar u ∧
      ¬ Phrase.IsMarkerWord word ∧ (ofBrace t).extra = 1 + word.length := by
  unfold ofBrace at hkind
  split at hkind
  · next cs =>
    obtain ⟨word, u, rfl, -, hword, hu⟩ := Text.exists_run isMarkerChar cs
    change (ofBrace ('#' :: (word ++ u))).kind = .unknown at hkind
    have hnone : Phrase.find? markerPhrases (· == word) u = none := by
      rw [Phrase.find?_marker_eq_none_iff, ← isDirective_ofBrace hword hu, hkind]
      simp [Token.Kind.isDirective]
    refine ⟨word, u, rfl, hword, hu, Phrase.find?_marker_eq_none_iff.1 hnone, ?_⟩
    rw [ofBrace_run hword hu, hnone]
  · contradiction

/-- An unknown lexeme is one character, or a marker. -/
theorem read_unknown (hkind : (read last c t).kind = .unknown) :
    (read last c t).extra = 0 ∨ (c = '{' ∧ (ofBrace t).kind = .unknown) := by
  fun_cases read last c t with
  | case1 hdigit => simp [read, hdigit] at hkind
  | case2 hdigit hsign => simp [read, hdigit, hsign] at hkind
  | case3 hdigit hsign hsigil =>
    rw [read, if_neg hdigit, if_neg hsign, if_pos hsigil] at hkind
    exact .inl (extra_ofSigil_unknown hkind)
  | case4 hdigit hsign hsigil hbrace =>
    rw [read, if_neg hdigit, if_neg hsign, if_neg hsigil, if_pos hbrace] at hkind
    exact .inr ⟨hbrace, hkind⟩
  | case5 hdigit hsign hsigil hbrace hword =>
    rw [read, if_neg hdigit, if_neg hsign, if_neg hsigil, if_neg hbrace, if_pos hword] at hkind
    have hmem := kind_ofWord c t
    rw [hkind] at hmem
    exact absurd hmem (by decide)
  | case6 hdigit hsign hsigil hbrace hword =>
    rw [read, if_neg hdigit, if_neg hsign, if_neg hsigil, if_neg hbrace, if_neg hword] at hkind
    exact .inl (extra_ofSymbol_unknown hkind)

end Lexeme

/-! ## Tokens that are unknown -/

namespace Token

/-- The marker of a directive that does not exist, in front of the text `rest`: its word is taken up
to white space or a brace. -/
def IsStrayMarker (source rest : Text) : Prop :=
  ∃ word, source = '{' :: '#' :: word ∧ word.all Lexeme.isMarkerChar ∧
    Text.Stops Lexeme.isMarkerChar rest ∧ ¬ Phrase.IsMarkerWord word

theorem source_of_unknown {h : Heuristics} {last : Option Kind} {o : Nat} {c : Char} {s rest : Text}
    (hkind : (Token.read h last o c (s ++ rest)).kind = .unknown)
    (hsource : (Token.read h last o c (s ++ rest)).source = c :: s) :
    s = [] ∨ IsStrayMarker (c :: s) rest := by
  unfold Token.read at hkind hsource
  split at hkind
  · contradiction
  next hquote =>
  rw [if_neg hquote] at hsource
  rcases Lexeme.read_unknown hkind with hextra | ⟨rfl, hbrace⟩
  · rw [Lexeme.token, hextra] at hsource
    exact .inl (List.cons.inj hsource).2.symm
  · right
    change ((Lexeme.ofBrace (s ++ rest)).token o '{' (s ++ rest)).source = '{' :: s at hsource
    obtain ⟨word, u, heq, hword, hu, hmarker, hextra⟩ := Lexeme.ofBrace_unknown hbrace
    rw [Lexeme.token, hextra, heq, ← List.cons_append, Nat.add_comm,
      ← List.length_cons (a := '#'), List.take_left] at hsource
    obtain rfl : '#' :: word = s := (List.cons.inj hsource).2
    obtain rfl : rest = u := by simpa using heq
    exact ⟨word, rfl, hword, hu, hmarker⟩

end Token

/-- An unknown token covers one character, or it is the marker of a directive that does not exist.
Behind either the tokens are those of the text that stands there. -/
theorem tokenize_unknown {h : Heuristics} {t : Text} {before after : List Token} {token : Token}
    (htokens : tokenize h t = before ++ token :: after) (hkind : token.kind = .unknown) :
    ∃ behind ahead, t = behind ++ (token.source ++ ahead) ∧ Text.bytes behind = token.start ∧
      ((∃ c, token.source = [c] ∧ token.sourceLength = c.utf8Size) ∨
        Token.IsStrayMarker token.source ahead) ∧
      after = Expression.tokens h token.stop ahead := by
  obtain ⟨behind, rest, rfl, hcut⟩ := tokenize_cut htokens
  obtain ⟨gap, c, s, ahead, rfl, -, -, hread, hsource, rfl⟩ := Tokenizer.exists_of_tokens_cons hcut
  have hstart : token.start = Text.bytes behind + Text.bytes gap := by
    rw [hread, Token.start_read]
  refine ⟨behind ++ gap, ahead, by simp [hsource], by rw [hstart, Text.bytes_append], ?_, ?_⟩
  · rw [hread] at hkind hsource
    rcases Token.source_of_unknown hkind hsource with rfl | hmarker
    · exact .inl ⟨c, hread ▸ hsource, by rw [Token.sourceLength, hread, hsource]; rfl⟩
    · rw [← hsource, ← hread] at hmarker
      exact .inr hmarker
  · rw [hkind, Tokenizer.tokens_neutral (by decide) (by decide), Token.stop, hstart]
    rfl

/-- The unknown character takes two bytes, and the sign behind it begins a number. -/
theorem tokenize_unknown_section :
    tokenize .standard "a §-1".toList = [⟨.identifier, ['a'], ['a'], 0⟩] ++
        ⟨.unknown, ['§'], ['§'], 2⟩ :: [⟨.numberLiteral, ['-', '1'], ['-', '1'], 4⟩] ∧
      ∃ behind ahead, "a §-1".toList = behind ++ (['§'] ++ ahead) ∧ Text.bytes behind = 2 ∧
        ((∃ c, ['§'] = [c] ∧ Text.bytes ['§'] = c.utf8Size) ∨ Token.IsStrayMarker ['§'] ahead) ∧
        [⟨.numberLiteral, ['-', '1'], ['-', '1'], 4⟩] = Expression.tokens .standard 4 ahead := by
  have htokens : tokenize .standard "a §-1".toList = [⟨.identifier, ['a'], ['a'], 0⟩] ++
      ⟨.unknown, ['§'], ['§'], 2⟩ :: [⟨.numberLiteral, ['-', '1'], ['-', '1'], 4⟩] := by
    decide +kernel
  exact ⟨htokens, tokenize_unknown htokens rfl⟩

/-- Not every unknown token covers one character. -/
theorem tokenize_unknown_marker :
    tokenize .standard "\x7b#foo".toList = [⟨.unknown, "\x7b#foo".toList, "\x7b#foo".toList, 0⟩] ∧
      ¬ ∀ token ∈ tokenize .standard "\x7b#foo".toList, token.kind = .unknown →
        ∃ c, token.source = [c] := by
  have htokens : tokenize .standard "\x7b#foo".toList =
      [⟨.unknown, "\x7b#foo".toList, "\x7b#foo".toList, 0⟩] := by
    decide +kernel
  refine ⟨htokens, fun hall => ?_⟩
  obtain ⟨c, hc⟩ := hall _ (htokens ▸ List.mem_singleton_self _) rfl
  simp at hc

end LogSyntax
