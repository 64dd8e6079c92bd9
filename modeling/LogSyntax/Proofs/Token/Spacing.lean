import LogSyntax.Proofs.Token.Behind
/-!
# Spacing between tokens

How much white space stands between two tokens does not matter, as long as there is some:
`tokenize_respaced` writes the sources of the tokens one behind the other with any white space
between them, and gets the same tokens. The proof goes from the end of the text to its beginning,
since a token depends on the tokens behind it (`Tokenizer.ahead_of_content`).

Two kinds of tokens are what they are because nothing stands between them and their neighbour: a
star that is all that brackets hold, and a literal that was cut short.
-/

namespace LogSyntax

/-- What a token is, wherever it stands. -/
def Token.content (token : Token) : Token.Kind × Text × Text :=
  (token.kind, token.source, token.text)

/-- A text of sources and gaps in which some white space stands behind the first source. -/
theorem stops_interleave {gap : Text} {gaps sources : List Text} (hblank : gap.all isBlank)
    (hgap : sources ≠ [] → gap ≠ []) :
    Text.Stops (!isBlank ·) (interleave (gap :: gaps) sources) := by
  intro c hc
  have hmem : c ∈ gap := by
    cases sources with
    | nil => exact List.mem_of_mem_head? hc
    | cons s sources =>
      rw [interleave, List.head?_append_of_ne_nil _ (hgap (by simp))] at hc
      exact List.mem_of_mem_head? hc
  simp [List.all_eq_true.1 hblank c hmem]

/-- The gaps between the tokens behind the first one are gaps between tokens. -/
theorem between_cons {gap gap' : Text} {gaps : List Text}
    (hbetween : ∀ g ∈ (gap :: gap' :: gaps).tail.dropLast, g ≠ []) :
    (gaps ≠ [] → gap' ≠ []) ∧ ∀ g ∈ (gap' :: gaps).tail.dropLast, g ≠ [] := by
  cases gaps with
  | nil => simp
  | cons gap'' gaps =>
    rw [List.tail_cons, List.dropLast_cons_cons, List.forall_mem_cons] at hbetween
    exact ⟨fun _ => hbetween.1, hbetween.2⟩

namespace Tokenizer

variable {h : Heuristics} {last last' : Option Token.Kind} {o o' : Nat} {t rest rest' : Text}

theorem sources_of_content {tokens tokens' : List Token}
    (hcontent : tokens'.map Token.content = tokens.map Token.content) :
    tokens'.map (·.source) = tokens.map (·.source) := by
  have hsources := congrArg (List.map (·.2.1)) hcontent
  rwa [List.map_map, List.map_map] at hsources

/-- Looking ahead sees no more than the tokens. -/
theorem ahead_of_content (hblank : Text.Stops (!isBlank ·) rest')
    (hcontent : (tokens ⟨⟨o', rest'⟩, h, last'⟩).map Token.content =
      (tokens ⟨⟨o, rest⟩, h, last⟩).map Token.content) : Ahead rest rest' where
  blank := hblank
  words := by
    intro hrest phrase hphrase hnone
    have hapart := Phrase.apart_tail phrase hphrase
    have hlower : (tokens ⟨⟨o', rest'⟩, h, last'⟩).map (Text.lower ·.source) =
        (tokens ⟨⟨o, rest⟩, h, last⟩).map (Text.lower ·.source) := by
      have hsources := congrArg (List.map Text.lower) (sources_of_content hcontent)
      rwa [List.map_map, List.map_map] at hsources
    rw [← Option.not_isSome_iff_eq_none, following?_isSome_iff hapart hrest, ← hlower] at hnone
    rwa [← Option.not_isSome_iff_eq_none,
      following?_isSome_iff hapart (stops_isIdentChar hblank)]
  opens := by
    rw [head?_trimStart h last o rest, head?_trimStart h last' o' rest',
      sources_of_content hcontent]

/-- Behind the white space in front of it a token is read again, and so are the tokens behind it. -/
theorem tokens_interleave {expected : List Token} {gaps : List Text}
    (htokens : tokens ⟨⟨o, t⟩, h, last⟩ = expected)
    (hstar : ∀ token ∈ expected, token.kind = .wildcard → token.source ≠ ['*'])
    (hclosed : ∀ token ∈ expected, token.kind = .stringLiteral → token.IsClosed)
    (hlength : gaps.length = expected.length + 1) (hblank : ∀ gap ∈ gaps, gap.all isBlank)
    (hbetween : ∀ gap ∈ gaps.tail.dropLast, gap ≠ []) :
    (tokens ⟨⟨o', interleave gaps (expected.map (·.source))⟩, h, last⟩).map Token.content =
      expected.map Token.content := by
  induction expected generalizing o o' t last gaps with
  | nil =>
    obtain ⟨gap, rfl⟩ := List.length_eq_one_iff.1 hlength
    have hgap : tokens ⟨⟨o', gap ++ []⟩, h, last⟩ = _ := tokens_blanks (hblank gap (by simp))
    rw [List.append_nil, tokens_nil] at hgap
    simp only [List.map_nil, interleave, hgap]
  | cons token behind ih =>
    obtain ⟨before, c, s, rest, rfl, -, hc, hread, hsource, hbehind⟩ :=
      exists_of_tokens_cons htokens
    obtain ⟨gap, gap', gaps, rfl⟩ : ∃ gap gap' gaps', gaps = gap :: gap' :: gaps' := by
      obtain ⟨gap, more, rfl⟩ := List.exists_cons_of_length_eq_add_one hlength
      rw [List.length_cons, List.length_cons, Nat.add_right_cancel_iff] at hlength
      obtain ⟨gap', gaps, rfl⟩ := List.exists_cons_of_length_eq_add_one hlength
      exact ⟨gap, gap', gaps, rfl⟩
    rw [List.forall_mem_cons] at hstar hclosed hblank
    have hlength' : gaps.length = behind.length := by simpa using hlength
    obtain ⟨hgap, hbetween'⟩ := between_cons hbetween
    have hblank' : Text.Stops (!isBlank ·) (interleave (gap' :: gaps) (behind.map (·.source))) :=
      stops_interleave (hblank.2 gap' (by simp)) fun hne => hgap (by
        rintro rfl
        rw [List.length_eq_zero_iff.1 hlength'.symm] at hne
        exact hne rfl)
    have hcontent (o' : Nat) :
        (tokens ⟨⟨o', interleave (gap' :: gaps) (behind.map (·.source))⟩, h,
          some token.kind⟩).map Token.content = behind.map Token.content :=
      ih hbehind.symm hstar.2 hclosed.2 (congrArg (· + 1) hlength') hblank.2 hbetween'
    have hahead : Ahead rest (interleave (gap' :: gaps) (behind.map (·.source))) := by
      apply ahead_of_content hblank'
      rw [hcontent 0, hbehind]
    -- the token is read again, and the tokens behind it stand where it ends
    subst hread
    have hagain : Token.read h last (o' + Text.bytes gap) c
        (s ++ interleave (gap' :: gaps) (behind.map (·.source))) = _ :=
      Token.read_behind hahead hsource hclosed.1 hstar.1
    have hcons := tokens_cons hc hagain hsource
    rw [List.map_cons, hsource, interleave, tokens_blanks hblank.1, List.cons_append, hcons,
      List.map_cons, List.map_cons, hcontent]
    rfl

end Tokenizer

/-- Any white space may stand in front of the tokens of a text and behind them, and any but none
between them: the tokens stay what they are. A star between brackets and a literal that is cut short
are what they are because of what stands next to them. -/
theorem tokenize_respaced (h : Heuristics) (t : Text) (gaps : List Text)
    (hstar : ∀ token ∈ tokenize h t, token.kind = .wildcard → token.text ≠ ['*'])
    (hclosed : ∀ token ∈ tokenize h t, token.kind = .stringLiteral → token.IsClosed)
    (hlength : gaps.length = (tokenize h t).length + 1) (hblank : ∀ gap ∈ gaps, gap.all isBlank)
    (hbetween : ∀ gap ∈ gaps.tail.dropLast, gap ≠ []) :
    (tokenize h (interleave gaps ((tokenize h t).map (·.source)))).map Token.content =
      (tokenize h t).map Token.content := by
  have hstar' : ∀ token ∈ tokenize h t, token.kind = .wildcard → token.source ≠ ['*'] := by
    intro token hmem hkind
    have hfaithful := Tokenizer.faithful_of_mem_tokens _ token hmem
    rw [← (hfaithful.plain (by rw [hkind]; decide)).1]
    exact hstar token hmem hkind
  exact Tokenizer.tokens_interleave rfl hstar' hclosed hlength hblank hbetween

/-- White space may stand around the minus, and the words of the operator stay one token. -/
theorem tokenize_respaced_minus :
    (tokenize .standard "\tIs not null - 'it''s' ".toList).map Token.content =
      (tokenize .standard "Is not null-'it''s'".toList).map Token.content := by
  have htokens : tokenize .standard "Is not null-'it''s'".toList =
      [⟨.nullOperator, "Is not null".toList, "Is not null".toList, 0⟩,
        ⟨.arithmeticOperator, ['-'], ['-'], 11⟩,
        ⟨.stringLiteral, "'it''s'".toList, "'it's'".toList, 12⟩] := by
    decide +kernel
  have hrespaced := tokenize_respaced .standard "Is not null-'it''s'".toList
    [['\t'], [' '], [' '], [' ']]
  rw [htokens] at hrespaced ⊢
  apply hrespaced
  · simp
  · intro token hmem hkind
    obtain rfl : token = ⟨.stringLiteral, "'it''s'".toList, "'it's'".toList, 12⟩ := by
      simp only [List.mem_cons, List.not_mem_nil, or_false] at hmem
      rcases hmem with rfl | rfl | rfl
      · contradiction
      · contradiction
      · rfl
    exact ⟨"it''s".toList, trivial, rfl⟩
  · rfl
  · decide
  · decide

end LogSyntax
