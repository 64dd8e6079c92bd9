import LogSyntax.Proofs.Token.Kinds
/-!
# The normal form of tokens

Some tokens are written as several words, and some take their kind from their neighbours.
`NormalForm` says what this comes to in the finished list: words that make one token never stand in
it as several (`Tokenizer.not_spelled_of_word`, `not_spelled_of_marker`), and the kind of a
function, of a negative number and of a minus agrees with the tokens around it.
-/

namespace LogSyntax

namespace Token

/-- The token is this word, in any ASCII case, and of this kind. -/
def IsWord (kind : Kind) (word : String) (token : Token) : Prop :=
  token.kind = kind ∧ Text.eqIgnoringCase token.text word.toList

end Token

/-- The tokens of a text, where `[a, b] <:+: tokens` says that `b` is the next token behind `a`:
words that make one token together are one token, and kinds agree with the neighbours that decide
them. -/
structure NormalForm (tokens : List Token) (t : Text) : Prop where
  isNull : ∀ a b, [a, b] <:+: tokens → ¬ (a.IsWord .keyword "is" ∧ b.kind = .nullLiteral)
  isNotNull : ∀ a b c, [a, b, c] <:+: tokens →
    ¬ (a.IsWord .keyword "is" ∧ b.IsWord .booleanOperator "not" ∧ c.kind = .nullLiteral)
  notLike : ∀ a b, [a, b] <:+: tokens →
    ¬ (a.IsWord .booleanOperator "not" ∧ b.IsWord .stringOperator "like")
  notIn : ∀ a b, [a, b] <:+: tokens →
    ¬ (a.IsWord .booleanOperator "not" ∧ b.IsWord .membershipOperator "in")
  elseIf : ∀ a b, [a, b] <:+: tokens → ¬ (a.kind = .directiveElse ∧ b.IsWord .keyword "if")
  /-- Behind a function its arguments begin. -/
  function : ∀ before f after, tokens = before ++ f :: after → f.kind = .function →
    ∃ b ∈ after.head?, b.kind = .openParen
  /-- A name of a function is an identifier only where no arguments begin behind it. -/
  identifier : ∀ a b, [a, b] <:+: tokens → a.kind = .identifier → isFunctionName a.text →
    b.kind ≠ .openParen
  /-- A number behind an operand has no sign. -/
  number : ∀ a b, [a, b] <:+: tokens → a.kind.endsOperand → b.kind = .numberLiteral →
    b.text.head? ≠ some '-'
  /-- A minus directly before a digit is an operator only behind an operand. -/
  minus : ∀ before m after d, tokens = before ++ m :: after → m.kind = .arithmeticOperator →
    m.text = ['-'] → Text.StandsAt [d] t m.stop → d.isDigit →
    ∃ a ∈ before.getLast?, a.kind.endsOperand

namespace Tokenizer

variable {h : Heuristics} {last : Option Token.Kind} {o : Nat} {t : Text} {token : Token}
  {before after : List Token}

/-! ## Words that make one token -/

/-- Behind the first word of a phrase no tokens spell its other words. -/
theorem not_spelled_of_word (phrase : Phrase) (hphrase : phrase ∈ reservedPhrases)
    (htail : phrase.tail ≠ []) (htokens : tokens ⟨⟨o, t⟩, h, last⟩ = token :: after)
    (heq : Text.lower token.source = Text.lower phrase.head.toList) :
    ¬ phrase.tail.map (Text.lower ·.toList) <+: after.map (Text.lower ·.source) := by
  obtain ⟨gap, c, s, rest, -, -, -, rfl, hsource, rfl⟩ := exists_of_tokens_cons htokens
  rw [hsource] at heq
  have hlower : ∀ phrase ∈ reservedPhrases, phrase.head.toList.all Char.isLower := by decide
  have hstart := isIdentStart_of_lower (hlower phrase hphrase) heq
  have hc : isIdentStart c := hstart c List.mem_cons_self
  have hs : s.all isIdentChar := List.all_eq_true.2 fun d hd =>
    isIdentChar_of_isIdentStart (hstart d (List.mem_cons_of_mem _ hd))
  have hrest : Text.Stops isIdentChar rest := Token.stops_of_word hc hsource
  -- the token is the word alone, so no phrase that begins with it was found
  have htaken :
      Phrase.taken (Phrase.find? reservedPhrases (Text.eqIgnoringCase · (c :: s)) rest) = 0 := by
    rw [Token.read_word hc] at hsource
    have hextra := Lexeme.extra_of_source (Lexeme.extra_ofWord_le c (s ++ rest)) hsource
    rw [Lexeme.extra_ofWord hs hrest] at hextra
    omega
  have hnone := Phrase.following?_of_lone Phrase.ordered_reservedPhrases
    (Phrase.same_word (c :: s)) htaken phrase hphrase
    (by rw [Text.eqIgnoringCase, heq, beq_self_eq_true]) htail
  have hapart := Phrase.apart_tail phrase (List.mem_append_left _ hphrase)
  rw [← following?_isSome_iff hapart hrest, hnone]
  exact Bool.false_ne_true

/-- Behind the marker of a directive no tokens spell the word that belongs to it. -/
theorem not_spelled_of_marker (phrase : Phrase) (hphrase : phrase ∈ markerPhrases)
    (htail : phrase.tail ≠ []) (htokens : tokens ⟨⟨o, t⟩, h, last⟩ = token :: after)
    (heq : token.source = '{' :: '#' :: phrase.head.toList) :
    ¬ phrase.tail.map (Text.lower ·.toList) <+: after.map (Text.lower ·.source) := by
  obtain ⟨gap, c, s, rest, -, -, -, rfl, hsource, rfl⟩ := exists_of_tokens_cons htokens
  obtain ⟨rfl, rfl⟩ := List.cons.inj (hsource.symm.trans heq)
  have hmarker : ∀ phrase ∈ markerPhrases, phrase.head.toList.all Lexeme.isMarkerChar := by decide
  obtain ⟨hstops, htaken⟩ := Lexeme.stops_of_marker (hmarker phrase hphrase) hsource
  have hrest : Text.Stops isIdentChar rest := hstops.mono fun _ => isMarkerChar_of_isIdentChar
  have hnone := Phrase.following?_of_lone Phrase.ordered_markerPhrases (Phrase.same_marker _) htaken
    phrase hphrase (beq_self_eq_true _) htail
  have hapart := Phrase.apart_tail phrase (List.mem_append_right _ hphrase)
  rw [← following?_isSome_iff hapart hrest, hnone]
  exact Bool.false_ne_true

/-! ## Cutting a list of tokens -/

/-- Behind some of its tokens a tokenizer stands further on in the text and reads the others. -/
theorem tokens_cut (htokens : tokens ⟨⟨o, t⟩, h, last⟩ = before ++ after) :
    ∃ behind rest, t = behind ++ rest ∧
      tokens ⟨⟨o + Text.bytes behind, rest⟩, h, (before.getLast?.map (·.kind)).or last⟩ =
        after := by
  induction before generalizing o t last with
  | nil => exact ⟨[], t, rfl, by simpa using htokens⟩
  | cons token before ih =>
    obtain ⟨gap, c, s, rest, rfl, -, -, -, hsource, hafter⟩ := exists_of_tokens_cons htokens
    obtain ⟨behind, rest', rfl, htokens'⟩ := ih hafter.symm
    refine ⟨gap ++ (token.source ++ behind), rest', by simp [hsource], ?_⟩
    have hlast : ((token :: before).getLast?.map (·.kind)).or last =
        (before.getLast?.map (·.kind)).or (some token.kind) := by
      rw [List.getLast?_cons]
      cases before.getLast? with
      | none => rfl
      | some a => rfl
    rw [hlast, Text.bytes_append, Text.bytes_append, ← Nat.add_assoc, ← Nat.add_assoc]
    exact htokens'

/-! ## Kinds that neighbours decide -/

/-- A parenthesis opens behind white space exactly if the next token says so. -/
theorem opens_iff :
    (Text.trimStart t).head? = some '(' ↔
      ∃ b ∈ (tokens ⟨⟨o, t⟩, h, last⟩).head?, b.kind = .openParen := by
  rw [head?_trimStart h last o t]
  cases htokens : tokens ⟨⟨o, t⟩, h, last⟩ with
  | nil => simp
  | cons b after =>
    obtain ⟨gap, c, s, rest, -, -, -, rfl, hsource, -⟩ := exists_of_tokens_cons htokens
    simp [hsource, Token.openParen_iff]

/-- A word that no phrase takes is a function exactly if it is the name of one and a parenthesis
opens behind it. -/
theorem function_iff {c : Char} {s rest : Text} (hc : isIdentStart c)
    (hread : token = Token.read h last o c (s ++ rest)) (hsource : token.source = c :: s)
    (hkind : token.kind = .function ∨ token.kind = .identifier) (o' : Nat)
    (last' : Option Token.Kind) :
    token.kind = .function ↔ isFunctionName token.source ∧
      ∃ b ∈ (tokens ⟨⟨o', rest⟩, h, last'⟩).head?, b.kind = .openParen := by
  rw [hsource]
  subst hread
  rw [Token.read_word hc] at hsource hkind ⊢
  have hextra := Lexeme.extra_of_source (Lexeme.extra_ofWord_le c (s ++ rest)) hsource
  obtain ⟨more, u, heq, -, hmore, hu⟩ := Text.exists_run isIdentChar (s ++ rest)
  rw [heq] at hextra hkind ⊢
  obtain ⟨hlength, hiff⟩ := Lexeme.ofWord_name hmore hu hkind
  obtain ⟨rfl, rfl⟩ := List.append_inj heq (hextra.symm.trans hlength)
  exact hiff.trans (and_congr_right fun _ => opens_iff)

/-- Behind a function a parenthesis opens. -/
theorem opens_of_function (htokens : tokens ⟨⟨o, t⟩, h, last⟩ = token :: after)
    (hkind : token.kind = .function) : ∃ b ∈ after.head?, b.kind = .openParen := by
  obtain ⟨gap, c, s, rest, -, -, -, hread, hsource, rfl⟩ := exists_of_tokens_cons htokens
  have hc : isIdentStart c := Token.isIdentStart_of_function (hread ▸ hkind)
  exact ((function_iff hc hread hsource (.inl hkind) _ _).1 hkind).2

/-- No parenthesis opens behind an identifier with the name of a function. -/
theorem not_opens_of_identifier {b : Token}
    (htokens : tokens ⟨⟨o, t⟩, h, last⟩ = token :: b :: after) (hkind : token.kind = .identifier)
    (hname : isFunctionName token.source) : b.kind ≠ .openParen := by
  obtain ⟨gap, c, s, rest, -, -, -, hread, hsource, hafter⟩ := exists_of_tokens_cons htokens
  have hbegins : c = '@' ∨ isIdentStart c := Token.begins_of_identifier (hread ▸ hkind)
  rcases hbegins with rfl | hc
  · -- no function has a name that begins so
    obtain ⟨name, hmem, heq⟩ := List.any_eq_true.1 hname
    have hnames : ∀ name ∈ functionNames, (Text.lower name.toList).head? ≠ some '@' := by
      decide +kernel
    rw [Text.eqIgnoringCase, beq_iff_eq, hsource] at heq
    exact absurd (congrArg List.head? heq) (hnames name hmem)
  · intro hopens
    have hiff := function_iff hc hread hsource (.inr hkind)
      (o + Text.bytes gap + Text.bytes token.source) (some token.kind)
    rw [← hafter] at hiff
    have hfunction := hiff.2 ⟨hname, b, rfl, hopens⟩
    rw [hkind] at hfunction
    contradiction

/-- A number behind an operand begins with a digit. -/
theorem isDigit_of_number (hlast : last.any Token.Kind.endsOperand)
    (htokens : tokens ⟨⟨o, t⟩, h, last⟩ = token :: after) (hkind : token.kind = .numberLiteral) :
    ∃ d ∈ token.source.head?, d.isDigit := by
  obtain ⟨gap, c, s, rest, -, -, -, hread, hsource, -⟩ := exists_of_tokens_cons htokens
  have hbegins : c.isDigit ∨ Lexeme.isSign last c (s ++ rest) :=
    Token.begins_of_number (hread ▸ hkind)
  rw [hsource]
  rcases hbegins with hdigit | hsign
  · exact ⟨c, rfl, hdigit⟩
  · rw [Lexeme.isSign, hlast, Bool.not_true, Bool.and_false] at hsign
    contradiction

/-- A minus that stands directly before a digit and is no sign stands behind an operand. -/
theorem endsOperand_of_minus {d : Char} {rest : Text} (hd : d.isDigit)
    (hkind : (Token.read h last o '-' (d :: rest)).kind = .arithmeticOperator) :
    last.any Token.Kind.endsOperand := by
  by_contra hlast
  rw [Bool.not_eq_true] at hlast
  have hsign : Lexeme.isSign last '-' (d :: rest) = true := by
    simp [Lexeme.isSign, hd, hlast]
  have hnumber : (Token.read h last o '-' (d :: rest)).kind = .numberLiteral := by
    simp [Token.read, Lexeme.read, Lexeme.token, hsign]
  rw [hnumber] at hkind
  contradiction

/-- Every token is read at its first character. -/
theorem exists_read_of_mem (hmem : token ∈ tokens ⟨⟨o, t⟩, h, last⟩) :
    ∃ last o c t, token = Token.read h last o c t := by
  obtain ⟨before, after, htokens⟩ := List.append_of_mem hmem
  obtain ⟨behind, rest, rfl, hcut⟩ := tokens_cut htokens
  obtain ⟨gap, c, s, rest', -, -, -, hread, -, -⟩ := exists_of_tokens_cons hcut
  exact ⟨_, _, c, _, hread⟩

end Tokenizer

/-! ## The tokens of a text -/

section

variable {h : Heuristics} {t : Text} {a : Token} {more before after : List Token}

/-- The tokens of a text behind some of them, with the place where they are read. -/
theorem tokenize_cut (htokens : tokenize h t = before ++ after) :
    ∃ behind rest, t = behind ++ rest ∧
      Tokenizer.tokens ⟨⟨Text.bytes behind, rest⟩, h, before.getLast?.map (·.kind)⟩ = after := by
  obtain ⟨behind, rest, rfl, hafter⟩ := Tokenizer.tokens_cut htokens
  rw [Nat.zero_add, Option.or_none] at hafter
  exact ⟨behind, rest, rfl, hafter⟩

/-- Tokens next to each other are read from some place on. -/
theorem tokenize_adjacent (hnext : a :: more <:+: tokenize h t) :
    ∃ o t last after, Tokenizer.tokens ⟨⟨o, t⟩, h, last⟩ = a :: (more ++ after) := by
  obtain ⟨before, after, htokens⟩ := hnext
  rw [List.append_assoc] at htokens
  obtain ⟨behind, rest, -, hafter⟩ := tokenize_cut htokens.symm
  exact ⟨_, _, _, after, hafter⟩

theorem plain_of_mem {token : Token} (hmem : token ∈ tokenize h t)
    (hkind : token.kind ≠ .stringLiteral) : token.text = token.source :=
  ((Tokenizer.faithful_of_mem_tokens _ token hmem).plain hkind).1

theorem Token.IsWord.lower_source {token : Token} {kind : Token.Kind} {word : String}
    (hword : token.IsWord kind word) (hmem : token ∈ tokenize h t)
    (hkind : kind ≠ .stringLiteral) : Text.lower token.source = Text.lower word.toList := by
  obtain ⟨rfl, heq⟩ := hword
  rwa [Text.eqIgnoringCase, beq_iff_eq, plain_of_mem hmem hkind] at heq

/-- Tokens next to each other that spell a phrase are not several tokens. -/
theorem not_spelled_of_adjacent (phrase : Phrase) (hphrase : phrase ∈ reservedPhrases)
    (htail : phrase.tail ≠ []) (hnext : a :: more <:+: tokenize h t)
    (heq : Text.lower a.source = Text.lower phrase.head.toList) :
    more.map (Text.lower ·.source) ≠ phrase.tail.map (Text.lower ·.toList) := by
  intro hmore
  obtain ⟨o, t, last, after, htokens⟩ := tokenize_adjacent hnext
  apply Tokenizer.not_spelled_of_word phrase hphrase htail htokens heq
  rw [List.map_append, hmore]
  exact List.prefix_append _ _

/-- The two words of a phrase are not two tokens. -/
theorem not_spelled_pair {b : Token} {first second : String} {kind : Token.Kind}
    (hphrase : (⟨first, [second], kind⟩ : Phrase) ∈ reservedPhrases)
    (hnext : [a, b] <:+: tokenize h t)
    (ha : Text.lower a.source = Text.lower first.toList) :
    Text.lower b.source ≠ Text.lower second.toList := by
  intro hb
  apply not_spelled_of_adjacent _ hphrase (List.cons_ne_nil _ _) hnext ha
  simp only [List.map_cons, List.map_nil, hb]

theorem lower_source_of_nullLiteral {token : Token} (hmem : token ∈ tokenize h t)
    (hkind : token.kind = .nullLiteral) : Text.lower token.source = Text.lower "null".toList := by
  obtain ⟨last, o, c, t, rfl⟩ := Tokenizer.exists_read_of_mem hmem
  exact Token.source_of_nullLiteral hkind

/-- A minus is read in front of the character that stands behind it. -/
theorem exists_read_minus {m : Token} {d : Char} (htokens : tokenize h t = before ++ m :: after)
    (hminus : m.source = ['-']) (hstands : Text.StandsAt [d] t m.stop) :
    ∃ o rest, m = Token.read h (before.getLast?.map (·.kind)) o '-' (d :: rest) := by
  obtain ⟨behind, rest, rfl, hcut⟩ := tokenize_cut htokens
  obtain ⟨gap, c, s, rest', rfl, -, -, hread, hsource, -⟩ := Tokenizer.exists_of_tokens_cons hcut
  obtain ⟨rfl, rfl⟩ := List.cons.inj (hsource.symm.trans hminus)
  have hstop : m.stop = Text.bytes (behind ++ (gap ++ ['-'])) := by
    rw [Token.stop, Token.sourceLength, hsource, hread, Token.start_read]
    simp [Nat.add_assoc]
  have hsplit : behind ++ (gap ++ '-' :: ([] ++ rest')) = behind ++ (gap ++ ['-']) ++ rest' := by
    simp
  rw [hstop, hsplit] at hstands
  obtain ⟨rest'', rfl⟩ := hstands.prefix_of_append
  exact ⟨_, rest'', hread⟩

end

/-- The tokens of every text are in normal form, whatever the limits for string literals are. -/
theorem tokenize_normal (h : Heuristics) (t : Text) : NormalForm (tokenize h t) t where
  isNull := by
    rintro a b hnext ⟨ha, hb⟩
    have hphrase : (⟨"is", ["null"], .nullOperator⟩ : Phrase) ∈ reservedPhrases := by decide
    have his := ha.lower_source (hnext.subset (by simp)) (by decide)
    have hnull := lower_source_of_nullLiteral (hnext.subset (by simp)) hb
    exact not_spelled_pair hphrase hnext his hnull
  isNotNull := by
    rintro a b c hnext ⟨ha, hb, hc⟩
    have hphrase : (⟨"is", ["not", "null"], .nullOperator⟩ : Phrase) ∈ reservedPhrases := by decide
    have his := ha.lower_source (hnext.subset (by simp)) (by decide)
    have hnot := hb.lower_source (hnext.subset (by simp)) (by decide)
    have hnull := lower_source_of_nullLiteral (hnext.subset (by simp)) hc
    apply not_spelled_of_adjacent _ hphrase (List.cons_ne_nil _ _) hnext his
    simp only [List.map_cons, List.map_nil, hnot, hnull]
  notLike := by
    rintro a b hnext ⟨ha, hb⟩
    have hphrase : (⟨"not", ["like"], .stringOperator⟩ : Phrase) ∈ reservedPhrases := by decide
    have hnot := ha.lower_source (hnext.subset (by simp)) (by decide)
    have hlike := hb.lower_source (hnext.subset (by simp)) (by decide)
    exact not_spelled_pair hphrase hnext hnot hlike
  notIn := by
    rintro a b hnext ⟨ha, hb⟩
    have hphrase : (⟨"not", ["in"], .membershipOperator⟩ : Phrase) ∈ reservedPhrases := by decide
    have hnot := ha.lower_source (hnext.subset (by simp)) (by decide)
    have hin := hb.lower_source (hnext.subset (by simp)) (by decide)
    exact not_spelled_pair hphrase hnext hnot hin
  elseIf := by
    rintro a b hnext ⟨ha, hb⟩
    have hif := hb.lower_source (hnext.subset (by simp)) (by decide)
    obtain ⟨o, t, last, after, htokens⟩ := tokenize_adjacent hnext
    have helse : a.source = "\x7b#else".toList := by
      obtain ⟨gap, c, s, rest, -, -, -, rfl, -, -⟩ := Tokenizer.exists_of_tokens_cons htokens
      exact Token.source_of_directiveElse ha
    apply Tokenizer.not_spelled_of_marker ⟨"else", ["if"], .directiveElseIf⟩ (by decide)
      (by decide) htokens helse
    simp [hif]
  function := by
    intro before f after htokens hkind
    obtain ⟨behind, rest, -, hcut⟩ := tokenize_cut htokens
    exact Tokenizer.opens_of_function hcut hkind
  identifier := by
    intro a b hnext hkind hname
    have hmem : a ∈ tokenize h t := hnext.subset (by simp)
    rw [plain_of_mem hmem (by rw [hkind]; decide)] at hname
    obtain ⟨o, t, last, after, htokens⟩ := tokenize_adjacent hnext
    exact Tokenizer.not_opens_of_identifier htokens hkind hname
  number := by
    intro a b hnext hoperand hkind hsign
    have hmem : b ∈ tokenize h t := hnext.subset (by simp)
    rw [plain_of_mem hmem (by rw [hkind]; decide)] at hsign
    obtain ⟨o, t, last, after, htokens⟩ := tokenize_adjacent hnext
    obtain ⟨gap, c, s, rest, -, -, -, -, -, hafter⟩ := Tokenizer.exists_of_tokens_cons htokens
    have hlast : (some a.kind).any Token.Kind.endsOperand := hoperand
    obtain ⟨d, hd, hdigit⟩ := Tokenizer.isDigit_of_number hlast hafter.symm hkind
    obtain rfl := Option.some.inj (hd.symm.trans hsign)
    contradiction
  minus := by
    intro before m after d htokens hkind htext hstands hd
    have hmem : m ∈ tokenize h t := by simp [htokens]
    have hplain := plain_of_mem hmem (by rw [hkind]; decide)
    obtain ⟨o, rest, rfl⟩ := exists_read_minus htokens (hplain.symm.trans htext) hstands
    have hlast := Tokenizer.endsOperand_of_minus hd hkind
    rw [Option.any_map, Option.any_eq_true] at hlast
    exact hlast

end LogSyntax
