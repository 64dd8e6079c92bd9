import Mathlib.Data.List.Forall2
import LogSyntax.Proofs.Token.Behind
/-!
# The case of letters

The words of expressions may be written in any ASCII case. So a text in lower case has the tokens of
the text in lower case (`tokenize_lower`), and two texts that differ in case only have tokens that
differ in case only (`tokenize_eqIgnoringCase`). The codes behind an `@` and the markers of
directives are the two things that are not read so.
-/

namespace LogSyntax

/-! ## Characters -/

/-- The letters that have a lower case in ASCII. -/
def upperLetters : Text :=
  "ABCDEFGHIJKLMNOPQRSTUVWXYZ".toList

theorem toLower_of_not_mem {c : Char} (hc : c ∉ upperLetters) : c.toLower = c := by
  unfold Char.toLower
  rw [dif_neg]
  intro hupper
  have hrange : 65 ≤ c.toNat ∧ c.toNat ≤ 90 := by
    simpa [UInt32.le_iff_toNat_le] using hupper
  have hletters : ∀ n ∈ List.range' 65 26, Char.ofNat n ∈ upperLetters := by decide
  have hmem := hletters c.toNat (List.mem_range'_1.2 (by omega))
  rw [Char.ofNat_toNat] at hmem
  exact hc hmem

/-- What does not tell an upper-case letter of ASCII from its lower case does not see the case of
any character. -/
theorem apply_toLower {β : Type} [DecidableEq β] (f : Char → β)
    (hf : upperLetters.all fun c => f c.toLower = f c) (c : Char) : f c.toLower = f c := by
  by_cases hc : c ∈ upperLetters
  · simpa using List.all_eq_true.1 hf c hc
  · rw [toLower_of_not_mem hc]

theorem toLower_toLower (c : Char) : c.toLower.toLower = c.toLower :=
  apply_toLower Char.toLower (by decide) c

theorem utf8Size_toLower (c : Char) : c.toLower.utf8Size = c.utf8Size :=
  apply_toLower Char.utf8Size (by decide) c

theorem isBlank_toLower (c : Char) : isBlank c.toLower = isBlank c :=
  apply_toLower isBlank (by decide) c

theorem isDigit_toLower (c : Char) : c.toLower.isDigit = c.isDigit :=
  apply_toLower Char.isDigit (by decide) c

theorem isHexDigit_toLower (c : Char) : isHexDigit c.toLower = isHexDigit c :=
  apply_toLower isHexDigit (by decide) c

theorem isIdentChar_toLower (c : Char) : isIdentChar c.toLower = isIdentChar c :=
  apply_toLower isIdentChar (by decide +kernel) c

theorem isIdentStart_toLower (c : Char) : isIdentStart c.toLower = isIdentStart c :=
  apply_toLower isIdentStart (by decide +kernel) c

/-- A character without case is no other one in lower case. -/
theorem toLower_eq_iff {d : Char} (c : Char)
    (hd : upperLetters.all fun c => decide (c.toLower = d) = decide (c = d)) :
    c.toLower = d ↔ c = d := by
  simpa using apply_toLower (fun c => decide (c = d)) hd c

/-- Letters of ASCII can begin a word. -/
theorem toLower_of_not_isIdentStart {c : Char} (hc : isIdentStart c = false) : c.toLower = c := by
  have hletters : upperLetters.all isIdentStart = true := by decide +kernel
  refine toLower_of_not_mem fun hmem => ?_
  rw [List.all_eq_true.1 hletters c hmem] at hc
  contradiction

/-! ## Texts -/

namespace Text

variable {f : Char → Bool} {t : Text}

theorem lower_cons (c : Char) (t : Text) : lower (c :: t) = c.toLower :: lower t := rfl

theorem lower_lower (t : Text) : lower (lower t) = lower t := by
  rw [lower, lower, List.map_map]
  exact List.map_congr_left fun c _ => toLower_toLower c

theorem length_lower (t : Text) : (lower t).length = t.length :=
  List.length_map _

theorem bytes_lower (t : Text) : bytes (lower t) = bytes t := by
  induction t with
  | nil => rfl
  | cons c t ih => rw [lower_cons, bytes_cons, bytes_cons, ih, utf8Size_toLower]

theorem lower_take (n : Nat) (t : Text) : lower (t.take n) = (lower t).take n :=
  List.map_take

theorem lower_drop (n : Nat) (t : Text) : lower (t.drop n) = (lower t).drop n :=
  List.map_drop

theorem lower_takeWhile (hf : ∀ c, f c.toLower = f c) (t : Text) :
    (lower t).takeWhile f = lower (t.takeWhile f) := by
  rw [lower, List.takeWhile_map, lower]
  congr 2
  exact funext hf

theorem lower_dropWhile (hf : ∀ c, f c.toLower = f c) (t : Text) :
    (lower t).dropWhile f = lower (t.dropWhile f) := by
  rw [lower, List.dropWhile_map, lower]
  congr 2
  exact funext hf

theorem run_lower (hf : ∀ c, f c.toLower = f c) (t : Text) : run f (lower t) = run f t := by
  rw [run, lower_takeWhile hf, length_lower, run]

theorem any_head?_lower (hf : ∀ c, f c.toLower = f c) (t : Text) :
    (lower t).head?.any f = t.head?.any f := by
  cases t with
  | nil => rfl
  | cons c t => exact hf c

theorem head?_lower_eq_some_iff {d : Char}
    (hd : upperLetters.all fun c => decide (c.toLower = d) = decide (c = d)) (t : Text) :
    (lower t).head? = some d ↔ t.head? = some d := by
  cases t with
  | nil => exact Iff.rfl
  | cons c t => simp [lower_cons, toLower_eq_iff c hd]

theorem eqIgnoringCase_lower_right (s t : Text) : eqIgnoringCase s (lower t) = eqIgnoringCase s t := by
  rw [eqIgnoringCase, eqIgnoringCase, lower_lower]

theorem eqIgnoringCase_lower_left (s t : Text) : eqIgnoringCase (lower s) t = eqIgnoringCase s t := by
  rw [eqIgnoringCase, eqIgnoringCase, lower_lower]

end Text

/-! ## Literals -/

theorem Heuristics.endsBefore_lower (h : Heuristics) (n : Nat) (value : Text) (c : Char) :
    h.endsBefore n (Text.lower value).head? c.toLower = h.endsBefore n value.head? c := by
  have hoperator := apply_toLower isArithmetic (by decide) c
  have hbracket := apply_toLower (fun c => c == ')' || c == ']' || c == '}') (by decide) c
  have hdot : ((Text.lower value).head? == some '.') = (value.head? == some '.') := by
    rw [Bool.eq_iff_iff, beq_iff_eq, beq_iff_eq, Text.head?_lower_eq_some_iff (by decide)]
  simp only [Heuristics.endsBefore, hoperator, hbracket, hdot]

namespace Literal

theorem numberTail_lower (first : Char) (t : Text) :
    numberTail first.toLower (Text.lower t) = numberTail first t := by
  have hrun := Text.run_lower (f := fun c => c.isDigit || c == '.') fun c =>
    apply_toLower (fun c => c.isDigit || c == '.') (by decide) c
  rcases t with - | ⟨x, - | ⟨d, cs⟩⟩
  · rfl
  · exact hrun [x]
  · have hx : x.toLower = 'x' ∨ x.toLower = 'X' ↔ x = 'x' ∨ x = 'X' :=
      decide_eq_decide.1 (apply_toLower (fun x => decide (x = 'x' ∨ x = 'X')) (by decide) x)
    have hdigits := Text.run_lower isHexDigit_toLower (d :: cs)
    have hdecimals := hrun (x :: d :: cs)
    simp only [Text.lower_cons] at hdigits hdecimals ⊢
    simp only [numberTail, toLower_eq_iff first (d := '0') (by decide), hx, isHexDigit_toLower,
      hdigits, hdecimals]

theorem readString_lower (h : Heuristics) (n : Nat) (value t : Text) :
    readString h n (Text.lower value) (Text.lower t) =
      ((readString h n value t).1, Text.lower (readString h n value t).2) := by
  fun_induction readString h n value t with
  | case1 n value cs ih => exact ih
  | case2 n value cs hpair =>
    have hhead : (Text.lower cs).head? ≠ some '\'' := by
      rw [ne_eq, Text.head?_lower_eq_some_iff (by decide)]
      intro hhead
      obtain ⟨cs, rfl⟩ := List.head?_eq_some_iff.1 hhead
      exact hpair cs rfl
    have hclose : readString h n (Text.lower value) ('\'' :: Text.lower cs) = _ :=
      readString_close hhead
    simpa [Text.lower] using hclose
  | case3 n value c cs _ hquote hends =>
    have hc : c.toLower ≠ '\'' := by
      rw [ne_eq, toLower_eq_iff c (by decide)]
      exact hquote
    rw [Text.lower_cons, readString_char hc, Heuristics.endsBefore_lower, if_pos hends]
    simp [Text.lower]
  | case4 n value c cs _ hquote hends ih =>
    have hc : c.toLower ≠ '\'' := by
      rw [ne_eq, toLower_eq_iff c (by decide)]
      exact hquote
    rw [Text.lower_cons, readString_char hc, Heuristics.endsBefore_lower, if_neg hends]
    exact ih
  | case5 n value => exact congrArg (Prod.mk n) List.map_reverse.symm

end Literal

/-! ## Words -/

namespace Phrase

theorem following?_lower (words : List String) (t : Text) :
    following? words (Text.lower t) = following? words t := by
  induction words generalizing t with
  | nil => rfl
  | cons w more ih =>
    simp only [following?, Text.run_lower isBlank_toLower, ← Text.lower_drop,
      Text.lower_takeWhile isIdentChar_toLower, Text.eqIgnoringCase_lower_left, Text.length_lower, ih]

theorem find?_lower (table : List Phrase) (isHead : Text → Bool) (t : Text) :
    find? table isHead (Text.lower t) = find? table isHead t := by
  simp only [find?, following?_lower]

end Phrase

theorem isFunctionName_lower (word : Text) :
    isFunctionName (Text.lower word) = isFunctionName word := by
  simp only [isFunctionName, Text.eqIgnoringCase_lower_right]

namespace Lexeme

theorem ofWord_lower (c : Char) (t : Text) : ofWord c.toLower (Text.lower t) = ofWord c t := by
  have hrest := Text.lower_dropWhile isIdentChar_toLower t
  have hstart : (Text.trimStart (Text.lower (t.dropWhile isIdentChar))).head? = some '(' ↔
      (Text.trimStart (t.dropWhile isIdentChar)).head? = some '(' := by
    rw [Text.trimStart, Text.lower_dropWhile isBlank_toLower,
      Text.head?_lower_eq_some_iff (by decide), Text.trimStart]
  simp only [ofWord, Text.lower_takeWhile isIdentChar_toLower, hrest, ← Text.lower_cons,
    Text.eqIgnoringCase_lower_right, Phrase.find?_lower, isFunctionName_lower, hstart,
    Text.length_lower]

theorem ofSymbol_lower (last : Option Token.Kind) (c : Char) (t : Text) :
    ofSymbol last c (Text.lower t) = ofSymbol last c t := by
  have hdot := Text.head?_lower_eq_some_iff (t := t) (d := '.') (by decide)
  have hclose := Text.head?_lower_eq_some_iff (t := t) (d := ']') (by decide)
  have hequals := Text.head?_lower_eq_some_iff (t := t) (d := '=') (by decide)
  have hgreater := Text.head?_lower_eq_some_iff (t := t) (d := '>') (by decide)
  unfold ofSymbol
  split <;> simp only [hdot, hclose, hequals, hgreater]

theorem isSign_lower (last : Option Token.Kind) (c : Char) (t : Text) :
    isSign last c.toLower (Text.lower t) = isSign last c t := by
  have hminus := apply_toLower (fun c => c == '-') (by decide) c
  simp only [isSign, hminus, Text.any_head?_lower isDigit_toLower]

/-- Case makes no difference to a lexeme that is neither a code behind an `@` nor a marker. -/
theorem read_lower (last : Option Token.Kind) {c : Char} {t : Text} (hsigil : c ≠ '@')
    (hmarker : c = '{' → t.head? ≠ some '#') :
    read last c.toLower (Text.lower t) = read last c t := by
  have hdigit : Literal.numberTail ((Text.lower t).headD c.toLower) (Text.lower t).tail =
      Literal.numberTail (t.headD c) t.tail := by
    cases t with
    | nil => exact Literal.numberTail_lower c []
    | cons d t => exact Literal.numberTail_lower d t
  have hbrace (hc : c = '{') : ofBrace (Text.lower t) = ofBrace t := by
    have hhead := hmarker hc
    rw [ofBrace_bare hhead, ofBrace_bare]
    rwa [ne_eq, Text.head?_lower_eq_some_iff (by decide)]
  simp only [read, isDigit_toLower, isSign_lower, isIdentStart_toLower,
    toLower_eq_iff c (d := '@') (by decide), toLower_eq_iff c (d := '{') (by decide),
    Literal.numberTail_lower, hdigit, ofWord_lower, if_neg hsigil]
  by_cases hc : c = '{'
  · rw [hbrace hc]
    simp only [if_pos hc]
  · simp only [if_neg hc]
    cases hstart : isIdentStart c with
    | true => rfl
    | false => rw [toLower_of_not_isIdentStart hstart, ofSymbol_lower]

end Lexeme

/-! ## Tokens -/

/-- The token of the same text in lower case. -/
def Token.lower (token : Token) : Token :=
  { token with source := Text.lower token.source, text := Text.lower token.text }

/-- The text holds nothing whose case matters: neither an `@` nor the marker of a directive. -/
structure Text.Unmarked (t : Text) : Prop where
  sigil : '@' ∉ t
  marker : ¬ "\x7b#".toList <:+: t

theorem Text.Unmarked.suffix {s t : Text} (ht : Unmarked t) (hs : s <:+ t) : Unmarked s where
  sigil hmem := ht.sigil (hs.subset hmem)
  marker hpart := ht.marker (hpart.trans hs.isInfix)

theorem Token.read_lower (h : Heuristics) (last : Option Kind) (o : Nat) {c : Char} {t : Text}
    (ht : Text.Unmarked (c :: t)) :
    Token.read h last o c.toLower (Text.lower t) = (Token.read h last o c t).lower := by
  have hquote : c.toLower = '\'' ↔ c = '\'' := toLower_eq_iff c (by decide)
  unfold Token.read
  by_cases hc : c = '\''
  · have hstring := Literal.readString_lower h 0 [c] t
    rw [if_pos hc, if_pos (hquote.2 hc)]
    change Literal.readString h 0 [c.toLower] (Text.lower t) = _ at hstring
    rw [hstring]
    simp only [Token.lower, Text.lower_cons, Text.lower_take]
  · have hsigil : c ≠ '@' := fun heq => ht.sigil (heq ▸ List.mem_cons_self)
    have hmarker : c = '{' → t.head? ≠ some '#' := by
      rintro rfl hhead
      obtain ⟨t, rfl⟩ := List.head?_eq_some_iff.1 hhead
      exact ht.marker (List.prefix_append _ t).isInfix
    rw [if_neg hc, if_neg (fun heq => hc (hquote.1 heq)), Lexeme.read_lower last hsigil hmarker]
    simp only [Lexeme.token, Token.lower, Text.lower_cons, Text.lower_take]

namespace Tokenizer

/-- The tokenizer at the same place of the text in lower case. -/
def lower (z : Tokenizer) : Tokenizer :=
  { z with place := ⟨z.place.offset, Text.lower z.place.rest⟩ }

theorem next?_lower {z : Tokenizer} (hz : Text.Unmarked z.place.rest) :
    z.lower.next? = z.next?.map fun (token, z') => (token.lower, z'.lower) := by
  obtain ⟨⟨o, t⟩, h, last⟩ := z
  have hskip : (⟨o, Text.lower t⟩ : Place).skip isBlank =
      ⟨((⟨o, t⟩ : Place).skip isBlank).offset,
        Text.lower ((⟨o, t⟩ : Place).skip isBlank).rest⟩ := by
    simp only [Place.skip, Text.lower_takeWhile isBlank_toLower, Text.bytes_lower,
      Text.lower_dropWhile isBlank_toLower]
  have hrest := hz.suffix (List.dropWhile_suffix isBlank)
  simp only [next?, lower, hskip]
  cases hcons : ((⟨o, t⟩ : Place).skip isBlank).rest with
  | nil => rfl
  | cons c cs =>
    have hread := Token.read_lower h last ((⟨o, t⟩ : Place).skip isBlank).offset
      (c := c) (t := cs) (by rw [← hcons]; exact hrest)
    rw [Text.lower_cons]
    simp only [hread, Option.map_some, Token.lower, Text.length_lower, Place.advance,
      ← Text.lower_cons, ← Text.lower_take, ← Text.lower_drop, Text.bytes_lower, hcons]

/-- A text in lower case has the tokens of the text, in lower case. -/
theorem tokens_lower {z : Tokenizer} (hz : Text.Unmarked z.place.rest) :
    z.lower.tokens = z.tokens.map Token.lower := by
  refine drain_mapItems lower Token.lower (fun z => Text.Unmarked z.place.rest)
    (fun z hz => next?_lower hz) (fun z token z' hz hnext => hz.suffix ?_) z hz
  obtain ⟨gap, -, -, -, -, hrest, -⟩ := read_of_some hnext
  rw [hrest, ← List.append_assoc]
  exact List.suffix_append _ _

end Tokenizer

/-! ## Texts that differ in case -/

/-- Two tokens that differ in the case of their texts at most. -/
structure Token.SameButCase (a b : Token) : Prop where
  kind : a.kind = b.kind
  start : a.start = b.start
  length : a.length = b.length
  sourceLength : a.sourceLength = b.sourceLength
  text : Text.eqIgnoringCase a.text b.text

theorem Token.sameButCase_of_lower {a b : Token} (hlower : a.lower = b.lower) :
    a.SameButCase b := by
  have hsource : Text.lower a.source = Text.lower b.source := congrArg Token.source hlower
  have htext : Text.lower a.text = Text.lower b.text := congrArg Token.text hlower
  have hkind : a.lower.kind = b.lower.kind := congrArg Token.kind hlower
  have hstart : a.lower.start = b.lower.start := congrArg Token.start hlower
  refine ⟨hkind, hstart, ?_, ?_, ?_⟩
  · rw [Token.length, ← Text.bytes_lower, htext, Text.bytes_lower, Token.length]
  · rw [sourceLength, ← Text.bytes_lower, hsource, Text.bytes_lower, sourceLength]
  · rw [Text.eqIgnoringCase, htext, beq_self_eq_true]

theorem tokenize_lower (h : Heuristics) {t : Text} (ht : Text.Unmarked t) :
    tokenize h (Text.lower t) = (tokenize h t).map Token.lower :=
  Tokenizer.tokens_lower (z := .start h (.start t)) ht

/-- Two texts that differ in case only have as many tokens, and the tokens differ in case only, if
the texts hold neither an `@` nor the marker of a directive. -/
theorem tokenize_eqIgnoringCase (h : Heuristics) {s t : Text} (hcase : Text.eqIgnoringCase s t)
    (hs : Text.Unmarked s) (ht : Text.Unmarked t) :
    List.Forall₂ Token.SameButCase (tokenize h s) (tokenize h t) := by
  have hlower : Text.lower s = Text.lower t := by simpa [Text.eqIgnoringCase] using hcase
  have htokens : List.Forall₂ Eq ((tokenize h s).map Token.lower)
      ((tokenize h t).map Token.lower) := by
    rw [List.forall₂_eq_eq_eq, ← tokenize_lower h hs, hlower, tokenize_lower h ht]
  rw [List.forall₂_map_left_iff, List.forall₂_map_right_iff] at htokens
  exact htokens.imp fun _ _ => Token.sameButCase_of_lower

/-- A phrase, a function and a hexadecimal number in two spellings. -/
theorem tokenize_eqIgnoringCase_phrase :
    (tokenize .standard "now () IS not NULL or x = 0XfF".toList).map (·.kind) =
        [.function, .openParen, .closeParen, .nullOperator, .booleanOperator, .identifier,
          .comparisonOperator, .numberLiteral] ∧
      List.Forall₂ Token.SameButCase (tokenize .standard "now () IS not NULL or x = 0XfF".toList)
        (tokenize .standard "NOW () is Not null OR X = 0xFf".toList) :=
  ⟨by decide +kernel, tokenize_eqIgnoringCase .standard (by decide +kernel)
    ⟨by decide +kernel, by decide +kernel⟩ ⟨by decide +kernel, by decide +kernel⟩⟩

end LogSyntax
