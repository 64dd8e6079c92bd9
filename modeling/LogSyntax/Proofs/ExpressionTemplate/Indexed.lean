import LogSyntax.Proofs.ExpressionTemplate.Colons
import LogSyntax.Proofs.ExpressionTemplate.Passing
import LogSyntax.Proofs.ExpressionTemplate.Regions
import LogSyntax.Proofs.Token.Locality
/-!
# Indexed built-in properties

A built-in property with a quoted key in brackets is split without the tokenizer. With a
single-quoted key that the tokenizer reads as one literal the split shows what the tokens would, and
the hole with it, as long as a format stands directly behind the bracket
(`Indexer.regions_text_format`, `Indexer.regions_text_tail`). In a template the segment has to be
found first, and the search for its end knows single quotes only: what a double-quoted key holds is
code to it (`Indexer.segment_end`).
-/

namespace LogSyntax.ExpressionTemplate

open Brackets (straight curly)

namespace Indexer

variable {h : Heuristics} {x : Indexer} {t key tail format rest decoded : Text} {quote : Char}
  {code : String}

/-! ## Reading an indexer back -/

/-- An indexer that can be read back from its text: its code is known, and the first quote behind
its key ends it. -/
structure WellFormed (x : Indexer) : Prop where
  code : x.code ∈ builtinCodes
  quote : x.quote = '\'' ∨ x.quote = '"'
  key : x.quote ∉ x.key

/-- The text of an indexer up to its closing bracket. -/
def indexed (x : Indexer) : Text :=
  ('@' :: x.code.toList) ++ (['['] ++ ((x.quote :: (x.key ++ [x.quote])) ++ [']']))

theorem text_eq_indexed (x : Indexer) : x.text = x.indexed ++ x.tail := by
  simp [text, indexed]

theorem trimEnd_indexed (x : Indexer) : Text.trimEnd x.indexed = x.indexed := by
  have hbracket : x.indexed =
      '@' :: x.code.toList ++ '[' :: x.quote :: (x.key ++ [x.quote]) ++ [']'] := by
    simp [indexed]
  rw [hbracket, Text.trimEnd_append_singleton _ (by decide)]

theorem trimStart_indexed (x : Indexer) : Text.trimStart x.indexed = x.indexed := rfl

theorem takeWhile_indexed (x : Indexer) : x.indexed.takeWhile isBlank = [] := rfl

theorem builtinCode?_bracket (hcode : code ∈ builtinCodes) (rest : Text) :
    builtinCode? (code.toList ++ '[' :: rest) = some code := by
  simp only [builtinCodes, List.mem_cons, List.not_mem_nil, or_false] at hcode
  rcases hcode with rfl | rfl | rfl | rfl | rfl | rfl | rfl | rfl | rfl | rfl <;> rfl

theorem readKey?_text (hquote : quote = '\'' ∨ quote = '"') (hkey : quote ∉ key) :
    readKey? ('[' :: quote :: (key ++ quote :: ']' :: tail)) = some (quote, key, tail) := by
  have hinside : ∀ c ∈ key, (c != quote) = true := by
    simpa using fun c hc => ne_of_mem_of_not_mem hc hkey
  have htake : (key ++ quote :: ']' :: tail).takeWhile (· != quote) = key := by
    rw [List.takeWhile_append_of_pos hinside]
    simp
  simp only [readKey?, hquote, if_true, htake, List.drop_left]

theorem read?_text (hx : x.WellFormed) : read? x.text = some x := by
  have htext : x.text =
      '@' :: (x.code.toList ++ '[' :: x.quote :: (x.key ++ x.quote :: ']' :: x.tail)) := by
    simp [text]
  have hdrop (rest : Text) : (x.code.toList ++ rest).drop x.code.length = rest := by
    rw [← String.length_toList, List.drop_left]
  simp only [htext, read?, builtinCode?_bracket hx.code, hdrop, readKey?_text hx.quote hx.key,
    Option.bind_eq_bind, Option.bind_some]
  rfl

theorem wellFormed_of_read? (h : read? t = some x) : x.WellFormed := by
  unfold read? at h
  split at h
  · next cs =>
    obtain ⟨code, hcode, h⟩ := Option.bind_eq_some_iff.1 h
    obtain ⟨⟨quote, key, tail⟩, hkey, h⟩ := Option.bind_eq_some_iff.1 h
    cases h
    have hmem : code ∈ builtinCodes := List.mem_of_find?_eq_some hcode
    unfold readKey? at hkey
    split at hkey
    · next hquote =>
      split at hkey
      · next hquote =>
        dsimp only at hkey
        split at hkey
        · cases hkey
          refine ⟨hmem, hquote, ?_⟩
          intro hin
          simpa using List.all_eq_true.1 List.all_takeWhile _ hin
        · contradiction
      · contradiction
    · contradiction
  · contradiction

/-! ## The tokens of an indexer -/

/-- The tokens of an indexer up to its closing bracket, when its key is decoded so. -/
def tokens (offset : Nat) (decoded : Text) (x : Indexer) : List Token :=
  let builtin : Token := ⟨.builtinProperty, '@' :: x.code.toList, '@' :: x.code.toList, offset⟩
  let bracket : Token := ⟨.openBracket, ['['], ['['], builtin.stop⟩
  let literal : Token := ⟨.stringLiteral, x.quote :: (x.key ++ [x.quote]), decoded, bracket.stop⟩
  [builtin, bracket, literal, ⟨.closeBracket, [']'], [']'], literal.stop⟩]

theorem read_builtin (hcode : code ∈ builtinCodes) (o : Nat) (rest : Text) :
    Token.read h none o '@' (code.toList ++ '[' :: rest) =
      ⟨.builtinProperty, '@' :: code.toList, '@' :: code.toList, o⟩ := by
  have hlexeme : Lexeme.read none '@' (code.toList ++ '[' :: rest) =
      ⟨.builtinProperty, code.length⟩ := by
    show Lexeme.ofSigil _ = _
    rw [Lexeme.ofSigil, builtinCode?_bracket hcode]
  have htake : (code.toList ++ '[' :: rest).take code.length = code.toList := by
    rw [← String.length_toList, List.take_left]
  rw [Token.read, if_neg (by decide), hlexeme, Lexeme.token, htake]

/-! ## The regions of an indexer -/

/-- The regions of an indexer up to its closing bracket. -/
def shown (offset : Nat) (x : Indexer) : List Region :=
  (x.tokens offset []).filterMap Region.ofToken?

theorem filterMap_tokens (o : Nat) (decoded : Text) (x : Indexer) :
    (x.tokens o decoded).filterMap Region.ofToken? = x.shown o := rfl

theorem bytes_indexed (x : Indexer) (o : Nat) :
    o + Text.bytes x.indexed = o + Text.bytes ('@' :: x.code.toList) + 1 +
      Text.bytes (x.quote :: (x.key ++ [x.quote])) + 1 := by
  have hbracket : '['.utf8Size = 1 ∧ ']'.utf8Size = 1 := ⟨rfl, rfl⟩
  simp only [indexed, Text.bytes_append, Text.bytes_cons, Text.bytes_nil, hbracket, Nat.add_assoc,
    Nat.add_zero]

theorem regions_format (htail : x.tail = ':' :: format) (o : Nat) :
    x.regions h o = x.shown o ++
      Region.visible .formatSpecifier (o + Text.bytes x.indexed + 1) format := by
  obtain ⟨code, quote, key, tail⟩ := x
  obtain rfl : tail = ':' :: format := htail
  rw [bytes_indexed]
  rfl

theorem regions_tail (htail : x.tail.head? ≠ some ':') (o : Nat) :
    x.regions h o = x.shown o ++ Expression.regions h (o + Text.bytes x.indexed) x.tail := by
  obtain ⟨code, quote, key, tail⟩ := x
  rw [bytes_indexed]
  unfold regions
  dsimp only
  split
  · exact absurd rfl htail
  · rfl

/-! ## Scanning an indexer -/

/-- A single-quoted key is hidden. -/
theorem outside_indexed (hx : x.WellFormed) (hquote : x.quote = '\'') :
    Text.outside false x.indexed = '@' :: (x.code.toList ++ ['[', ']']) ∧
      Text.quotedAfter false x.indexed = false := by
  obtain ⟨code, quote, key, tail⟩ := x
  obtain rfl : quote = '\'' := hquote
  have hcodes : ∀ code ∈ builtinCodes, '\'' ∉ '@' :: (code.toList ++ ['[']) := by decide
  obtain ⟨houtside, hafter⟩ := Text.outside_of_not_mem (hcodes code hx.code)
  obtain ⟨hhidden, hquoted⟩ := Text.outside_hidden (t := key) hx.key
  have htext : indexed ⟨code, '\'', key, tail⟩ =
      '@' :: (code.toList ++ ['[']) ++ '\'' :: (key ++ ['\'', ']']) := by
    simp [indexed]
  rw [htext, Text.outside_append, Text.quotedAfter_append, houtside, hafter, Text.outside_quote,
    Text.outside_append, Text.quotedAfter_cons, Text.quotedAfter_append]
  simp only [if_true, Bool.not_false, hhidden, hquoted]
  exact ⟨by simp [Text.outside], rfl⟩

/-- A double-quoted key is not. -/
theorem outside_indexed_double (hx : x.WellFormed) (hquote : x.quote = '"')
    (hkey : Even (x.key.count '\'')) :
    Text.outside false x.indexed =
        '@' :: (x.code.toList ++ ['[', '"']) ++ (Text.outside false x.key ++ ['"', ']']) ∧
      Text.quotedAfter false x.indexed = false := by
  obtain ⟨code, quote, key, tail⟩ := x
  obtain rfl : quote = '"' := hquote
  have hcodes : ∀ code ∈ builtinCodes, '\'' ∉ '@' :: (code.toList ++ ['[', '"']) := by decide
  obtain ⟨houtside, hafter⟩ := Text.outside_of_not_mem (hcodes code hx.code)
  have htext : indexed ⟨code, '"', key, tail⟩ =
      '@' :: (code.toList ++ ['[', '"']) ++ (key ++ ['"', ']']) := by
    simp [indexed]
  rw [htext, Text.outside_append, Text.quotedAfter_append, houtside, hafter, Text.outside_append,
    Text.quotedAfter_append, Text.quotedAfter_of_even hkey]
  exact ⟨rfl, rfl⟩

/-- No brace or colon of an indexer with a single-quoted key counts, and its bracket is closed. -/
theorem indexed_hides (hx : x.WellFormed) (hquote : x.quote = '\'') :
    Text.BraceFree (Text.outside false x.indexed) ∧
      straight.HidesColons 0 (Text.outside false x.indexed) ∧
      straight.depth 0 (Text.outside false x.indexed) = 0 := by
  have hcodes : ∀ code ∈ builtinCodes,
      Text.BraceFree ('@' :: (code.toList ++ ['[', ']'])) ∧
        straight.HidesColons 0 ('@' :: (code.toList ++ ['[', ']'])) ∧
        straight.depth 0 ('@' :: (code.toList ++ ['[', ']'])) = 0 := by
    decide
  rw [(outside_indexed hx hquote).1]
  exact hcodes x.code hx.code

theorem indexed_hides_double (hx : x.WellFormed) (hquote : x.quote = '"')
    (heven : Even (x.key.count '\'')) (hbraces : curly.Balanced (Text.outside false x.key))
    (hcolon : straight.HidesColons 1 (Text.ungrouped 0 (Text.outside false x.key))) :
    curly.Balanced (Text.outside false x.indexed) ∧
      straight.HidesColons 0 (Text.ungrouped 0 (Text.outside false x.indexed)) := by
  have hcodes : ∀ code ∈ builtinCodes,
      curly.Balanced ('@' :: (code.toList ++ ['[', '"'])) ∧
        Text.ungrouped 0 ('@' :: (code.toList ++ ['[', '"'])) =
          '@' :: (code.toList ++ ['[', '"']) ∧
        straight.HidesColons 0 ('@' :: (code.toList ++ ['[', '"'])) ∧
        straight.depth 0 ('@' :: (code.toList ++ ['[', '"'])) = 1 := by
    decide
  have hend : curly.Balanced ['"', ']'] ∧ Text.ungrouped 0 ['"', ']'] = ['"', ']'] := by decide
  obtain ⟨hbalanced, hungrouped, hhides, hdepth⟩ := hcodes x.code hx.code
  rw [(outside_indexed_double hx hquote heven).1]
  refine ⟨hbalanced.append (hbraces.append hend.1), ?_⟩
  rw [Text.ungrouped_append, hbalanced.depth_eq, Text.ungrouped_append, hbraces.depth_eq,
    hungrouped, hend.2, Brackets.hidesColons_append, Brackets.hidesColons_append, hdepth]
  exact ⟨hhides, hcolon, Brackets.hidesColons_of_not_mem (by decide)⟩

theorem colon?_text (hx : x.WellFormed) (hquote : x.quote = '\'') (htail : x.tail = ':' :: format) :
    Hole.colon? x.text = some x.indexed.length := by
  obtain ⟨hbrace, hcolon, hdepth⟩ := indexed_hides hx hquote
  rw [text_eq_indexed, htail,
    Hole.colon?_append (outside_indexed hx hquote).2 hbrace hcolon hdepth]

/-! ## A key that makes one literal -/

section

variable (hx : x.WellFormed) (hquote : x.quote = '\'')
  (hkey : tokenize h ('\'' :: (x.key ++ ['\''])) =
    [⟨.stringLiteral, '\'' :: (x.key ++ ['\'']), decoded, 0⟩])

include hx hquote hkey

/-- The tokens of an indexer with a single-quoted key that makes one literal on its own are the four
that stand for its parts, and behind them those of the tail behind a bracket. -/
theorem tokens_text (o : Nat) :
    Expression.tokens h o x.text = x.tokens o decoded ++
      Tokenizer.tokens ⟨⟨o + Text.bytes x.indexed, x.tail⟩, h, some .closeBracket⟩ := by
  obtain ⟨code, quote, key, tail⟩ := x
  obtain rfl : quote = '\'' := hquote
  have hnone : '\'' ∉ key := hx.key
  have hopen (o : Nat) (t : Text) : Token.read h (some .builtinProperty) o '[' t =
      ⟨.openBracket, ['['], ['['], o⟩ := rfl
  have hliteral (o : Nat) : Token.read h (some .openBracket) o '\'' (key ++ '\'' :: ']' :: tail) =
      ⟨.stringLiteral, '\'' :: (key ++ ['\'']), decoded, o⟩ :=
    Token.read_literal hnone (by simp) hkey
  have hclose (o : Nat) (t : Text) : Token.read h (some .stringLiteral) o ']' t =
      ⟨.closeBracket, [']'], [']'], o⟩ := rfl
  rw [show Expression.tokens h o (text ⟨code, '\'', key, tail⟩) =
      Tokenizer.tokens ⟨⟨o, '@' :: (code.toList ++ '[' :: ([] ++ '\'' :: ((key ++ ['\'']) ++
        ']' :: ([] ++ tail))))⟩, h, none⟩ by simp [text, Expression.tokens, Tokenizer.start],
    Tokenizer.tokens_cons (by decide) (read_builtin hx.code o _) rfl,
    Tokenizer.tokens_cons (by decide) (hopen _ _) rfl,
    Tokenizer.tokens_cons (by decide) (by simpa using hliteral _) rfl,
    Tokenizer.tokens_cons (by decide) (hclose _ _) rfl]
  simp [tokens, indexed, Token.stop, Token.sourceLength, Nat.add_assoc]

/-- The regions of an indexer as an expression: those of its parts, and those of its tail behind a
bracket. -/
theorem expression_regions_text (o : Nat) :
    Expression.regions h o x.text = x.shown o ++
      (Tokenizer.tokens ⟨⟨o + Text.bytes x.indexed, x.tail⟩, h, some .closeBracket⟩).filterMap
        Region.ofToken? := by
  rw [Expression.regions, tokens_text hx hquote hkey, List.filterMap_append, filterMap_tokens]

/-- An indexer is no lone name: in a hole it shows what it shows on its own. -/
theorem expressionRegions_text (names : LoopNames) (o : Nat) :
    Hole.expressionRegions h names o x.text = Expression.regions h o x.text := by
  have htokens := tokens_text hx hquote hkey o
  unfold Hole.expressionRegions Expression.regions
  rw [htokens]
  rfl

/-- The indexer without what follows it. -/
theorem regions_indexed (names : LoopNames) (o : Nat) :
    Hole.expressionRegions h names o x.indexed = x.shown o ∧
      Expression.regions h o x.indexed = x.shown o := by
  have hwell : WellFormed { x with tail := [] } := ⟨hx.code, hx.quote, hx.key⟩
  have htext : x.indexed = text { x with tail := [] } := by simp [text, indexed]
  have hshown : Expression.regions h o x.indexed = x.shown o := by
    rw [htext, expression_regions_text hwell hquote hkey, Tokenizer.tokens_nil]
    exact List.append_nil _
  refine ⟨?_, hshown⟩
  rw [← hshown, htext, expressionRegions_text hwell hquote hkey]

/-- A format directly behind the bracket is that of the hole. -/
theorem regions_text_format (htail : x.tail = ':' :: format) (names : LoopNames) (o : Nat) :
    x.regions h o = Hole.regions h names o x.text ∧
      x.regions h o = Expression.regions h o x.indexed ++
        Region.visible .formatSpecifier (o + Text.bytes x.indexed + 1) format := by
  obtain ⟨hhole, hflat⟩ := regions_indexed hx hquote hkey names o
  have htake : x.text.take x.indexed.length = x.indexed := by
    rw [text_eq_indexed, List.take_left]
  have hdrop : x.text.drop (x.indexed.length + 1) = format := by
    rw [text_eq_indexed, htail, List.drop_length_add_append]
    rfl
  have hregions := regions_format (h := h) htail o
  refine ⟨?_, by rw [hregions, hflat]⟩
  rw [hregions, Hole.regions_of_colon? h names o (colon?_text hx hquote htail), htake, hdrop,
    trimEnd_indexed, hhole]

/-- Any other tail is read on its own, which makes a difference only for a negative number. -/
theorem regions_text_tail (htail : x.tail.head? ≠ some ':')
    (hnegative : ¬ BeginsNegative (Text.trimStart x.tail)) (o : Nat) :
    x.regions h o = Expression.regions h o x.text := by
  rw [regions_tail htail, expression_regions_text hx hquote hkey,
    Tokenizer.tokens_last (by simp) hnegative]
  rfl

end

/-! ## Indexers and holes -/

/-- An indexer with a single-quoted key shows what the hole would show. A format it takes only
directly behind its bracket, so a colon further on belongs to the expression; and its tail is read
as an expression of its own, so it is the one behind the bracket unless it begins with a minus sign
and a digit. -/
theorem regions_eq_hole {h : Heuristics} {x : Indexer} {t decoded : Text}
    (hx : Indexer.read? (Text.trim t) = some x) (hquote : x.quote = '\'')
    (hkey : tokenize h ('\'' :: (x.key ++ ['\''])) =
      [⟨.stringLiteral, '\'' :: (x.key ++ ['\'']), decoded, 0⟩]) (names : LoopNames) (o : Nat) :
    (∀ format, x.tail = ':' :: format →
      x.regions h o = Hole.regions h names o (Text.trim t) ∧
        x.regions h o = Expression.regions h o x.indexed ++
          Region.visible .formatSpecifier (o + Text.bytes x.indexed + 1) format) ∧
    (x.tail.head? ≠ some ':' → ¬ BeginsNegative (Text.trimStart x.tail) →
      x.regions h o = Expression.regions h o (Text.trim t) ∧
        (Hole.colon? (Text.trim t) = none →
          x.regions h o = Hole.regions h names o (Text.trim t))) := by
  have hwell := wellFormed_of_read? hx
  have htext := text_of_read? hx
  have htrim : Text.trimEnd x.text = x.text := by rw [htext, Text.trimEnd_trim]
  rw [← htext]
  constructor
  · intro format htail
    exact regions_text_format hwell hquote hkey htail names o
  · intro htail hnegative
    have hflat := regions_text_tail hwell hquote hkey htail hnegative o
    refine ⟨hflat, ?_⟩
    intro hcolon
    rw [hflat, Hole.regions, hcolon]
    simp only [htrim]
    rw [expressionRegions_text hwell hquote hkey]

/-- With a format behind the bracket, and with a member. -/
theorem regions_eq_hole_level :
    regions .standard 1 ⟨"p", '\'', ['a'], [':', 'u', '3']⟩ =
        Hole.regions .standard [] 1 ['@', 'p', '[', '\'', 'a', '\'', ']', ':', 'u', '3'] ∧
      regions .standard 1 ⟨"p", '\'', ['a'], ['.', 'b']⟩ =
        Hole.regions .standard [] 1 ['@', 'p', '[', '\'', 'a', '\'', ']', '.', 'b'] := by
  have hkey : tokenize .standard ['\'', 'a', '\''] =
      [⟨.stringLiteral, ['\'', 'a', '\''], ['\'', 'a', '\''], 0⟩] :=
    Tokenizer.tokenize_singleton (by decide) rfl rfl
  constructor
  · exact ((regions_eq_hole (t := ['@', 'p', '[', '\'', 'a', '\'', ']', ':', 'u', '3']) rfl rfl hkey
      [] 1).1 _ rfl).1
  · refine ((regions_eq_hole (t := ['@', 'p', '[', '\'', 'a', '\'', ']', '.', 'b']) rfl rfl hkey
      [] 1).2 (by decide) ?_).2 rfl
    rintro ⟨d, rest, heq, -⟩
    obtain ⟨hdot, -⟩ := List.cons.inj (show ['.', 'b'] = '-' :: d :: rest from heq)
    exact absurd hdot (by decide)

/-- No expression shows a format. -/
theorem category_ne_format (o : Nat) (t : Text) :
    ∀ r ∈ Expression.regions h o t, r.category ≠ .formatSpecifier := by
  intro r hr hformat
  obtain ⟨token, -, htoken⟩ := List.mem_filterMap.1 hr
  obtain ⟨category, hkind, rfl⟩ := Option.map_eq_some_iff.1 htoken
  obtain rfl : category = .formatSpecifier := hformat
  cases hcases : token.kind <;> rw [hcases] at hkind <;> contradiction

/-- In `@p['a'].b:u3` the hole would end in a format, but the indexer does not. -/
theorem regions_ne_hole :
    ∃ x, read? ['@', 'p', '[', '\'', 'a', '\'', ']', '.', 'b', ':', 'u', '3'] = some x ∧
      x.quote = '\'' ∧
      tokenize .standard ('\'' :: (x.key ++ ['\''])) =
        [⟨.stringLiteral, '\'' :: (x.key ++ ['\'']), ['\'', 'a', '\''], 0⟩] ∧
      ⟨.formatSpecifier, 11, ['u', '3']⟩ ∈ Hole.regions .standard [] 1
        ['@', 'p', '[', '\'', 'a', '\'', ']', '.', 'b', ':', 'u', '3'] ∧
      ⟨.formatSpecifier, 11, ['u', '3']⟩ ∉ x.regions .standard 1 := by
  have hkey : tokenize .standard ['\'', 'a', '\''] =
      [⟨.stringLiteral, ['\'', 'a', '\''], ['\'', 'a', '\''], 0⟩] :=
    Tokenizer.tokenize_singleton (by decide) rfl rfl
  refine ⟨⟨"p", '\'', ['a'], ['.', 'b', ':', 'u', '3']⟩, rfl, rfl, hkey, ?_, ?_⟩
  · have hcolon : Hole.colon? ['@', 'p', '[', '\'', 'a', '\'', ']', '.', 'b', ':', 'u', '3'] =
        some 9 := rfl
    rw [Hole.regions_of_colon? .standard [] 1 hcolon]
    exact List.mem_append_right _ (List.mem_singleton_self _)
  · rw [regions_tail (by decide)]
    intro hmem
    rcases List.mem_append.1 hmem with hshown | htail
    · revert hshown
      decide
    · exact category_ne_format _ _ _ htail rfl

end Indexer

/-! ## Indexed holes in a template -/

variable {h : Heuristics} {before key after : Text} {code : String} {quote : Char}

/-- The search for the end of a segment ends it behind an indexer, unless it takes something in a
double-quoted key for a quote, for a brace without partner or for the colon of a format. -/
theorem Indexer.segment_end {x : Indexer} (hx : x.WellFormed)
    (hkey : x.quote = '"' → Even (x.key.count '\'') ∧
      curly.Balanced (Text.outside false x.key) ∧
      straight.HidesColons 1 (Text.ungrouped 0 (Text.outside false x.key)))
    (o : Nat) (rest : Text) :
    ∃ learned, Segment.end? ∅ o (x.indexed ++ '}' :: rest) =
      (some ⟨x.indexed.length, o + Text.bytes x.indexed, '}', none⟩, learned) := by
  rcases hx.quote with hquote | hquote
  · obtain ⟨hbrace, hcolon, -⟩ := Indexer.indexed_hides hx hquote
    exact ⟨∅, Segment.end?_body (Indexer.outside_indexed hx hquote).2 hbrace fun _ => hcolon⟩
  · obtain ⟨heven, hbraces, hcolon⟩ := hkey hquote
    have hafter := (Indexer.outside_indexed_double hx hquote heven).2
    obtain ⟨hbraces, hcolon⟩ := Indexer.indexed_hides_double hx hquote heven hbraces hcolon
    exact Segment.end?_groups hafter hbraces fun _ => hcolon

/-- A segment that holds an indexer alone shows the parts of the indexer. -/
theorem Indexer.bodyRegions_indexed {x : Indexer} (hx : x.WellFormed) (htail : x.tail = [])
    (names : LoopNames) (o : Nat) :
    bodyRegions h names o (Text.trim x.indexed) = (x.shown o, names) := by
  have hread : Indexer.read? x.indexed = some x := by
    have htext : x.indexed = x.text := by rw [Indexer.text_eq_indexed, htail, List.append_nil]
    rw [htext, Indexer.read?_text hx]
  have hshown : x.regions h o = x.shown o := by
    rw [Indexer.regions_tail (by simp [htail]), htail]
    have hnone (p : Nat) : Expression.regions h p [] = [] := by
      rw [Expression.regions, Expression.tokens, Tokenizer.start, Tokenizer.tokens_nil]
      rfl
    rw [hnone, List.append_nil]
  have hat : x.indexed = '@' :: x.indexed.tail := rfl
  rw [Text.trim, Indexer.trimStart_indexed, Indexer.trimEnd_indexed]
  unfold bodyRegions
  split
  · next heq => exact absurd (hat.symm.trans heq) (by simp)
  · rw [hread, ← hshown]

/-- Where the parts of an indexer stand: its quotes are one byte long, as are its brackets. -/
theorem Indexer.shown_eq {x : Indexer} (hx : x.WellFormed) (o : Nat) :
    x.shown o =
        [⟨.expressionBuiltin, o, '@' :: x.code.toList⟩,
          ⟨.expressionOperator, o + 1 + Text.bytes x.code.toList, ['[']⟩,
          ⟨.expressionLiteral, o + 2 + Text.bytes x.code.toList, x.quote :: (x.key ++ [x.quote])⟩,
          ⟨.expressionOperator, o + 4 + Text.bytes x.code.toList + Text.bytes x.key, [']']⟩] ∧
      o + Text.bytes x.indexed = o + 5 + Text.bytes x.code.toList + Text.bytes x.key := by
  have hone : x.quote.utf8Size = 1 := by
    rcases hx.quote with hquote | hquote <;> rw [hquote] <;> rfl
  have hmarks : '@'.utf8Size = 1 ∧ '['.utf8Size = 1 := ⟨rfl, rfl⟩
  rw [Indexer.bytes_indexed]
  simp [Indexer.shown, Indexer.tokens, Region.ofToken?, Category.ofKind?, Token.stop,
    Token.sourceLength, hone, hmarks]
  omega

/-- A built-in property indexed by a quoted key shows its parts between its braces, and what stands
around it nothing. The search for the end of the segment knows single quotes only, so a
double-quoted key must hold these in pairs and every brace outside them with its partner. Outside
both no colon may stand behind a bracket that closes the one before the key, for it would begin a
format. -/
theorem classify_indexed (hcode : code ∈ builtinCodes) (hquote : quote = '\'' ∨ quote = '"')
    (hkey : quote ∉ key) (hbefore : Text.BraceFree before) (hafter : Text.BraceFree after)
    (hdouble : quote = '"' → Even (key.count '\'') ∧ curly.Balanced (Text.outside false key) ∧
      straight.HidesColons 1 (Text.ungrouped 0 (Text.outside false key))) :
    classify h (before ++ ['{', '@'] ++ code.toList ++ ['[', quote] ++ key ++ [quote, ']', '}'] ++
        after) =
      let start := Text.bytes before
      let bracket := start + 2 + Text.bytes code.toList
      [⟨.propertyBrace, start, ['{']⟩,
        ⟨.expressionBuiltin, start + 1, '@' :: code.toList⟩,
        ⟨.expressionOperator, bracket, ['[']⟩,
        ⟨.expressionLiteral, bracket + 1, quote :: (key ++ [quote])⟩,
        ⟨.expressionOperator, bracket + 3 + Text.bytes key, [']']⟩,
        ⟨.propertyBrace, bracket + 4 + Text.bytes key, ['}']⟩] := by
  obtain ⟨x, hx⟩ : ∃ x : Indexer, x = ⟨code, quote, key, []⟩ := ⟨_, rfl⟩
  have hwell : x.WellFormed := hx ▸ ⟨hcode, hquote, hkey⟩
  have htext : before ++ ['{', '@'] ++ code.toList ++ ['[', quote] ++ key ++ [quote, ']', '}'] ++
      after = before ++ '{' :: (x.indexed ++ '}' :: (after ++ [])) := by
    simp [hx, Indexer.indexed]
  obtain ⟨learned, hend⟩ :=
    Indexer.segment_end hwell (hx ▸ hdouble) (Text.bytes before + 1) (after ++ [])
  have hbody := Indexer.bodyRegions_indexed (h := h) hwell (hx ▸ rfl) []
    (Text.bytes before + 1 + Text.bytes (x.indexed.takeWhile isBlank))
  have hblank : ¬ x.indexed.all isBlank := by
    have hat : isBlank '@' = false := by decide
    simp [Indexer.indexed, hat]
  rw [htext]
  show Scan.ahead ⟨⟨0, _⟩, h, [], ∅⟩ = _
  rw [Scan.ahead_literal (bracesPaired_of_not_mem hbefore.1) (by simp), Nat.zero_add,
    Scan.ahead_segment hend rfl hblank (by simp [Indexer.indexed]) hbody,
    Scan.ahead_literal (bracesPaired_of_not_mem hafter.1) (by simp), Scan.ahead_nil,
    List.append_nil, Indexer.takeWhile_indexed]
  obtain ⟨hshown, hbytes⟩ := Indexer.shown_eq hwell (Text.bytes before + 1)
  rw [Text.bytes_nil, Nat.add_zero, hshown, hbytes, hx]
  simp only [List.cons_append, List.nil_append, List.cons.injEq, Region.mk.injEq,
    true_and, and_true]
  omega

/-- In `a {@p["{k}"]}` the key holds a brace and its partner. -/
theorem classify_indexed_braces :
    classify .standard ['a', ' ', '{', '@', 'p', '[', '"', '{', 'k', '}', '"', ']', '}'] =
      [⟨.propertyBrace, 2, ['{']⟩, ⟨.expressionBuiltin, 3, ['@', 'p']⟩,
        ⟨.expressionOperator, 5, ['[']⟩, ⟨.expressionLiteral, 6, ['"', '{', 'k', '}', '"']⟩,
        ⟨.expressionOperator, 11, [']']⟩, ⟨.propertyBrace, 12, ['}']⟩] := by
  have hcode : "p" ∈ builtinCodes := by decide
  have hkey : '"' ∉ ['{', 'k', '}'] := by decide
  have hbefore : Text.BraceFree ['a', ' '] := by decide
  have hafter : Text.BraceFree [] := by decide
  exact classify_indexed hcode (.inr rfl) hkey hbefore hafter (by decide)

/-- A single quote in a double-quoted key opens a string that hides the end of the segment. -/
theorem classify_indexed_apostrophe :
    classify .standard ['{', '@', 'p', '[', '"', 'i', 't', '\'', 's', '"', ']', '}'] = [] := by
  have hopen : Scan.next? Segment.end?
      (.start .standard ['{', '@', 'p', '[', '"', 'i', 't', '\'', 's', '"', ']', '}']) =
      some ([], ⟨⟨1, ['@', 'p', '[', '"', 'i', 't', '\'', 's', '"', ']', '}'] ++ []⟩, .standard, [],
        ∅⟩) := rfl
  refine (Scan.ahead_of_some hopen).trans ?_
  rw [Scan.ahead_literal (bracesPaired_of_not_mem (by decide)) (by simp), Scan.ahead_nil]
  rfl

end LogSyntax.ExpressionTemplate
