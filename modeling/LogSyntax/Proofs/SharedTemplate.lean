import LogSyntax.Highlight
import LogSyntax.Proofs.ExpressionTemplate.Written
import LogSyntax.Proofs.MessageTemplate.Rendering
import LogSyntax.Proofs.Token.Lookahead
/-!
# Templates that both readers understand

A hole with a plain name, and perhaps a format, means the same in a message template and in an
expression template. `SharedTemplate.regions` says what a template of such holes shows, and knows of
neither reader. Either of them shows just that: the reader of messages, since such a template is put
together from holes of its grammar (`messageRegions_eq`), and the reader of expressions, since the
holes hold a lone name (`expressionRegions_eq`).
-/

namespace LogSyntax

/-- A letter or `_`, and further letters, numerals or `_`. -/
def IsIdentifier (t : Text) : Prop :=
  ∃ c cs, t = c :: cs ∧ isIdentStart c ∧ cs.all isIdentChar

/-- A word of expressions with a meaning of its own, in any ASCII case. -/
def IsReserved (t : Text) : Prop :=
  ∃ phrase ∈ reservedPhrases, Text.eqIgnoringCase phrase.head.toList t

namespace SharedTemplate

open ExpressionTemplate (LiteralText)

/-- A format that ends at the next closing brace for either reader. -/
structure Format extends ExpressionTemplate.Format where
  bar : '|' ∉ text

/-- A plain name between white space, and perhaps a format behind a colon. -/
structure Hole where
  lead : Text
  name : Text
  trail : Text
  format : Option Format
  blankLead : lead.all isBlank
  blankTrail : trail.all isBlank
  identifier : IsIdentifier name
  free : ¬ IsReserved name

/-- A hole and the literal text behind it. Behind a hole with a format no closing brace stands. -/
structure Slot where
  hole : Hole
  literal : LiteralText
  closed : hole.format.isSome → literal.text.head? ≠ some '}'

end SharedTemplate

/-- Literal text, and holes with the literal text behind them. -/
structure SharedTemplate where
  literal : ExpressionTemplate.LiteralText
  slots : List SharedTemplate.Slot

namespace SharedTemplate

/-! ## What it shows -/

namespace Hole

/-- What stands in front of the closing brace and its format. -/
def expression (x : Hole) : Text := x.lead ++ (x.name ++ x.trail)

def formatText (x : Hole) : Text :=
  MessageTemplate.Hole.partText ':' (x.format.map (·.text))

def text (x : Hole) : Text := '{' :: (x.expression ++ (x.formatText ++ ['}']))

/-- The regions of a hole that begins at an offset: its braces, its name and its format. -/
def regions (offset : Nat) (x : Hole) : List Region :=
  let behind := offset + 1 + Text.bytes x.expression
  ⟨.propertyBrace, offset, ['{']⟩ ::
    (⟨.propertyName, offset + 1 + Text.bytes x.lead, x.name⟩ ::
      (x.format.elim [] (Region.visible .formatSpecifier (behind + 1) ·.text) ++
        [⟨.propertyBrace, behind + Text.bytes x.formatText, ['}']⟩]))

end Hole

/-- The text of holes and the literals behind them. -/
def textOf (slots : List Slot) : Text :=
  slots.flatMap fun s => s.hole.text ++ s.literal.text

def text (t : SharedTemplate) : Text := t.literal.text ++ textOf t.slots

/-- The regions of holes, the first of which begins at an offset. -/
def regionsOf (offset : Nat) : List Slot → List Region
  | [] => []
  | s :: slots =>
    s.hole.regions offset ++ regionsOf (offset + Text.bytes (s.hole.text ++ s.literal.text)) slots

def regions (t : SharedTemplate) : List Region :=
  regionsOf (Text.bytes t.literal.text) t.slots

end SharedTemplate

/-! ## Plain names -/

/-- A character of an identifier or white space is no mark. -/
theorem ne_of_isIdentChar_or_isBlank {c : Char} (hc : isIdentChar c ∨ isBlank c) :
    c ∉ ['\'', '{', '}', '(', ')', '[', ']', ':', '#', '@'] := by
  have hmarks : (['\'', '{', '}', '(', ')', '[', ']', ':', '#', '@'].all
      fun m => !isIdentChar m && !isBlank m) = true := by
    decide +kernel
  intro hmem
  have hmark := List.all_eq_true.1 hmarks c hmem
  rcases hc with hc | hc
  · simp [hc] at hmark
  · simp [hc] at hmark

theorem IsIdentifier.all_isIdentChar {t : Text} (ht : IsIdentifier t) : t.all isIdentChar := by
  obtain ⟨c, cs, rfl, hc, hcs⟩ := ht
  rw [List.all_cons, isIdentChar_of_isIdentStart hc, hcs, Bool.and_self]

/-- A plain name is one token, and names a property. -/
theorem tokenize_name {t : Text} (ht : IsIdentifier t) (hfree : ¬ IsReserved t) (h : Heuristics) :
    tokenize h t = [⟨.identifier, t, t, 0⟩] := by
  obtain ⟨c, more, rfl, hc, hmore⟩ := ht
  have hfind : Phrase.find? reservedPhrases (Text.eqIgnoringCase · (c :: more)) [] = none := by
    rw [Phrase.find?_eq_none_iff]
    intro phrase hphrase hhead
    exact absurd ⟨phrase, hphrase, hhead⟩ hfree
  have hword : Lexeme.ofWord c (more ++ []) = _ := Lexeme.ofWord_run hmore (Text.stops_nil _)
  rw [hfind, List.append_nil] at hword
  have hidentifier : Lexeme.ofWord c more = ⟨.identifier, more.length⟩ := by
    rw [hword]
    exact if_neg fun hopens => nomatch hopens.2
  apply Tokenizer.tokenize_singleton
  · exact isBlank_of_isIdentChar (isIdentChar_of_isIdentStart hc)
  · rw [Token.read_word hc, hidentifier, Lexeme.token, List.take_length]
  · rfl

namespace SharedTemplate

/-! ## What the reader of messages shows -/

namespace Hole

variable (x : Hole)

/-- The hole in the grammar of message templates. -/
def message : MessageTemplate.Hole :=
  ⟨x.lead, none, x.name, x.trail, none, x.format.map (·.text)⟩

theorem text_message : x.message.text = x.text := by
  simp only [text, expression, formatText, List.append_assoc]
  rfl

theorem isFormat_of_plain {f : Text} (hf : ∀ c ∈ f, c ≠ '{' ∧ c ≠ '}' ∧ c ≠ ']')
    (hbar : '|' ∉ f) : MessageTemplate.IsFormat f := by
  induction f with
  | nil => exact .nil
  | cons c f ih =>
    rw [List.forall_mem_cons] at hf
    rw [List.mem_cons, not_or] at hbar
    exact .char hf.1.1 hf.1.2.1 (Ne.symm hbar.1) (ih hf.2 hbar.2)

theorem valid_message : x.message.Valid where
  lead := x.blankLead
  name := by
    obtain ⟨c, cs, hname, hc, hcs⟩ := x.identifier
    refine ⟨c, cs, hname, isIdentChar_of_isIdentStart hc, List.all_eq_true.2 fun d hd => ?_⟩
    exact MessageTemplate.isNameChar_of_isIdentChar (List.all_eq_true.1 hcs d hd)
  trail := x.blankTrail
  alignment := nofun
  format := by
    intro t ht
    obtain ⟨f, -, rfl⟩ := Option.map_eq_some_iff.1 ht
    exact isFormat_of_plain f.plain f.bar

theorem kind_message (o : Nat) : (x.message.property o).kind = .standard := by
  obtain ⟨c, cs, hname, hc, -⟩ := x.identifier
  have hdigits : x.name.all Char.isDigit = false := by
    rw [hname, List.all_cons, not_isDigit_of_isIdentStart hc, Bool.false_and]
  change (if x.name.all Char.isDigit then Property.Kind.positional else .standard) = .standard
  rw [hdigits]
  rfl

theorem name_ne_nil : x.name ≠ [] := by
  obtain ⟨c, cs, hname, -, -⟩ := x.identifier
  rw [hname]
  exact List.cons_ne_nil c cs

/-- What a hole of a message template shows, piece by piece. -/
theorem regions_message (o : Nat) : (x.message.property o).regions = x.regions o := by
  have hname (start : Nat) :
      Region.visible .propertyName start x.name = [⟨.propertyName, start, x.name⟩] :=
    if_neg (by simpa using x.name_ne_nil)
  have hbehind : o + 1 + Text.bytes x.lead + 0 + Text.bytes x.name + Text.bytes x.trail + 0 =
      o + 1 + Text.bytes x.expression := by
    simp only [expression, Text.bytes_append]
    omega
  unfold Property.regions
  rw [x.kind_message]
  simp only [MessageTemplate.Hole.property, message, MessageTemplate.Hole.captureText,
    MessageTemplate.Hole.partText, Text.bytes_nil, hbehind, Option.map_none, Option.bind_none]
  rw [if_neg (by decide), hname, regions, formatText]
  -- an empty format shows nothing, though its colon is read
  generalize x.format = format
  rcases format with _ | ⟨⟨_ | ⟨c, f⟩, _, _⟩, _⟩
  · rfl
  · rfl
  · rfl

end Hole

/-- The slot in a message template. -/
def Slot.message (s : Slot) : MessageTemplate.Slot :=
  ⟨s.hole.message, s.hole.valid_message, s.literal.text, s.literal.paired,
    by simpa [Hole.message] using s.closed⟩

theorem regions_propertiesOf (slots : List Slot) (o : Nat) :
    (MessageTemplate.Rendering.propertiesOf o (slots.map Slot.message)).flatMap Property.regions =
      regionsOf o slots := by
  induction slots generalizing o with
  | nil => rfl
  | cons s slots ih =>
    rw [List.map_cons, MessageTemplate.Rendering.propertiesOf, List.flatMap_cons, ih, regionsOf]
    change (s.hole.message.property o).regions ++
      regionsOf (o + Text.bytes (s.hole.message.text ++ s.literal.text)) slots = _
    rw [s.hole.regions_message, s.hole.text_message]

theorem messageRegions_eq (t : SharedTemplate) : MessageTemplate.classify t.text = t.regions := by
  let r : MessageTemplate.Rendering := ⟨t.literal.text, t.literal.paired, t.slots.map Slot.message⟩
  have htext : r.text = t.text := by
    have hslots : MessageTemplate.Rendering.textOf (t.slots.map Slot.message) = textOf t.slots := by
      rw [MessageTemplate.Rendering.textOf, List.flatMap_map, textOf]
      congr 1
      funext s
      exact congrArg (· ++ s.literal.text) s.hole.text_message
    rw [MessageTemplate.Rendering.text, hslots, text]
  rw [MessageTemplate.classify, ← htext, r.parse_eq, regions_propertiesOf, regions]

/-! ## What the reader of expressions shows -/

namespace Hole

variable (x : Hole) {h : Heuristics}

theorem isIdentChar_or_isBlank : ∀ c ∈ x.expression, isIdentChar c ∨ isBlank c := by
  intro c hc
  simp only [expression, List.mem_append] at hc
  rcases hc with hc | hc | hc
  · exact .inr (List.all_eq_true.1 x.blankLead c hc)
  · exact .inl (List.all_eq_true.1 x.identifier.all_isIdentChar c hc)
  · exact .inr (List.all_eq_true.1 x.blankTrail c hc)

theorem not_mem_expression {m : Char}
    (hm : m ∈ ['\'', '{', '}', '(', ')', '[', ']', ':', '#', '@']) : m ∉ x.expression :=
  fun hmem => ne_of_isIdentChar_or_isBlank (x.isIdentChar_or_isBlank m hmem) hm

theorem isBlank_of_mem_name : ∀ c ∈ x.name, isBlank c = false := fun c hc =>
  isBlank_of_isIdentChar (List.all_eq_true.1 x.identifier.all_isIdentChar c hc)

theorem takeWhile_expression : x.expression.takeWhile isBlank = x.lead := by
  apply Text.takeWhile_run x.blankLead
  intro c hc
  rw [List.head?_append_of_ne_nil _ x.name_ne_nil] at hc
  exact x.isBlank_of_mem_name c (List.mem_of_mem_head? hc)

theorem trim_expression : Text.trim x.expression = x.name := by
  have hname : x.name ≠ [] := x.name_ne_nil
  have hstart : Text.trimStart x.expression = x.name ++ x.trail := by
    apply Text.dropWhile_run x.blankLead
    intro c hc
    rw [List.head?_append_of_ne_nil _ hname] at hc
    exact x.isBlank_of_mem_name c (List.mem_of_mem_head? hc)
  rw [Text.trim, hstart, Text.trimEnd, List.reverse_append, Text.dropWhile_run,
    List.reverse_reverse]
  · rw [List.all_reverse]
    exact x.blankTrail
  · intro c hc
    rw [List.head?_reverse] at hc
    exact x.isBlank_of_mem_name c (List.mem_of_mem_getLast? hc)

/-- No mark stands in the name. -/
theorem head?_trim_ne {m : Char} (hm : m ∈ ['\'', '{', '}', '(', ')', '[', ']', ':', '#', '@']) :
    (Text.trim x.expression).head? ≠ some m := by
  rw [trim_expression]
  intro hhead
  have hmem : m ∈ x.name := List.mem_of_mem_head? hhead
  exact x.not_mem_expression hm (by simp [expression, hmem])

theorem outside_expression : Text.outside false x.expression = x.expression :=
  (Text.outside_of_not_mem (x.not_mem_expression (by decide))).1

/-- The name and the white space around it, as an expression. -/
def embedded : ExpressionTemplate.HoleExpression where
  text := x.expression
  nonblank := by
    intro hall
    obtain ⟨c, hc⟩ := List.exists_mem_of_ne_nil _ x.name_ne_nil
    have hblank := List.all_eq_true.1 hall c (by simp [expression, hc])
    rw [x.isBlank_of_mem_name c hc] at hblank
    contradiction
  quotes := by
    rw [List.count_eq_zero_of_not_mem (x.not_mem_expression (by decide))]
    exact Even.zero
  braces := by
    rw [outside_expression]
    exact ⟨x.not_mem_expression (by decide), x.not_mem_expression (by decide)⟩
  balanced := by
    rw [outside_expression]
    apply Brackets.balanced_of_forall
    intro c hc
    have hmark := ne_of_isIdentChar_or_isBlank (x.isIdentChar_or_isBlank c hc)
    simp only [List.mem_cons, List.not_mem_nil, or_false, not_or] at hmark
    simp [Brackets.straight, hmark]
  colons := by
    rw [outside_expression]
    exact Brackets.hidesColons_of_not_mem (x.not_mem_expression (by decide))
  directive := x.head?_trim_ne (by decide)
  indexer := by
    rintro code - quote - ⟨rest, hrest⟩
    exact x.head?_trim_ne (m := '@') (by decide) (by rw [← hrest]; rfl)

/-- The expression of the hole shows the name. -/
theorem regions_embedded (offset : Nat) :
    x.embedded.regions h offset = [⟨.propertyName, offset + Text.bytes x.lead, x.name⟩] := by
  have hclassify : Expression.classify h x.name = [⟨.expressionProperty, 0, x.name⟩] := by
    rw [Expression.classify, Expression.regions, Expression.tokens_eq_move,
      tokenize_name x.identifier x.free]
    rfl
  have hlone : ExpressionTemplate.isLoneName h x.name = true := by
    have hat : x.name.head? ≠ some '@' := x.trim_expression ▸ x.head?_trim_ne (by decide)
    rw [ExpressionTemplate.isLoneName, tokenize_name x.identifier x.free]
    simpa using hat
  have htrim : Text.trim x.embedded.text = x.name := x.trim_expression
  have hlead : x.embedded.text.takeWhile isBlank = x.lead := x.takeWhile_expression
  rw [ExpressionTemplate.HoleExpression.regions, ExpressionTemplate.Embedded.regions, htrim, hlone,
    hclassify, hlead]
  simp [Region.rebase]

/-- The segment in an expression template. -/
def written : ExpressionTemplate.Written :=
  match x.format with
  | none => .hole x.embedded
  | some f => .formatted x.embedded f.toFormat

theorem content_written : x.written.content = x.expression ++ x.formatText := by
  unfold written formatText
  cases x.format with
  | none => exact (List.append_nil _).symm
  | some f => rfl

theorem text_written : x.written.text = x.text := by
  rw [ExpressionTemplate.Written.text, content_written, text, List.append_assoc]

theorem inner_written (offset : Nat) :
    x.written.inner h offset = ⟨.propertyName, offset + Text.bytes x.lead, x.name⟩ ::
      x.format.elim []
        (Region.visible .formatSpecifier (offset + Text.bytes x.expression + 1) ·.text) := by
  unfold written
  cases x.format with
  | none => exact x.regions_embedded offset
  | some f =>
    rw [ExpressionTemplate.Written.inner, x.regions_embedded]
    rfl

theorem regions_written (offset : Nat) : x.written.regions h offset = x.regions offset := by
  rw [ExpressionTemplate.Written.regions, inner_written, content_written, Text.bytes_append,
    ← Nat.add_assoc]
  rfl

end Hole

theorem regionsOf_written (h : Heuristics) (slots : List Slot) (o : Nat) :
    ExpressionTemplate.Template.regionsOf h o (slots.map fun s => (s.hole.written, s.literal)) =
      regionsOf o slots := by
  induction slots generalizing o with
  | nil => rfl
  | cons s slots ih =>
    rw [List.map_cons, ExpressionTemplate.Template.regionsOf, ih, s.hole.regions_written,
      s.hole.text_written, regionsOf]

theorem expressionRegions_eq (h : Heuristics) (t : SharedTemplate) :
    ExpressionTemplate.classify h t.text = t.regions := by
  let segments := t.slots.map fun s => (s.hole.written, s.literal)
  have hslots : textOf t.slots = ExpressionTemplate.Template.textOf segments := by
    rw [ExpressionTemplate.Template.textOf, List.flatMap_map, textOf]
    congr 1
    funext s
    exact congrArg (· ++ s.literal.text) s.hole.text_written.symm
  have hhead := ExpressionTemplate.Template.head?_textOf segments
  show ExpressionTemplate.Scan.ahead ⟨⟨0, t.literal.text ++ textOf t.slots⟩, h, [], ∅⟩ = _
  rw [hslots, ExpressionTemplate.Scan.ahead_literal t.literal.paired hhead, Nat.zero_add,
    ExpressionTemplate.Template.ahead_textOf, regionsOf_written, regions]

/-- A template of plain holes is classified alike, whichever reader its context asks for. -/
theorem classify_shared (t : SharedTemplate) :
    classify .outside t.text = classify .expressionTemplate t.text := by
  change MessageTemplate.classify t.text = ExpressionTemplate.classify .standard t.text
  rw [messageRegions_eq, expressionRegions_eq]

/-- In `{{{ é: x}!}` a pair of braces stands in front of the hole, and a closing one stands in the
literal text behind it. -/
theorem classify_shared_pairs :
    classify .outside ['{', '{', '{', ' ', 'é', ':', ' ', 'x', '}', '!', '}'] =
      classify .expressionTemplate ['{', '{', '{', ' ', 'é', ':', ' ', 'x', '}', '!', '}'] := by
  have hfree : ¬ IsReserved ['é'] := by
    rintro ⟨phrase, hphrase, heq⟩
    have hnone : ∀ phrase ∈ reservedPhrases,
        Text.eqIgnoringCase phrase.head.toList ['é'] = false := by decide
    rw [hnone phrase hphrase] at heq
    contradiction
  let format : ExpressionTemplate.Format :=
    { text := [' ', 'x']
      plain := by simp
      trimmed := by
        intro c hc
        obtain rfl : 'x' = c := by simpa using hc
        rfl }
  let hole : Hole :=
    { lead := [' ']
      name := ['é']
      trail := []
      format := some ⟨format, by simp [format]⟩
      blankLead := by decide
      blankTrail := rfl
      identifier := ⟨'é', [], rfl, by decide +kernel, rfl⟩
      free := hfree }
  let slot : Slot :=
    { hole
      literal := ⟨['!', '}'], ExpressionTemplate.bracesPaired_of_not_mem (by decide)⟩
      closed := by simp }
  let pair : ExpressionTemplate.LiteralText :=
    ⟨['{', '{'], (ExpressionTemplate.bracesPaired_of_not_mem (by simp)).cons_pair⟩
  exact classify_shared ⟨pair, [slot]⟩

end SharedTemplate

end LogSyntax
