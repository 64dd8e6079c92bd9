import LogSyntax.Proofs.ExpressionTemplate.Indexed
/-!
# Templates as they are written

A template with balanced segments is read as it is written. Literal text shows nothing; each segment
shows its braces and, between them, the regions of its expression on its own, moved to where the
expression stands (`Written.ahead_text`). What may be written carries the conditions under which its
readers agree: the search for the end of the segment, the scan for the colon, the reader of indexers
and the tokenizer.
-/

namespace LogSyntax.ExpressionTemplate

open Brackets (straight)

/-! ## What may be written -/

/-- An expression for a segment: not blank, with its quotes in pairs and no brace outside them. -/
structure Embedded where
  text : Text
  nonblank : ¬ text.all isBlank
  quotes : Even (text.count '\'')
  braces : Text.BraceFree (Text.outside false text)

/-- An expression for a hole. Its brackets are balanced and hide its colons, and it is neither a
directive nor an indexed built-in property. -/
structure HoleExpression extends Embedded where
  balanced : straight.Balanced (Text.outside false text)
  colons : straight.HidesColons 0 (Text.outside false text)
  directive : (Text.trim text).head? ≠ some '#'
  indexer : ∀ code ∈ builtinCodes, ∀ quote ∈ ['\'', '"'],
    ¬ '@' :: (code.toList ++ ['[', quote]) <+: Text.trim text

/-- A format holds nothing that could end it, and does not end in white space. -/
structure Format where
  text : Text
  plain : ∀ c ∈ text, c ≠ '{' ∧ c ≠ '}' ∧ c ≠ ']'
  trimmed : ∀ c ∈ text.getLast?, isBlank c = false

/-- Literal text, in which opening braces stand for themselves. -/
structure LiteralText where
  text : Text
  paired : BracesPaired text

/-- A segment as it is written. -/
inductive Written where
  | hole (e : HoleExpression)
  | formatted (e : HoleExpression) (format : Format)
  | condition (e : Embedded)

/-- A template as it is written. -/
structure Template where
  literal : LiteralText
  segments : List (Written × LiteralText)

/-! ## What it shows -/

/-- The text is one identifier, and no built-in property. -/
def isLoneName (h : Heuristics) (t : Text) : Bool :=
  match tokenize h t with
  | [token] => token.kind == .identifier && token.text.head? != some '@'
  | _ => false

/-- The regions of an expression that stands at an offset: those of its trimmed text on its own,
moved. -/
def Embedded.regions (h : Heuristics) (offset : Nat) (e : Embedded) : List Region :=
  (Expression.classify h (Text.trim e.text)).map
    (·.rebase (offset + Text.bytes (e.text.takeWhile isBlank)))

/-- In a hole a lone name is one of a property. -/
def HoleExpression.regions (h : Heuristics) (offset : Nat) (e : HoleExpression) : List Region :=
  if isLoneName h (Text.trim e.text) then
    (e.toEmbedded.regions h offset).map fun r => { r with category := .propertyName }
  else
    e.toEmbedded.regions h offset

namespace Written

/-- What stands between the braces. -/
def content : Written → Text
  | hole e => e.text
  | formatted e format => e.text ++ ':' :: format.text
  | condition e => "#if ".toList ++ e.text

/-- The regions between the braces, when the content stands at an offset. -/
def inner (h : Heuristics) (offset : Nat) : Written → List Region
  | hole e => e.regions h offset
  | formatted e format =>
    e.regions h offset ++
      Region.visible .formatSpecifier (offset + Text.bytes e.text + 1) format.text
  | condition e => ⟨.expressionDirective, offset, "#if".toList⟩ :: e.regions h (offset + 4)

def text (s : Written) : Text := '{' :: (s.content ++ ['}'])

/-- The regions of a segment that begins at an offset. -/
def regions (h : Heuristics) (offset : Nat) (s : Written) : List Region :=
  ⟨.propertyBrace, offset, ['{']⟩ ::
    (s.inner h (offset + 1) ++ [⟨.propertyBrace, offset + 1 + Text.bytes s.content, ['}']⟩])

end Written

namespace Template

/-- The text of segments and the literals behind them. -/
def textOf (segments : List (Written × LiteralText)) : Text :=
  segments.flatMap fun (s, literal) => s.text ++ literal.text

def text (t : Template) : Text := t.literal.text ++ textOf t.segments

/-- The regions of segments, the first of which begins at an offset. -/
def regionsOf (h : Heuristics) (offset : Nat) : List (Written × LiteralText) → List Region
  | [] => []
  | (s, literal) :: segments =>
    s.regions h offset ++ regionsOf h (offset + Text.bytes (s.text ++ literal.text)) segments

def regions (h : Heuristics) (t : Template) : List Region :=
  regionsOf h (Text.bytes t.literal.text) t.segments

end Template

/-! ## Expressions in segments -/

variable {h : Heuristics} {names : LoopNames} {offset : Nat} {t : Text}

/-- Where no loop has bound a name, a hole shows a lone name as that of a property, and any other
expression as it is. -/
theorem Hole.expressionRegions_eq (h : Heuristics) (offset : Nat) (t : Text) :
    Hole.expressionRegions h [] offset t =
      if isLoneName h t then
        (Expression.regions h offset t).map fun r => { r with category := .propertyName }
      else Expression.regions h offset t := by
  have hfaithful : ∀ token ∈ tokenize h t, token.Faithful :=
    Tokenizer.faithful_of_mem_tokens (.start h (.start t))
  unfold Hole.expressionRegions Expression.regions isLoneName
  rw [Expression.tokens_eq_move]
  generalize tokenize h t = tokens at hfaithful
  rcases tokens with _ | ⟨token, _ | ⟨next, tokens⟩⟩
  · rfl
  · by_cases hlone : token.kind = .identifier ∧ token.text.head? ≠ some '@'
    · have htext : token.text = token.source :=
        ((hfaithful token (by simp)).plain (by simp [hlone.1])).1
      obtain ⟨hkind, hhead⟩ := hlone
      rw [htext] at hhead
      simp [Hole.property?, Token.move, Region.ofToken?, Category.ofKind?, htext, hkind, hhead]
    · simp [Hole.property?, Token.move, hlone]
  · rfl

/-- A prefix of a text is one of its head, if what stands behind the head begins with a character
that the prefix does not hold. -/
theorem prefix_of_prefix_append {p s t : Text} (hp : p <+: s ++ t) (ht : ∀ c ∈ t.head?, c ∉ p) :
    p <+: s := by
  rcases List.prefix_or_prefix_of_prefix hp (List.prefix_append s t) with hps | ⟨u, rfl⟩
  · exact hps
  · cases u with
    | nil => simp
    | cons c u =>
      have hu : c :: u <+: t := (List.prefix_append_right_inj s).1 hp
      obtain ⟨rest, rfl⟩ := hu
      exact absurd (by simp) (ht c rfl)

theorem bodyRegions_hole (hdirective : t.head? ≠ some '#') (hindexer : Indexer.read? t = none)
    (names : LoopNames) (offset : Nat) :
    bodyRegions h names offset t = (Hole.regions h names offset t, names) := by
  unfold bodyRegions
  split
  · exact absurd rfl hdirective
  · rw [hindexer]

namespace Embedded

variable (e : Embedded)

theorem ne_nil : e.text ≠ [] := by
  intro htext
  exact e.nonblank (by rw [htext]; rfl)

theorem head?_append (rest : Text) : (e.text ++ rest).head? = e.text.head? :=
  List.head?_append_of_ne_nil _ e.ne_nil

theorem head?_ne_brace : e.text.head? ≠ some '{' := by
  intro hhead
  obtain ⟨t, ht⟩ : ∃ t, e.text = '{' :: t := by
    cases htext : e.text with
    | nil => exact absurd htext e.ne_nil
    | cons c t =>
      rw [htext] at hhead
      exact ⟨t, by simpa using hhead⟩
  have hfree := e.braces.1
  rw [ht, Text.outside_plain (by decide)] at hfree
  exact hfree List.mem_cons_self

theorem quotedAfter : Text.quotedAfter false e.text = false :=
  Text.quotedAfter_of_even e.quotes

/-- An expression shows in a larger text what its trimmed text shows on its own, moved. -/
theorem regions_eq (h : Heuristics) (offset : Nat) :
    e.regions h offset = Expression.regions h (offset + Text.bytes (e.text.takeWhile isBlank))
      (Text.trim e.text) := by
  rw [regions, Expression.regions_eq_rebase]

end Embedded

namespace HoleExpression

variable (e : HoleExpression)

theorem head?_ne_hash : e.text.head? ≠ some '#' := by
  intro hhead
  exact e.directive (Text.head?_trim_of_head? hhead (by decide))

theorem isDirective_append (rest : Text) : Segment.isDirective (e.text ++ rest) = false := by
  have hne : Text.trimStart e.text ≠ [] := by
    intro hnil
    exact Text.trim_ne_nil e.nonblank (by rw [Text.trim, hnil]; rfl)
  rw [Segment.isDirective, Text.trimStart_append e.nonblank, List.head?_append_of_ne_nil _ hne,
    ← Text.head?_trim e.nonblank]
  simpa using e.directive

theorem colon?_eq_none : Hole.colon? (Text.trim e.text) = none := by
  have hnone := Hole.colon?_eq_none e.braces e.colons
  rwa [Hole.colon?_trim, Option.map_eq_none_iff] at hnone

/-- A format begins behind the expression. -/
theorem colon?_append (format : Text) :
    Hole.colon? (e.text ++ ':' :: format) = some e.text.length :=
  Hole.colon?_append e.quotedAfter e.braces e.colons (e.balanced.depth_eq 0)

/-- With white space or a format behind it, the expression is no indexer either. -/
theorem read?_append {rest : Text} (hrest : ∀ c ∈ rest.head?, isBlank c = true ∨ c = ':') :
    Indexer.read? (Text.trim e.text ++ rest) = none := by
  cases hread : Indexer.read? (Text.trim e.text ++ rest) with
  | none => rfl
  | some x =>
    obtain ⟨hcode, hor, -⟩ := Indexer.wellFormed_of_read? hread
    have hquote : x.quote ∈ ['\'', '"'] := by simpa using hor
    have hmarks : ∀ code ∈ builtinCodes,
        ('@' :: (code.toList ++ ['['])).all fun c => !isBlank c && c != ':' := by
      decide
    have hprefix : '@' :: (x.code.toList ++ ['[', x.quote]) <+: Text.trim e.text ++ rest := by
      rw [← Indexer.text_of_read? hread]
      exact ⟨x.key ++ x.quote :: ']' :: x.tail, by simp [Indexer.text]⟩
    -- no character of an indexer is blank or a colon, up to its key
    have hplain : ∀ c ∈ '@' :: (x.code.toList ++ ['[', x.quote]),
        isBlank c = false ∧ c ≠ ':' := by
      intro c hc
      rw [show '@' :: (x.code.toList ++ ['[', x.quote]) =
        '@' :: (x.code.toList ++ ['[']) ++ [x.quote] by simp, List.mem_append] at hc
      rcases hc with hc | hc
      · simpa using List.all_eq_true.1 (hmarks x.code hcode) c hc
      · obtain rfl : c = x.quote := by simpa using hc
        rcases hor with hor | hor <;> rw [hor] <;> decide
    refine absurd (prefix_of_prefix_append hprefix ?_) (e.indexer x.code hcode x.quote hquote)
    intro c hc hmem
    obtain ⟨hblank, hcolon⟩ := hplain c hmem
    rcases hrest c hc with hrest | hrest
    · rw [hblank] at hrest
      contradiction
    · exact hcolon hrest

/-- The body that the expression begins is that of a hole. -/
theorem bodyRegions_append {rest : Text} (hrest : ∀ c ∈ rest.head?, isBlank c = true ∨ c = ':')
    (names : LoopNames) (offset : Nat) :
    bodyRegions h names offset (Text.trim e.text ++ rest) =
      (Hole.regions h names offset (Text.trim e.text ++ rest), names) := by
  refine bodyRegions_hole ?_ (e.read?_append hrest) names offset
  rw [List.head?_append_of_ne_nil _ (Text.trim_ne_nil e.nonblank)]
  exact e.directive

/-- The expression of a hole shows the same behind a trimmed text. -/
theorem expressionRegions_trim (offset : Nat) :
    Hole.expressionRegions h [] (offset + Text.bytes (e.text.takeWhile isBlank))
      (Text.trim e.text) = e.regions h offset := by
  rw [Hole.expressionRegions_eq, regions, e.regions_eq]

theorem bodyRegions_trim (offset : Nat) :
    bodyRegions h [] (offset + Text.bytes (e.text.takeWhile isBlank)) (Text.trim e.text) =
      (e.regions h offset, []) := by
  have hbody : bodyRegions h [] (offset + Text.bytes (e.text.takeWhile isBlank))
      (Text.trim e.text ++ []) = _ := e.bodyRegions_append (by simp) [] _
  rw [List.append_nil] at hbody
  rw [hbody, Hole.regions, e.colon?_eq_none]
  simp only [Text.trimEnd_trim, e.expressionRegions_trim]

/-- The trimmed body of a hole with a format. -/
theorem trim_append (format : Format) : Text.trim (e.text ++ ':' :: format.text) =
    Text.trimStart e.text ++ ':' :: format.text := by
  have hend : Text.trimEnd (':' :: format.text) = ':' :: format.text := by
    apply Text.trimEnd_eq_self
    intro c hc
    cases hformat : format.text with
    | nil =>
      rw [hformat] at hc
      obtain rfl : ':' = c := by simpa using hc
      decide
    | cons d t =>
      rw [hformat, List.getLast?_cons_cons, ← hformat] at hc
      exact format.trimmed c hc
  have hcolon : ¬ (':' :: format.text).all isBlank := by
    have hblank : isBlank ':' = false := by decide
    simp [hblank]
  rw [Text.trim, Text.trimStart_append e.nonblank, Text.trimEnd_append _ hcolon, hend]

theorem colon?_trimStart (format : Format) :
    Hole.colon? (Text.trimStart e.text ++ ':' :: format.text) =
      some (Text.trimStart e.text).length := by
  have hcolon := e.colon?_append format.text
  rw [Hole.colon?_trim, e.trim_append, Text.takeWhile_append e.nonblank,
    Option.map_eq_some_iff] at hcolon
  obtain ⟨n, hn, hlength⟩ := hcolon
  have hsplit := congrArg List.length (List.takeWhile_append_dropWhile (p := isBlank) (l := e.text))
  rw [List.length_append, ← Text.trimStart] at hsplit
  obtain rfl : n = (Text.trimStart e.text).length := by omega
  exact hn

theorem bodyRegions_format (format : Format) (offset : Nat) :
    bodyRegions h [] (offset + Text.bytes (e.text.takeWhile isBlank))
      (Text.trimStart e.text ++ ':' :: format.text) =
      (e.regions h offset ++
        Region.visible .formatSpecifier (offset + Text.bytes e.text + 1) format.text, []) := by
  obtain ⟨trail, hblank, htrail⟩ := Text.exists_trimEnd (Text.trimStart e.text)
  rw [← Text.trim] at htrail
  have hhead : ∀ c ∈ (trail ++ ':' :: format.text).head?, isBlank c = true ∨ c = ':' := by
    intro c hc
    cases trail with
    | nil => exact .inr (by simpa using hc.symm)
    | cons d trail =>
      obtain rfl : d = c := by simpa using hc
      exact .inl (List.all_eq_true.1 hblank d List.mem_cons_self)
  have hbytes : Text.bytes e.text =
      Text.bytes (e.text.takeWhile isBlank) + Text.bytes (Text.trimStart e.text) := by
    rw [← Text.bytes_append, Text.trimStart, List.takeWhile_append_dropWhile]
  have hdrop : (Text.trimStart e.text ++ ':' :: format.text).drop
      ((Text.trimStart e.text).length + 1) = format.text := List.drop_length_add_append 1
  have hbody := e.bodyRegions_append (h := h) hhead []
    (offset + Text.bytes (e.text.takeWhile isBlank))
  rw [← List.append_assoc, ← htrail] at hbody
  rw [hbody, Hole.regions_of_colon? h [] _ (e.colon?_trimStart format), List.take_left, ← Text.trim,
    e.expressionRegions_trim, hdrop, hbytes, Nat.add_assoc offset]

end HoleExpression

/-- The condition behind `#if` is an expression. -/
theorem Embedded.bodyRegions_condition (e : Embedded) (names : LoopNames) (offset : Nat) :
    bodyRegions h names offset ("#if ".toList ++ Text.trimEnd e.text) =
      (⟨.expressionDirective, offset, "#if".toList⟩ :: e.regions h (offset + 4), names) := by
  have hread (t : Text) : Directive.read? ('i' :: 'f' :: ' ' :: t) = some (.ifThen, 2) := rfl
  have hclassify : Directive.classify h names offset ('i' :: 'f' :: ' ' :: Text.trimEnd e.text) =
      (⟨.expressionDirective, offset, "#if".toList⟩ ::
        Expression.regions h (offset + 3) (' ' :: Text.trimEnd e.text), names) := by
    rw [Directive.classify, hread]
    rfl
  have hblank : (' ' :: e.text.takeWhile isBlank).all isBlank := by
    rw [List.all_cons, List.all_takeWhile]
    rfl
  have hregions : Expression.regions h (offset + 3) (' ' :: Text.trimEnd e.text) =
      e.regions h (offset + 4) := by
    rw [Text.trimEnd_eq_append e.nonblank, ← List.cons_append, Expression.regions_blanks hblank,
      e.regions_eq, Text.bytes_cons, Nat.add_assoc, Nat.add_assoc, ← Nat.add_assoc 3]
    rfl
  rw [← hregions, ← hclassify]
  rfl

/-! ## Segments -/

namespace Written

theorem nonblank (s : Written) : ¬ s.content.all isBlank := by
  cases s with
  | hole e => exact e.nonblank
  | formatted e format =>
    rw [content, List.all_append, Bool.and_eq_true]
    exact fun hall => e.nonblank hall.1
  | condition e =>
    rw [content, List.all_append, Bool.and_eq_true]
    exact fun hall => e.nonblank hall.2

theorem head?_content (s : Written) : s.content.head? ≠ some '{' := by
  cases s with
  | hole e => exact e.head?_ne_brace
  | formatted e format =>
    rw [content, e.head?_append]
    exact e.head?_ne_brace
  | condition e => simp [content]

theorem readBare?_content (s : Written) (rest : Text) :
    Directive.readBare? (s.content ++ rest) = none := by
  have hnone {t : Text} (ht : t.head? ≠ some '#') : Directive.readBare? t = none := by
    cases t with
    | nil => rfl
    | cons c t =>
      have hc : '#' ≠ c := by rintro rfl; exact ht rfl
      simp [Directive.readBare?, List.isPrefixOf, hc]
  cases s with
  | hole e => exact hnone (by rw [content, e.head?_append]; exact e.head?_ne_hash)
  | formatted e format =>
    rw [content, List.append_assoc]
    exact hnone (by rw [e.head?_append]; exact e.head?_ne_hash)
  | condition e => rfl

theorem end?_content (s : Written) (outcomes : Outcomes) (offset : Nat) (rest : Text) :
    ∃ colon, Segment.end? outcomes offset (s.content ++ '}' :: rest) =
      (some ⟨s.content.length, offset + Text.bytes s.content, '}', colon⟩, outcomes) := by
  cases s with
  | hole e =>
    exact ⟨none, Segment.end?_body e.quotedAfter e.braces fun _ => e.colons⟩
  | formatted e format =>
    have hend : Segment.end? outcomes offset (e.text ++ ':' :: (format.text ++ '}' :: rest)) = _ :=
      Segment.end?_format e.quotedAfter e.braces e.colons (e.balanced.depth_eq 0) format.plain
        (e.isDirective_append _)
    refine ⟨some (offset + Text.bytes e.text), ?_⟩
    rw [content, List.append_assoc, List.cons_append, hend]
    have hcolon : ':'.utf8Size = 1 := rfl
    simp only [List.length_append, List.length_cons, Text.bytes_append, Text.bytes_cons, hcolon,
      Nat.add_assoc, Nat.add_comm 1 format.text.length]
  | condition e =>
    obtain ⟨houtside, hafter⟩ := Text.outside_of_not_mem (t := "#if ".toList) (by decide)
    refine ⟨none, Segment.end?_body ?_ ?_ ?_⟩
    · rw [content, Text.quotedAfter_append, hafter, e.quotedAfter]
    · rw [content, Text.outside_append, houtside, hafter, Text.braceFree_append]
      exact ⟨by decide, e.braces⟩
    · intro hdirective
      contradiction

theorem bodyRegions_content (s : Written) (h : Heuristics) (offset : Nat) :
    bodyRegions h [] (offset + Text.bytes (s.content.takeWhile isBlank)) (Text.trim s.content) =
      (s.inner h offset, []) := by
  cases s with
  | hole e => exact e.bodyRegions_trim offset
  | formatted e format =>
    rw [content, e.trim_append, Text.takeWhile_append e.nonblank, e.bodyRegions_format]
    rfl
  | condition e =>
    have htrim : Text.trim ("#if ".toList ++ e.text) = "#if ".toList ++ Text.trimEnd e.text := by
      rw [Text.trim, ← Text.trimEnd_append _ e.nonblank]
      rfl
    rw [content, htrim]
    exact e.bodyRegions_condition [] offset

/-- A segment shows its regions, and no name is bound behind it. -/
theorem ahead_text (s : Written) (offset : Nat) (rest : Text) :
    Scan.ahead ⟨⟨offset, s.text ++ rest⟩, h, [], ∅⟩ =
      s.regions h offset ++ Scan.ahead ⟨⟨offset + Text.bytes s.text, rest⟩, h, [], ∅⟩ := by
  obtain ⟨colon, hend⟩ := s.end?_content ∅ (offset + 1) rest
  have hahead := Scan.ahead_segment hend (s.readBare?_content _) s.nonblank s.head?_content
    (s.bodyRegions_content h (offset + 1))
  have hbytes : offset + Text.bytes s.text = offset + 1 + Text.bytes s.content + 1 := by
    rw [text, Text.bytes_cons, Text.bytes_append, ← Nat.add_assoc, ← Nat.add_assoc]
    rfl
  rw [hbytes, text, List.cons_append, List.append_assoc]
  exact hahead

end Written

/-! ## Templates -/

namespace Template

theorem head?_textOf (segments : List (Written × LiteralText)) :
    (textOf segments).head? ≠ some '}' := by
  cases segments with
  | nil => simp [textOf]
  | cons s segments => simp [textOf, Written.text]

theorem ahead_textOf (segments : List (Written × LiteralText)) (offset : Nat) :
    Scan.ahead ⟨⟨offset, textOf segments⟩, h, [], ∅⟩ = regionsOf h offset segments := by
  induction segments generalizing offset with
  | nil => exact Scan.ahead_nil
  | cons segment segments ih =>
    obtain ⟨s, literal⟩ := segment
    rw [show textOf ((s, literal) :: segments) = s.text ++ (literal.text ++ textOf segments) by
      simp [textOf], s.ahead_text, Scan.ahead_literal literal.paired (head?_textOf segments), ih,
      regionsOf, Text.bytes_append, Nat.add_assoc]

/-- A template shows the regions of its segments where they stand, and nothing else. -/
theorem classify_text (h : Heuristics) (t : Template) : classify h t.text = t.regions h := by
  show Scan.ahead ⟨⟨0, t.literal.text ++ textOf t.segments⟩, h, [], ∅⟩ = _
  rw [Scan.ahead_literal t.literal.paired (head?_textOf t.segments), Nat.zero_add, ahead_textOf,
    regions]

/-- In `{{{ n }!` a pair of braces stands in front of the segment, and the name in it is one of a
property. -/
theorem classify_text_name :
    classify .standard ['{', '{', '{', ' ', 'n', ' ', '}', '!'] =
      [⟨.propertyBrace, 2, ['{']⟩, ⟨.propertyName, 4, ['n']⟩, ⟨.propertyBrace, 6, ['}']⟩] := by
  let pair : LiteralText := ⟨['{', '{'], (bracesPaired_of_not_mem (by simp)).cons_pair⟩
  let mark : LiteralText := ⟨['!'], bracesPaired_of_not_mem (by decide)⟩
  have hindexer : ∀ code ∈ builtinCodes, ∀ quote ∈ ['\'', '"'],
      ¬ '@' :: (code.toList ++ ['[', quote]) <+: ['n'] := by
    intro code _ quote _ hprefix
    exact absurd (List.cons_prefix_cons.1 hprefix).1 (by decide)
  let name : HoleExpression :=
    ⟨⟨[' ', 'n', ' '], by decide, by decide, by decide⟩, by decide, by decide, by decide, hindexer⟩
  have htrim : Text.trim name.text = ['n'] := rfl
  have htokens : tokenize .standard ['n'] = [⟨.identifier, ['n'], ['n'], 0⟩] :=
    Tokenizer.tokenize_singleton (by decide) rfl rfl
  have hshown : name.regions .standard 3 = [⟨.propertyName, 4, ['n']⟩] := by
    have hlone : isLoneName .standard ['n'] = true := by rw [isLoneName, htokens]; rfl
    have hclassify : Expression.classify .standard ['n'] = [⟨.expressionProperty, 0, ['n']⟩] := by
      rw [Expression.classify, Expression.regions, Expression.tokens_eq_move, htokens]
      rfl
    rw [HoleExpression.regions, Embedded.regions, htrim, hlone, hclassify]
    rfl
  have htemplate := classify_text .standard ⟨pair, [(.hole name, mark)]⟩
  have hregions : regions .standard ⟨pair, [(.hole name, mark)]⟩ =
      ⟨.propertyBrace, 2, ['{']⟩ ::
        (name.regions .standard 3 ++ [⟨.propertyBrace, 6, ['}']⟩]) := List.append_nil _
  rw [hregions, hshown] at htemplate
  exact htemplate

end Template

end LogSyntax.ExpressionTemplate
