import LogSyntax.Proofs.ExpressionTemplate.Written
import LogSyntax.Proofs.Token.Kinds
/-!
# The scope of the names that loops bind

A loop binds the identifiers in front of its separator until the next `#end`. `Passes` lists the
states that a reader leaves behind on its way, and `Bound` says which names the loops among them
have bound. They are the names that the reader carries (`Passes.mem_names`): one step of it binds
what a loop says, unbinds all names at an `#end`, and keeps them otherwise (`mem_names_next`). So a
hole that holds a lone name shows it as one that a loop has bound exactly if one has.
-/

namespace LogSyntax.ExpressionTemplate

variable {h : Heuristics} {names : LoopNames} {offset : Nat} {t body name : Text}

/-! ## Names that a directive binds -/

namespace Directive

/-- The body of a segment that binds a name: a loop in which it is an identifier that stands in
front of the separator. -/
def Binds (h : Heuristics) (body name : Text) : Prop :=
  ∃ rest before token behind, body = "#each".toList ++ rest ∧ Text.Stops isIdentChar rest ∧
    tokenize h rest = before ++ token :: behind ∧ (∀ x ∈ before, isSeparator x = false) ∧
    token.kind = .identifier ∧ token.text = name

/-- The body of a segment that ends a block. -/
def Ends (body : Text) : Prop :=
  ∃ rest, body = "#end".toList ++ rest ∧ Text.Stops isIdentChar rest

variable {tokens : List Token} {word rest : Text}

theorem mem_boundNames :
    name ∈ boundNames tokens ↔ ∃ before token behind, tokens = before ++ token :: behind ∧
      (∀ x ∈ before, isSeparator x = false) ∧ token.kind = .identifier ∧ token.text = name := by
  constructor
  · intro hname
    obtain ⟨token, hmem, rfl⟩ := List.mem_map.1 hname
    obtain ⟨hmem, hkind⟩ := List.mem_filter.1 hmem
    obtain ⟨before, more, hsplit⟩ := List.append_of_mem hmem
    refine ⟨before, token, more ++ tokens.dropWhile (!isSeparator ·), ?_, ?_, ?_, rfl⟩
    · rw [← List.cons_append, ← List.append_assoc, ← hsplit, List.takeWhile_append_dropWhile]
    · intro x hx
      have hfront : x ∈ tokens.takeWhile (!isSeparator ·) := by
        rw [hsplit]
        exact List.mem_append_left _ hx
      simpa using List.mem_takeWhile_imp hfront
    · simpa using hkind
  · rintro ⟨before, token, behind, rfl, hbefore, hkind, rfl⟩
    have hseparator : isSeparator token = false := by
      rw [isSeparator, hkind]
      rfl
    unfold boundNames
    rw [List.takeWhile_append_of_pos (by simpa using hbefore), List.takeWhile_cons, hseparator]
    simp [hkind]

/-- Where the tokens of a loop stand makes no difference to the names. -/
theorem boundNames_move (n : Nat) (tokens : List Token) :
    boundNames (tokens.map (Token.move n)) = boundNames tokens := by
  unfold boundNames
  rw [List.takeWhile_map, List.filter_map, List.map_map]
  rfl

theorem binds_iff (hword : word.all isIdentChar) (hrest : Text.Stops isIdentChar rest) :
    Binds h ('#' :: (word ++ rest)) name ↔
      word = "each".toList ∧ name ∈ boundNames (tokenize h rest) := by
  rw [mem_boundNames]
  constructor
  · rintro ⟨rest', before, token, behind, heq, hrest', hname⟩
    obtain ⟨rfl, rfl⟩ := Text.run_inj hword (by decide) hrest hrest' (List.cons.inj heq).2
    exact ⟨rfl, before, token, behind, hname⟩
  · rintro ⟨rfl, before, token, behind, hname⟩
    exact ⟨rest, before, token, behind, rfl, hrest, hname⟩

theorem ends_iff (hword : word.all isIdentChar) (hrest : Text.Stops isIdentChar rest) :
    Ends ('#' :: (word ++ rest)) ↔ word = "end".toList := by
  constructor
  · rintro ⟨rest', heq, hrest'⟩
    exact (Text.run_inj hword (by decide) hrest hrest' (List.cons.inj heq).2).1
  · rintro rfl
    exact ⟨rest, rfl, hrest⟩

/-- Only its own word makes a directive into a loop, or into the end of a block. -/
theorem word_of_read? {directive : Directive} {n : Nat} (hword : word.all isIdentChar)
    (hrest : Text.Stops isIdentChar rest)
    (hread : read? (word ++ rest) = some (directive, n)) :
    (directive = .each → word = "each".toList) ∧ (directive = .endBlock → word = "end".toList) := by
  simp only [read?, Text.takeWhile_run hword hrest] at hread
  split at hread
  · cases hread
    exact ⟨nofun, nofun⟩
  · split at hread
    · split at hread
      · cases hread
        exact ⟨nofun, nofun⟩
      · cases hread
        exact ⟨nofun, nofun⟩
    · split at hread
      · next hend =>
        cases hread
        exact ⟨nofun, fun _ => hend⟩
      · split at hread
        · next heach =>
          cases hread
          exact ⟨fun _ => heach, nofun⟩
        · split at hread
          · cases hread
            exact ⟨nofun, nofun⟩
          · contradiction

/-- The names behind a directive: a loop adds its own, the end of a block leaves none, and any other
word keeps them. -/
theorem names_classify (hword : word.all isIdentChar) (hrest : Text.Stops isIdentChar rest) :
    (classify h names offset (word ++ rest)).2 =
      if word = "each".toList then boundNames (tokenize h rest) ++ names
      else if word = "end".toList then [] else names := by
  split
  · next heach =>
    subst heach
    have hread : read? ("each".toList ++ rest) = some (.each, 4) := by
      rw [read?, Text.takeWhile_run hword hrest]
      rfl
    have hdrop : ("each".toList ++ rest).drop 4 = rest := rfl
    simp only [classify, hread, hdrop, Expression.tokens_eq_move, boundNames_move]
  · next heach =>
    split
    · next hend =>
      subst hend
      have hread : read? ("end".toList ++ rest) = some (.endBlock, 3) := by
        rw [read?, Text.takeWhile_run hword hrest]
        rfl
      simp only [classify, hread, scope]
    · next hend =>
      unfold classify
      split
      · rfl
      · next directive n hread =>
        have hwords := word_of_read? hword hrest hread
        cases directive with
        | each => exact absurd (hwords.1 rfl) heach
        | endBlock => exact absurd (hwords.2 rfl) hend
        | ifThen => rfl
        | elseIf => rfl
        | otherwise => rfl
        | delimit => rfl

theorem mem_scope {directive : Directive} :
    name ∈ directive.scope names ↔ name ∈ names ∧ directive ≠ .endBlock := by
  cases directive with
  | endBlock => simp [scope]
  | ifThen => simp [scope]
  | elseIf => simp [scope]
  | otherwise => simp [scope]
  | each => simp [scope]
  | delimit => simp [scope]

end Directive

/-- A name is bound behind a segment if its body binds it, or does not end the block in which it was
bound. -/
theorem mem_names_body :
    name ∈ (bodyRegions h names offset body).2 ↔
      Directive.Binds h body name ∨ (name ∈ names ∧ ¬ Directive.Ends body) := by
  unfold bodyRegions
  split
  · next cs =>
    obtain ⟨word, rest, rfl, -, hword, hrest⟩ := Text.exists_run isIdentChar cs
    rw [Directive.names_classify hword hrest, Directive.binds_iff hword hrest,
      Directive.ends_iff hword hrest]
    by_cases heach : word = "each".toList
    · subst heach
      have hend : "each".toList ≠ "end".toList := by decide
      rw [if_pos rfl, List.mem_append]
      simp only [true_and, hend, not_false_eq_true, and_true]
    · rw [if_neg heach]
      by_cases hend : word = "end".toList
      · subst hend
        rw [if_pos rfl]
        simp only [heach, false_and, not_true_eq_false, and_false, or_false, List.not_mem_nil]
      · rw [if_neg hend]
        simp only [heach, hend, false_and, false_or, not_false_eq_true, and_true]
  · next hdirective =>
    -- without its mark, nothing is a directive
    have hbinds : ¬ Directive.Binds h body name := by
      rintro ⟨rest, -, -, -, rfl, -⟩
      exact hdirective _ rfl
    have hends : ¬ Directive.Ends body := by
      rintro ⟨rest, rfl, -⟩
      exact hdirective _ rfl
    split
    · simp [hbinds, hends]
    · simp [hbinds, hends]

/-! ## What stands where a reader is -/

namespace Scan

variable {s s' : Scan} {regions : List Region} {directive : Directive}

/-- The reader is at a directive that is without its closing brace. -/
def AtBare (s : Scan) (directive : Directive) : Prop :=
  ∃ cs keyword, s.Opens cs ∧ Directive.readBare? cs = some (directive, keyword)

/-- The reader is at a segment that ends, and whose trimmed body stands at this offset. -/
def AtSegment (s : Scan) (offset : Nat) (body : Text) : Prop :=
  ∃ cs e outcomes, s.Opens cs ∧ Directive.readBare? cs = none ∧
    Segment.end? s.outcomes (s.place.offset + 1) cs = (some e, outcomes) ∧
    offset = s.place.offset + 1 + Text.bytes ((cs.take e.length).takeWhile isBlank) ∧
    body = Text.trim (cs.take e.length)

theorem AtBare.inj {directive' : Directive} (hs : s.AtBare directive) (hs' : s.AtBare directive') :
    directive = directive' := by
  obtain ⟨cs, keyword, hopens, hbare⟩ := hs
  obtain ⟨cs', keyword', hopens', hbare'⟩ := hs'
  obtain rfl := hopens.inj hopens'
  cases hbare.symm.trans hbare'
  rfl

theorem AtSegment.inj {offset' : Nat} {body' : Text} (hs : s.AtSegment offset body)
    (hs' : s.AtSegment offset' body') : offset = offset' ∧ body = body' := by
  obtain ⟨cs, e, outcomes, hopens, -, hend, rfl, rfl⟩ := hs
  obtain ⟨cs', e', outcomes', hopens', -, hend', rfl, rfl⟩ := hs'
  obtain rfl := hopens.inj hopens'
  cases hend.symm.trans hend'
  exact ⟨rfl, rfl⟩

/-- A directive without its closing brace is no segment. -/
theorem AtBare.not_atSegment (hs : s.AtBare directive) : ¬ s.AtSegment offset body := by
  rintro ⟨cs, -, -, hopens, hnone, -⟩
  obtain ⟨cs', keyword, hopens', hbare⟩ := hs
  obtain rfl := hopens.inj hopens'
  rw [hnone] at hbare
  contradiction

/-- The reader is at a loop that binds the name. -/
def Binds (s : Scan) (name : Text) : Prop :=
  ∃ offset body, s.AtSegment offset body ∧ Directive.Binds s.heuristics body name

/-- The reader is at the end of a block, with its closing brace or without. -/
def Ends (s : Scan) : Prop :=
  s.AtBare .endBlock ∨ ∃ offset body, s.AtSegment offset body ∧ Directive.Ends body

theorem AtBare.ends_iff (hat : s.AtBare directive) : s.Ends ↔ directive = .endBlock := by
  constructor
  · rintro (hat' | ⟨offset, body, hat', -⟩)
    · exact hat.inj hat'
    · exact absurd hat' hat.not_atSegment
  · rintro rfl
    exact .inl hat

theorem AtSegment.ends_iff (hat : s.AtSegment offset body) : s.Ends ↔ Directive.Ends body := by
  constructor
  · rintro (hbare | ⟨offset', body', hat', hends⟩)
    · exact absurd hat hbare.not_atSegment
    · obtain ⟨-, rfl⟩ := hat.inj hat'
      exact hends
  · intro hends
    exact .inr ⟨offset, body, hat, hends⟩

theorem AtSegment.binds_iff (hat : s.AtSegment offset body) :
    s.Binds name ↔ Directive.Binds s.heuristics body name := by
  constructor
  · rintro ⟨offset', body', hat', hbinds⟩
    obtain ⟨-, rfl⟩ := hat.inj hat'
    exact hbinds
  · intro hbinds
    exact ⟨offset, body, hat, hbinds⟩

/-! ## Steps -/

/-- What a step shows and what it makes of the names, by what stands where the reader is. -/
inductive Effect (s : Scan) (regions : List Region) (s' : Scan) : Prop
  | bare {directive : Directive} (hat : s.AtBare directive)
      (hnames : s'.names = directive.scope s.names)
  | segment {offset : Nat} {body : Text} (hat : s.AtSegment offset body)
      (hnames : s'.names = (bodyRegions s.heuristics s.names offset body).2)
      (hregions : body ≠ [] → (bodyRegions s.heuristics s.names offset body).1 ⊆ regions)
  | literal (hbare : ∀ directive, ¬ s.AtBare directive)
      (hsegment : ∀ offset body, ¬ s.AtSegment offset body) (hnames : s'.names = s.names)

theorem Effect.of_not_opens (hs : ∀ cs, ¬ s.Opens cs) (hnames : s'.names = s.names) :
    s.Effect regions s' := by
  refine .literal ?_ ?_ hnames
  · rintro directive ⟨cs, -, hopens, -⟩
    exact hs cs hopens
  · rintro offset body ⟨cs, -, -, hopens, -⟩
    exact hs cs hopens

theorem effect_readSegment {cs : Text} (hopens : s.Opens cs) :
    s.Effect (s.readSegment Segment.end? cs).1 (s.readSegment Segment.end? cs).2 := by
  unfold readSegment
  split
  · next directive keyword hbare => exact .bare ⟨cs, keyword, hopens, hbare⟩ rfl
  · next hbare =>
    split
    · next outcomes hend =>
      refine .literal ?_ ?_ rfl
      · rintro directive ⟨cs', keyword, hopens', hbare'⟩
        obtain rfl := hopens.inj hopens'
        cases hbare.symm.trans hbare'
      · rintro offset body ⟨cs', e, outcomes', hopens', -, hend', -⟩
        obtain rfl := hopens.inj hopens'
        cases hend.symm.trans hend'
    · next e outcomes hend =>
      refine .segment ⟨cs, e, outcomes, hopens, hbare, hend, rfl, rfl⟩ ?_ fun hbody => ?_
      · unfold segmentRegions
        dsimp only
        split
        · next hempty =>
          rw [List.isEmpty_iff.1 hempty]
          rfl
        · rfl
      · unfold segmentRegions
        dsimp only
        rw [if_neg (by simpa using hbody)]
        exact List.subset_cons_of_subset _ (List.subset_append_left _ _)

theorem effect_next? (hnext : s.next? Segment.end? = some (regions, s')) :
    s.Effect regions s' := by
  rcases next?_cases hnext with ⟨cs, hopens, hread⟩ | ⟨hs, -, n, rfl⟩
  · have heffect := effect_readSegment hopens
    rwa [hread] at heffect
  · exact .of_not_opens hs rfl

/-- A reader keeps the limits for string literals. -/
theorem heuristics_next? (hnext : s.next? Segment.end? = some (regions, s')) :
    s'.heuristics = s.heuristics := by
  rcases next?_cases hnext with ⟨cs, -, hread⟩ | ⟨-, -, n, rfl⟩
  · obtain rfl : (s.readSegment Segment.end? cs).2 = s' := congrArg Prod.snd hread
    unfold readSegment
    split
    · rfl
    · split
      · rfl
      · rfl
  · rfl

/-- A name is bound behind a step if the step binds it, or does not end the block in which it was
bound. -/
theorem mem_names_next (hnext : s.next? Segment.end? = some (regions, s')) :
    name ∈ s'.names ↔ s.Binds name ∨ (name ∈ s.names ∧ ¬ s.Ends) := by
  cases effect_next? hnext with
  | bare hat hnames =>
    have hbinds : ¬ s.Binds name := by
      rintro ⟨offset, body, hat', -⟩
      exact hat.not_atSegment hat'
    rw [hnames, hat.ends_iff, Directive.mem_scope]
    simp only [hbinds, false_or]
  | segment hat hnames =>
    rw [hnames, mem_names_body, hat.binds_iff, hat.ends_iff]
  | literal hbare hsegment hnames =>
    have hbinds : ¬ s.Binds name := by
      rintro ⟨offset, body, hat, -⟩
      exact hsegment offset body hat
    have hends : ¬ s.Ends := by
      rintro (hat | ⟨offset, body, hat, -⟩)
      · exact hbare _ hat
      · exact hsegment offset body hat
    rw [hnames]
    simp only [hbinds, hends, false_or, not_false_eq_true, and_true]

/-! ## Runs -/

/-- A reader of the text comes to a state, after it was in the states of a history. -/
inductive Passes (h : Heuristics) (t : Text) : List Scan → Scan → Prop
  | start : Passes h t [] (.start h t)
  | next {history : List Scan} {s s' : Scan} {regions : List Region} (hs : Passes h t history s)
      (hnext : s.next? Segment.end? = some (regions, s')) : Passes h t (history ++ [s]) s'

/-- A loop of the history binds the name, and no block ends behind it. -/
def Bound (history : List Scan) (name : Text) : Prop :=
  ∃ before loop behind, history = before ++ loop :: behind ∧ loop.Binds name ∧
    ∀ s ∈ behind, ¬ s.Ends

theorem bound_concat {history : List Scan} :
    Bound (history ++ [s]) name ↔ s.Binds name ∨ (Bound history name ∧ ¬ s.Ends) := by
  constructor
  · rintro ⟨before, loop, behind, heq, hbinds, hbehind⟩
    rcases List.eq_nil_or_concat' behind with rfl | ⟨behind, last, rfl⟩
    · obtain ⟨-, hlast⟩ := List.append_inj' heq rfl
      obtain rfl : s = loop := by simpa using hlast
      exact .inl hbinds
    · rw [← List.cons_append, ← List.append_assoc] at heq
      obtain ⟨rfl, hlast⟩ := List.append_inj' heq rfl
      obtain rfl : s = last := by simpa using hlast
      refine .inr ⟨⟨before, loop, behind, rfl, hbinds, fun x hx => ?_⟩, ?_⟩
      · exact hbehind x (List.mem_append_left _ hx)
      · exact hbehind s (by simp)
  · rintro (hbinds | ⟨⟨before, loop, behind, rfl, hbinds, hbehind⟩, hs⟩)
    · exact ⟨history, s, [], rfl, hbinds, by simp⟩
    · refine ⟨before, loop, behind ++ [s], by simp, hbinds, fun x hx => ?_⟩
      rcases List.mem_append.1 hx with hx | hx
      · exact hbehind x hx
      · obtain rfl := List.mem_singleton.1 hx
        exact hs

namespace Passes

variable {history : List Scan}

theorem heuristics (hs : Passes h t history s) : s.heuristics = h := by
  induction hs with
  | start => rfl
  | next _ hnext ih => rw [heuristics_next? hnext, ih]

/-- The names that a reader carries are those that the loops behind it have bound. -/
theorem mem_names (hs : Passes h t history s) : name ∈ s.names ↔ Bound history name := by
  induction hs with
  | start =>
    constructor
    · exact nofun
    · rintro ⟨before, loop, behind, heq, -⟩
      simp at heq
  | next _ hnext ih => rw [mem_names_next hnext, bound_concat, ih]

/-- What is ahead of a reader is a part of what the template shows. -/
theorem ahead_subset (hs : Passes h t history s) : s.ahead ⊆ classify h t := by
  induction hs with
  | start => exact List.Subset.refl _
  | next _ hnext ih =>
    rw [ahead_of_some hnext] at ih
    exact fun r hr => ih (List.mem_append_right _ hr)

/-- The template shows the regions of every body that a reader comes to. -/
theorem body_subset (hs : Passes h t history s) (hat : s.AtSegment offset body)
    (hbody : body ≠ []) : (bodyRegions h s.names offset body).1 ⊆ classify h t := by
  obtain ⟨cs, hopens⟩ : ∃ cs, s.Opens cs := by
    obtain ⟨cs, -, -, hopens, -⟩ := hat
    exact ⟨cs, hopens⟩
  refine fun r hr => hs.ahead_subset ?_
  rw [ahead_of_some (hopens.next?_eq _)]
  apply List.mem_append_left
  cases effect_readSegment hopens with
  | bare hat' => exact absurd hat hat'.not_atSegment
  | segment hat' _ hregions =>
    obtain ⟨rfl, rfl⟩ := hat.inj hat'
    rw [hs.heuristics] at hregions
    exact hregions hbody hr
  | literal _ hsegment => exact absurd hat (hsegment offset body)

end Passes

end Scan

/-! ## Lone names -/

namespace Hole

/-- The expression of a hole: what stands in front of its format. -/
def expression (body : Text) : Text :=
  Text.trimEnd (match colon? body with
    | some n => body.take n
    | none => body)

theorem expression_prefix (body : Text) : expression body <+: body := by
  unfold expression
  split
  · exact (Text.trimEnd_prefix_self _).trans (List.take_prefix _ _)
  · exact Text.trimEnd_prefix_self body

theorem expressionRegions_subset (h : Heuristics) (names : LoopNames) (offset : Nat) (body : Text) :
    expressionRegions h names offset (expression body) ⊆ regions h names offset body := by
  unfold regions expression
  cases colon? body with
  | none => exact List.Subset.refl _
  | some n => exact List.subset_append_left _ _

/-- A lone name is shown as one that a loop has bound or as that of a property. -/
theorem expressionRegions_name {token : Token} (htokens : tokenize h t = [token])
    (hkind : token.kind = .identifier) (hhead : token.text.head? ≠ some '@') :
    expressionRegions h names offset t =
      [⟨if names.contains token.text then .expressionProperty else .propertyName,
        offset + token.start, token.text⟩] := by
  have hproperty : property? [token.move offset] = some (token.move offset) :=
    if_pos ⟨hkind, hhead⟩
  rw [expressionRegions, Expression.tokens_eq_move, htokens, List.map_singleton, hproperty]
  simp [Token.move, Nat.add_comm]

/-- A lone name begins as names do. -/
theorem isIdentStart_of_name {token : Token} {c : Char} {more : Text} (hc : isBlank c = false)
    (htokens : tokenize h (c :: more) = [token]) (hkind : token.kind = .identifier)
    (hhead : token.text.head? ≠ some '@') : isIdentStart c := by
  have hread : Token.read h none 0 c more = token := by
    have hnext : (Tokenizer.start h (.start (c :: more))).next? = _ := Tokenizer.next?_cons hc
    exact (List.cons.inj ((drain_of_some hnext).symm.trans htokens)).1
  have hmem : token ∈ tokenize h (c :: more) := htokens ▸ List.mem_singleton_self token
  have hplain : token.text = token.source :=
    ((Tokenizer.faithful_of_mem_tokens _ token hmem).plain (by simp [hkind])).1
  rw [hplain] at hhead
  subst hread
  rcases Token.begins_of_identifier hkind with rfl | hstart
  · obtain ⟨s, hsource, -⟩ := Token.source_read h none 0 '@' more
    rw [hsource] at hhead
    exact absurd rfl hhead
  · exact hstart

/-- A body that holds a lone name is neither a directive nor an indexer. -/
theorem bodyRegions_name {token : Token} (hbody : Text.Stops isBlank body)
    (htokens : tokenize h (expression body) = [token]) (hkind : token.kind = .identifier)
    (hhead : token.text.head? ≠ some '@') :
    bodyRegions h names offset body = (regions h names offset body, names) := by
  obtain ⟨rest, hrest⟩ := expression_prefix body
  obtain ⟨c, more, hexpression⟩ : ∃ c more, expression body = c :: more := by
    cases hexpression : expression body with
    | nil =>
      rw [hexpression] at htokens
      exact absurd (htokens.symm.trans (Tokenizer.tokens_nil ..)) (List.cons_ne_nil _ _)
    | cons c more => exact ⟨c, more, rfl⟩
  rw [hexpression, List.cons_append] at hrest
  rw [hexpression] at htokens
  have hstart : isIdentStart c :=
    isIdentStart_of_name (hbody c (by rw [← hrest]; rfl)) htokens hkind hhead
  have hmark : c ≠ '#' := ne_of_isIdentStart hstart (by decide +kernel)
  have hat : c ≠ '@' := ne_of_isIdentStart hstart (by decide +kernel)
  rw [← hrest]
  apply bodyRegions_hole
  · simpa using hmark
  · unfold Indexer.read?
    split
    · next heq =>
      exact absurd (List.cons.inj heq).1 hat
    · rfl

end Hole

namespace Scan

/-- A hole that holds a lone name shows it as one that a loop has bound exactly if a loop before it
has, and no block has ended since; otherwise it is the name of a property. -/
theorem Passes.region_name {history : List Scan} {s : Scan} {token : Token}
    (hs : Passes h t history s) (hat : s.AtSegment offset body)
    (htokens : tokenize h (Hole.expression body) = [token]) (hkind : token.kind = .identifier)
    (hhead : token.text.head? ≠ some '@') :
    ∃ r ∈ classify h t, r.start = offset + token.start ∧ r.text = token.text ∧
      (Bound history token.text → r.category = .expressionProperty) ∧
      (¬ Bound history token.text → r.category = .propertyName) ∧
      ∀ r' ∈ classify h t, r'.start = r.start → r' = r := by
  have hblank : Text.Stops isBlank body := by
    obtain ⟨cs, e, -, -, -, -, -, rfl⟩ := hat
    exact Text.stops_trim _
  have hbody : body ≠ [] := by
    rintro rfl
    exact absurd (htokens.symm.trans (Tokenizer.tokens_nil ..)) (List.cons_ne_nil _ _)
  have hshown := hs.body_subset hat hbody
  rw [Hole.bodyRegions_name hblank htokens hkind hhead] at hshown
  have hmem := hshown (Hole.expressionRegions_subset h s.names offset body
    (Hole.expressionRegions_name htokens hkind hhead ▸ List.mem_singleton_self _))
  refine ⟨_, hmem, rfl, rfl, fun hbound => ?_, fun hfree => ?_, fun r' hr' hstart => ?_⟩
  · exact if_pos (List.contains_iff_mem.2 (hs.mem_names.2 hbound))
  · rw [← hs.mem_names] at hfree
    exact if_neg (by simpa using hfree)
  · exact (shown_classify h t).eq_of_start_eq hr' hmem hstart

/-- In `{#each x in Xs}{x}{Xs}` the loop binds the name in front of its separator, but not the one
behind it. -/
theorem Passes.region_name_each :
    (∃ r ∈ classify .standard "\x7b#each x in Xs\x7d{x}{Xs}".toList,
      r.start = 16 ∧ r.text = ['x'] ∧ r.category = .expressionProperty) ∧
    ∃ r ∈ classify .standard "\x7b#each x in Xs\x7d{x}{Xs}".toList,
      r.start = 19 ∧ r.text = ['X', 's'] ∧ r.category = .propertyName := by
  let template := "\x7b#each x in Xs\x7d{x}{Xs}".toList
  let loop := Scan.start .standard template
  let bound := (loop.readSegment Segment.end? "#each x in Xs\x7d{x}{Xs}".toList).2
  let free := (bound.readSegment Segment.end? "x\x7d{Xs}".toList).2
  have hloop : Passes .standard template [loop] bound := .next .start rfl
  have hboth : Passes .standard template [loop, bound] free := .next hloop rfl
  constructor
  · have hat : bound.AtSegment 16 ['x'] :=
      ⟨"x\x7d{Xs}".toList, ⟨1, 17, '}', none⟩, bound.outcomes, ⟨rfl, by decide⟩, rfl, rfl, rfl, rfl⟩
    have htokens : tokenize .standard (Hole.expression ['x']) =
        [⟨.identifier, ['x'], ['x'], 0⟩] := by
      decide +kernel
    have hbound : ['x'] ∈ bound.names := by decide +kernel
    obtain ⟨r, hr, hstart, htext, hcategory, -⟩ := hloop.region_name hat htokens rfl (by decide)
    exact ⟨r, hr, hstart, htext, hcategory (hloop.mem_names.1 hbound)⟩
  · have hat : free.AtSegment 19 ['X', 's'] :=
      ⟨"Xs\x7d".toList, ⟨2, 21, '}', none⟩, free.outcomes, ⟨rfl, by decide⟩, rfl, rfl, rfl, rfl⟩
    have htokens : tokenize .standard (Hole.expression ['X', 's']) =
        [⟨.identifier, ['X', 's'], ['X', 's'], 0⟩] := by
      decide +kernel
    have hfree : ['X', 's'] ∉ free.names := by decide +kernel
    obtain ⟨r, hr, hstart, htext, -, hcategory, -⟩ := hboth.region_name hat htokens rfl (by decide)
    exact ⟨r, hr, hstart, htext, hcategory fun hbound => hfree (hboth.mem_names.2 hbound)⟩

end Scan

end LogSyntax.ExpressionTemplate
