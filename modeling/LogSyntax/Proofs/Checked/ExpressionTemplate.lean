import LogSyntax.Proofs.Checked.Tokenizer
import LogSyntax.Proofs.ExpressionTemplate.Marker
import LogSyntax.Proofs.ExpressionTemplate.Octets
/-!
# Segments of an expression template, cut by offsets

What begins at an opening brace is read by offsets: the ends of keys, expressions and segments are
found among the octets, and what stands between two offsets is cut from the template or from the
body of the segment. No cut fails, and the regions are those of the segment whose text is at hand.
-/

namespace LogSyntax.Checked.Template

open LogSyntax.ExpressionTemplate (LoopNames Outcomes Segment.End)
open LogSyntax.ExpressionTemplate.Directive (loopRegions boundNames)

/-! ## Directives -/

/-- The number of bytes that the white space and the word `if` take at the head of a text, where
they make an `else` into an `else if`. -/
def elseIfBytes? (t : Text) : Option (Option Nat) :=
  let trimmed := Text.trimStart t
  let gap := Text.bytes t - Text.bytes trimmed
  if gap ≠ 0 ∧ "if".toList.isPrefixOf trimmed then
    (trimmed.from? 2).map fun behind =>
      if behind.head?.any isIdentChar then none else some (gap + 2)
  else some none

/-- A directive behind the brace at an offset that needs no closing brace, and its keyword. -/
def readBare? (input : Text) (start : Nat) :
    Option (Option (ExpressionTemplate.Directive × Text)) := do
  let bare (directive : ExpressionTemplate.Directive) (keyword : Text) := do
    let tail ← input.slice? (start + 1 + Text.bytes keyword) (Text.bytes input)
    return if ExpressionTemplate.Directive.standsAlone tail then some (directive, keyword) else none
  let rest ← input.slice? (start + 1) (Text.bytes input)
  if "#end".toList.isPrefixOf rest then bare .endBlock "#end".toList
  else if "#else".toList.isPrefixOf rest then
    let tail ← rest.from? 5
    let more ← elseIfBytes? tail
    if more.isNone then bare .otherwise "#else".toList else return none
  else return none

/-- The region of the marker that ends at an offset of the body. -/
def marker? (offset : Nat) (body : Text) (stop : Nat) : Option Region :=
  (body.slice? 0 stop).map (⟨.expressionDirective, offset, ·⟩)

/-- The regions of a directive whose marker ends at an offset of the body and has a condition. -/
def condition? (h : Heuristics) (offset : Nat) (body : Text) (stop : Nat) :
    Option (List Region) := do
  let mark ← marker? offset body stop
  let condition ← body.from? stop
  let regions ← Expression.regions? h (offset + stop) condition
  return mark :: regions

/-- The regions of the directive whose body begins with `#` at an offset, and the names that are
bound behind it. -/
def directive? (h : Heuristics) (names : LoopNames) (offset : Nat) (body : Text) :
    Option (List Region × LoopNames) := do
  let behind ← body.from? 1
  let wordEnd := 1 + Text.bytes (behind.takeWhile isIdentChar)
  let word ← body.slice? 1 wordEnd
  if word = "if".toList then return (← condition? h offset body wordEnd, names)
  else if word = "else".toList then
    let tail ← body.from? wordEnd
    let more ← elseIfBytes? tail
    match more with
    | some n => return (← condition? h offset body (wordEnd + n), names)
    | none => return ([← marker? offset body wordEnd], names)
  else if word = "end".toList then return ([← marker? offset body wordEnd], [])
  else if word = "each".toList then
    let mark ← marker? offset body wordEnd
    let loop ← body.from? wordEnd
    let tokens ← Expression.tokens? h (offset + wordEnd) loop
    return (mark :: loopRegions tokens, boundNames tokens ++ names)
  else if word = "delimit".toList then return ([← marker? offset body wordEnd], names)
  else return ([], names)

/-! ## Holes -/

/-- The octets of a text from an offset on, if there are so many. -/
def octetsFrom? (t : Text) (n : Nat) : Option Text :=
  if n ≤ (Text.octets t).length then some ((Text.octets t).drop n) else none

/-- The offset of the quote that closes a key in brackets, which begins at an offset. -/
def closingQuote? (body : Text) (openBracket : Nat) : Option (Option Nat) :=
  let octets := Text.octets body
  if octets[openBracket]? = some '[' then
    match octets[openBracket + 1]? with
    | none => some none
    | some quote =>
      if quote = '\'' ∨ quote = '"' then
        (octetsFrom? body (openBracket + 2)).map fun rest =>
          let key := rest.takeWhile (· != quote)
          let closeQuote := openBracket + 2 + key.length
          if key.length < rest.length ∧ octets[closeQuote + 1]? = some ']' then some closeQuote
          else none
      else some none
  else some none

/-- The regions of what follows a key in brackets. -/
def behindKey? (h : Heuristics) (offset : Nat) (tail : Text) : Option (List Region) :=
  match tail with
  | ':' :: format => some (Region.visible .formatSpecifier (offset + 1) format)
  | tail => Expression.regions? h offset tail

/-- The regions of a body that is a built-in property, a bracket at an offset and a key that is
closed at another one. -/
def indexed? (h : Heuristics) (offset : Nat) (body : Text) (openBracket closeQuote : Nat) :
    Option (List Region) := do
  let builtin ← body.slice? 0 openBracket
  let literal ← body.slice? (openBracket + 1) (closeQuote + 1)
  let tail ← body.from? (closeQuote + 2)
  let behind ← behindKey? h (offset + (closeQuote + 2)) tail
  return [⟨.expressionBuiltin, offset, builtin⟩,
    ⟨.expressionOperator, offset + openBracket, ['[']⟩,
    ⟨.expressionLiteral, offset + (openBracket + 1), literal⟩,
    ⟨.expressionOperator, offset + (closeQuote + 1), [']']⟩] ++ behind

/-- The regions of a built-in property indexed by a quoted key, if they make up the head of the
body. -/
def indexer? (h : Heuristics) (offset : Nat) (body : Text) : Option (Option (List Region)) :=
  if body.head? = some '@' then do
    let behind ← body.from? 1
    let found ← builtinCode? behind
    match found with
    | none => return none
    | some code =>
      let openBracket := 1 + Text.bytes code.toList
      let closing ← closingQuote? body openBracket
      match closing with
      | none => return none
      | some closeQuote => return some (← indexed? h offset body openBracket closeQuote)
  else some none

/-- The regions of the expression of a hole. -/
def expression? (h : Heuristics) (names : LoopNames) (offset : Nat) (t : Text) :
    Option (List Region) :=
  (Expression.tokens? h offset t).map fun tokens =>
    match ExpressionTemplate.Hole.property? tokens with
    | some token =>
      let category := if names.contains token.text then .expressionProperty else .propertyName
      [⟨category, token.start, token.text⟩]
    | none => tokens.filterMap Region.ofToken?

/-- The regions of a hole, and of its format if it has one. -/
def hole? (h : Heuristics) (names : LoopNames) (offset : Nat) (body : Text) :
    Option (List Region) :=
  match ExpressionTemplate.Hole.colon? (Text.octets body) with
  | none => expression? h names offset (Text.trimEnd body)
  | some colon => do
    let expr ← body.slice? 0 colon
    let format ← body.from? (colon + 1)
    let regions ← expression? h names offset (Text.trimEnd expr)
    return regions ++ Region.visible .formatSpecifier (offset + (colon + 1)) format

/-! ## Segments -/

/-- The regions of the body of a segment at an offset, and the names that are bound behind it. -/
def body? (h : Heuristics) (names : LoopNames) (offset : Nat) (body : Text) :
    Option (List Region × LoopNames) :=
  if body.head? = some '#' then directive? h names offset body
  else do
    let found ← indexer? h offset body
    match found with
    | some regions => return (regions, names)
    | none => return (← hole? h names offset body, names)

/-- The offset where the segment ends whose opening brace stands at an offset, and what is known of
nested groups then. -/
def segmentEnd? (input : Text) (outcomes : Outcomes) (start : Nat) :
    Option (Option Nat × Outcomes) := do
  let rest ← input.slice? (start + 1) (Text.bytes input)
  let octets ← octetsFrom? input (start + 1)
  return (ExpressionTemplate.Segment.Search.start outcomes).endOffset?
    (!ExpressionTemplate.Segment.isDirective rest) (start + 1) octets

/-- The regions of the segment between the offsets of its opening brace and of its end, and the
names that are bound behind it. -/
def segment? (h : Heuristics) (names : LoopNames) (input : Text) (start stop : Nat) :
    Option (List Region × LoopNames) := do
  let content ← input.slice? (start + 1) stop
  let body := Text.trim content
  if body.isEmpty then return ([], names)
  else
    let offset := start + 1 + (Text.bytes content - Text.bytes (Text.trimStart content))
    let (regions, names') ← body? h names offset body
    let terminator ← input.slice? stop (stop + 1)
    return (⟨.propertyBrace, start, ['{']⟩ :: (regions ++ [⟨.propertyBrace, stop, terminator⟩]),
      names')

/-! ## In the template -/

variable {behind cs : Text} {c : Char}

theorem elseIfBytes?_eq (t : Text) : elseIfBytes? t = some
    ((ExpressionTemplate.Directive.elseIfLength? t).map fun n => Text.bytes (t.take n)) := by
  obtain ⟨gap, v, rfl, -, hgap, hv⟩ := Text.exists_run isBlank t
  have htrim : Text.trimStart (gap ++ v) = v := Text.dropWhile_run hgap hv
  have hbytes : Text.bytes (gap ++ v) - Text.bytes v = Text.bytes gap := by
    rw [Text.bytes_append, Nat.add_sub_cancel]
  simp only [elseIfBytes?, ExpressionTemplate.Directive.elseIfLength?_run hgap hv, htrim, hbytes,
    ne_eq, Text.bytes_eq_zero]
  by_cases hword : "if".toList <+: v
  · obtain ⟨u, rfl⟩ := hword
    have hbehind : Text.from? ("if".toList ++ u) 2 = some u := Text.from?_append "if".toList u
    by_cases hgap : gap = []
    · rw [if_neg (by simp [hgap]), if_neg (by simp [hgap])]
      rfl
    · have hlonger : Text.bytes ((gap ++ ("if".toList ++ u)).take (gap.length + 2)) =
          Text.bytes gap + 2 := by
        rw [List.take_length_add_append, Text.bytes_append]
        rfl
      rw [if_pos ⟨hgap, by simp [List.isPrefixOf]⟩, hbehind]
      cases hnext : u.head?.any isIdentChar with
      | true => simp [hnext]
      | false => simp [hnext, hgap, ← hlonger]
  · have htake : ¬ v.take 2 = "if".toList := fun htake => hword (htake ▸ List.take_prefix 2 v)
    rw [if_neg fun hif => hword (List.isPrefixOf_iff_prefix.1 hif.2),
      if_neg fun hif => htake hif.2.1]
    rfl

theorem slice?_behind (behind keyword tail : Text) :
    Text.slice? (behind ++ '{' :: (keyword ++ tail)) (Text.bytes behind + 1 + Text.bytes keyword)
      (Text.bytes (behind ++ '{' :: (keyword ++ tail))) = some tail := by
  have hslice := Text.slice?_stop (behind ++ '{' :: keyword) tail
  have hbytes : Text.bytes (behind ++ '{' :: keyword) =
      Text.bytes behind + 1 + Text.bytes keyword := by
    rw [Text.bytes_append, Text.bytes_cons, Nat.add_assoc]
    rfl
  rwa [hbytes, List.append_assoc, List.cons_append] at hslice

theorem readBare?_eq (behind cs : Text) : readBare? (behind ++ '{' :: cs) (Text.bytes behind) =
    some (ExpressionTemplate.Directive.readBare? cs) := by
  have hrest := slice?_behind behind [] cs
  rw [List.nil_append, Text.bytes_nil, Nat.add_zero] at hrest
  simp only [readBare?, hrest, Option.bind_eq_bind, Option.bind_some,
    ExpressionTemplate.Directive.readBare?]
  by_cases hend : "#end".toList.isPrefixOf cs
  · obtain ⟨tail, rfl⟩ := List.isPrefixOf_iff_prefix.1 hend
    rw [if_pos hend, if_pos hend, slice?_behind, List.drop_left]
    rfl
  rw [if_neg hend, if_neg hend]
  by_cases helse : "#else".toList.isPrefixOf cs
  · obtain ⟨tail, rfl⟩ := List.isPrefixOf_iff_prefix.1 helse
    have htail : Text.from? ("#else".toList ++ tail) 5 = some tail :=
      Text.from?_append "#else".toList tail
    have hdrop : ("#else".toList ++ tail).drop 5 = tail := rfl
    rw [if_pos helse, htail, Option.bind_some, elseIfBytes?_eq, Option.bind_some, Option.isNone_map,
      slice?_behind, hdrop]
    by_cases hmore : (ExpressionTemplate.Directive.elseIfLength? tail).isNone
    · rw [if_pos hmore, if_pos ⟨helse, hmore⟩]
      rfl
    · rw [if_neg hmore, if_neg fun hboth => hmore hboth.2]
      rfl
  · rw [if_neg helse, if_neg fun hboth => helse hboth.1]
    rfl

theorem marker?_append (offset : Nat) (mark rest : Text) :
    marker? offset (mark ++ rest) (Text.bytes mark) =
      some ⟨.expressionDirective, offset, mark⟩ := by
  rw [marker?, Text.slice?_zero]
  rfl

theorem condition?_append (h : Heuristics) (offset : Nat) (mark rest : Text) :
    condition? h offset (mark ++ rest) (Text.bytes mark) =
      some (⟨.expressionDirective, offset, mark⟩ ::
        LogSyntax.Expression.regions h (offset + Text.bytes mark) rest) := by
  simp only [condition?, marker?_append, Text.from?_append, regions?_eq, Option.bind_eq_bind,
    Option.bind_some]
  rfl

theorem condition?_elseIf (h : Heuristics) (offset n : Nat) (rest : Text) :
    condition? h offset ('#' :: "else".toList ++ rest)
        (Text.bytes ('#' :: "else".toList) + Text.bytes (rest.take n)) =
      some (⟨.expressionDirective, offset, '#' :: ("else".toList ++ rest).take (4 + n)⟩ ::
        LogSyntax.Expression.regions h
          (offset + Text.bytes ('#' :: ("else".toList ++ rest).take (4 + n)))
          (("else".toList ++ rest).drop (4 + n))) := by
  have hlength : 4 = "else".toList.length := rfl
  have hsplit : '#' :: "else".toList ++ rest =
      ('#' :: "else".toList ++ rest.take n) ++ rest.drop n := by
    rw [List.append_assoc, List.take_append_drop]
  have hstop : Text.bytes ('#' :: "else".toList) + Text.bytes (rest.take n) =
      Text.bytes ('#' :: "else".toList ++ rest.take n) := (Text.bytes_append _ _).symm
  rw [hlength, List.take_length_add_append, List.drop_length_add_append, hstop, hsplit,
    condition?_append]
  rfl

theorem directive?_eq (h : Heuristics) (names : LoopNames) (offset : Nat) (cs : Text) :
    directive? h names offset ('#' :: cs) =
      some (ExpressionTemplate.Directive.classify h names offset cs) := by
  obtain ⟨word, rest, rfl, -, hword, hrest⟩ := Text.exists_run isIdentChar cs
  have hbody : '#' :: (word ++ rest) = ('#' :: word) ++ rest := rfl
  have hwordEnd : 1 + Text.bytes word = Text.bytes ('#' :: word) := rfl
  have hbehind : Text.from? ('#' :: (word ++ rest)) 1 = some (word ++ rest) :=
    Text.from?_append ['#'] (word ++ rest)
  have hslice : Text.slice? ('#' :: (word ++ rest)) 1 (1 + Text.bytes word) = some word :=
    Text.slice?_append ['#'] word rest
  simp only [directive?, hbehind, Text.takeWhile_run hword hrest, hslice, Option.bind_eq_bind,
    Option.bind_some, ExpressionTemplate.Directive.classify, ExpressionTemplate.Directive.read?]
  rw [hbody, hwordEnd]
  split
  · next hif =>
    subst hif
    rw [condition?_append]
    rfl
  split
  · next helse =>
    subst helse
    have hdrop : ("else".toList ++ rest).drop 4 = rest := rfl
    rw [hdrop, Text.from?_append, Option.bind_some, elseIfBytes?_eq, Option.bind_some]
    cases hmore : ExpressionTemplate.Directive.elseIfLength? rest with
    | none =>
      rw [marker?_append]
      rfl
    | some n =>
      dsimp only [Option.map_some]
      rw [condition?_elseIf]
      rfl
  split
  · next hend =>
    subst hend
    rw [marker?_append]
    rfl
  split
  · next heach =>
    subst heach
    rw [marker?_append, Option.bind_some, Text.from?_append, Option.bind_some, tokens?_eq]
    rfl
  split
  · next hdelimit =>
    subst hdelimit
    rw [marker?_append]
    rfl
  · rfl

/-! ### Holes -/

theorem octetsFrom?_append (before after : Text) :
    octetsFrom? (before ++ after) (Text.bytes before) = some (Text.octets after) := by
  have hle : Text.bytes before ≤ (Text.octets (before ++ after)).length := by
    rw [Text.length_octets, Text.bytes_append]
    exact Nat.le_add_right _ _
  rw [octetsFrom?, if_pos hle, Text.octets_append, ← Text.length_octets, List.drop_left]

theorem isAscii_quote {quote : Char} (hquote : quote = '\'' ∨ quote = '"') : IsAscii quote := by
  rcases hquote with rfl | rfl
  · decide
  · decide

/-- Behind a bracket and a quote, the quote that closes the key is the first one among the octets,
as it is among the characters. -/
theorem closingQuote?_key (hc : c = '\'' ∨ c = '"') (before cs : Text) :
    closingQuote? (before ++ '[' :: c :: cs) (Text.bytes before) =
      some ((ExpressionTemplate.Indexer.readKey? ('[' :: c :: cs)).map fun found =>
        Text.bytes before + 2 + Text.bytes found.2.1) := by
  have hsize : c.utf8Size = 1 := Text.utf8Size_ascii (isAscii_quote hc)
  have hbytes (s : Text) : Text.bytes (before ++ '[' :: c :: s) =
      Text.bytes before + 2 + Text.bytes s := by
    have hopen : '['.utf8Size = 1 := rfl
    rw [Text.bytes_append, Text.bytes_cons, Text.bytes_cons, hopen, hsize]
    omega
  have hbracket : (Text.octets (before ++ '[' :: c :: cs))[Text.bytes before]? = some '[' := by
    rw [Text.getElem?_octets, Text.head?_octets (by decide), List.head?_cons]
  have hquote : (Text.octets (before ++ '[' :: c :: cs))[Text.bytes before + 1]? = some c := by
    have hget := Text.getElem?_octets (before ++ ['[']) (c :: cs)
    rw [(Text.head?_octets (isAscii_quote hc)).2 rfl, Text.bytes_append, List.append_assoc] at hget
    exact hget
  have hrest : octetsFrom? (before ++ '[' :: c :: cs) (Text.bytes before + 2) =
      some (Text.octets cs) := by
    have hfrom := octetsFrom?_append (before ++ ['[', c]) cs
    rwa [hbytes, List.append_assoc] at hfrom
  have hbeyond : ∀ b, ¬ IsAscii b → (b != c) = true := fun b hb => by
    simpa using ne_of_not_isAscii hb (isAscii_quote hc)
  obtain ⟨key, u, rfl, -, hkey, hu⟩ := Text.exists_run (· != c) cs
  simp only [closingQuote?, if_pos hbracket, hquote, if_pos hc, hrest, Option.map_some,
    Text.takeWhile_octets hbeyond, Text.takeWhile_run hkey hu, Text.length_octets,
    Text.bytes_append, ExpressionTemplate.Indexer.readKey?, List.drop_left]
  rcases u with - | ⟨d, v⟩
  · simp
  obtain rfl : d = c := by simpa using hu d rfl
  have hlt : Text.bytes key < Text.bytes key + Text.bytes (d :: v) := by
    rw [Text.bytes_cons, hsize]
    omega
  have hclosing : (Text.octets (before ++ '[' :: d :: (key ++ d :: v)))[
      Text.bytes before + 2 + Text.bytes key + 1]? = some ']' ↔ v.head? = some ']' := by
    have hget := Text.getElem?_octets (before ++ '[' :: d :: (key ++ [d])) v
    rw [hbytes, Text.bytes_append, Text.bytes_cons, hsize, ← Nat.add_assoc] at hget
    rw [← Text.head?_octets (by decide), ← hget]
    simp
  by_cases hv : v.head? = some ']'
  · obtain ⟨v, rfl⟩ := List.head?_eq_some_iff.1 hv
    rw [if_pos ⟨hlt, hclosing.2 rfl⟩]
    rfl
  · rw [if_neg fun h => hv (hclosing.1 h.2)]
    split
    · next hcons =>
      obtain ⟨-, rfl⟩ := List.cons.inj hcons
      exact absurd rfl hv
    · rfl

/-- Where no bracket and quote stand, no key is found. -/
theorem closingQuote?_eq_none (before t : Text)
    (ht : ∀ c cs, t = '[' :: c :: cs → ¬ (c = '\'' ∨ c = '"')) :
    closingQuote? (before ++ t) (Text.bytes before) = some none := by
  unfold closingQuote?
  dsimp only
  rw [Text.getElem?_octets]
  split
  · next hbracket =>
    rw [Text.head?_octets (by decide)] at hbracket
    obtain ⟨t, rfl⟩ := List.head?_eq_some_iff.1 hbracket
    have hbehind : (Text.octets (before ++ '[' :: t))[Text.bytes before + 1]? =
        (Text.octets t).head? := by
      have hget := Text.getElem?_octets (before ++ ['[']) t
      rwa [Text.bytes_append, List.append_assoc] at hget
    rw [hbehind]
    cases hhead : (Text.octets t).head? with
    | none => rfl
    | some quote =>
      have hquote : ¬ (quote = '\'' ∨ quote = '"') := by
        intro hquote
        rw [Text.head?_octets (isAscii_quote hquote)] at hhead
        obtain ⟨cs, rfl⟩ := List.head?_eq_some_iff.1 hhead
        exact ht quote cs rfl hquote
      exact if_neg hquote
  · rfl

/-- A key in brackets is found among the octets where it is found among the characters. -/
theorem closingQuote?_append (before t : Text) : closingQuote? (before ++ t) (Text.bytes before) =
    some ((ExpressionTemplate.Indexer.readKey? t).map fun found =>
      Text.bytes before + 2 + Text.bytes found.2.1) := by
  by_cases ht : ∃ c cs, t = '[' :: c :: cs ∧ (c = '\'' ∨ c = '"')
  · obtain ⟨c, cs, rfl, hc⟩ := ht
    exact closingQuote?_key hc before cs
  · have hread : ExpressionTemplate.Indexer.readKey? t = none := by
      unfold ExpressionTemplate.Indexer.readKey?
      split
      · exact if_neg fun hquote => ht ⟨_, _, rfl, hquote⟩
      · rfl
    rw [hread, closingQuote?_eq_none before t fun c cs heq hc => ht ⟨c, cs, heq, hc⟩]
    rfl

theorem behindKey?_eq (h : Heuristics) (offset : Nat) (tail : Text) : behindKey? h offset tail =
    some (match tail with
      | ':' :: format => Region.visible .formatSpecifier (offset + 1) format
      | tail => LogSyntax.Expression.regions h offset tail) := by
  unfold behindKey?
  split
  · rfl
  · rw [regions?_eq]

/-- The regions of an indexer are cut from its text at its offsets. -/
theorem indexed?_eq {x : ExpressionTemplate.Indexer} (h : Heuristics) (offset : Nat)
    (hx : x.WellFormed) :
    indexed? h offset x.text (Text.bytes ('@' :: x.code.toList))
      (Text.bytes ('@' :: x.code.toList) + 2 + Text.bytes x.key) = some (x.regions h offset) := by
  have hsize := Text.utf8Size_ascii (isAscii_quote hx.quote)
  have hopen : Text.bytes ('@' :: x.code.toList ++ ['[']) =
      Text.bytes ('@' :: x.code.toList) + 1 := Text.bytes_append _ _
  have hliteralBytes : Text.bytes (x.quote :: (x.key ++ [x.quote])) = Text.bytes x.key + 2 := by
    rw [Text.bytes_cons, Text.bytes_append, Text.bytes_cons, Text.bytes_nil, hsize]
    omega
  have hkey : Text.bytes ('@' :: x.code.toList) + 1 +
      Text.bytes (x.quote :: (x.key ++ [x.quote])) =
        Text.bytes ('@' :: x.code.toList) + 2 + Text.bytes x.key + 1 := by
    omega
  have hbuiltin : x.text.slice? 0 (Text.bytes ('@' :: x.code.toList)) =
      some ('@' :: x.code.toList) := Text.slice?_zero _ _
  have hliteral : x.text.slice? (Text.bytes ('@' :: x.code.toList) + 1)
      (Text.bytes ('@' :: x.code.toList) + 2 + Text.bytes x.key + 1) =
        some (x.quote :: (x.key ++ [x.quote])) := by
    have hslice := Text.slice?_append ('@' :: x.code.toList ++ ['['])
      (x.quote :: (x.key ++ [x.quote])) ([']'] ++ x.tail)
    rwa [hopen, hkey, List.append_assoc] at hslice
  have htail : x.text.from? (Text.bytes ('@' :: x.code.toList) + 2 + Text.bytes x.key + 2) =
      some x.tail := by
    have hfrom := Text.from?_append
      ('@' :: x.code.toList ++ ['['] ++ (x.quote :: (x.key ++ [x.quote])) ++ [']']) x.tail
    rw [Text.bytes_append, Text.bytes_append, hopen, hkey, List.append_assoc, List.append_assoc,
      List.append_assoc] at hfrom
    exact hfrom
  have hclosing : offset + (Text.bytes ('@' :: x.code.toList) + 2 + Text.bytes x.key + 1) =
      offset + Text.bytes ('@' :: x.code.toList) + 1 +
        Text.bytes (x.quote :: (x.key ++ [x.quote])) := by
    omega
  have hbehind : offset + (Text.bytes ('@' :: x.code.toList) + 2 + Text.bytes x.key + 2) =
      offset + Text.bytes ('@' :: x.code.toList) + 1 +
        Text.bytes (x.quote :: (x.key ++ [x.quote])) + 1 := by
    omega
  simp only [indexed?, hbuiltin, hliteral, htail, behindKey?_eq, Option.bind_eq_bind,
    Option.bind_some, hclosing, hbehind]
  rfl

/-- The regions of an indexer are cut from the body at its offsets. -/
theorem indexer?_eq (h : Heuristics) (offset : Nat) (body : Text) : indexer? h offset body =
    some ((ExpressionTemplate.Indexer.read? body).map (·.regions h offset)) := by
  unfold indexer?
  rcases body with - | ⟨c, cs⟩
  · rfl
  by_cases hc : c = '@'
  swap
  · rw [if_neg (by simpa using hc)]
    simp [ExpressionTemplate.Indexer.read?, hc]
  subst hc
  have hbehind : Text.from? ('@' :: cs) 1 = some cs := Text.from?_append ['@'] cs
  rw [List.head?_cons, if_pos rfl, hbehind]
  simp only [Option.bind_eq_bind, Option.bind_some, builtinCode?_eq]
  cases hcode : LogSyntax.builtinCode? cs with
  | none => simp [ExpressionTemplate.Indexer.read?, hcode]
  | some code =>
    obtain ⟨t, rfl⟩ := prefix_of_builtinCode? hcode
    have hclosing := closingQuote?_append ('@' :: code.toList) t
    have hread : ExpressionTemplate.Indexer.read? ('@' :: (code.toList ++ t)) =
        (ExpressionTemplate.Indexer.readKey? t).map fun found =>
          ⟨code, found.1, found.2.1, found.2.2⟩ := by
      simp only [ExpressionTemplate.Indexer.read?, hcode, Option.bind_eq_bind, Option.bind_some,
        ← String.length_toList, List.drop_left]
      cases ExpressionTemplate.Indexer.readKey? t with
      | none => rfl
      | some found => rfl
    have hopen : 1 + Text.bytes code.toList = Text.bytes ('@' :: code.toList) := rfl
    dsimp only
    rw [hopen, ← List.cons_append, hclosing, Option.bind_some, List.cons_append, hread]
    cases hkey : ExpressionTemplate.Indexer.readKey? t with
    | none => rfl
    | some found =>
      obtain ⟨quote, key, tail⟩ := found
      rw [hkey] at hread
      have hx := ExpressionTemplate.Indexer.wellFormed_of_read? hread
      have hindexed := indexed?_eq h offset hx
      rw [ExpressionTemplate.Indexer.text_of_read? hread] at hindexed
      dsimp only [Option.map_some]
      rw [hindexed]
      rfl

theorem expression?_eq (h : Heuristics) (names : LoopNames) (offset : Nat) (t : Text) :
    expression? h names offset t =
      some (ExpressionTemplate.Hole.expressionRegions h names offset t) := by
  rw [expression?, tokens?_eq]
  rfl

theorem hole?_eq (h : Heuristics) (names : LoopNames) (offset : Nat) (body : Text) :
    hole? h names offset body = some (ExpressionTemplate.Hole.regions h names offset body) := by
  unfold hole? ExpressionTemplate.Hole.regions
  rw [ExpressionTemplate.Hole.colon?_octets]
  cases hcolon : ExpressionTemplate.Hole.colon? body with
  | none => exact expression?_eq h names offset (Text.trimEnd body)
  | some n =>
    have hstop : Text.bytes (body.take n) + 1 = Text.bytes (body.take (n + 1)) := by
      rw [List.take_add, ExpressionTemplate.Hole.drop_of_colon? hcolon, Text.bytes_append]
      rfl
    simp only [Option.map_some, Text.slice?_take, hstop, Text.from?_take, expression?_eq,
      Option.bind_eq_bind, Option.bind_some]
    rfl

/-! ### Segments -/

theorem body?_eq (h : Heuristics) (names : LoopNames) (offset : Nat) (body : Text) :
    body? h names offset body = some (ExpressionTemplate.bodyRegions h names offset body) := by
  unfold body? ExpressionTemplate.bodyRegions
  split
  · next hhash =>
    obtain ⟨cs, rfl⟩ := List.head?_eq_some_iff.1 hhash
    exact directive?_eq h names offset cs
  · next hother =>
    rw [indexer?_eq]
    split
    · exact absurd rfl hother
    · cases ExpressionTemplate.Indexer.read? body with
      | none =>
        simp only [Option.map_none, hole?_eq, Option.bind_eq_bind, Option.bind_some]
        rfl
      | some x => rfl

/-- A segment is cut from the template between its brace and the end that the search has found. -/
theorem segment?_eq (h : Heuristics) (names : LoopNames) (behind cs : Text) {e : Segment.End}
    (hoffset : e.offset = Text.bytes behind + 1 + Text.bytes (cs.take e.length))
    (hmark : cs.drop e.length = e.mark :: cs.drop (e.length + 1))
    (hsize : e.mark.utf8Size = 1) :
    segment? h names (behind ++ '{' :: cs) (Text.bytes behind) e.offset = some
      (ExpressionTemplate.segmentRegions h names (Text.bytes behind) (cs.take e.length) e) := by
  have hcs : behind ++ '{' :: cs =
      behind ++ ['{'] ++ (cs.take e.length ++ e.mark :: cs.drop (e.length + 1)) := by
    rw [← hmark, List.take_append_drop, List.append_assoc]
    rfl
  have hopen : Text.bytes (behind ++ ['{']) = Text.bytes behind + 1 := Text.bytes_append _ _
  generalize cs.take e.length = content at hoffset hcs ⊢
  have hcontent : Text.slice? (behind ++ '{' :: cs) (Text.bytes behind + 1) e.offset =
      some content := by
    rw [hcs, hoffset, ← hopen]
    exact Text.slice?_append _ _ _
  have hterminator : Text.slice? (behind ++ '{' :: cs) e.offset (e.offset + 1) = some [e.mark] := by
    have hslice := Text.slice?_append (behind ++ ['{'] ++ content) [e.mark] (cs.drop (e.length + 1))
    have hend : Text.bytes (behind ++ ['{'] ++ content) = e.offset := by
      rw [hoffset, Text.bytes_append, hopen]
    have hlast : Text.bytes [e.mark] = 1 := by
      rw [Text.bytes_cons, hsize, Text.bytes_nil]
    rw [hend, hlast, List.append_assoc] at hslice
    rw [hcs]
    exact hslice
  have hgap : Text.bytes content - Text.bytes (Text.trimStart content) =
      Text.bytes (content.takeWhile isBlank) := by
    have hsplit :=
      congrArg Text.bytes (List.takeWhile_append_dropWhile (p := isBlank) (l := content))
    rw [Text.bytes_append] at hsplit
    rw [← hsplit, Text.trimStart, Nat.add_sub_cancel]
  simp only [segment?, hcontent, hterminator, hgap, body?_eq, Option.bind_eq_bind, Option.bind_some,
    ExpressionTemplate.segmentRegions]
  split
  · rfl
  · rfl

/-- The end of a segment is found among the octets. -/
theorem segmentEnd?_eq {outcomes : Outcomes}
    (hsound : ExpressionTemplate.Segment.Sound (behind ++ '{' :: cs) outcomes) :
    segmentEnd? (behind ++ '{' :: cs) outcomes (Text.bytes behind) =
      some ((ExpressionTemplate.Segment.end? outcomes (Text.bytes behind + 1) cs).1.map (·.offset),
        (ExpressionTemplate.Segment.end? outcomes (Text.bytes behind + 1) cs).2) := by
  have hrest := slice?_behind behind [] cs
  rw [List.nil_append, Text.bytes_nil, Nat.add_zero] at hrest
  have hbytes : Text.bytes (behind ++ ['{']) = Text.bytes behind + 1 := Text.bytes_append _ _
  have hoctets := octetsFrom?_append (behind ++ ['{']) cs
  rw [hbytes, List.append_assoc, List.singleton_append] at hoctets
  have hplace : (⟨Text.bytes behind + 1, cs⟩ : Place).In (behind ++ '{' :: cs) :=
    ⟨behind ++ ['{'], by simp, hbytes⟩
  rw [segmentEnd?, hrest, Option.bind_eq_bind, Option.bind_some, hoctets, Option.bind_some,
    ExpressionTemplate.Segment.endOffset?_eq hplace hsound]
  rfl

theorem utf8Size_mark {mark : Char} (hmark : mark = '}' ∨ mark = ']') : mark.utf8Size = 1 := by
  rcases hmark with rfl | rfl
  · rfl
  · rfl

end LogSyntax.Checked.Template
