import LogSyntax.Proofs.Checked.Cursor
import LogSyntax.Proofs.Token.Behind
/-!
# Lexemes, read through a cursor

A cursor reads a lexeme by moving on over its characters and looking at what it has passed. Between
two characters it does not fail, and comes to the place behind the lexeme (`readLexeme?_between`).
-/

namespace LogSyntax.Checked

open Cursor

variable {behind r u word : Text} {c : Char} {last : Option Token.Kind}

/-! ## Searches that may fail -/

theorem findM?_some {α : Type} (p : α → Bool) (l : List α) :
    l.findM? (fun a => some (p a)) = some (l.find? p) := by
  induction l with
  | nil => rfl
  | cons a l ih => cases hp : p a <;> simp [List.findM?, hp, ih]

theorem findSomeM?_some {α β : Type} (f : α → Option β) (l : List α) :
    l.findSomeM? (fun a => some (f a)) = some (l.findSome? f) := by
  induction l with
  | nil => rfl
  | cons a l ih => cases hf : f a <;> simp [List.findSomeM?, hf, ih]

/-! ## Words -/

/-- The cursor behind the given words, if they follow it. -/
def following? : List String → Cursor → Option (Option Cursor)
  | [], z => some (some z)
  | expected :: more, z => do
    let start ← z.eatWhile? isBlank
    if start.pos = z.pos then return none
    let stop ← start.eatWhile? isIdentChar
    let word ← stop.since? start.pos
    if Text.eqIgnoringCase word expected.toList then following? more stop else return none

/-- The first phrase of a table whose head satisfies `isHead` and whose tail follows the cursor: its
kind, and the cursor behind it. -/
def phrase? (table : List Phrase) (isHead : Text → Bool) (z : Cursor) :
    Option (Option (Token.Kind × Cursor)) :=
  table.findSomeM? fun phrase =>
    if isHead phrase.head.toList then (following? phrase.tail z).map (·.map (phrase.kind, ·))
    else some none

/-- Whether a code stands at the head of a text as a whole word. -/
def standsAtHead? (code : String) (t : Text) : Option Bool :=
  if code.toList.isPrefixOf t then
    (t.from? (Text.bytes code.toList)).map (!·.head?.any isIdentChar)
  else some false

/-- The code of the built-in property whose `@` a text follows. -/
def builtinCode? (t : Text) : Option (Option String) :=
  builtinCodes.findM? (standsAtHead? · t)

/-! ## Lexemes -/

/-- The cursor behind the digits of a number. -/
def readDigits? (z : Cursor) : Option Cursor := do
  let first ← z.peek? 0
  let second ← z.peek? 1
  let third ← z.peek? 2
  if first = some '0' ∧ (second = some 'x' ∨ second = some 'X') ∧ third.any isHexDigit then
    let z ← z.bump?
    let z ← z.bump?
    z.eatWhile? isHexDigit
  else
    z.eatWhile? fun c => c.isDigit || c == '.'

/-- The cursor behind a number, which may have a sign. -/
def readNumber? (z : Cursor) : Option Cursor := do
  let sign ← z.peek? 0
  if sign = some '-' then readDigits? (← z.bump?) else readDigits? z

/-- What an `@` begins. -/
def readSigil? (z : Cursor) : Option (Token.Kind × Cursor) := do
  let z ← z.bump?
  let rest ← z.rest?
  let code ← builtinCode? rest
  match code with
  | some code => return (.builtinProperty, { z with pos := z.pos + Text.bytes code.toList })
  | none =>
    let next ← z.peek? 0
    if next.any isIdentStart then return (.identifier, ← z.eatWhile? isIdentChar)
    else return (.unknown, z)

/-- What a `{` begins. -/
def readBrace? (z : Cursor) : Option (Token.Kind × Cursor) := do
  let z ← z.bump?
  let next ← z.peek? 0
  if next = some '#' then
    let start ← z.bump?
    let stop ← start.eatWhile? Lexeme.isMarkerChar
    let word ← stop.since? start.pos
    let found ← phrase? markerPhrases (· == word) stop
    return found.getD (.unknown, stop)
  else
    return (.openBrace, z)

/-- What a letter or `_` begins. -/
def readWord? (z : Cursor) : Option (Token.Kind × Cursor) := do
  let stop ← z.eatWhile? isIdentChar
  let word ← stop.since? z.pos
  let found ← phrase? reservedPhrases (Text.eqIgnoringCase · word) stop
  let behind ← stop.eatWhile? isBlank
  let next ← behind.peek? 0
  if isFunctionName word ∧ next = some '(' then return found.getD (.function, stop)
  else return found.getD (.identifier, stop)

/-- What any other character begins. -/
def readSymbol? (last : Option Token.Kind) (c : Char) (z : Cursor) :
    Option (Token.Kind × Cursor) := do
  let z ← z.bump?
  let next ← z.peek? 0
  let symbol := Lexeme.ofSymbol last c next.toList
  return (symbol.kind, ← if symbol.extra = 0 then some z else z.bump?)

/-- The kind of the lexeme that begins with the character `c` at the cursor, and the cursor behind
it. -/
def readLexeme? (last : Option Token.Kind) (c : Char) (z : Cursor) :
    Option (Token.Kind × Cursor) := do
  let next ← z.peek? 1
  if c.isDigit ∨ Lexeme.isSign last c next.toList then return (.numberLiteral, ← readNumber? z)
  else if c = '@' then readSigil? z
  else if c = '{' then readBrace? z
  else if isIdentStart c then readWord? z
  else readSymbol? last c z

/-! ## Between two characters -/

theorem following?_between (words : List String) :
    following? words (between behind r) =
      some ((Phrase.following? words r).map (passed behind r)) := by
  induction words generalizing behind r with
  | nil => simp [following?, Phrase.following?]
  | cons expected more ih =>
    obtain ⟨gap, t, rfl, hgap, hblank, ht⟩ := Text.exists_run isBlank r
    obtain ⟨word, u, rfl, -, hident, hu⟩ := Text.exists_run isIdentChar t
    have hmoved : (Text.bytes (behind ++ gap) = Text.bytes behind) ↔ gap.length = 0 := by
      rw [Text.bytes_append, Nat.add_eq_left, Text.bytes_eq_zero, List.length_eq_zero_iff]
    have hsplit : passed behind (gap ++ (word ++ u)) ∘ (gap.length + word.length + ·) =
        passed (behind ++ gap ++ word) u := by
      funext n
      rw [Function.comp_apply, Nat.add_assoc, passed_append, passed_append]
    rw [following?, Phrase.following?, eatWhile?_run hblank ht]
    simp only [Option.bind_eq_bind, Option.bind_some, pos_between, hmoved, ← hgap, List.drop_left,
      eatWhile?_run hident hu, since?_between, Text.takeWhile_run hident hu]
    have hdrop : (gap ++ (word ++ u)).drop (gap.length + word.length) = u := by
      rw [List.drop_length_add_append, List.drop_left]
    rw [hdrop, ih]
    split
    · next hgap => rw [if_neg fun h => h.1 hgap]; rfl
    · next hgap =>
      split
      · next hsame => rw [if_pos ⟨hgap, hsame⟩, Option.map_map, hsplit]
      · next hother => rw [if_neg fun h => hother h.2]; rfl

theorem phrase?_between (table : List Phrase) (isHead : Text → Bool) :
    phrase? table isHead (between behind r) =
      some ((Phrase.find? table isHead r).map fun (kind, n) => (kind, passed behind r n)) := by
  have hphrase : (fun phrase : Phrase =>
      if isHead phrase.head.toList then
        (following? phrase.tail (between behind r)).map (·.map (phrase.kind, ·))
      else some none) =
      fun phrase => some (if isHead phrase.head.toList then
        (Phrase.following? phrase.tail r).map fun n => (phrase.kind, passed behind r n)
        else none) := by
    funext phrase
    split
    · rw [following?_between, Option.map_some, Option.map_map]
      rfl
    · rfl
  rw [phrase?, hphrase, findSomeM?_some, Phrase.find?, List.map_findSome?]
  congr 2
  funext phrase
  rw [Function.comp_apply]
  split
  · rw [Option.map_map]
    rfl
  · rfl

theorem standsAtHead?_eq (code : String) (t : Text) :
    standsAtHead? code t = some (standsAtHead code t) := by
  unfold standsAtHead? standsAtHead
  split
  · next hcode =>
    obtain ⟨u, rfl⟩ := List.isPrefixOf_iff_prefix.1 hcode
    rw [Text.from?_append, ← String.length_toList, List.drop_left, hcode]
    rfl
  · next hcode => simp [hcode]

theorem builtinCode?_eq (t : Text) :
    builtinCode? t = some (LogSyntax.builtinCode? t) := by
  simp only [builtinCode?, standsAtHead?_eq, findM?_some]
  rfl

/-- A number is hexadecimal by its first three characters. -/
theorem numberTail_eq (c : Char) (r : Text) : Literal.numberTail c r =
    if c = '0' ∧ (r[0]? = some 'x' ∨ r[0]? = some 'X') ∧ r[1]?.any isHexDigit then
      1 + Text.run isHexDigit r.tail
    else Text.run (fun c => c.isDigit || c == '.') r := by
  rcases r with - | ⟨x, - | ⟨d, t⟩⟩
  · simp [Literal.numberTail]
  · simp [Literal.numberTail]
  · simp [Literal.numberTail]

theorem readDigits?_between (hc : c.isDigit) : readDigits? (between behind (c :: r)) =
    some (passed behind (c :: r) (Literal.numberTail c r + 1)) := by
  simp only [readDigits?, peek?_between, Option.bind_eq_bind, Option.bind_some,
    List.getElem?_cons_zero, List.getElem?_cons_succ, Option.some.injEq, numberTail_eq]
  split
  · next hhex =>
    cases r with
    | nil => simp at hhex
    | cons x r =>
      obtain ⟨digits, u, rfl, hdigits, hall, hu⟩ := Text.exists_run isHexDigit r
      have hpassed := passed_length behind (c :: x :: digits) u
      rw [bump?_between, Option.bind_some, bump?_between, Option.bind_some, eatWhile?_run hall hu,
        List.tail_cons, ← hdigits]
      simpa [Nat.add_comm 1] using hpassed.symm
  · obtain ⟨digits, u, rfl, hdigits, hall, hu⟩ :=
      Text.exists_run (fun c => c.isDigit || c == '.') r
    have hall' : (c :: digits).all fun c => c.isDigit || c == '.' := by simp [hc, hall]
    rw [← hdigits, ← List.cons_append, eatWhile?_run hall' hu, ← List.length_cons (a := c),
      passed_length]

theorem readNumber?_digit (hc : c.isDigit) : readNumber? (between behind (c :: r)) =
    some (passed behind (c :: r) (Literal.numberTail c r + 1)) := by
  have hsign : c ≠ '-' := by
    rintro rfl
    contradiction
  simp [readNumber?, hsign, readDigits?_between hc]

theorem readNumber?_sign {d : Char} (hd : d.isDigit) :
    readNumber? (between behind ('-' :: d :: r)) = some
       (passed behind ('-' :: d :: r) (1 + Literal.numberTail d r + 1)) := by
  have hpassed := passed_append behind ['-'] (d :: r)
    (Literal.numberTail d r + 1)
  simp only [readNumber?, peek?_between, Option.bind_eq_bind, Option.bind_some,
    List.getElem?_cons_zero, if_pos, bump?_between, readDigits?_between hd]
  rw [Nat.add_assoc]
  exact congrArg some hpassed.symm

theorem prefix_of_builtinCode? {code : String} (h : LogSyntax.builtinCode? r = some code) :
    ∃ u, r = code.toList ++ u := by
  have hstands := List.find?_some h
  rw [standsAtHead, Bool.and_eq_true, List.isPrefixOf_iff_prefix] at hstands
  obtain ⟨u, hu⟩ := hstands.1
  exact ⟨u, hu.symm⟩

theorem readSigil?_between : readSigil? (between behind ('@' :: r)) =
    some ((Lexeme.ofSigil r).kind, passed behind ('@' :: r) ((Lexeme.ofSigil r).extra + 1)) := by
  simp only [readSigil?, bump?_between, rest?_between, peek?_between, builtinCode?_eq,
    Option.bind_eq_bind, Option.bind_some, Lexeme.ofSigil]
  cases hcode : LogSyntax.builtinCode? r with
  | some code =>
    obtain ⟨u, rfl⟩ := prefix_of_builtinCode? hcode
    have hpassed := passed_length behind ('@' :: code.toList) u
    rw [List.length_cons, String.length_toList] at hpassed
    dsimp only [pos_between]
    rw [jump_between, List.append_assoc]
    exact congrArg (fun z => some (Token.Kind.builtinProperty, z)) hpassed.symm
  | none =>
    dsimp only
    rw [← List.head?_eq_getElem?]
    split
    · obtain ⟨word, u, rfl, hword, hident, hu⟩ := Text.exists_run isIdentChar r
      have hpassed := passed_length behind ('@' :: word) u
      rw [List.length_cons] at hpassed
      rw [eatWhile?_run hident hu, ← hword, List.append_assoc]
      exact congrArg (fun z => some (Token.Kind.identifier, z)) hpassed.symm
    · simp [passed]

theorem readBrace?_between : readBrace? (between behind ('{' :: r)) =
    some ((Lexeme.ofBrace r).kind, passed behind ('{' :: r) ((Lexeme.ofBrace r).extra + 1)) := by
  simp only [readBrace?, bump?_between, peek?_between, Option.bind_eq_bind, Option.bind_some]
  rw [← List.head?_eq_getElem?]
  split
  · next hhash =>
    obtain ⟨cs, rfl⟩ := List.head?_eq_some_iff.1 hhash
    obtain ⟨word, u, rfl, -, hword, hu⟩ := Text.exists_run Lexeme.isMarkerChar cs
    rw [bump?_between, Option.bind_some, eatWhile?_run hword hu, Option.bind_some, pos_between,
      since?_between, Option.bind_some, phrase?_between, Option.bind_some,
      Lexeme.ofBrace_run hword hu]
    have hpassed (n : Nat) : passed (behind ++ ['{'] ++ ['#'] ++ word) u n =
        passed behind ('{' :: '#' :: (word ++ u)) (1 + word.length + n + 1) := by
      have happend := passed_append behind ('{' :: '#' :: word) u n
      have hlength : 1 + word.length + n + 1 = ('{' :: '#' :: word).length + n := by
        simp only [List.length_cons]
        omega
      rw [hlength, ← List.cons_append, ← List.cons_append, happend]
      simp
    cases Phrase.find? markerPhrases (· == word) u with
    | none =>
      have hstop := hpassed 0
      rw [passed_zero, Nat.add_zero] at hstop
      exact congrArg (fun z => some (Token.Kind.unknown, z)) hstop
    | some found => exact congrArg (fun z => some (found.1, z)) (hpassed found.2)
  · next hother =>
    rw [Lexeme.ofBrace_bare hother]
    simp [passed]

theorem readWord?_between (hc : isIdentChar c) : readWord? (between behind (c :: r)) =
    some ((Lexeme.ofWord c r).kind, passed behind (c :: r) ((Lexeme.ofWord c r).extra + 1)) := by
  obtain ⟨more, u, rfl, -, hmore, hu⟩ := Text.exists_run isIdentChar r
  have hword : (c :: more).all isIdentChar := by simp [hc, hmore]
  have hpassed (n : Nat) : passed (behind ++ c :: more) u n =
      passed behind (c :: (more ++ u)) (more.length + n + 1) := by
    have happend := passed_append behind (c :: more) u n
    rw [← happend, List.length_cons, Nat.add_right_comm]
    rfl
  have hstop := hpassed 0
  rw [passed_zero, Nat.add_zero] at hstop
  have htrim : u.dropWhile isBlank = Text.trimStart u := rfl
  rw [readWord?, ← List.cons_append, eatWhile?_run hword hu]
  simp only [Option.bind_eq_bind, Option.bind_some, pos_between, since?_between, phrase?_between,
    eatWhile?_between, peek?_between, ← List.head?_eq_getElem?, htrim, Lexeme.ofWord_run hmore hu]
  cases Phrase.find? reservedPhrases (Text.eqIgnoringCase · (c :: more)) u with
  | none =>
    by_cases hcalled : isFunctionName (c :: more) ∧ (Text.trimStart u).head? = some '('
    · dsimp only
      rw [if_pos hcalled, if_pos hcalled]
      exact congrArg (fun z => some (Token.Kind.function, z)) hstop
    · dsimp only
      rw [if_neg hcalled, if_neg hcalled]
      exact congrArg (fun z => some (Token.Kind.identifier, z)) hstop
  | some found =>
    have hfound := congrArg (fun z => some (found.1, z)) (hpassed found.2)
    dsimp only
    split
    · exact hfound
    · exact hfound

theorem readSymbol?_between : readSymbol? last c (between behind (c :: r)) =
    some ((Lexeme.ofSymbol last c r).kind,
      passed behind (c :: r) ((Lexeme.ofSymbol last c r).extra + 1)) := by
  have hsymbol : Lexeme.ofSymbol last c r[0]?.toList = Lexeme.ofSymbol last c r := by
    apply Lexeme.ofSymbol_congr
    rw [← List.head?_eq_getElem?]
    cases r with
    | nil => rfl
    | cons d r => rfl
  have hle : (Lexeme.ofSymbol last c r).extra ≤ r[0]?.toList.length :=
    hsymbol ▸ Lexeme.extra_ofSymbol_le last c r[0]?.toList
  simp only [readSymbol?, bump?_between, peek?_between, Option.bind_eq_bind, Option.bind_some,
    hsymbol]
  split
  · next hnone => simp [hnone, passed]
  · next hmore =>
    cases r with
    | nil => exact absurd (Nat.le_zero.1 hle) hmore
    | cons d r =>
      have hone : (Lexeme.ofSymbol last c (d :: r)).extra = 1 := by
        simp at hle
        omega
      rw [bump?_between, hone]
      simp [passed]

/-- Between two characters a cursor reads the lexeme that begins there, and comes to the place
behind it. -/
theorem readLexeme?_between : readLexeme? last c (between behind (c :: r)) =
    some ((Lexeme.read last c r).kind,
      passed behind (c :: r) ((Lexeme.read last c r).extra + 1)) := by
  have hsign : Lexeme.isSign last c r[0]?.toList = Lexeme.isSign last c r := by
    apply Lexeme.isSign_congr
    rw [← List.head?_eq_getElem?]
    cases r with
    | nil => rfl
    | cons d r => rfl
  rw [readLexeme?]
  simp only [peek?_between, Option.bind_eq_bind, Option.bind_some, List.getElem?_cons_succ, hsign]
  unfold Lexeme.read
  by_cases hdigit : c.isDigit
  · rw [if_pos (.inl hdigit), if_pos hdigit, readNumber?_digit hdigit]
    rfl
  rw [if_neg hdigit]
  by_cases hminus : Lexeme.isSign last c r
  · rw [if_pos (.inr hminus), if_pos hminus]
    cases r with
    | nil => simp [Lexeme.isSign] at hminus
    | cons d r =>
      obtain ⟨⟨rfl, hd⟩, -⟩ : (c = '-' ∧ d.isDigit) ∧ _ := by simpa [Lexeme.isSign] using hminus
      rw [readNumber?_sign hd]
      rfl
  rw [if_neg (not_or.2 ⟨hdigit, hminus⟩), if_neg hminus]
  by_cases hat : c = '@'
  · subst hat
    exact readSigil?_between
  rw [if_neg hat, if_neg hat]
  by_cases hbrace : c = '{'
  · subst hbrace
    exact readBrace?_between
  rw [if_neg hbrace, if_neg hbrace]
  by_cases hword : isIdentStart c
  · rw [if_pos hword, if_pos hword]
    exact readWord?_between (isIdentChar_of_isIdentStart hword)
  · rw [if_neg hword, if_neg hword]
    exact readSymbol?_between

end LogSyntax.Checked
