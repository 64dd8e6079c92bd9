import LogSyntax.Proofs.Checked.Lexeme
import LogSyntax.Proofs.Region
/-!
# Tokens, read through a cursor

The tokenizer on a cursor makes the same steps as the one that carries what is ahead with it, and
none of them fails (`next?_of`). It hands out where a token stands and not its source, so whoever
shows the token cuts its source from the text: that does not fail either (`regions?_eq`).
-/

namespace LogSyntax.Checked

open Cursor

variable {h : Heuristics} {behind r t : Text} {c : Char} {last : Option Token.Kind}

/-! ## String literals -/

/-- The decoded text of a string literal, `scanned` characters of which are read and `value` is
decoded so far, and the cursor behind the literal. -/
def readString? (h : Heuristics) (scanned : Nat) (value : Text) (z : Cursor) :
    Option (Text × Cursor) :=
  match _h : z.rest? with
  | none => none
  | some [] => some (value.reverse, z)
  | some (c :: _) =>
    if c = '\'' then
      match _h' : (z.past c).rest? with
      | none => none
      | some ('\'' :: _) => readString? h (scanned + 2) ('\'' :: value) ((z.past c).past '\'')
      | some _ => some (('\'' :: value).reverse, z.past c)
    else if h.endsBefore scanned value.head? c then some (value.reverse, z)
    else readString? h (scanned + 1) (c :: value) (z.past c)
termination_by z.left
decreasing_by
  · exact Nat.lt_trans (left_past_lt _h') (left_past_lt _h)
  · exact left_past_lt _h

theorem readString?_nil (n : Nat) (value : Text) :
    readString? h n value (between behind []) = some (value.reverse, between behind []) := by
  rw [readString?]
  split <;> simp_all

/-- What a character means to a cursor that reads a string literal. -/
theorem readString?_cons (n : Nat) (value : Text) :
    readString? h n value (between behind (c :: r)) =
    if c = '\'' then
      if r.head? = some '\'' then
        readString? h (n + 2) ('\'' :: value) (between (behind ++ ['\'', '\'']) r.tail)
      else some (('\'' :: value).reverse, between (behind ++ ['\'']) r)
    else if h.endsBefore n value.head? c then some (value.reverse, between behind (c :: r))
    else readString? h (n + 1) (c :: value) (between (behind ++ [c]) r) := by
  rw [readString?]
  split
  · simp_all
  · simp_all
  · next d _ hrest =>
    rw [rest?_between] at hrest
    obtain rfl : c = d := (List.cons.inj (Option.some.inj hrest)).1
    by_cases hquote : c = '\''
    · subst hquote
      rw [if_pos rfl, if_pos rfl]
      split
      · simp_all
      · next hnext =>
        rw [past_between, rest?_between] at hnext
        obtain rfl := Option.some.inj hnext
        simp
      · next hother hnext =>
        rw [past_between, rest?_between] at hnext
        obtain rfl := Option.some.inj hnext
        rw [if_neg, past_between]
        intro hhead
        obtain ⟨r, rfl⟩ := List.head?_eq_some_iff.1 hhead
        exact hother r rfl
    · rw [if_neg hquote, if_neg hquote, past_between]

/-- A cursor decodes a string literal like a reader of characters, and comes to the place behind
it. -/
theorem readString?_between (behind : Text) (n : Nat) (value : Text) : ∃ extra,
    (Literal.readString h n value r).1 = n + extra ∧ extra ≤ r.length ∧
      readString? h n value (between behind r) =
        some ((Literal.readString h n value r).2, passed behind r extra) := by
  fun_induction Literal.readString h n value r generalizing behind with
  | case1 n value cs ih =>
    obtain ⟨extra, hread, hle, hchecked⟩ := ih (behind ++ ['\'', '\''])
    refine ⟨2 + extra, by rw [hread, Nat.add_assoc], by simp; omega, ?_⟩
    have hpassed := passed_append behind ['\'', '\''] cs extra
    rw [readString?_cons, if_pos rfl, List.head?_cons, if_pos rfl, List.tail_cons, hchecked]
    exact congrArg (fun z => some (_, z)) hpassed.symm
  | case2 n value cs hpair =>
    have hhead : cs.head? ≠ some '\'' := by
      intro hhead
      obtain ⟨cs, rfl⟩ := List.head?_eq_some_iff.1 hhead
      exact hpair cs rfl
    refine ⟨1, rfl, by simp, ?_⟩
    rw [readString?_cons, if_pos rfl, if_neg hhead]
    simp [passed]
  | case3 n value c cs _ hquote hends =>
    have hc : c ≠ '\'' := fun hc => hquote hc
    refine ⟨0, rfl, Nat.zero_le _, ?_⟩
    rw [readString?_cons, if_neg hc, if_pos hends, passed_zero]
  | case4 n value c cs _ hquote hends ih =>
    have hc : c ≠ '\'' := fun hc => hquote hc
    obtain ⟨extra, hread, hle, hchecked⟩ := ih (behind ++ [c])
    refine ⟨1 + extra, by rw [hread, Nat.add_assoc], by simp; omega, ?_⟩
    have hpassed := passed_append behind [c] cs extra
    rw [readString?_cons, if_neg hc, if_neg hends, hchecked]
    exact congrArg (fun z => some (_, z)) hpassed.symm
  | case5 n value => exact ⟨0, rfl, Nat.zero_le _, by rw [readString?_nil, passed_zero]⟩

/-! ## Tokens -/

/-- A token without its source: what it is, its decoded text, and where it stands. -/
structure Span where
  kind : Token.Kind
  text : Text
  start : Nat
  /-- The number of bytes that it takes in the text. -/
  sourceLength : Nat
deriving DecidableEq, Repr

/-- Where a token stands. -/
def Span.of (token : Token) : Span := ⟨token.kind, token.text, token.start, token.sourceLength⟩

/-- The token that begins with the character `c` at the cursor, and the cursor behind it. -/
def readToken? (h : Heuristics) (last : Option Token.Kind) (c : Char) (z : Cursor) :
    Option (Span × Cursor) :=
  if c = '\'' then do
    let (text, stop) ← readString? h 0 [c] (← z.bump?)
    return (⟨.stringLiteral, text, z.pos, stop.pos - z.pos⟩, stop)
  else do
    let (kind, stop) ← readLexeme? last c z
    let text ← stop.since? z.pos
    return (⟨kind, text, z.pos, Text.bytes text⟩, stop)

theorem length_source {n : Nat} (hle : n ≤ r.length) : (c :: r.take n).length = n + 1 := by
  rw [List.length_cons, List.length_take, Nat.min_eq_left hle]

/-- Between two characters a cursor reads the token that begins there, and comes to the place behind
its source. -/
theorem readToken?_between : readToken? h last c (between behind (c :: r)) =
    some (Span.of (Token.read h last (Text.bytes behind) c r),
      passed behind (c :: r) (Token.read h last (Text.bytes behind) c r).source.length) := by
  unfold readToken? Token.read
  split
  · next hquote =>
    obtain ⟨extra, hread, hle, hchecked⟩ :=
      readString?_between (h := h) (r := r) (behind ++ [c]) 0 [c]
    rw [Nat.zero_add] at hread
    have hpassed : passed (behind ++ [c]) r extra = passed behind (c :: r) (extra + 1) := by
      simp [passed]
    have hlength : (passed behind (c :: r) (extra + 1)).pos - Text.bytes behind =
        Text.bytes (c :: r.take extra) := by
      simp [passed]
    simp only [bump?_between, Option.bind_eq_bind, Option.bind_some, hchecked, hpassed, hread,
      length_source hle, pos_between, hlength]
    rfl
  · have hle := Lexeme.extra_read_le last c r
    have hsince : (passed behind (c :: r) ((Lexeme.read last c r).extra + 1)).since?
        (Text.bytes behind) = some (c :: r.take (Lexeme.read last c r).extra) := by
      rw [passed, since?_between, List.take_succ_cons]
    simp only [readLexeme?_between, Option.bind_eq_bind, Option.bind_some, pos_between, hsince,
      Lexeme.token, length_source hle]
    rfl

/-- A tokenizer that knows its text and the place where it is by its offset. -/
structure Tokenizer where
  cursor : Cursor
  heuristics : Heuristics
  last : Option Token.Kind

namespace Tokenizer

/-- A tokenizer that has read nothing of a text yet. -/
def start (h : Heuristics) (t : Text) : Tokenizer := ⟨⟨t, 0⟩, h, none⟩

/-- The next token and the tokenizer behind it, if anything but white space is ahead. -/
def next? (z : Tokenizer) : Option (Option (Span × Tokenizer)) := do
  let cursor ← z.cursor.eatWhile? isBlank
  match ← cursor.peek? 0 with
  | none => return none
  | some c =>
    let (token, stop) ← readToken? z.heuristics z.last c cursor
    return some (token, ⟨stop, z.heuristics, some token.kind⟩)

/-- A tokenizer of the text `t`, without what is ahead of it. -/
def of (t : Text) (z : LogSyntax.Tokenizer) : Tokenizer :=
  ⟨.of t z.place, z.heuristics, z.last⟩

/-- A tokenizer does not fail in its text, and it makes the steps of the one that knows what is
ahead. -/
theorem next?_of {z : LogSyntax.Tokenizer} (hz : z.place.In t) :
    next? (of t z) = some (z.next?.map fun (token, z') => (Span.of token, of t z')) := by
  obtain ⟨⟨o, rest⟩, h, last⟩ := z
  obtain ⟨behind, rfl, rfl⟩ := hz
  obtain ⟨gap, ahead, rfl, -, hgap, hahead⟩ := Text.exists_run isBlank rest
  have hskip : (⟨Text.bytes behind, gap ++ ahead⟩ : Place).skip isBlank =
      ⟨Text.bytes (behind ++ gap), ahead⟩ := by
    rw [Place.skip, Text.takeWhile_run hgap hahead, Text.dropWhile_run hgap hahead,
      Text.bytes_append]
  have hcursor :
      (of (behind ++ (gap ++ ahead)) ⟨⟨Text.bytes behind, gap ++ ahead⟩, h, last⟩).cursor =
        between behind (gap ++ ahead) := rfl
  rw [next?, hcursor, eatWhile?_run hgap hahead]
  cases ahead with
  | nil =>
    simp only [LogSyntax.Tokenizer.next?, hskip, peek?_between, Option.bind_eq_bind,
      Option.bind_some]
    rfl
  | cons c cs =>
    simp only [LogSyntax.Tokenizer.next?, hskip, peek?_between, Option.bind_eq_bind,
      Option.bind_some, List.getElem?_cons_zero, readToken?_between, of, passed_eq,
      List.append_assoc]
    rfl

theorem in_of_next? {z z' : LogSyntax.Tokenizer} {token : LogSyntax.Token} (hz : z.place.In t)
    (hnext : z.next? = some (token, z')) : z'.place.In t := by
  simp only [LogSyntax.Tokenizer.next?] at hnext
  split at hnext
  · contradiction
  · cases hnext
    exact (hz.skip isBlank).advance _

end Tokenizer

/-- The tokens of a text. -/
def tokenize? (h : Heuristics) (t : Text) : Option (List Span) :=
  drain? Tokenizer.next? (·.cursor.left) (.start h t)

theorem tokenize?_eq (h : Heuristics) (t : Text) :
    tokenize? h t = some ((tokenize h t).map Span.of) :=
  drain?_eq (Tokenizer.of t) Span.of (·.place.In t) (fun _ hz => Tokenizer.next?_of hz)
    (fun _ _ _ hz hnext => Tokenizer.in_of_next? hz hnext) (fun _ hz => left_of hz)
    (.start h (.start t)) (Place.start_in t)

/-! ## Expressions -/

/-- A token of the text `t`, if the text stands at an offset of a larger one. Its source is cut from
the text. -/
def Span.token? (offset : Nat) (t : Text) (token : Span) : Option LogSyntax.Token :=
  (t.slice? token.start (token.start + token.sourceLength)).map fun source =>
    ⟨token.kind, source, token.text, token.start + offset⟩

/-- The tokens of an expression that stands at an offset of a larger text. -/
def Expression.tokens? (h : Heuristics) (offset : Nat) (t : Text) :
    Option (List LogSyntax.Token) := do
  let tokens ← tokenize? h t
  tokens.mapM (Span.token? offset t)

/-- The regions of an expression that stands at an offset of a larger text. -/
def Expression.regions? (h : Heuristics) (offset : Nat) (t : Text) : Option (List Region) :=
  (tokens? h offset t).map (·.filterMap Region.ofToken?)

theorem mapM_some {α β : Type} {f : α → Option β} {g : α → β} {l : List α}
    (hf : ∀ a ∈ l, f a = some (g a)) : l.mapM f = some (l.map g) := by
  induction l with
  | nil => rfl
  | cons a l ih =>
    rw [List.forall_mem_cons] at hf
    rw [List.mapM_cons, hf.1, ih hf.2]
    rfl

/-- The source of every token of a text is where the token says. -/
theorem token?_of (offset : Nat) {token : LogSyntax.Token} (htoken : token ∈ tokenize h t) :
    (Span.of token).token? offset t = some (token.move offset) := by
  have hlaid :
      Laid LogSyntax.Token.source LogSyntax.Token.start (·.all isBlank) 0 (tokenize h t) t :=
    LogSyntax.Tokenizer.laid_tokens (.start h (.start t))
  have hslice : t.slice? (Span.of token).start
      ((Span.of token).start + (Span.of token).sourceLength) = some token.source :=
    (hlaid.standsAt [] rfl token htoken).slice?_eq
  rw [Span.token?, hslice]
  rfl

/-- Cutting the sources of the tokens from an expression does not fail. -/
theorem tokens?_eq (h : Heuristics) (offset : Nat) (t : Text) :
    Expression.tokens? h offset t = some (LogSyntax.Expression.tokens h offset t) := by
  rw [Expression.tokens?, tokenize?_eq, LogSyntax.Expression.tokens_eq_move, Option.bind_eq_bind,
    Option.bind_some, List.mapM_map]
  exact mapM_some fun token htoken => token?_of offset htoken

theorem regions?_eq (h : Heuristics) (offset : Nat) (t : Text) :
    Expression.regions? h offset t = some (LogSyntax.Expression.regions h offset t) := by
  rw [Expression.regions?, tokens?_eq]
  rfl

end LogSyntax.Checked
