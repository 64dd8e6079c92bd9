import LogSyntax.Proofs.Token.Behind
/-!
# Names behind an at sign

Behind an `@` all identifier characters are taken, as far as they go. The word that they make is a
built-in code or it is not: codes at its head do not count, so the table of codes may stand in any
order and grow (`find?_standsAtHead_eq_some_iff`), and no name is split (`Tokenizer.next?_sigil`).
-/

namespace LogSyntax

variable {table : List String} {code : String} {t : Text}

/-- A table of names knows one at the head of a text exactly if it is the whole identifier there. -/
theorem find?_standsAtHead_eq_some_iff (htable : ∀ code ∈ table, code.toList.all isIdentChar) :
    table.find? (standsAtHead · t) = some code ↔
      code ∈ table ∧ code.toList = t.takeWhile isIdentChar := by
  obtain ⟨word, u, rfl, -, hword, hu⟩ := Text.exists_run isIdentChar t
  rw [Lexeme.find?_standsAtHead htable hword hu, Text.takeWhile_run hword hu]
  constructor
  · intro hfind
    exact ⟨List.mem_of_find?_eq_some hfind, by simpa using List.find?_some hfind⟩
  · rintro ⟨hcode, rfl⟩
    cases hfind : table.find? (·.toList == code.toList) with
    | none => simpa using List.find?_eq_none.1 hfind code hcode
    | some found =>
      have hfound := List.find?_some hfind
      rw [beq_iff_eq, String.toList_inj] at hfound
      rw [hfound]

/-- An `@` in front of a word begins a token of this kind and source: the whole word belongs to it
if it is a code or can be a name, and nothing of it otherwise. -/
inductive Token.Sigil (word : Text) : Token.Kind → Text → Prop
  | builtin (hcode : ∃ code ∈ builtinCodes, code.toList = word) :
      Sigil word .builtinProperty ('@' :: word)
  | name (hcode : ∀ code ∈ builtinCodes, code.toList ≠ word)
      (hstart : ∃ c ∈ word.head?, isIdentStart c) : Sigil word .identifier ('@' :: word)
  | unknown (hcode : ∀ code ∈ builtinCodes, code.toList ≠ word)
      (hstart : ∀ c ∈ word.head?, isIdentStart c = false) : Sigil word .unknown ['@']

namespace Tokenizer

variable {kind : Token.Kind} {h : Heuristics} {last : Option Token.Kind} {o : Nat}

/-- What an `@` begins is read as its lexeme says, and reading goes on behind it. -/
theorem next?_of_ofSigil {s rest : Text} (hsigil : Lexeme.ofSigil (s ++ rest) = ⟨kind, s.length⟩) :
    next? ⟨⟨o, '@' :: (s ++ rest)⟩, h, last⟩ =
      some (⟨kind, '@' :: s, '@' :: s, o⟩,
        ⟨⟨o + Text.bytes ('@' :: s), rest⟩, h, some kind⟩) := by
  have hlexeme : Lexeme.read last '@' (s ++ rest) = ⟨kind, s.length⟩ := hsigil
  have hread : Token.read h last o '@' (s ++ rest) = ⟨kind, '@' :: s, '@' :: s, o⟩ := by
    rw [Token.read, if_neg (by decide), hlexeme, Lexeme.token, List.take_left]
  exact next?_of_read (by decide) hread rfl

/-- The identifier characters behind an `@` make a word. A built-in code is found there exactly if
it is the whole word, in whatever order the table lists the codes. So the token at the `@` goes by
the whole word as well, and reading goes on right behind it. -/
theorem next?_sigil (h : Heuristics) (last : Option Token.Kind) (o : Nat) (t : Text) :
    (∀ code, builtinCode? t = some code ↔
      code ∈ builtinCodes ∧ code.toList = t.takeWhile isIdentChar) ∧
    (∀ table : List String, table.Perm builtinCodes →
      table.find? (standsAtHead · t) = builtinCode? t) ∧
    ∃ kind source rest, Token.Sigil (t.takeWhile isIdentChar) kind source ∧
      '@' :: t = source ++ rest ∧
      next? ⟨⟨o, '@' :: t⟩, h, last⟩ =
        some (⟨kind, source, source, o⟩, ⟨⟨o + Text.bytes source, rest⟩, h, some kind⟩) := by
  have hcode (code : String) : builtinCode? t = some code ↔
      code ∈ builtinCodes ∧ code.toList = t.takeWhile isIdentChar :=
    find?_standsAtHead_eq_some_iff Lexeme.isIdentChar_of_builtin
  refine ⟨hcode, fun table htable => ?_, ?_⟩
  · have hall : ∀ code ∈ table, code.toList.all isIdentChar :=
      fun code hmem => Lexeme.isIdentChar_of_builtin code (htable.mem_iff.1 hmem)
    refine Option.ext fun code => ?_
    rw [find?_standsAtHead_eq_some_iff hall, htable.mem_iff, hcode]
  · obtain ⟨word, rest, rfl, -, hword, hrest⟩ := Text.exists_run isIdentChar t
    have hsigil := Lexeme.ofSigil_run hword hrest
    rw [Text.takeWhile_run hword hrest]
    by_cases hmem : word ∈ builtinCodes.map String.toList
    · rw [if_pos hmem] at hsigil
      exact ⟨_, _, rest, .builtin (List.mem_map.1 hmem), rfl, next?_of_ofSigil hsigil⟩
    rw [if_neg hmem] at hsigil
    have hnone : ∀ code ∈ builtinCodes, code.toList ≠ word :=
      fun code hcode heq => hmem (List.mem_map.2 ⟨code, hcode, heq⟩)
    by_cases hstart : word.head?.any isIdentStart
    · rw [if_pos hstart] at hsigil
      rw [Option.any_eq_true] at hstart
      exact ⟨_, _, rest, .name hnone hstart, rfl, next?_of_ofSigil hsigil⟩
    · rw [if_neg hstart] at hsigil
      rw [Bool.not_eq_true, Option.any_eq_false] at hstart
      refine ⟨_, _, word ++ rest, .unknown hnone (by simpa using hstart), rfl, ?_⟩
      exact next?_of_ofSigil (s := []) hsigil

/-- The table is turned around, and the code `t` stands at the head of `tr`. -/
theorem next?_sigil_trace :
    builtinCodes.reverse.find? (standsAtHead · "tr = 1".toList) = some "tr" ∧
      next? ⟨⟨0, '@' :: "tr = 1".toList⟩, .standard, none⟩ =
        some (⟨.builtinProperty, "@tr".toList, "@tr".toList, 0⟩,
          ⟨⟨3, " = 1".toList⟩, .standard, some .builtinProperty⟩) := by
  obtain ⟨hcode, htable, kind, source, rest, hsigil, hsplit, hnext⟩ :=
    next?_sigil .standard none 0 "tr = 1".toList
  have hword : "tr = 1".toList.takeWhile isIdentChar = "tr".toList := by decide +kernel
  have htrace : "tr" ∈ builtinCodes := by decide
  rw [hword] at hcode hsigil
  refine ⟨(htable _ (List.reverse_perm _)).trans ((hcode "tr").2 ⟨htrace, rfl⟩), ?_⟩
  cases hsigil with
  | builtin =>
    have happend : "@tr".toList ++ " = 1".toList = "@tr".toList ++ rest := hsplit
    obtain rfl := List.append_cancel_left happend
    exact hnext
  | name hnone => exact absurd rfl (hnone "tr" htrace)
  | unknown hnone => exact absurd rfl (hnone "tr" htrace)

end Tokenizer

end LogSyntax
