import Mathlib.Data.List.Find
import LogSyntax.Proofs.Token.Kinds
/-!
# White space behind a token

What stands behind a token may be replaced by white space with the same words behind it: the same
token is read (`Token.read_behind`). No rule takes a blank as its last character, so each of them
stops where it stopped before, and where a rule looks further ahead, past the blanks, it finds what
it found before (`Ahead`).
-/

namespace LogSyntax

/-! ## White space stops every rule -/

/-- What holds of no white space can be checked point by point. -/
theorem stops_of_points {f : Char → Bool} {t : Text} (ht : Text.Stops (!isBlank ·) t)
    (hf : ∀ n ∈ blankRanges.points, f (Char.ofNat n) = false) : Text.Stops f t := by
  apply ht.mono
  intro c hc
  by_contra hblank
  rw [Bool.not_eq_true, Bool.not_eq_false'] at hblank
  have hpoint := hf c.toNat (CodeRanges.mem_points_of_covers hblank)
  rw [Char.ofNat_toNat, hc] at hpoint
  contradiction

theorem stops_isIdentChar {t : Text} (ht : Text.Stops (!isBlank ·) t) : Text.Stops isIdentChar t :=
  ht.mono fun _ hc => by rw [isBlank_of_isIdentChar hc, Bool.not_false]

theorem Text.head?_ne {t : Text} {c : Char} (ht : Stops (· == c) t) : t.head? ≠ some c := by
  intro hhead
  have := ht c hhead
  simp at this

theorem Text.run_behind {f : Char → Bool} {s rest rest' : Text}
    (hrun : run f (s ++ rest) = s.length) (hrest' : Stops f rest') :
    run f (s ++ rest') = s.length := by
  have hs : (s ++ rest).takeWhile f = s := by
    have hprefix := List.prefix_iff_eq_take.1 (List.takeWhile_prefix f (l := s ++ rest))
    rwa [show ((s ++ rest).takeWhile f).length = s.length from hrun, List.take_left] at hprefix
  have hall : s.all f := by
    rw [← hs]
    exact List.all_takeWhile
  exact run_append hall hrest'

/-- What can be seen behind a token: where white space `rest'` stands instead of `rest`, the same
words follow, and a parenthesis opens behind it if one opened before. -/
structure Ahead (rest rest' : Text) : Prop where
  blank : Text.Stops (!isBlank ·) rest'
  words : Text.Stops isIdentChar rest → ∀ phrase ∈ reservedPhrases ++ markerPhrases,
    Phrase.following? phrase.tail rest = none → Phrase.following? phrase.tail rest' = none
  opens : (Text.trimStart rest).head? = some '(' ↔ (Text.trimStart rest').head? = some '('

/-! ## Numbers -/

namespace Literal

variable {first x : Char} {s t rest rest' : Text}

/-- A character of a decimal number. -/
abbrev isDecimalChar (c : Char) : Bool :=
  c.isDigit || c == '.'

theorem numberTail_decimal (hx : ¬ (x = 'x' ∨ x = 'X')) :
    numberTail first (x :: t) = Text.run isDecimalChar (x :: t) := by
  cases t with
  | nil => rfl
  | cons d t =>
    rw [numberTail, if_neg (by tauto)]

theorem numberTail_le (first : Char) (t : Text) : numberTail first t ≤ t.length := by
  have hrun (f : Char → Bool) (t : Text) : Text.run f t ≤ t.length :=
    (List.takeWhile_prefix f).length_le
  unfold numberTail
  split
  · next x d cs =>
    split
    · have hle := hrun isHexDigit (d :: cs)
      simp only [List.length_cons] at hle ⊢
      omega
    · exact hrun _ _
  · exact hrun _ _

theorem numberTail_behind (hrest' : Text.Stops (!isBlank ·) rest')
    (htail : numberTail first (s ++ rest) = s.length) :
    numberTail first (s ++ rest') = s.length := by
  have hdecimal : Text.Stops isDecimalChar rest' := stops_of_points hrest' (by decide)
  match s with
  | [] =>
    cases rest' with
    | nil => rfl
    | cons b rest' =>
      have hletter : Text.Stops (fun c => c == 'x' || c == 'X') (b :: rest') :=
        stops_of_points hrest' (by decide)
      have hx : ¬ (b = 'x' ∨ b = 'X') := by simpa using hletter b rfl
      rw [List.nil_append, numberTail_decimal hx]
      exact Text.run_append (s := []) rfl hdecimal
  | [x] =>
    have hx : isDecimalChar x := by
      have hrun : Text.run isDecimalChar (x :: rest) = 1 := by
        cases rest with
        | nil => exact htail
        | cons d rest =>
          change numberTail first (x :: d :: rest) = 1 at htail
          rw [numberTail] at htail
          split at htail
          · next hhex =>
            -- a hexadecimal number has a digit behind its mark
            simp [Text.run, hhex.2.2] at htail
          · exact htail
      by_contra hx
      simp [Text.run, hx] at hrun
    have hne : ¬ (x = 'x' ∨ x = 'X') := by
      rintro (rfl | rfl)
      · contradiction
      · contradiction
    rw [List.cons_append, numberTail_decimal hne]
    exact Text.run_append (s := [x]) (by simp [hx]) hdecimal
  | x :: d :: s =>
    simp only [List.cons_append] at htail ⊢
    rw [numberTail] at htail ⊢
    split
    · next hhex =>
      rw [if_pos hhex, List.length_cons, Nat.add_comm, Nat.add_right_cancel_iff] at htail
      rw [← List.cons_append, Text.run_behind htail (stops_of_points hrest' (by decide)),
        List.length_cons (a := x), Nat.add_comm]
    · next hhex =>
      rw [if_neg hhex] at htail
      exact Text.run_behind (s := x :: d :: s) htail hdecimal

end Literal

/-! ## Signs -/

namespace Lexeme

variable {last : Option Token.Kind} {c : Char} {s t word u rest rest' : Text}

theorem isSign_congr (hhead : t.head? = u.head?) : isSign last c t = isSign last c u := by
  rw [isSign, isSign, hhead]

theorem isSign_stops (ht : Text.Stops Char.isDigit t) : isSign last c t = false := by
  have hdigit : t.head?.any Char.isDigit = false := by
    rw [Option.any_eq_false]
    intro d hd
    rw [ht d hd]
  rw [isSign, hdigit, Bool.and_false, Bool.false_and]

/-! ## Sigils -/

theorem standsAtHead_run {code : String} (hcode : code.toList.all isIdentChar)
    (hword : word.all isIdentChar) (hu : Text.Stops isIdentChar u) :
    standsAtHead code (word ++ u) = (code.toList == word) := by
  rw [Bool.eq_iff_iff, standsAtHead, Bool.and_eq_true, List.isPrefixOf_iff_prefix, beq_iff_eq]
  constructor
  · rintro ⟨⟨more, hmore⟩, hstops⟩
    have hdrop : (word ++ u).drop code.length = more := by
      rw [← hmore, ← String.length_toList, List.drop_left]
    rw [hdrop] at hstops
    have hmorestops : Text.Stops isIdentChar more := by
      intro d hd
      simpa [Option.mem_def.1 hd] using hstops
    have htake := Text.takeWhile_run hcode hmorestops
    rw [hmore, Text.takeWhile_run hword hu] at htake
    exact htake.symm
  · rintro rfl
    refine ⟨List.prefix_append _ _, ?_⟩
    rw [← String.length_toList, List.drop_left]
    cases u with
    | nil => rfl
    | cons d u => simp [hu d rfl]

theorem isIdentChar_of_builtin : ∀ code ∈ builtinCodes, code.toList.all isIdentChar := by
  decide +kernel

/-- Of a table of names, the one at the head of a text is the whole identifier there. -/
theorem find?_standsAtHead {table : List String}
    (htable : ∀ code ∈ table, code.toList.all isIdentChar) (hword : word.all isIdentChar)
    (hu : Text.Stops isIdentChar u) :
    table.find? (standsAtHead · (word ++ u)) = table.find? (·.toList == word) :=
  List.find?_congr fun code hcode => standsAtHead_run (htable code hcode) hword hu

/-- The name behind an `@` is read as far as it goes. -/
theorem ofSigil_run (hword : word.all isIdentChar) (hu : Text.Stops isIdentChar u) :
    ofSigil (word ++ u) =
      if word ∈ builtinCodes.map String.toList then ⟨.builtinProperty, word.length⟩
      else if word.head?.any isIdentStart then ⟨.identifier, word.length⟩ else ⟨.unknown, 0⟩ := by
  have hfind : builtinCode? (word ++ u) = builtinCodes.find? (·.toList == word) :=
    find?_standsAtHead isIdentChar_of_builtin hword hu
  have hhead : (word ++ u).head?.any isIdentStart = word.head?.any isIdentStart := by
    cases word with
    | nil =>
      have hstops : Text.Stops isIdentStart u := hu.mono fun _ => isIdentChar_of_isIdentStart
      cases u with
      | nil => rfl
      | cons d u => simp [hstops d rfl]
    | cons d word => rfl
  rw [ofSigil, hfind, hhead, Text.run_append hword hu]
  cases hcode : builtinCodes.find? (·.toList == word) with
  | none =>
    have hnone : word ∉ builtinCodes.map String.toList := by
      intro hmem
      obtain ⟨code, hbuiltin, rfl⟩ := List.mem_map.1 hmem
      simpa using List.find?_eq_none.1 hcode code hbuiltin
    rw [if_neg hnone]
  | some code =>
    have hmem := List.mem_of_find?_eq_some hcode
    obtain rfl : code.toList = word := by simpa using List.find?_some hcode
    rw [if_pos (List.mem_map_of_mem hmem), String.length_toList]

theorem ofSigil_behind (hrest' : Text.Stops (!isBlank ·) rest')
    (hextra : (ofSigil (s ++ rest)).extra = s.length) :
    ofSigil (s ++ rest') = ofSigil (s ++ rest) := by
  have hstops' : Text.Stops isIdentChar rest' := stops_isIdentChar hrest'
  obtain ⟨word, u, heq, -, hword, hu⟩ := Text.exists_run isIdentChar (s ++ rest)
  rw [heq, ofSigil_run hword hu] at hextra ⊢
  by_cases hname : word ∈ builtinCodes.map String.toList ∨ word.head?.any isIdentStart
  · -- the name ends where the token does
    have hlength : s.length = word.length := by
      rw [← hextra]
      split
      · rfl
      · next hcode => rw [if_pos (hname.resolve_left hcode)]
    obtain ⟨rfl, rfl⟩ := List.append_inj heq hlength
    exact ofSigil_run hword hstops'
  · rw [not_or] at hname
    rw [if_neg hname.1, if_neg hname.2] at hextra ⊢
    obtain rfl := List.length_eq_zero_iff.1 hextra.symm
    have hrun : ofSigil ([] ++ rest') = _ := ofSigil_run rfl hstops'
    rw [if_neg (by decide), if_neg (by decide)] at hrun
    exact hrun

/-! ## Words and markers -/

/-- A phrase that ends where the token does is found in front of white space, too. -/
theorem find?_ahead {table : List Phrase} {isHead : Text → Bool} (htable : Phrase.Ordered table)
    (hhead : ∀ p q, isHead p → isHead q → Text.eqIgnoringCase p q)
    (hmem : table ⊆ reservedPhrases ++ markerPhrases) (hahead : Ahead rest rest')
    (hstops : Text.Stops isIdentChar (s ++ rest))
    (htaken : Phrase.taken (Phrase.find? table isHead (s ++ rest)) = s.length) :
    Phrase.find? table isHead (s ++ rest') = Phrase.find? table isHead (s ++ rest) := by
  have hrest : Text.Stops isIdentChar rest := by
    have hbehind := Phrase.stops_taken htable isHead hstops
    rwa [htaken, List.drop_left] at hbehind
  have hrest' : Text.Stops isIdentChar rest' := stops_isIdentChar hahead.blank
  apply Phrase.find?_behind htable hhead hrest' _ htaken
  intro phrase hphrase _
  exact hahead.words hrest phrase (hmem hphrase)

theorem ofBrace_bare (ht : t.head? ≠ some '#') : ofBrace t = ⟨.openBrace, 0⟩ := by
  unfold ofBrace
  split
  · exact absurd rfl ht
  · rfl

theorem ofBrace_behind (hahead : Ahead rest rest')
    (hextra : (ofBrace (s ++ rest)).extra = s.length) :
    ofBrace (s ++ rest') = ofBrace (s ++ rest) := by
  cases s with
  | nil =>
    have hrest' : rest'.head? ≠ some '#' := Text.head?_ne (stops_of_points hahead.blank (by decide))
    have hrest : rest.head? ≠ some '#' := by
      intro hhead
      obtain ⟨cs, rfl⟩ := List.head?_eq_some_iff.1 hhead
      obtain ⟨word, u, rfl, -, hword, hu⟩ := Text.exists_run isMarkerChar cs
      rw [List.nil_append, extra_ofBrace hword hu, List.length_nil] at hextra
      omega
    rw [List.nil_append, List.nil_append, ofBrace_bare hrest, ofBrace_bare hrest']
  | cons x s =>
    obtain rfl : x = '#' := by
      by_contra hx
      rw [ofBrace_bare (by simpa using hx)] at hextra
      contradiction
    obtain ⟨word, u, heq, -, hword, hu⟩ := Text.exists_run isMarkerChar (s ++ rest)
    rw [List.cons_append, heq, extra_ofBrace hword hu, List.length_cons] at hextra
    obtain ⟨s, rfl, rfl⟩ := Text.split_of_length_le heq (by omega)
    have hrest' : Text.Stops isMarkerChar rest' := stops_of_points hahead.blank (by decide)
    have hfind : Phrase.find? markerPhrases (· == word) (s ++ rest') =
        Phrase.find? markerPhrases (· == word) (s ++ rest) := by
      apply find?_ahead Phrase.ordered_markerPhrases (Phrase.same_marker word)
        (List.subset_append_right _ _) hahead
      · exact hu.mono fun _ => isMarkerChar_of_isIdentChar
      · rw [List.length_append] at hextra
        omega
    rw [List.cons_append, List.cons_append, List.append_assoc, List.append_assoc,
      ofBrace_run hword hu, ofBrace_run hword (hu.append hrest'), hfind]

theorem ofWord_behind (hahead : Ahead rest rest')
    (hextra : (ofWord c (s ++ rest)).extra = s.length) :
    ofWord c (s ++ rest') = ofWord c (s ++ rest) := by
  obtain ⟨more, u, heq, -, hmore, hu⟩ := Text.exists_run isIdentChar (s ++ rest)
  rw [heq, extra_ofWord hmore hu] at hextra
  obtain ⟨s, rfl, rfl⟩ := Text.split_of_length_le heq (by omega)
  have hrest' : Text.Stops isIdentChar rest' := stops_isIdentChar hahead.blank
  rw [List.length_append, Nat.add_left_cancel_iff] at hextra
  have hfind : Phrase.find? reservedPhrases (Text.eqIgnoringCase · (c :: more)) (s ++ rest') =
      Phrase.find? reservedPhrases (Text.eqIgnoringCase · (c :: more)) (s ++ rest) :=
    find?_ahead Phrase.ordered_reservedPhrases (Phrase.same_word (c :: more))
      (List.subset_append_left _ _) hahead hu hextra
  rw [List.append_assoc, List.append_assoc, ofWord_run hmore hu,
    ofWord_run hmore (hu.append hrest'), hfind]
  cases hfound : Phrase.find? reservedPhrases (Text.eqIgnoringCase · (c :: more)) (s ++ rest) with
  | none =>
    -- the word is all, and what opens behind it opens behind the white space
    rw [hfound] at hextra
    obtain rfl := List.length_eq_zero_iff.1 hextra.symm
    simp only [List.nil_append, hahead.opens]
  | some found => rfl

/-! ## Symbols -/

theorem ofSymbol_congr (hhead : t.head? = u.head?) : ofSymbol last c t = ofSymbol last c u := by
  unfold ofSymbol
  split <;> simp only [hhead]

theorem ofSymbol_behind (hrest' : Text.Stops (!isBlank ·) rest')
    (hextra : (ofSymbol last c (s ++ rest)).extra = s.length)
    (hstar : c = '*' → (ofSymbol last c (s ++ rest)).kind ≠ .wildcard) :
    ofSymbol last c (s ++ rest') = ofSymbol last c (s ++ rest) := by
  cases s with
  | nil =>
    have hdot := Text.head?_ne (c := '.') (stops_of_points hrest' (by decide))
    have hequals := Text.head?_ne (c := '=') (stops_of_points hrest' (by decide))
    have hgreater := Text.head?_ne (c := '>') (stops_of_points hrest' (by decide))
    have hbracket := Text.head?_ne (c := ']') (stops_of_points hrest' (by decide))
    simp only [List.nil_append, List.length_nil] at hextra hstar ⊢
    unfold ofSymbol at hextra hstar ⊢
    split <;> grind
  | cons x s => exact ofSymbol_congr rfl

/-! ## Every lexeme -/

theorem extra_ofSigil_le (t : Text) : (ofSigil t).extra ≤ t.length := by
  obtain ⟨word, u, rfl, -, hword, hu⟩ := Text.exists_run isIdentChar t
  rw [ofSigil_run hword hu, List.length_append]
  split
  · exact Nat.le_add_right _ _
  · split
    · exact Nat.le_add_right _ _
    · exact Nat.zero_le _

theorem extra_ofSymbol_le (last : Option Token.Kind) (c : Char) (t : Text) :
    (ofSymbol last c t).extra ≤ t.length := by
  cases t with
  | nil =>
    unfold ofSymbol
    split <;> first | rfl | (split <;> rfl)
  | cons d t =>
    rw [List.length_cons]
    unfold ofSymbol
    split <;> first | (split <;> simp) | simp

/-- A lexeme takes no more than there is. -/
theorem extra_read_le (last : Option Token.Kind) (c : Char) (t : Text) :
    (read last c t).extra ≤ t.length := by
  fun_cases read last c t with
  | case1 => exact Literal.numberTail_le c t
  | case2 _ hsign =>
    cases t with
    | nil => simp [isSign] at hsign
    | cons d t =>
      have hle := Literal.numberTail_le d t
      simp only [List.headD_cons, List.tail_cons, List.length_cons]
      omega
  | case3 => exact extra_ofSigil_le t
  | case4 => exact extra_ofBrace_le t
  | case5 => exact extra_ofWord_le c t
  | case6 => exact extra_ofSymbol_le last c t

theorem isSign_behind (hrest' : Text.Stops (!isBlank ·) rest')
    (hextra : (read last c (s ++ rest)).extra = s.length) :
    isSign last c (s ++ rest') = isSign last c (s ++ rest) := by
  cases s with
  | nil =>
    rw [List.nil_append, isSign_stops (stops_of_points hrest' (by decide))]
    by_contra hsign
    rw [eq_comm, Bool.not_eq_false, List.nil_append] at hsign
    -- a sign takes the digit behind it
    have hc : c = '-' := by
      simp only [isSign, Bool.and_eq_true, beq_iff_eq] at hsign
      exact hsign.1.1
    subst hc
    simp [read, hsign] at hextra
  | cons x s => exact isSign_congr rfl

/-- The lexeme that ends where white space begins is the one that ended there before. -/
theorem read_behind (hahead : Ahead rest rest')
    (hextra : (read last c (s ++ rest)).extra = s.length)
    (hstar : c = '*' → (read last c (s ++ rest)).kind ≠ .wildcard) :
    read last c (s ++ rest') = read last c (s ++ rest) := by
  have hsign := isSign_behind hahead.blank hextra
  unfold read at hextra hstar ⊢
  rw [hsign]
  by_cases hdigit : c.isDigit
  · rw [if_pos hdigit] at hextra
    change Literal.numberTail c (s ++ rest) = s.length at hextra
    rw [if_pos hdigit, if_pos hdigit, Literal.numberTail_behind hahead.blank hextra, hextra]
  rw [if_neg hdigit] at hextra hstar ⊢
  rw [if_neg hdigit]
  by_cases hminus : isSign last c (s ++ rest)
  · rw [if_pos hminus] at hextra
    rw [if_pos hminus, if_pos hminus]
    cases s with
    | nil => simp at hextra
    | cons d s =>
      change 1 + Literal.numberTail d (s ++ rest) = s.length + 1 at hextra
      have htail : Literal.numberTail d (s ++ rest) = s.length := by omega
      have hbehind := Literal.numberTail_behind hahead.blank htail
      simp only [List.cons_append, List.headD_cons, List.tail_cons, htail, hbehind]
  rw [if_neg hminus] at hextra hstar ⊢
  rw [if_neg hminus]
  split
  · next hsigil =>
    rw [if_pos hsigil] at hextra
    exact ofSigil_behind hahead.blank hextra
  · next hsigil =>
    rw [if_neg hsigil] at hextra hstar
    split
    · next hbrace =>
      rw [if_pos hbrace] at hextra
      exact ofBrace_behind hahead hextra
    · next hbrace =>
      rw [if_neg hbrace] at hextra hstar
      split
      · next hword =>
        rw [if_pos hword] at hextra
        exact ofWord_behind hahead hextra
      · next hword =>
        rw [if_neg hword] at hextra hstar
        exact ofSymbol_behind hahead.blank hextra hstar

theorem extra_read_star (last : Option Token.Kind) (t : Text) : (read last '*' t).extra = 0 := by
  have hstart : isIdentStart '*' = false := by decide +kernel
  have hread : read last '*' t = ofSymbol last '*' t := by
    simp [read, isSign, hstart]
  rw [hread, ofSymbol]
  split <;> rfl

end Lexeme

namespace Token

variable {h : Heuristics} {last : Option Kind} {o o' : Nat} {c : Char} {s rest rest' : Text}

/-- The token is a string literal that its own closing quote ends. -/
def IsClosed (token : Token) : Prop :=
  ∃ content, QuotesPaired content ∧ token.source = '\'' :: (content ++ ['\''])

theorem read_quote (h : Heuristics) (last : Option Kind) (o : Nat) (t : Text) :
    Token.read h last o '\'' t =
      ⟨.stringLiteral, '\'' :: t.take (Literal.readString h 0 ['\''] t).1,
        (Literal.readString h 0 ['\''] t).2, o⟩ := rfl

/-- A closed string literal in front of white space is the one that was read in front of other
text. -/
theorem read_quote_behind (hrest' : Text.Stops (!isBlank ·) rest')
    (hsource : (Token.read h last o '\'' (s ++ rest)).source = '\'' :: s)
    (hclosed : (Token.read h last o '\'' (s ++ rest)).IsClosed) :
    Token.read h last o' '\'' (s ++ rest') =
      { Token.read h last o '\'' (s ++ rest) with start := o' } := by
  obtain ⟨content, hpaired, heq⟩ := hclosed
  obtain rfl : s = content ++ ['\''] := (List.cons.inj (hsource.symm.trans heq)).2
  rw [read_quote] at hsource
  have hextra : (Literal.readString h 0 ['\''] (content ++ ['\''] ++ rest)).1 =
      (content ++ ['\'']).length :=
    Text.length_of_take (Literal.readString_le ..) (List.cons.inj hsource).2
  have hsplit (u : Text) : content ++ ['\''] ++ u = content ++ '\'' :: u := by simp
  have hquote : rest'.head? ≠ some '\'' := Text.head?_ne (stops_of_points hrest' (by decide))
  have hbehind : Literal.readString h 0 ['\''] (content ++ '\'' :: rest') =
      Literal.readString h 0 ['\''] (content ++ '\'' :: rest) := by
    apply Literal.readString_closed hpaired hquote
    rw [← hsplit, hextra, List.length_append, Nat.zero_add]
    rfl
  rw [← hsplit rest, ← hsplit rest'] at hbehind
  rw [read_quote, read_quote, hbehind, hextra, List.take_left, List.take_left]

/-- A token in front of white space is the token that was read in front of other text. -/
theorem read_behind (hahead : Ahead rest rest')
    (hsource : (Token.read h last o c (s ++ rest)).source = c :: s)
    (hclosed : (Token.read h last o c (s ++ rest)).kind = .stringLiteral →
      (Token.read h last o c (s ++ rest)).IsClosed)
    (hstar : (Token.read h last o c (s ++ rest)).kind = .wildcard →
      (Token.read h last o c (s ++ rest)).source ≠ ['*']) :
    Token.read h last o' c (s ++ rest') =
      { Token.read h last o c (s ++ rest) with start := o' } := by
  by_cases hc : c = '\''
  · subst hc
    exact read_quote_behind hahead.blank hsource (hclosed rfl)
  · simp only [Token.read, if_neg hc] at hsource hstar ⊢
    have hextra := Lexeme.extra_of_source (Lexeme.extra_read_le last c (s ++ rest)) hsource
    have hlexeme : Lexeme.read last c (s ++ rest') = Lexeme.read last c (s ++ rest) := by
      apply Lexeme.read_behind hahead hextra
      rintro rfl hkind
      apply hstar hkind
      rw [Lexeme.token, Lexeme.extra_read_star, List.take_zero]
    rw [hlexeme, Lexeme.token, Lexeme.token, hextra, List.take_left, List.take_left]

end Token

end LogSyntax
