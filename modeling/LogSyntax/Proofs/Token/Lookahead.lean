import LogSyntax.Proofs.Token.Locality
import LogSyntax.Proofs.Token.Phrase
/-!
# Looking ahead

A word may be read together with the words behind it, and then it is what stands ahead that decides.
What stands ahead is tokens again: words follow in a text exactly if its next tokens spell them
(`Tokenizer.following?_isSome_iff`), and the next character behind white space is the first one of
the next token (`Tokenizer.head?_trimStart`). So looking ahead sees no more than the tokens.
-/

namespace LogSyntax

/-! ## Characters that begin a word -/

theorem not_isDigit_of_isIdentStart {c : Char} (hc : isIdentStart c) : c.isDigit = false := by
  by_contra hdigit
  have hrange : 48 ≤ c.toNat ∧ c.toNat ≤ 57 := by
    simpa [Char.isDigit, UInt32.le_iff_toNat_le] using hdigit
  have hletters : ∀ n ∈ List.range' 48 10, letterRanges.covers n = false := by decide +kernel
  have hletter : isLetter c = false := hletters c.toNat (List.mem_range'_1.2 (by omega))
  have hline : c ≠ '_' := by
    rintro rfl
    exact absurd hrange (by decide)
  simp [isIdentStart, hletter, hline] at hc

theorem ne_of_isIdentStart {c d : Char} (hc : isIdentStart c) (hd : isIdentStart d = false) :
    c ≠ d := by
  rintro rfl
  rw [hd] at hc
  contradiction

theorem toNat_of_isLower {c : Char} (hc : c.isLower) : 97 ≤ c.toNat ∧ c.toNat ≤ 122 := by
  have hbounds : 'a'.val ≤ c.val ∧ c.val ≤ 'z'.val := by
    change (decide ('a'.val ≤ c.val) && decide (c.val ≤ 'z'.val)) = true at hc
    simpa using hc
  simpa [UInt32.le_iff_toNat_le] using hbounds

/-- A character whose lower case is a letter of ASCII is one itself. -/
theorem isIdentStart_of_toLower {c : Char} (hc : c.toLower.isLower) : isIdentStart c := by
  have hrange : 65 ≤ c.toNat ∧ c.toNat ≤ 90 ∨ 97 ≤ c.toNat ∧ c.toNat ≤ 122 := by
    unfold Char.toLower at hc
    split at hc
    · next hupper =>
      left
      simpa [UInt32.le_iff_toNat_le] using hupper
    · exact .inr (toNat_of_isLower hc)
  have hletters : ∀ n ∈ List.range' 65 26 ++ List.range' 97 26, letterRanges.covers n = true := by
    decide +kernel
  have hletter : isLetter c = true := by
    apply hletters
    rw [List.mem_append, List.mem_range'_1, List.mem_range'_1]
    omega
  rw [isIdentStart, hletter, Bool.true_or]

/-- All characters of a word that is spelled by letters of ASCII can begin a word. -/
theorem isIdentStart_of_lower {w : String} {word : Text} (hw : w.toList.all Char.isLower)
    (heq : Text.lower word = Text.lower w.toList) : ∀ c ∈ word, isIdentStart c := by
  intro c hc
  have hmem : c.toLower ∈ Text.lower w.toList := heq ▸ List.mem_map_of_mem hc
  obtain ⟨d, hd, hdc⟩ := List.mem_map.1 hmem
  have hdlower : d.isLower := List.all_eq_true.1 hw d hd
  have hfixed : d.toLower = d := by
    unfold Char.toLower
    rw [dif_neg]
    intro hupper
    have hle : d.toNat ≤ 90 := by simpa [UInt32.le_iff_toNat_le] using hupper.2
    have hge := (toNat_of_isLower hdlower).1
    omega
  exact isIdentStart_of_toLower (by rwa [← hdc, hfixed])

theorem isBlank_of_isIdentChar {c : Char} (hc : isIdentChar c) : isBlank c = false := by
  cases hblank : isBlank c with
  | false => rfl
  | true =>
    rw [isIdentChar_of_isBlank hblank] at hc
    contradiction

theorem isMarkerChar_of_isIdentChar {c : Char} (hc : isIdentChar c) : Lexeme.isMarkerChar c := by
  have hopen : c ≠ '{' := by
    rintro rfl
    exact absurd hc (by decide +kernel)
  have hclose : c ≠ '}' := by
    rintro rfl
    exact absurd hc (by decide +kernel)
  simp [Lexeme.isMarkerChar, isBlank_of_isIdentChar hc, hopen, hclose]

/-! ## Words and markers -/

namespace Lexeme

variable {lexeme : Lexeme} {o : Nat} {c : Char} {more word s t u rest : Text}

/-- How many characters a lexeme takes can be seen from the source of its token. -/
theorem extra_of_source (hle : lexeme.extra ≤ (s ++ rest).length)
    (hsource : (lexeme.token o c (s ++ rest)).source = c :: s) : lexeme.extra = s.length :=
  Text.length_of_take hle (List.cons.inj hsource).2

/-- A word is read as far as it goes, and then perhaps the words of a phrase behind it. -/
theorem ofWord_run (hmore : more.all isIdentChar) (hu : Text.Stops isIdentChar u) :
    ofWord c (more ++ u) =
      match Phrase.find? reservedPhrases (Text.eqIgnoringCase · (c :: more)) u with
      | some (kind, tail) => ⟨kind, more.length + tail⟩
      | none =>
        if isFunctionName (c :: more) ∧ (Text.trimStart u).head? = some '(' then
          ⟨.function, more.length⟩
        else ⟨.identifier, more.length⟩ := by
  have htake := Text.takeWhile_run hmore hu
  have hdrop := Text.dropWhile_run hmore hu
  cases hfind : Phrase.find? reservedPhrases (Text.eqIgnoringCase · (c :: more)) u with
  | none => simp only [ofWord, htake, hdrop, hfind]
  | some found => simp only [ofWord, htake, hdrop, hfind]

theorem extra_ofWord (hmore : more.all isIdentChar) (hu : Text.Stops isIdentChar u) :
    (ofWord c (more ++ u)).extra = more.length +
      Phrase.taken (Phrase.find? reservedPhrases (Text.eqIgnoringCase · (c :: more)) u) := by
  rw [ofWord_run hmore hu]
  cases Phrase.find? reservedPhrases (Text.eqIgnoringCase · (c :: more)) u with
  | none =>
    dsimp only
    split <;> rfl
  | some found => rfl

/-- A marker is read as far as it goes, and then perhaps a word behind it. -/
theorem ofBrace_run (hword : word.all isMarkerChar) (hu : Text.Stops isMarkerChar u) :
    ofBrace ('#' :: (word ++ u)) =
      match Phrase.find? markerPhrases (· == word) u with
      | some (kind, more) => ⟨kind, 1 + word.length + more⟩
      | none => ⟨.unknown, 1 + word.length⟩ := by
  have htake := Text.takeWhile_run hword hu
  cases hfind : Phrase.find? markerPhrases (· == word) u with
  | none => simp only [ofBrace, htake, List.drop_left, hfind]
  | some found => simp only [ofBrace, htake, List.drop_left, hfind]

theorem extra_ofBrace (hword : word.all isMarkerChar) (hu : Text.Stops isMarkerChar u) :
    (ofBrace ('#' :: (word ++ u))).extra = 1 + word.length +
      Phrase.taken (Phrase.find? markerPhrases (· == word) u) := by
  rw [ofBrace_run hword hu]
  cases Phrase.find? markerPhrases (· == word) u with
  | none => rfl
  | some found => rfl

theorem extra_ofWord_le (c : Char) (t : Text) : (ofWord c t).extra ≤ t.length := by
  obtain ⟨more, u, rfl, -, hmore, hu⟩ := Text.exists_run isIdentChar t
  have hle := Phrase.taken_le Phrase.ordered_reservedPhrases (Text.eqIgnoringCase · (c :: more)) u
  rw [extra_ofWord hmore hu, List.length_append]
  omega

theorem extra_ofBrace_le (t : Text) : (ofBrace t).extra ≤ t.length := by
  unfold ofBrace
  split
  · next cs =>
    obtain ⟨word, u, rfl, -, hword, hu⟩ := Text.exists_run isMarkerChar cs
    have hle := Phrase.taken_le Phrase.ordered_markerPhrases (· == word) u
    change (ofBrace ('#' :: (word ++ u))).extra ≤ _
    rw [extra_ofBrace hword hu, List.length_cons, List.length_append]
    omega
  · exact Nat.zero_le _

/-- A marker whose token is no longer than itself ends there, and no phrase goes on behind it. -/
theorem stops_of_marker (hword : word.all isMarkerChar)
    (hsource : ((ofBrace ('#' :: (word ++ rest))).token o '{' ('#' :: (word ++ rest))).source =
      '{' :: '#' :: word) :
    Text.Stops isMarkerChar rest ∧
      Phrase.taken (Phrase.find? markerPhrases (· == word) rest) = 0 := by
  have hextra := extra_of_source (s := '#' :: word) (extra_ofBrace_le _) hsource
  obtain ⟨more, u, rfl, -, hmore, hu⟩ := Text.exists_run isMarkerChar rest
  have hall : (word ++ more).all isMarkerChar := by simp [hword, hmore]
  have htaken := extra_ofBrace hall hu
  rw [List.append_assoc, ← List.cons_append, hextra, List.length_cons, List.length_append] at htaken
  obtain rfl : more = [] := List.length_eq_zero_iff.1 (by omega)
  rw [List.append_nil] at htaken
  exact ⟨hu, by rw [List.nil_append]; omega⟩

/-- No word goes on behind one that is read. -/
theorem stops_ofWord (c : Char) (t : Text) :
    Text.Stops isIdentChar (t.drop (ofWord c t).extra) := by
  obtain ⟨more, u, rfl, -, hmore, hu⟩ := Text.exists_run isIdentChar t
  rw [extra_ofWord hmore hu, ← List.drop_drop, List.drop_left]
  exact Phrase.stops_taken Phrase.ordered_reservedPhrases _ hu

end Lexeme

theorem Token.read_word {h : Heuristics} {last : Option Kind} {o : Nat} {c : Char} {t : Text}
    (hc : isIdentStart c) : Token.read h last o c t = (Lexeme.ofWord c t).token o c t := by
  have hminus : Lexeme.isSign last c t = false := by
    simp [Lexeme.isSign, ne_of_isIdentStart hc (d := '-') (by decide +kernel)]
  rw [Token.read, if_neg (ne_of_isIdentStart hc (by decide +kernel)), Lexeme.read,
    not_isDigit_of_isIdentStart hc, hminus, if_neg (by simp), if_neg (by simp),
    if_neg (ne_of_isIdentStart hc (by decide +kernel)),
    if_neg (ne_of_isIdentStart hc (by decide +kernel)), if_pos hc]

/-- No word goes on behind a token that is one. -/
theorem Token.stops_of_word {h : Heuristics} {last : Option Kind} {o : Nat} {c : Char}
    {s rest : Text} (hc : isIdentStart c)
    (hsource : (Token.read h last o c (s ++ rest)).source = c :: s) :
    Text.Stops isIdentChar rest := by
  rw [Token.read_word hc] at hsource
  have hextra := Lexeme.extra_of_source (Lexeme.extra_ofWord_le c (s ++ rest)) hsource
  have hstops := Lexeme.stops_ofWord c (s ++ rest)
  rwa [hextra, List.drop_left] at hstops

/-! ## The tokens ahead -/

/-- The words that may follow in a phrase: lower case letters, and no word makes a phrase with the
one behind it. -/
def Phrase.Apart : List String → Prop
  | [] => True
  | w :: more =>
    (w.toList ≠ [] ∧ w.toList.all Char.isLower) ∧
      (∀ phrase ∈ reservedPhrases, Text.eqIgnoringCase phrase.head.toList w.toList →
        phrase.tail = [] ∨ more ≠ [] ∧
          phrase.tail.head?.map (Text.lower ·.toList) ≠ more.head?.map (Text.lower ·.toList)) ∧
      Apart more

instance Phrase.decidableApart : (words : List String) → Decidable (Phrase.Apart words)
  | [] => isTrue trivial
  | w :: more =>
    have := decidableApart more
    inferInstanceAs
      (Decidable ((w.toList ≠ [] ∧ w.toList.all Char.isLower) ∧ _ ∧ Phrase.Apart more))

theorem Phrase.apart_tail :
    ∀ phrase ∈ reservedPhrases ++ markerPhrases, Phrase.Apart phrase.tail := by
  decide

/-- Two words that are read at one place are the same. -/
theorem Phrase.eq_of_following? {v w : String} {vs ws : List String} {t : Text} (hv : v.toList ≠ [])
    (h : (following? (v :: vs) t).isSome) (h' : (following? (w :: ws) t).isSome) :
    Text.lower v.toList = Text.lower w.toList := by
  obtain ⟨n, hn⟩ := Option.isSome_iff_exists.1 h
  obtain ⟨gap, word, u, m, rfl, hgap, hblank, hword, hident, hu, heq, -, -⟩ :=
    exists_of_following? hv hn
  rw [following?_cons w ws hgap hblank hword hident hu] at h'
  split at h'
  · next heq' =>
    rw [Text.eqIgnoringCase, beq_iff_eq] at heq heq'
    rw [← heq, ← heq']
  · contradiction

namespace Tokenizer

variable {h : Heuristics} {last : Option Token.Kind} {o : Nat} {c : Char} {s t : Text}
  {token : Token} {tokens' : List Token}

/-- The first of the tokens ahead, and those behind it. -/
theorem exists_of_tokens_cons (htokens : tokens ⟨⟨o, t⟩, h, last⟩ = token :: tokens') :
    ∃ gap c s rest, t = gap ++ c :: (s ++ rest) ∧ gap.all isBlank ∧ isBlank c = false ∧
      token = Token.read h last (o + Text.bytes gap) c (s ++ rest) ∧ token.source = c :: s ∧
      tokens' =
        tokens ⟨⟨o + Text.bytes gap + Text.bytes token.source, rest⟩, h, some token.kind⟩ := by
  obtain ⟨gap, u, rfl, -, hgap, hu⟩ := Text.exists_run isBlank t
  rw [tokens_blanks hgap] at htokens
  cases u with
  | nil =>
    rw [tokens_nil] at htokens
    contradiction
  | cons c cs =>
    have hc : isBlank c = false := hu c rfl
    obtain ⟨s, hsource, rest, rfl⟩ := Token.source_read h last (o + Text.bytes gap) c cs
    rw [tokens_cons hc rfl hsource] at htokens
    obtain ⟨rfl, rfl⟩ := List.cons.inj htokens
    exact ⟨gap, c, s, rest, rfl, hgap, hc, rfl, hsource, rfl⟩

/-- The next character behind white space is the first one of the next token. -/
theorem head?_trimStart (h : Heuristics) (last : Option Token.Kind) (o : Nat) (t : Text) :
    (Text.trimStart t).head? =
      ((tokens ⟨⟨o, t⟩, h, last⟩).map (·.source)).head?.bind List.head? := by
  obtain ⟨gap, u, rfl, -, hgap, hu⟩ := Text.exists_run isBlank t
  rw [Text.trimStart, Text.dropWhile_run hgap hu, tokens_blanks hgap]
  cases u with
  | nil =>
    rw [tokens_nil]
    rfl
  | cons c cs =>
    obtain ⟨s, hsource, rest, rfl⟩ := Token.source_read h last (o + Text.bytes gap) c cs
    rw [tokens_cons (hu c rfl) rfl hsource, List.map_cons, hsource]
    rfl

/-- A word that makes no phrase with what stands behind it is a token, and ends where it ends. -/
theorem tokens_word (h : Heuristics) (last : Option Token.Kind) (o : Nat) {more u : Text}
    (hc : isIdentStart c) (hmore : more.all isIdentChar) (hu : Text.Stops isIdentChar u)
    (htaken : Phrase.taken
      (Phrase.find? reservedPhrases (Text.eqIgnoringCase · (c :: more)) u) = 0) :
    ∃ token : Token, token.source = c :: more ∧ tokens ⟨⟨o, c :: (more ++ u)⟩, h, last⟩ =
      token :: tokens ⟨⟨o + Text.bytes token.source, u⟩, h, some token.kind⟩ := by
  have hsource : (Token.read h last o c (more ++ u)).source = c :: more := by
    rw [Token.read_word hc, Lexeme.token, Lexeme.extra_ofWord hmore hu, htaken, Nat.add_zero,
      List.take_left]
  have hblank : isBlank c = false := isBlank_of_isIdentChar (isIdentChar_of_isIdentStart hc)
  exact ⟨_, hsource, tokens_cons hblank rfl hsource⟩

/-- A word that is to be followed by others makes no phrase of its own with them. -/
theorem taken_of_apart {w : String} {more : List String} {word u : Text}
    (hwords : Phrase.Apart (w :: more)) (heq : Text.eqIgnoringCase word w.toList)
    (hmore : (Phrase.following? more u).isSome) :
    Phrase.taken (Phrase.find? reservedPhrases (Text.eqIgnoringCase · word) u) = 0 := by
  obtain ⟨-, hapart, hrest⟩ := hwords
  cases hfound : Phrase.find? reservedPhrases (Text.eqIgnoringCase · word) u with
  | none => rfl
  | some found =>
    obtain ⟨kind, n⟩ := found
    obtain ⟨before, phrase, after, htable, hhead, hfollowing, -, -⟩ :=
      Phrase.find?_eq_some_iff.1 hfound
    have hmem : phrase ∈ reservedPhrases := by simp [htable]
    have hlower : Text.eqIgnoringCase phrase.head.toList w.toList := by
      rw [Text.eqIgnoringCase, beq_iff_eq] at hhead heq ⊢
      exact hhead.trans heq
    rcases hapart phrase hmem hlower with hlone | ⟨hne, hdiffer⟩
    · rw [hlone] at hfollowing
      exact (Option.some.inj hfollowing).symm
    · -- two phrases cannot go on with different words at one place
      obtain ⟨v, vs, rfl⟩ := List.exists_cons_of_ne_nil hne
      cases htail : phrase.tail with
      | nil =>
        rw [htail] at hfollowing
        exact (Option.some.inj hfollowing).symm
      | cons x xs =>
        rw [htail] at hfollowing hdiffer
        have hv : v.toList ≠ [] := hrest.1.1
        have hsame := Phrase.eq_of_following? hv hmore (Option.isSome_of_eq_some hfollowing)
        exact absurd (congrArg some hsame.symm) hdiffer

/-- Words follow in a text exactly if its next tokens spell them. -/
theorem following?_isSome_iff {words : List String} (hwords : Phrase.Apart words)
    (ht : Text.Stops isIdentChar t) :
    (Phrase.following? words t).isSome ↔
      words.map (Text.lower ·.toList) <+:
        (tokens ⟨⟨o, t⟩, h, last⟩).map (Text.lower ·.source) := by
  induction words generalizing t o last with
  | nil => simp [Phrase.following?]
  | cons w more ih =>
    obtain ⟨⟨hw, hlower⟩, -, hrest⟩ := id hwords
    rw [List.map_cons]
    constructor
    · intro hsome
      obtain ⟨n, hn⟩ := Option.isSome_iff_exists.1 hsome
      obtain ⟨gap, word, u, m, rfl, -, hgap, hword, hident, hu, heq, hm, -⟩ :=
        Phrase.exists_of_following? hw hn
      have hmore : (Phrase.following? more u).isSome := Option.isSome_of_eq_some hm
      have htaken := taken_of_apart hwords heq hmore
      rw [Text.eqIgnoringCase, beq_iff_eq] at heq
      obtain ⟨c, s, rfl⟩ := List.exists_cons_of_ne_nil hword
      have hc : isIdentStart c := isIdentStart_of_lower hlower heq c List.mem_cons_self
      have hs : s.all isIdentChar := by
        rw [List.all_cons, Bool.and_eq_true] at hident
        exact hident.2
      obtain ⟨token, hsource, htokens⟩ :=
        tokens_word h last (o + Text.bytes gap) hc hs hu htaken
      rw [tokens_blanks hgap, List.cons_append, htokens, List.map_cons, hsource, heq,
        List.cons_prefix_cons]
      exact ⟨rfl, (ih hrest hu).1 hmore⟩
    · intro hprefix
      cases htokens : tokens ⟨⟨o, t⟩, h, last⟩ with
      | nil => simp [htokens] at hprefix
      | cons token behind =>
        rw [htokens, List.map_cons, List.cons_prefix_cons] at hprefix
        obtain ⟨heq, hbehind⟩ := hprefix
        obtain ⟨gap, c, s, rest, rfl, hgap, -, rfl, hsource, rfl⟩ := exists_of_tokens_cons htokens
        have hstart := isIdentStart_of_lower hlower (hsource ▸ heq.symm)
        have hident : (c :: s).all isIdentChar := List.all_eq_true.2 fun d hd =>
          isIdentChar_of_isIdentStart (hstart d hd)
        have hc : isIdentStart c := hstart c List.mem_cons_self
        -- the word before ends at white space, since this one goes on with a letter
        have hne : gap ≠ [] := by
          rintro rfl
          have := ht c rfl
          rw [isIdentChar_of_isIdentStart hc] at this
          contradiction
        have hu : Text.Stops isIdentChar rest := Token.stops_of_word hc hsource
        rw [← List.cons_append, Phrase.following?_cons w more hne hgap (by simp) hident hu, if_pos,
          Option.isSome_map]
        · exact (ih hrest hu).2 hbehind
        · rw [Text.eqIgnoringCase, beq_iff_eq, ← hsource]
          exact heq.symm

end Tokenizer

end LogSyntax
