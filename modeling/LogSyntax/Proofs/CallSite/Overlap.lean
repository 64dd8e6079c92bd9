import LogSyntax.Proofs.CallSite.Spelling
import LogSyntax.Proofs.Text.Laid
/-!
# Overlapping calls

A search without overlap passes over an occurrence that begins within one it has found. The
character a pattern begins with stands nowhere else in what it spells, with one exception: a string
literal may hold any character. So the occurrence that is passed over begins within the first
argument of a call, takes the closing quote of it for an opening one, and ends at the next quotes
behind the call (`Pattern.OccursAt.overlap`). There is no last quote in between, for any pattern
(`Pattern.OccursAt.le_of_lt`).
-/

namespace LogSyntax

namespace CallSite

/-- The part reads no text with the character in it. -/
def Part.Avoids (c : Char) : Part → Prop
  | .oneOf words => ∀ w ∈ words, c ∉ w.toList
  | .blanks => isBlank c = false
  | .marks => isMark c = false
  | .argument => False
  | .quotes => c ≠ '"'

instance (c : Char) (part : Part) : Decidable (part.Avoids c) :=
  match part with
  | .oneOf words => inferInstanceAs (Decidable (∀ w ∈ words, c ∉ w.toList))
  | .blanks => inferInstanceAs (Decidable (isBlank c = false))
  | .marks => inferInstanceAs (Decidable (isMark c = false))
  | .argument => inferInstanceAs (Decidable False)
  | .quotes => inferInstanceAs (Decidable (c ≠ '"'))

variable {pattern : Pattern} {parts : List Part} {c : Char} {t : Text}

theorem Part.Avoids.notMem {part : Part} (h : part.Avoids c) (ht : part.Reads t) : c ∉ t := by
  have hnot {f : Char → Bool} (hf : f c = false) (ht : t.all f) : c ∉ t := by
    intro hc
    simpa [hf] using List.all_eq_true.1 ht c hc
  cases part with
  | oneOf words =>
    obtain ⟨w, hw, rfl⟩ := ht
    exact h w hw
  | blanks => exact hnot h ht
  | marks => exact hnot h ht
  | argument => exact h.elim
  | quotes =>
    have hne : c ≠ '"' := h
    exact hnot (f := (· == '"')) (beq_false_of_ne hne) ht.2

theorem Spells.notMem (ht : Spells parts t) (h : ∀ part ∈ parts, part.Avoids c) : c ∉ t := by
  induction parts generalizing t with
  | nil =>
    obtain rfl : t = [] := ht
    exact List.not_mem_nil
  | cons part parts ih =>
    obtain ⟨s, u, rfl, hs, hu⟩ := ht
    obtain ⟨hpart, hparts⟩ := List.forall_mem_cons.1 h
    rw [List.mem_append, not_or]
    exact ⟨hpart.notMem hs, ih hu hparts⟩

/-- A pattern that begins with a word has the first character of it in no other place, if its
further parts avoid it. -/
theorem Spells.exists_cons {w : String} {cs : List Char} (ht : Spells (.oneOf [w] :: parts) t)
    (hw : w.toList = c :: cs) (hcs : c ∉ cs) (h : ∀ part ∈ parts, part.Avoids c) :
    ∃ u, t = c :: u ∧ c ∉ u := by
  obtain ⟨_, u, rfl, ⟨_, hmem, rfl⟩, hu⟩ := ht
  obtain rfl := List.mem_singleton.1 hmem
  refine ⟨cs ++ u, by rw [hw, List.cons_append], ?_⟩
  rw [List.mem_append, not_or]
  exact ⟨hcs, hu.notMem h⟩

theorem parts_of_computedProperty (hpattern : pattern ∈ patterns)
    (hcontext : pattern.context = .computedProperty) :
    pattern.parts = [.oneOf ["WithComputed"], .blanks, .oneOf ["("], .blanks, .marks] ++
      .argument :: ([.blanks, .oneOf [","], .blanks, .marks] ++ [.quotes]) := by
  simp only [patterns, List.mem_cons, List.not_mem_nil, or_false] at hpattern
  rcases hpattern with rfl | rfl | rfl | rfl
  · contradiction
  · contradiction
  · rfl
  · contradiction

/-- Three stretches without quotes make up a call with two literals, and the quotes behind each. -/
theorem exists_stretches (hpattern : pattern ∈ patterns)
    (hcontext : pattern.context = .computedProperty) (h : Spells pattern.parts t) :
    ∃ front argument gap quotes,
      t = 'W' :: (front ++ '"' :: (argument ++ '"' :: (gap ++ '"' :: quotes))) ∧
      ('W' ∉ front ∧ '"' ∉ front) ∧ '"' ∉ argument ∧ ('W' ∉ gap ∧ '"' ∉ gap ∧ gap ≠ []) ∧
      quotes.all (· == '"') := by
  rw [parts_of_computedProperty hpattern hcontext] at h
  obtain ⟨front, _, rfl, hfront, _, _, rfl, ⟨argument, hargument, rfl⟩, hmore⟩ :=
    spells_append.1 h
  obtain ⟨gap, _, rfl, hgap, quotes, _, rfl, ⟨hne, hquotes⟩, rfl⟩ := spells_append.1 hmore
  have hfrontq : '"' ∉ front := hfront.notMem (by decide)
  obtain ⟨front, rfl, hfrontw⟩ := hfront.exists_cons (c := 'W') rfl (by decide) (by decide)
  have hgapne : gap ≠ [] := by
    rintro rfl
    obtain ⟨_, _, hnil, -, _, _, rfl, ⟨_, hw, rfl⟩, -⟩ := hgap
    obtain rfl := List.mem_singleton.1 hw
    simp at hnil
  obtain ⟨c, quotes, rfl⟩ := List.exists_cons_of_ne_nil hne
  rw [List.all_cons, Bool.and_eq_true, beq_iff_eq] at hquotes
  obtain ⟨rfl, hquotes⟩ := hquotes
  refine ⟨front, argument, gap, quotes, by simp, ⟨hfrontw, ?_⟩, hargument,
    ⟨hgap.notMem (by decide), hgap.notMem (by decide), hgapne⟩, hquotes⟩
  exact fun hmem => hfrontq (List.mem_cons_of_mem _ hmem)

/-! ## A call that begins within another one -/

/-- Up to the first place of a character there is one way to split a text. -/
theorem append_cons_inj {s t s' t' : Text} (hs : c ∉ s) (hs' : c ∉ s')
    (h : s ++ c :: t = s' ++ c :: t') : s = s' ∧ t = t' := by
  rcases Text.append_eq_append_cons h with ⟨x, rfl⟩ | ⟨y, rfl, hy⟩
  · simp at hs
  · cases y with
    | nil => exact ⟨(List.append_nil s).symm, (List.cons.inj hy).2⟩
    | cons d y =>
      obtain ⟨rfl, -⟩ := List.cons.inj hy
      simp at hs'

/-- A character that stands in no part of a text but the middle one stands there. -/
theorem exists_middle {s m t before after : Text} (h : s ++ (m ++ t) = before ++ c :: after)
    (hs : c ∉ s) (ht : c ∉ t) : ∃ x y, before = s ++ x ∧ m = x ++ c :: y := by
  rcases Text.append_eq_append_cons h with ⟨_, rfl⟩ | ⟨x, rfl, hx⟩
  · simp at hs
  rcases Text.append_eq_append_cons hx with ⟨y, rfl⟩ | ⟨y, rfl, rfl⟩
  · exact ⟨x, y, rfl, rfl⟩
  · simp at ht

section Within

variable {s t s' t' inner u' : Text}

/-- What begins within a text and with a character has that character in it. -/
theorem exists_eq_append_cons (hline : s ++ t = inner ++ (s' ++ t'))
    (hlt : inner.length < s.length) (hs' : s' = c :: u') : ∃ x, s = inner ++ c :: x := by
  rw [hs', List.cons_append] at hline
  rcases Text.append_eq_append_cons hline with hx | ⟨y, rfl, -⟩
  · exact hx
  · simp only [List.length_append] at hlt
    omega

/-- Nothing begins within a pattern with a character that stands only at the head of it. -/
theorem not_within {w : String} {cs : List Char} (hs : Spells (.oneOf [w] :: parts) s)
    (hs' : Spells (.oneOf [w] :: parts) s') (hw : w.toList = c :: cs) (hcs : c ∉ cs)
    (h : ∀ part ∈ parts, part.Avoids c) (hline : s ++ t = inner ++ (s' ++ t')) (hne : inner ≠ []) :
    s.length ≤ inner.length := by
  by_contra hlt
  obtain ⟨u, hu, hmem⟩ := hs.exists_cons hw hcs h
  obtain ⟨u', hu', -⟩ := hs'.exists_cons hw hcs h
  obtain ⟨x, hx⟩ := exists_eq_append_cons hline (Nat.lt_of_not_le hlt) hu'
  obtain ⟨d, inner, rfl⟩ := List.exists_cons_of_ne_nil hne
  obtain ⟨-, rfl⟩ := List.cons.inj (hu.symm.trans hx)
  exact hmem (by simp)

/-- A call with two literals that begins within another one ends behind it, at the next quotes. -/
theorem within_computedProperty (hpattern : pattern ∈ patterns)
    (hcontext : pattern.context = .computedProperty) (hs : Spells pattern.parts s)
    (hs' : Spells pattern.parts s') (hline : s ++ t = inner ++ (s' ++ t')) (hne : inner ≠ [])
    (hlt : inner.length < s.length) :
    ∃ gap quotes, inner ++ s' = s ++ (gap ++ quotes) ∧ '"' ∉ gap ∧ quotes.all (· == '"') := by
  obtain ⟨front, argument, gap, quotes, rfl, ⟨hfrontw, hfront⟩, hargument, ⟨hgapw, hgap, -⟩,
    hquotes⟩ := exists_stretches hpattern hcontext hs
  obtain ⟨front', argument', gap', quotes', rfl, ⟨-, hfront'⟩, hargument', ⟨-, hgap', hne'⟩,
    hquotes'⟩ := exists_stretches hpattern hcontext hs'
  -- it begins within the first argument, where alone its first letter can stand
  obtain ⟨x, hx⟩ := exists_eq_append_cons hline hlt rfl
  obtain ⟨d, inner, rfl⟩ := List.exists_cons_of_ne_nil hne
  obtain ⟨rfl, hx⟩ := List.cons.inj hx
  have hquotesw : 'W' ∉ quotes := fun h => by simpa using List.all_eq_true.1 hquotes _ h
  obtain ⟨y, z, rfl, rfl⟩ : ∃ y z, inner = front ++ ['"'] ++ y ∧ argument = y ++ 'W' :: z :=
    exists_middle (t := '"' :: (gap ++ '"' :: quotes)) (by simpa using hx) (by simp [hfrontw])
      (by simp [hgapw, hquotesw])
  -- the quotes of both calls are the same ones, from the closing quote of that argument on
  have hrest : z ++ '"' :: (gap ++ '"' :: (quotes ++ t)) =
      front' ++ '"' :: (argument' ++ '"' :: (gap' ++ '"' :: (quotes' ++ t'))) := by
    simpa using hline
  have hz : '"' ∉ z := fun h => hargument (by simp [h])
  obtain ⟨rfl, hmore⟩ := append_cons_inj hz hfront' hrest
  obtain ⟨rfl, hlast⟩ := append_cons_inj hgap hargument' hmore
  cases quotes with
  | nil => exact ⟨gap', '"' :: quotes', by simp, hgap', by simpa using hquotes'⟩
  | cons c quotes =>
    obtain ⟨d, gap', rfl⟩ := List.exists_cons_of_ne_nil hne'
    obtain ⟨rfl, -⟩ := List.cons.inj hlast
    obtain ⟨hc, -⟩ : c = '"' ∧ _ := by simpa using hquotes
    exact absurd hc fun h => hgap' (by simp [h])

end Within

variable {line before call after inner call' after' : Text}

/-- What begins within an occurrence of its own pattern ends at the next quotes behind it. -/
theorem Pattern.OccursAt.overlap (hpattern : pattern ∈ patterns)
    (h : pattern.OccursAt line before call after)
    (h' : pattern.OccursAt line (before ++ inner) call' after') (hne : inner ≠ [])
    (hle : inner.length ≤ call.length) :
    ∃ gap quotes, inner ++ (call' ++ ['"']) = call ++ ['"'] ++ (gap ++ quotes) ∧ '"' ∉ gap ∧
      quotes.all (· == '"') := by
  have hline : call ++ ['"'] ++ after = inner ++ (call' ++ ['"'] ++ after') := by
    have heq := h.line_eq.symm.trans h'.line_eq
    simpa using heq
  have hlt : inner.length < (call ++ ['"']).length := by
    rw [List.length_append]
    exact Nat.lt_succ_of_le hle
  have hs := h.spells
  have hs' := h'.spells
  have hcases := hpattern
  simp only [patterns, List.mem_cons, List.not_mem_nil, or_false] at hcases
  rcases hcases with rfl | rfl | rfl | rfl
  · have hle := not_within (c := 'F') hs hs' rfl (by decide) (by decide) hline hne
    exact absurd hlt hle.not_gt
  · have hle := not_within (c := 'E') hs hs' rfl (by decide) (by decide) hline hne
    exact absurd hlt hle.not_gt
  · exact within_computedProperty hpattern rfl hs hs' hline hne hlt
  · have hle := not_within (c := '.') hs hs' rfl (by decide) (by decide) hline hne
    exact absurd hlt hle.not_gt

theorem Pattern.OccursAt.quote_le (hpattern : pattern ∈ patterns)
    (h : pattern.OccursAt line before call after)
    (h' : pattern.OccursAt line (before ++ inner) call' after') (hne : inner ≠ [])
    (hle : inner.length ≤ call.length) :
    Text.bytes (before ++ call) ≤ Text.bytes (before ++ inner ++ call') := by
  obtain ⟨gap, quotes, heq, -, -⟩ := h.overlap hpattern h' hne hle
  have hbytes := congrArg Text.bytes heq
  simp only [Text.bytes_append] at hbytes ⊢
  omega

/-! ## No quote in between -/

/-- Of two splits of a text at a character, the shorter one ends within the longer one. -/
theorem exists_between {s t s' t' : Text} {d : Char} (h : s ++ c :: t = s' ++ d :: t')
    (hlt : Text.bytes s < Text.bytes s') : ∃ x, s' = s ++ c :: x ∧ t = x ++ d :: t' := by
  rcases Text.append_eq_append_cons h.symm with ⟨x, rfl⟩ | ⟨y, rfl, -⟩
  · exact ⟨x, rfl, by simpa using h⟩
  · simp only [Text.bytes_append] at hlt
    omega

/-- Behind the last quote of an occurrence and up to that of another one which begins within it,
there is no last quote of any pattern. -/
theorem Pattern.OccursAt.le_of_lt (hpattern : pattern ∈ patterns)
    (h : pattern.OccursAt line before call after)
    (h' : pattern.OccursAt line (before ++ inner) call' after') (hne : inner ≠ [])
    (hle : inner.length ≤ call.length) {other : Pattern} {quote : Nat}
    (hother : other.Occurs line quote) (hquote : Text.bytes (before ++ call) < quote) :
    Text.bytes (before ++ inner ++ call') ≤ quote := by
  obtain ⟨gap, quotes, heq, hgap, hquotes⟩ := h.overlap hpattern h' hne hle
  obtain ⟨front, body, rest, hoccurs, rfl⟩ := hother
  by_contra hbehind
  have hsplit : front ++ body ++ '"' :: rest = before ++ inner ++ call' ++ '"' :: after' := by
    have hline := hoccurs.line_eq.symm.trans h'.line_eq
    simpa using hline
  obtain ⟨x, hx, hrest⟩ := exists_between hsplit (Nat.lt_of_not_le hbehind)
  -- the quote would be one of those that end the second occurrence, and another one follows it
  have hsplit' : before ++ call ++ '"' :: (gap ++ quotes) =
      front ++ body ++ '"' :: (x ++ ['"']) := by
    have hboth := congrArg (before ++ ·) heq
    simp only [← List.append_assoc] at hboth hx
    rw [hx] at hboth
    simpa using hboth.symm
  obtain ⟨y, -, hy⟩ := exists_between hsplit' hquote
  rcases Text.append_eq_append_cons hy with ⟨_, rfl⟩ | ⟨y, rfl, rfl⟩
  · simp at hgap
  · apply hoccurs.last
    rw [hrest]
    cases x with
    | nil => rfl
    | cons d x => simpa using List.all_eq_true.1 hquotes d (by simp)

end CallSite

end LogSyntax
