import LogSyntax.CallSite
import LogSyntax.Proofs.Text.Run
/-!
# What a pattern finds

A pattern stands for texts: each of its parts may read some, and the pattern spells what its parts
read one behind the other (`Spells`). What is read by the parts goes as far as it can, and it never
has to give anything back, since no part reads a character that the next one could begin with
(`Apart`). So a pattern is found at the head of a text exactly if the text begins with what it
spells, and the quotes at its end go as far as there are any (`partsLength?_eq_some_iff`).
-/

namespace LogSyntax

namespace CallSite

/-- A mark of an interpolated or verbatim literal. -/
def isMark (c : Char) : Bool := c == '@' || c == '$'

/-- The texts that a part may read. -/
def Part.Reads : Part → Text → Prop
  | .oneOf words, s => ∃ w ∈ words, s = w.toList
  | .blanks, s => s.all isBlank
  | .marks, s => s.all isMark
  | .argument, s => ∃ content, '"' ∉ content ∧ s = '"' :: (content ++ ['"'])
  | .quotes, s => s ≠ [] ∧ s.all (· == '"')

/-- What the parts read one behind the other. -/
def Spells : List Part → Text → Prop
  | [], t => t = []
  | part :: parts, t => ∃ s u, t = s ++ u ∧ part.Reads s ∧ Spells parts u

theorem spells_append {parts more : List Part} {t : Text} :
    Spells (parts ++ more) t ↔ ∃ s u, t = s ++ u ∧ Spells parts s ∧ Spells more u := by
  induction parts generalizing t with
  | nil =>
    constructor
    · exact fun h => ⟨[], t, rfl, rfl, h⟩
    · rintro ⟨_, u, rfl, rfl, hu⟩
      exact hu
  | cons part parts ih =>
    constructor
    · rintro ⟨s, u, rfl, hs, hu⟩
      obtain ⟨v, w, rfl, hv, hw⟩ := ih.1 hu
      exact ⟨s ++ v, w, by simp, ⟨s, v, rfl, hs, hv⟩, hw⟩
    · rintro ⟨_, w, rfl, ⟨s, v, rfl, hs, hv⟩, hw⟩
      exact ⟨s, v ++ w, by simp, hs, ih.2 ⟨v, w, rfl, hv, hw⟩⟩

/-! ## Parts that keep apart -/

/-- The characters that a text of the parts may begin with. -/
def begins : List Part → Char → Bool
  | [], _ => false
  | .oneOf words :: _, c => words.any (·.toList.head? == some c)
  | .blanks :: parts, c => isBlank c || begins parts c
  | .marks :: parts, c => isMark c || begins parts c
  | .argument :: _, c | .quotes :: _, c => c == '"'

/-- No part reads a character that the next one could begin with, and no word is the beginning of
another one. Quotes come last. -/
def Apart : List Part → Prop
  | [] => True
  | .oneOf words :: parts =>
    (∀ w ∈ words, w.toList ≠ [] ∧ ∀ w' ∈ words, w.toList <+: w'.toList → w = w') ∧ Apart parts
  | .blanks :: parts => parts ≠ [] ∧ (∀ c, begins parts c → isBlank c = false) ∧ Apart parts
  | .marks :: parts => parts ≠ [] ∧ (∀ c, begins parts c → isMark c = false) ∧ Apart parts
  | .argument :: parts => Apart parts
  | .quotes :: parts => parts = []

variable {part : Part} {parts : List Part} {s t u : Text} {n : Nat}

theorem Apart.tail (h : Apart (part :: parts)) : Apart parts := by
  cases part with
  | oneOf words => exact h.2
  | blanks => exact h.2.2
  | marks => exact h.2.2
  | argument => exact h
  | quotes =>
    obtain rfl : parts = [] := h
    trivial

/-- Parts that keep apart read at least one character. -/
theorem Apart.exists_begins (h : Apart parts) (hne : parts ≠ []) (ht : Spells parts t) :
    ∃ c u, t = c :: u ∧ begins parts c = true := by
  induction parts generalizing t with
  | nil => exact absurd rfl hne
  | cons part parts ih =>
    obtain ⟨s, u, rfl, hs, hu⟩ := ht
    -- where a part reads nothing, the next one begins
    have hrun {f : Char → Bool} (hs : s.all f) (hparts : parts ≠ []) :
        ∃ c v, s ++ u = c :: v ∧ (f c || begins parts c) = true := by
      cases s with
      | nil =>
        obtain ⟨c, v, rfl, hc⟩ := ih h.tail hparts hu
        exact ⟨c, v, rfl, by rw [hc, Bool.or_true]⟩
      | cons c s =>
        have hread : f c = true := List.all_eq_true.1 hs c List.mem_cons_self
        exact ⟨c, s ++ u, rfl, by rw [hread, Bool.true_or]⟩
    cases part with
    | oneOf words =>
      obtain ⟨w, hw, rfl⟩ := hs
      obtain ⟨c, cs, hcs⟩ := List.exists_cons_of_ne_nil (h.1 w hw).1
      refine ⟨c, cs ++ u, by rw [hcs, List.cons_append], ?_⟩
      exact List.any_eq_true.2 ⟨w, hw, by simp [hcs]⟩
    | blanks => exact hrun hs h.1
    | marks => exact hrun hs h.1
    | argument =>
      obtain ⟨content, -, rfl⟩ := hs
      exact ⟨'"', content ++ ['"'] ++ u, by simp, rfl⟩
    | quotes =>
      obtain ⟨hs, hall⟩ := hs
      obtain ⟨c, cs, rfl⟩ := List.exists_cons_of_ne_nil hs
      exact ⟨c, cs ++ u, rfl, List.all_eq_true.1 hall c List.mem_cons_self⟩

/-! ## Reading as far as it goes -/

/-- In front of the next parts, a part reads what it may read there. -/
theorem Apart.length?_append (h : Apart (part :: parts)) (hs : part.Reads s) (hu : Spells parts u)
    (ht : t.head? ≠ some '"') : part.length? (s ++ (u ++ t)) = some s.length := by
  have hhead {f : Char → Bool} (hne : parts ≠ []) (hf : ∀ c, begins parts c → f c = false) :
      ∀ c ∈ (u ++ t).head?, f c = false := by
    obtain ⟨c, v, rfl, hc⟩ := h.tail.exists_begins hne hu
    rintro _ ⟨⟩
    exact hf c hc
  cases part with
  | oneOf words =>
    obtain ⟨w, hw, rfl⟩ := hs
    have hfound : (words.find? (·.toList.isPrefixOf (w.toList ++ (u ++ t)))).isSome :=
      List.find?_isSome.2 ⟨w, hw, List.isPrefixOf_iff_prefix.2 (List.prefix_append _ _)⟩
    obtain ⟨w', hw'⟩ := Option.isSome_iff_exists.1 hfound
    -- two words at the head of one text: one of them begins the other
    have hprefix : w'.toList <+: w.toList ++ (u ++ t) :=
      List.isPrefixOf_iff_prefix.1 (by simpa using List.find?_some hw')
    have hmem := List.mem_of_find?_eq_some hw'
    obtain rfl : w = w' := by
      rcases List.prefix_or_prefix_of_prefix (List.prefix_append w.toList (u ++ t)) hprefix with
        hle | hle
      · exact (h.1 w hw).2 w' hmem hle
      · exact ((h.1 w' hmem).2 w hw hle).symm
    simp only [Part.length?, hw', Option.map_some, String.length_toList]
  | blanks => exact congrArg some (Text.run_append hs (hhead h.1 h.2.1))
  | marks => exact congrArg some (Text.run_append hs (hhead h.1 h.2.1))
  | argument =>
    obtain ⟨content, hcontent, rfl⟩ := hs
    have hrun : Text.run (· != '"') (content ++ '"' :: (u ++ t)) = content.length := by
      apply Text.run_append
      · rw [List.all_eq_true]
        intro c hc
        have hne : c ≠ '"' := fun h => hcontent (h ▸ hc)
        simpa using hne
      · rintro _ ⟨⟩
        rfl
    simp [Part.length?, hrun]
  | quotes =>
    obtain ⟨hne, hall⟩ := hs
    obtain rfl : parts = [] := h
    obtain rfl : u = [] := hu
    have hrun : Text.run (· == '"') (s ++ t) = s.length := by
      apply Text.run_append hall
      intro c hc
      rw [Option.mem_def] at hc
      rw [hc] at ht
      simpa using ht
    obtain ⟨n, hn⟩ := Nat.exists_eq_succ_of_ne_zero (List.length_pos_iff.2 hne).ne'
    rw [List.nil_append, Part.length?, hrun, hn]
    rfl

/-- What a part reads it may read, and quotes it reads all. -/
theorem Part.reads_of_length? (h : part.length? t = some n) :
    ∃ s u, t = s ++ u ∧ s.length = n ∧ part.Reads s ∧ (part = .quotes → u.head? ≠ some '"') := by
  cases part with
  | oneOf words =>
    obtain ⟨w, hw, rfl⟩ := Option.map_eq_some_iff.1 h
    have hfound := List.find?_some hw
    obtain ⟨u, rfl⟩ := List.isPrefixOf_iff_prefix.1 hfound
    exact ⟨w.toList, u, rfl, String.length_toList, ⟨w, List.mem_of_find?_eq_some hw, rfl⟩, nofun⟩
  | blanks =>
    obtain ⟨s, u, hsplit, hlength, hall, -⟩ := Text.exists_run isBlank t
    exact ⟨s, u, hsplit, hlength.trans (Option.some.inj h), hall, nofun⟩
  | marks =>
    obtain ⟨s, u, hsplit, hlength, hall, -⟩ := Text.exists_run isMark t
    exact ⟨s, u, hsplit, hlength.trans (Option.some.inj h), hall, nofun⟩
  | argument =>
    match t, h with
    | [], h => contradiction
    | c :: cs, h =>
      by_cases hc : c = '"'
      · subst hc
        obtain ⟨content, rest, hsplit, hlength, hall, hrest⟩ := Text.exists_run (· != '"') cs
        simp only [Part.length?, ← hlength] at h
        rw [hsplit, List.drop_left] at h
        cases rest with
        | nil => simp at h
        | cons c u =>
          obtain rfl : c = '"' := by simpa using hrest c rfl
          refine ⟨'"' :: (content ++ ['"']), u, by simp [hsplit], ?_, ⟨content, ?_, rfl⟩, nofun⟩
          · simpa using h
          · intro hmem
            simpa using List.all_eq_true.1 hall _ hmem
      · simp [Part.length?, hc] at h
  | quotes =>
    obtain ⟨s, u, rfl, hlength, hall, hrest⟩ := Text.exists_run (· == '"') t
    simp only [Part.length?, ← hlength] at h
    refine ⟨s, u, rfl, ?_, ⟨?_, hall⟩, ?_⟩
    · split at h <;> grind
    · rintro rfl
      contradiction
    · intro _ hu
      simpa using hrest _ hu

theorem Apart.partsLength?_append (h : Apart parts) (hs : Spells parts s)
    (ht : t.head? ≠ some '"') : partsLength? parts (s ++ t) = some s.length := by
  induction parts generalizing s with
  | nil =>
    obtain rfl : s = [] := hs
    rfl
  | cons part parts ih =>
    obtain ⟨s, u, rfl, hs, hu⟩ := hs
    rw [List.append_assoc, partsLength?, h.length?_append hs hu ht]
    simp [ih h.tail hu]

theorem spells_of_partsLength? (h : partsLength? parts t = some n) :
    ∃ s u, t = s ++ u ∧ s.length = n ∧ Spells parts s ∧
      (parts.getLast? = some .quotes → u.head? ≠ some '"') := by
  induction parts generalizing t n with
  | nil => exact ⟨[], t, rfl, Option.some.inj h, rfl, nofun⟩
  | cons part parts ih =>
    obtain ⟨_, hlength, h⟩ := Option.bind_eq_some_iff.1 h
    obtain ⟨_, hmore, h⟩ := Option.bind_eq_some_iff.1 h
    obtain ⟨s, v, rfl, rfl, hs, hv⟩ := part.reads_of_length? hlength
    rw [List.drop_left] at hmore
    obtain ⟨u, w, rfl, rfl, hu, hw⟩ := ih hmore
    refine ⟨s ++ u, w, by simp, by simpa using h, ⟨s, u, rfl, hs, hu⟩, ?_⟩
    cases parts with
    | nil =>
      obtain rfl : u = [] := hu
      simpa using hv
    | cons next parts => simpa using hw

/-- Parts with quotes at their end are found at the head of a text exactly if it begins with what
they spell, and no quote follows there. -/
theorem Apart.partsLength?_eq_some_iff (h : Apart parts) (hlast : parts.getLast? = some .quotes) :
    partsLength? parts t = some n ↔
      ∃ s u, t = s ++ u ∧ s.length = n ∧ Spells parts s ∧ u.head? ≠ some '"' := by
  constructor
  · intro hlength
    obtain ⟨s, u, hsplit, hn, hs, hu⟩ := spells_of_partsLength? hlength
    exact ⟨s, u, hsplit, hn, hs, hu hlast⟩
  · rintro ⟨s, u, rfl, rfl, hs, hu⟩
    exact h.partsLength?_append hs hu

/-! ## Occurrences of a pattern -/

/-- White space may stand in front of words that do not begin with any. -/
theorem Apart.blanks_oneOf {words : List String} (h : Apart (.oneOf words :: parts))
    (hwords : ∀ w ∈ words, w.toList.head?.any isBlank = false) :
    Apart (.blanks :: .oneOf words :: parts) := by
  refine ⟨nofun, fun c hc => ?_, h⟩
  obtain ⟨w, hw, hhead⟩ := List.any_eq_true.1 hc
  simpa [beq_iff_eq.1 hhead] using hwords w hw

/-- White space and marks may stand in front of a literal. -/
theorem Apart.blanks_marks (h : Apart (part :: parts)) (hpart : part = .argument ∨ part = .quotes) :
    Apart (.blanks :: .marks :: part :: parts) := by
  have hbegins (c : Char) : begins (part :: parts) c = (c == '"') := by
    rcases hpart with rfl | rfl <;> rfl
  refine ⟨nofun, fun c hc => ?_, nofun, fun c hc => ?_, h⟩
  · simp only [begins, hbegins, isMark, Bool.or_eq_true, beq_iff_eq, or_assoc] at hc
    rcases hc with rfl | rfl | rfl <;> decide
  · rw [hbegins, beq_iff_eq] at hc
    subst hc
    decide

theorem apart_call : Apart Part.call := by
  have hliteral : Apart [.blanks, .marks, .quotes] := .blanks_marks rfl (.inr rfl)
  exact .blanks_oneOf ⟨by decide, hliteral⟩ (by decide)

theorem apart_of_mem_patterns {pattern : Pattern} (h : pattern ∈ patterns) :
    Apart pattern.parts ∧ pattern.parts.getLast? = some .quotes := by
  simp only [patterns, List.mem_cons, List.not_mem_nil, or_false] at h
  rcases h with rfl | rfl | rfl | rfl
  · have hmethod : Apart (.blanks :: .oneOf ["ByExcluding", "ByIncludingOnly"] :: Part.call) :=
      .blanks_oneOf ⟨by decide, apart_call⟩ (by decide)
    exact ⟨⟨by decide, .blanks_oneOf ⟨by decide, hmethod⟩ (by decide)⟩, rfl⟩
  · exact ⟨⟨by decide, apart_call⟩, rfl⟩
  · have hliteral : Apart [.blanks, .marks, .quotes] := .blanks_marks rfl (.inr rfl)
    have hmore : Apart (.argument :: .blanks :: .oneOf [","] :: [.blanks, .marks, .quotes]) :=
      .blanks_oneOf ⟨by decide, hliteral⟩ (by decide)
    have hname : Apart (.blanks :: .marks :: .argument :: _) := .blanks_marks hmore (.inl rfl)
    exact ⟨⟨by decide, .blanks_oneOf ⟨by decide, hname⟩ (by decide)⟩, rfl⟩
  · exact ⟨⟨by decide, .blanks_oneOf ⟨by decide, apart_call⟩ (by decide)⟩, rfl⟩

/-- The pattern occurs in a line: it spells the text `call` behind `before`, together with a last
quote in front of `after`. -/
structure Pattern.OccursAt (pattern : Pattern) (line before call after : Text) : Prop where
  line_eq : line = before ++ (call ++ '"' :: after)
  whole : pattern.wholeWord → before.getLast?.any isWordChar = false
  spells : Spells pattern.parts (call ++ ['"'])
  last : after.head? ≠ some '"'

/-- The offset is that of a last quote with which the pattern occurs in a line. -/
def Pattern.Occurs (pattern : Pattern) (line : Text) (quote : Nat) : Prop :=
  ∃ before call after, pattern.OccursAt line before call after ∧ quote = Text.bytes (before ++ call)

theorem Spells.exists_concat (h : Spells parts s) (hlast : parts.getLast? = some .quotes) :
    ∃ call, s = call ++ ['"'] := by
  obtain ⟨init, rfl⟩ := List.getLast?_eq_some_iff.1 hlast
  obtain ⟨u, _, rfl, -, quotes, _, rfl, ⟨hne, hall⟩, rfl⟩ := spells_append.1 h
  have hquote : quotes.getLast hne = '"' := by
    simpa using List.all_eq_true.1 hall _ (List.getLast_mem hne)
  refine ⟨u ++ quotes.dropLast, ?_⟩
  rw [List.append_nil, List.append_assoc, ← hquote, List.dropLast_concat_getLast hne]

/-- Read from behind a text, the pattern is found exactly if it occurs there. -/
theorem Pattern.length?_eq_some_iff {pattern : Pattern} (hpattern : pattern ∈ patterns)
    {before : Text} :
    pattern.length? before.getLast? t = some n ↔
      ∃ call after, pattern.OccursAt (before ++ t) before call after ∧ n = call.length + 1 := by
  obtain ⟨hapart, hlast⟩ := apart_of_mem_patterns hpattern
  rw [Pattern.length?]
  constructor
  · intro h
    split at h
    · contradiction
    · rename_i hwhole
      obtain ⟨s, after, rfl, rfl, hs, hafter⟩ := (hapart.partsLength?_eq_some_iff hlast).1 h
      obtain ⟨call, rfl⟩ := hs.exists_concat hlast
      refine ⟨call, after, ⟨by simp, ?_, hs, hafter⟩, by simp⟩
      intro hword
      simpa [hword] using hwhole
  · rintro ⟨call, after, hoccurs, rfl⟩
    have hwhole : ¬(pattern.wholeWord ∧ before.getLast?.any isWordChar) := by
      rintro ⟨hword, hany⟩
      simp [hoccurs.whole hword] at hany
    rw [if_neg hwhole, hapart.partsLength?_eq_some_iff hlast]
    refine ⟨call ++ ['"'], after, ?_, by simp, hoccurs.spells, hoccurs.last⟩
    simpa using hoccurs.line_eq

end CallSite

end LogSyntax
