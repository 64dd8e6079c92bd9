import Mathlib.Data.List.Basic
import LogSyntax.Proofs.Text.Run
import LogSyntax.Token.Phrase
/-!
# What phrases read

The words behind the first one of a phrase are read as far as they go, each behind white space of
its own. So what is read is settled where the last word ends: it stays the same when something else
stands behind it (`following?_behind`), and so does the phrase that a table finds (`find?_behind`).
If only a first word is found, then no longer phrase goes on behind it (`following?_of_lone`).
-/

namespace LogSyntax

namespace Phrase

variable {w : String} {words more : List String} {gap word s t u rest rest' : Text} {n : Nat}

/-! ## The words of a phrase -/

/-- White space and a whole word behind it are read together, or not at all. -/
theorem following?_cons (w : String) (more : List String) (hgap : gap ≠ [])
    (hblank : gap.all isBlank) (hword : word ≠ []) (hident : word.all isIdentChar)
    (hu : Text.Stops isIdentChar u) :
    following? (w :: more) (gap ++ (word ++ u)) =
      if Text.eqIgnoringCase word w.toList then
        (following? more u).map (gap.length + word.length + ·)
      else none := by
  have hstops : Text.Stops isBlank (word ++ u) := by
    intro c hc
    rw [List.head?_append_of_ne_nil _ hword] at hc
    by_contra hblank
    have hchar := List.all_eq_true.1 hident c (List.mem_of_mem_head? hc)
    rw [isIdentChar_of_isBlank (by simpa using hblank)] at hchar
    contradiction
  have hrun : Text.run isBlank (gap ++ (word ++ u)) = gap.length := Text.run_append hblank hstops
  have hlength : gap.length ≠ 0 := by simpa using hgap
  have hdrop : (gap ++ (word ++ u)).drop (gap.length + word.length) = u := by
    rw [← List.append_assoc, ← List.length_append, List.drop_left]
  simp only [following?, hrun, List.drop_left, Text.takeWhile_run hident hu, hlength, hdrop, ne_eq,
    not_false_eq_true, true_and]

/-- Words that are read stand at the head of the text, the first one behind white space. -/
theorem exists_of_following? (hw : w.toList ≠ []) (h : following? (w :: more) t = some n) :
    ∃ gap word u m, t = gap ++ (word ++ u) ∧ gap ≠ [] ∧ gap.all isBlank ∧ word ≠ [] ∧
      word.all isIdentChar ∧ Text.Stops isIdentChar u ∧ Text.eqIgnoringCase word w.toList ∧
      following? more u = some m ∧ n = gap.length + word.length + m := by
  obtain ⟨gap, t', rfl, -, hblank, hstops⟩ := Text.exists_run isBlank t
  obtain ⟨word, u, rfl, -, hident, hu⟩ := Text.exists_run isIdentChar t'
  have hrun : Text.run isBlank (gap ++ (word ++ u)) = gap.length := Text.run_append hblank hstops
  rw [following?] at h
  simp only [hrun, List.drop_left, Text.takeWhile_run hident hu] at h
  split at h
  · next hcond =>
    obtain ⟨hgap, heq⟩ := hcond
    obtain ⟨m, hm, rfl⟩ := Option.map_eq_some_iff.1 h
    rw [← List.length_append, ← List.append_assoc, List.drop_left] at hm
    refine ⟨gap, word, u, m, rfl, by simpa using hgap, hblank, ?_, hident, hu, heq, hm, rfl⟩
    rintro rfl
    rw [Text.eqIgnoringCase, beq_iff_eq] at heq
    exact hw (List.map_eq_nil_iff.1 heq.symm)
  · contradiction

/-- Behind the words that are read no word goes on. -/
theorem stops_of_following? (hwords : ∀ w ∈ words, w.toList ≠ []) (ht : Text.Stops isIdentChar t)
    (h : following? words t = some n) : Text.Stops isIdentChar (t.drop n) := by
  induction words generalizing t n with
  | nil =>
    cases h
    exact ht
  | cons w more ih =>
    rw [List.forall_mem_cons] at hwords
    obtain ⟨gap, word, u, m, rfl, -, -, -, -, hu, -, hm, rfl⟩ := exists_of_following? hwords.1 h
    rw [← List.length_append, ← List.append_assoc, ← List.drop_drop, List.drop_left]
    exact ih hwords.2 hu hm

theorem following?_le (hwords : ∀ w ∈ words, w.toList ≠ []) (h : following? words t = some n) :
    n ≤ t.length := by
  induction words generalizing t n with
  | nil =>
    cases h
    exact Nat.zero_le _
  | cons w more ih =>
    rw [List.forall_mem_cons] at hwords
    obtain ⟨gap, word, u, m, rfl, -, -, -, -, -, -, hm, rfl⟩ := exists_of_following? hwords.1 h
    have hle := ih hwords.2 hm
    simp only [List.length_append]
    omega

/-- If words take up a text, as many words or fewer read the same of it whatever stands behind. -/
theorem following?_behind {words' : List String} (hwords : ∀ w ∈ words, w.toList ≠ [])
    (hlength : words'.length ≤ words.length) (hrest : Text.Stops isIdentChar rest')
    (h : following? words (s ++ rest) = some s.length) :
    following? words' (s ++ rest') = following? words' (s ++ rest) := by
  induction words generalizing words' s with
  | nil =>
    obtain rfl : words' = [] := by simpa using hlength
    rfl
  | cons w more ih =>
    rw [List.forall_mem_cons] at hwords
    obtain ⟨gap, word, u, m, heq, hgap, hblank, hword, hident, hu, -, hm, hn⟩ :=
      exists_of_following? hwords.1 h
    -- the first word ends inside the text that the words take up
    have hsplit : s ++ rest = (gap ++ word) ++ u := by rw [heq, List.append_assoc]
    obtain ⟨s', rfl, rfl⟩ := Text.split_of_length_le hsplit (by rw [List.length_append]; omega)
    have hm' : m = s'.length := by
      simp only [List.length_append] at hn
      omega
    have htail (words' : List String) (hlength : words'.length ≤ more.length) :
        following? words' (s' ++ rest') = following? words' (s' ++ rest) :=
      ih hwords.2 hlength (hm' ▸ hm)
    cases words' with
    | nil => rfl
    | cons v vs =>
      simp only [List.append_assoc]
      rw [following?_cons v vs hgap hblank hword hident (hu.append hrest),
        following?_cons v vs hgap hblank hword hident hu, htail vs (by simpa using hlength)]

/-! ## Tables of phrases -/

/-- No word of the table is empty, and among the phrases that begin with one word a shorter one
comes first, but the word alone comes last. -/
structure Ordered (table : List Phrase) : Prop where
  words : ∀ phrase ∈ table, ∀ w ∈ phrase.tail, w.toList ≠ []
  order : table.Pairwise fun p q => Text.eqIgnoringCase p.head.toList q.head.toList →
    p.tail ≠ [] ∧ (q.tail = [] ∨ p.tail.length ≤ q.tail.length)

theorem ordered_reservedPhrases : Ordered reservedPhrases :=
  ⟨by decide, by decide⟩

theorem ordered_markerPhrases : Ordered markerPhrases :=
  ⟨by decide, by decide⟩

variable {table : List Phrase} {isHead : Text → Bool} {kind : Token.Kind}

theorem same_word (word p q : Text) (hp : Text.eqIgnoringCase p word)
    (hq : Text.eqIgnoringCase q word) : Text.eqIgnoringCase p q := by
  rw [Text.eqIgnoringCase, beq_iff_eq] at hp hq ⊢
  exact hp.trans hq.symm

theorem same_marker (word p q : Text) (hp : p == word) (hq : q == word) :
    Text.eqIgnoringCase p q := by
  rw [beq_iff_eq.1 hp, beq_iff_eq.1 hq]
  exact beq_self_eq_true _

theorem find?_eq_none_iff :
    find? table isHead t = none ↔
      ∀ phrase ∈ table, isHead phrase.head.toList → following? phrase.tail t = none := by
  simp [find?, List.findSome?_eq_none_iff]

/-- The phrase that is found is the first one of the table that the text spells out. -/
theorem find?_eq_some_iff :
    find? table isHead t = some (kind, n) ↔
      ∃ before phrase after, table = before ++ phrase :: after ∧ isHead phrase.head.toList ∧
        following? phrase.tail t = some n ∧ phrase.kind = kind ∧
        ∀ q ∈ before, isHead q.head.toList → following? q.tail t = none := by
  rw [find?, List.findSome?_eq_some_iff]
  refine exists₃_congr fun before phrase after => and_congr_right fun _ => ?_
  rw [← and_assoc, ← and_assoc]
  refine and_congr ?_ (by simp)
  split
  · next hhead => simp [hhead, and_comm]
  · next hhead => simp [hhead]

/-- How many characters the phrase takes that is found, behind its first word. -/
def taken (found : Option (Token.Kind × Nat)) : Nat :=
  found.elim 0 (·.2)

theorem taken_le (htable : Ordered table) (isHead : Text → Bool) (t : Text) :
    taken (find? table isHead t) ≤ t.length := by
  cases hfound : find? table isHead t with
  | none => exact Nat.zero_le _
  | some found =>
    obtain ⟨kind, n⟩ := found
    obtain ⟨before, phrase, after, rfl, -, hfollowing, -, -⟩ := find?_eq_some_iff.1 hfound
    exact following?_le (htable.words phrase (by simp)) hfollowing

/-- Behind the phrase that is found no word goes on. -/
theorem stops_taken (htable : Ordered table) (isHead : Text → Bool)
    (ht : Text.Stops isIdentChar t) :
    Text.Stops isIdentChar (t.drop (taken (find? table isHead t))) := by
  cases hfound : find? table isHead t with
  | none => exact ht
  | some found =>
    obtain ⟨kind, n⟩ := found
    obtain ⟨before, phrase, after, rfl, -, hfollowing, -, -⟩ := find?_eq_some_iff.1 hfound
    exact stops_of_following? (htable.words phrase (by simp)) ht hfollowing

/-- Where a first word is found alone, or none at all, the text goes on with no phrase. -/
theorem following?_of_lone (htable : Ordered table)
    (hhead : ∀ p q, isHead p → isHead q → Text.eqIgnoringCase p q)
    (htaken : taken (find? table isHead t) = 0) :
    ∀ phrase ∈ table, isHead phrase.head.toList → phrase.tail ≠ [] →
      following? phrase.tail t = none := by
  intro phrase hphrase hisHead htail
  cases hfound : find? table isHead t with
  | none => exact find?_eq_none_iff.1 hfound phrase hphrase hisHead
  | some found =>
    obtain ⟨kind, n⟩ := found
    obtain rfl : n = 0 := by simpa [hfound, taken] using htaken
    obtain ⟨before, p, after, rfl, hp, hfollowing, -, hbefore⟩ := find?_eq_some_iff.1 hfound
    -- the phrase that is found has no further word, and so it is the last one with its first word
    have hlone : p.tail = [] := by
      cases hptail : p.tail with
      | nil => rfl
      | cons w more =>
        have hw := htable.words p (by simp) w (by simp [hptail])
        rw [hptail] at hfollowing
        obtain ⟨gap, word, u, m, -, hgap, -, -, -, -, -, -, hn⟩ :=
          exists_of_following? hw hfollowing
        have hpos := List.length_pos_iff.2 hgap
        omega
    rcases List.mem_append.1 hphrase with hmem | hmem
    · exact hbefore phrase hmem hisHead
    · rcases List.mem_cons.1 hmem with rfl | hmem
      · exact absurd hlone htail
      · have horder := (List.pairwise_append.1 htable.order).2.1
        exact absurd hlone ((List.pairwise_cons.1 horder).1 phrase hmem (hhead _ _ hp hisHead)).1

/-- A phrase that takes up a text is found there whatever stands behind it. Where nothing but the
first word is taken, what stands behind must not begin another phrase. -/
theorem find?_behind (htable : Ordered table)
    (hhead : ∀ p q, isHead p → isHead q → Text.eqIgnoringCase p q)
    (hrest' : Text.Stops isIdentChar rest')
    (hnone : ∀ phrase ∈ table, isHead phrase.head.toList → following? phrase.tail rest = none →
      following? phrase.tail rest' = none)
    (htaken : taken (find? table isHead (s ++ rest)) = s.length) :
    find? table isHead (s ++ rest') = find? table isHead (s ++ rest) := by
  cases hfound : find? table isHead (s ++ rest) with
  | none =>
    obtain rfl : s = [] := by simpa [hfound, taken] using htaken.symm
    rw [find?_eq_none_iff] at hfound ⊢
    intro phrase hphrase hisHead
    exact hnone phrase hphrase hisHead (hfound phrase hphrase hisHead)
  | some found =>
    obtain ⟨kind, n⟩ := found
    obtain rfl : n = s.length := by simpa [hfound, taken] using htaken
    obtain ⟨before, p, after, rfl, hp, hfollowing, hkind, hbefore⟩ := find?_eq_some_iff.1 hfound
    have hwords : ∀ w ∈ p.tail, w.toList ≠ [] := htable.words p (by simp)
    refine find?_eq_some_iff.2 ⟨before, p, after, rfl, hp, ?_, hkind, ?_⟩
    · rw [following?_behind hwords (Nat.le_refl _) hrest' hfollowing, hfollowing]
    · intro q hq hisHead
      have horder := (List.pairwise_append.1 htable.order).2.2 q hq p List.mem_cons_self
        (hhead _ _ hisHead hp)
      rcases horder.2 with hlone | hlength
      · -- nothing is taken behind the first word
        rw [hlone] at hfollowing
        obtain rfl : s = [] := List.length_eq_zero_iff.1 (Option.some.inj hfollowing).symm
        exact hnone q (by simp [hq]) hisHead (hbefore q hq hisHead)
      · rw [following?_behind hwords hlength hrest' hfollowing]
        exact hbefore q hq hisHead

end Phrase

end LogSyntax
