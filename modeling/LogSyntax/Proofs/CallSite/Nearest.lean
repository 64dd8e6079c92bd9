import Mathlib.Data.Nat.Find
import LogSyntax.Proofs.CallSite.Caller
import LogSyntax.Proofs.CallSite.Overlap
/-!
# The nearest call

The search for a pattern finds occurrences only, and every occurrence it does not find begins within
one that it does (`Pattern.OccursAt.covered`). So the sites that are found stand for all of them: in
front of each site that occurs there is one that is found, with the same context and no site in
between (`Occurs.exists_callSite`). The context at an offset is that of the nearest site that
occurs, and what sites a search passes over makes no difference, nor in what order it finds them
(`ofLine_nearest`).
-/

namespace LogSyntax

namespace CallSite

variable {pattern : Pattern} {before call after t : Text} {c : Char} {quote skip : Nat}

/-! ## The search for a pattern -/

/-- What the search finds in a text behind another one, when the first characters are skipped. -/
abbrev search (pattern : Pattern) (before : Text) (skip : Nat) (t : Text) : List Nat :=
  quotesFrom pattern before.getLast? (Text.bytes before) skip t

theorem search_skip : search pattern before (skip + 1) (c :: t) =
    search pattern (before ++ [c]) skip t := by
  simp [search, quotesFrom]

/-- Where the pattern occurs, its last quote is found, and the search goes on behind it. -/
theorem search_of_occursAt (hpattern : pattern ∈ patterns)
    (h : pattern.OccursAt (before ++ c :: t) before call after) :
    search pattern before 0 (c :: t) =
      Text.bytes (before ++ call) :: search pattern (before ++ [c]) call.length t := by
  have hlength := (Pattern.length?_eq_some_iff hpattern).2 ⟨call, after, h, rfl⟩
  have hsplit : c :: t = call ++ ['"'] ++ after := by
    have hline := List.append_cancel_left h.line_eq
    simpa using hline
  have htake : (c :: t).take (call.length + 1) = call ++ ['"'] := by
    rw [hsplit, List.take_left' (by simp)]
  have hquote : Text.bytes before + Text.bytes ((c :: t).take (call.length + 1)) - 1 =
      Text.bytes (before ++ call) := by
    rw [htake, Text.bytes_append, Text.bytes_append, ← Nat.add_assoc]
    rfl
  simp [search, quotesFrom, hlength, ← hquote]

theorem search_of_not_occursAt (hpattern : pattern ∈ patterns)
    (h : ∀ call after, ¬pattern.OccursAt (before ++ c :: t) before call after) :
    search pattern before 0 (c :: t) = search pattern (before ++ [c]) 0 t := by
  cases hlength : pattern.length? before.getLast? (c :: t) with
  | none => simp [search, quotesFrom, hlength]
  | some n =>
    obtain ⟨call, after, hoccurs, -⟩ := (Pattern.length?_eq_some_iff hpattern).1 hlength
    exact absurd hoccurs (h call after)

/-- What the search finds occurs. -/
theorem occurs_of_mem_search (hpattern : pattern ∈ patterns)
    (h : quote ∈ search pattern before skip t) : pattern.Occurs (before ++ t) quote := by
  induction t generalizing before skip with
  | nil => simp [search, quotesFrom] at h
  | cons c t ih =>
    have hrest {skip : Nat} (h : quote ∈ search pattern (before ++ [c]) skip t) :
        pattern.Occurs (before ++ c :: t) quote := by
      simpa using ih h
    cases skip with
    | succ skip => exact hrest (search_skip ▸ h)
    | zero =>
      by_cases hoccurs : ∃ call after, pattern.OccursAt (before ++ c :: t) before call after
      · obtain ⟨call, after, hoccurs⟩ := hoccurs
        rw [search_of_occursAt hpattern hoccurs] at h
        rcases List.mem_cons.1 h with rfl | h
        · exact ⟨before, call, after, hoccurs, rfl⟩
        · exact hrest h
      · rw [search_of_not_occursAt hpattern (by simpa using hoccurs)] at h
        exact hrest h

/-- The search finds the last quote behind `call`, or an occurrence within which `call` begins. -/
def Covered (pattern : Pattern) (before : Text) (skip : Nat) (t inner call : Text) : Prop :=
  Text.bytes (before ++ inner ++ call) ∈ search pattern before skip t ∨
    ∃ front rest call' after', inner = front ++ rest ∧
      pattern.OccursAt (before ++ t) (before ++ front) call' after' ∧
      rest ≠ [] ∧ rest.length ≤ call'.length ∧
      Text.bytes (before ++ front ++ call') ∈ search pattern before skip t

theorem Covered.cons {skip' : Nat} {inner : Text}
    (h : Covered pattern (before ++ [c]) skip' t inner call)
    (hsub : search pattern (before ++ [c]) skip' t ⊆ search pattern before skip (c :: t)) :
    Covered pattern before skip (c :: t) (c :: inner) call := by
  rcases h with h | ⟨front, rest, call', after', rfl, hoccurs, hne, hle, hmem⟩
  · exact .inl (by simpa using hsub h)
  · exact .inr ⟨c :: front, rest, call', after', rfl, by simpa using hoccurs, hne, hle,
      by simpa using hsub hmem⟩

/-- An occurrence is found, or it begins within one that is found. -/
theorem Pattern.OccursAt.covered (hpattern : pattern ∈ patterns) {inner : Text}
    (h : pattern.OccursAt (before ++ t) (before ++ inner) call after)
    (hskip : skip ≤ inner.length) : Covered pattern before skip t inner call := by
  induction t generalizing before inner skip with
  | nil =>
    have hlength := congrArg List.length h.line_eq
    simp at hlength
  | cons c t ih =>
    cases inner with
    | nil =>
      obtain rfl : skip = 0 := Nat.le_zero.1 hskip
      rw [List.append_nil] at h
      rw [Covered, search_of_occursAt hpattern h, List.append_nil]
      exact .inl List.mem_cons_self
    | cons d inner =>
      obtain ⟨rfl, -⟩ : c = d ∧ _ := by
        have hline := h.line_eq
        simpa using hline
      have hmore : pattern.OccursAt (before ++ [c] ++ t) (before ++ [c] ++ inner) call after := by
        simpa using h
      cases skip with
      | succ skip =>
        exact (ih hmore (Nat.le_of_succ_le_succ hskip)).cons (search_skip ▸ List.Subset.refl _)
      | zero =>
        by_cases hoccurs : ∃ call after, pattern.OccursAt (before ++ c :: t) before call after
        · obtain ⟨call', after', hoccurs⟩ := hoccurs
          have hsearch := search_of_occursAt hpattern hoccurs
          -- the search goes on behind this occurrence; the one looked for may begin within it
          by_cases hle : call'.length ≤ inner.length
          · exact (ih hmore hle).cons (hsearch ▸ List.subset_cons_self _ _)
          · refine .inr ⟨[], c :: inner, call', after', rfl, by simpa using hoccurs, nofun, ?_, ?_⟩
            · exact Nat.succ_le_of_lt (Nat.lt_of_not_le hle)
            · rw [hsearch, List.append_nil]
              exact List.mem_cons_self
        · have hsearch := search_of_not_occursAt hpattern (by simpa using hoccurs)
          exact (ih hmore (Nat.zero_le _)).cons (hsearch ▸ List.Subset.refl _)

/-! ## The sites of a line -/

/-- A pattern occurs in the line with its last quote at the site. -/
def Occurs (line : Text) (site : CallSite) : Prop :=
  ∃ pattern ∈ patterns, pattern.Occurs line site.quote ∧ site.context = pattern.context

variable {line : Text} {site : CallSite}

theorem mem_callSites :
    site ∈ callSites line ↔ ∃ pattern ∈ patterns,
      site.quote ∈ search pattern [] 0 line ∧ site.context = pattern.context := by
  simp only [callSites, List.mem_flatMap, List.mem_map]
  constructor
  · rintro ⟨pattern, hpattern, quote, hquote, rfl⟩
    exact ⟨pattern, hpattern, hquote, rfl⟩
  · rintro ⟨pattern, hpattern, hquote, hcontext⟩
    exact ⟨pattern, hpattern, site.quote, hquote, by rw [← hcontext]⟩

/-- The sites that are found occur. -/
theorem occurs_of_mem_callSites (h : site ∈ callSites line) : Occurs line site := by
  obtain ⟨pattern, hpattern, hquote, hcontext⟩ := mem_callSites.1 h
  exact ⟨pattern, hpattern, occurs_of_mem_search hpattern hquote, hcontext⟩

/-- Sites with the same quote have the same context. -/
theorem Occurs.context_eq {other : CallSite} (h : Occurs line site) (h' : Occurs line other)
    (hquote : site.quote = other.quote) : site.context = other.context := by
  obtain ⟨pattern, hpattern, hoccurs, hcontext⟩ := h
  obtain ⟨pattern', hpattern', hoccurs', hcontext'⟩ := h'
  rw [hcontext, hcontext', hoccurs.unique hpattern hpattern' (hquote ▸ hoccurs')]

/-- Not behind a site that occurs, one with its context is found, and no other occurs in between. -/
theorem Occurs.exists_callSite (h : Occurs line site) :
    ∃ found ∈ callSites line, found.context = site.context ∧ found.quote ≤ site.quote ∧
      ∀ other, Occurs line other → found.quote < other.quote → site.quote ≤ other.quote := by
  obtain ⟨pattern, hpattern, ⟨before, call, after, hoccurs, hquote⟩, hcontext⟩ := h
  have hline : pattern.OccursAt ([] ++ line) ([] ++ before) call after := hoccurs
  rcases hline.covered hpattern (Nat.zero_le _) with
    hmem | ⟨front, rest, call', after', rfl, hoccurs', hne, hle, hmem⟩
  · rw [List.nil_append, ← hquote] at hmem
    exact ⟨site, mem_callSites.2 ⟨pattern, hpattern, hmem, hcontext⟩, rfl, Nat.le_refl _,
      fun _ _ => Nat.le_of_lt⟩
  · refine ⟨⟨Text.bytes (front ++ call'), pattern.context⟩,
      mem_callSites.2 ⟨pattern, hpattern, hmem, rfl⟩, hcontext.symm, ?_, ?_⟩
    · rw [hquote]
      exact hoccurs'.quote_le hpattern hoccurs hne hle
    · rintro other ⟨pattern', -, hother, -⟩ hbehind
      rw [hquote]
      exact hoccurs'.le_of_lt hpattern hoccurs hne hle hother hbehind

/-! ## The nearest site -/

/-- A site nearest to an offset, of those with a property whose quote is not behind it. -/
structure IsNearest (p : CallSite → Prop) (offset : Nat) (site : CallSite) : Prop where
  holds : p site
  le : site.quote ≤ offset
  nearest : ∀ other, p other → other.quote ≤ offset → other.quote ≤ site.quote

variable {sites : List CallSite} {offset : Nat}

theorem nearest?_concat_of_lt (h : offset < site.quote) :
    nearest? (sites ++ [site]) offset = nearest? sites offset := by
  simp [nearest?, List.filter_append, h.not_ge]

theorem nearest?_concat_of_le (h : site.quote ≤ offset) :
    nearest? (sites ++ [site]) offset =
      match nearest? sites offset with
      | some nearest => if nearest.quote < site.quote then some site else some nearest
      | none => some site := by
  simp only [nearest?, List.filter_append, List.foldl_append, List.filter_singleton, h, decide_true,
    cond_true]
  rfl

/-- Of the sites in a list a nearest one is taken, if any of them is not behind the offset. -/
theorem nearest?_spec (sites : List CallSite) (offset : Nat) :
    (∃ site, nearest? sites offset = some site ∧ IsNearest (· ∈ sites) offset site) ∨
      nearest? sites offset = none ∧ ∀ site ∈ sites, offset < site.quote := by
  induction sites using List.reverseRecOn with
  | nil => exact .inr ⟨rfl, nofun⟩
  | append_singleton sites last ih =>
    simp only [List.mem_append, List.mem_singleton]
    rcases Nat.lt_or_ge offset last.quote with hlt | hle
    · rw [nearest?_concat_of_lt hlt]
      rcases ih with ⟨site, heq, hmem, hsite, hnearest⟩ | ⟨hnone, hbehind⟩
      · refine .inl ⟨site, heq, .inl hmem, hsite, ?_⟩
        rintro other (hother | rfl) hle
        · exact hnearest other hother hle
        · exact absurd hle hlt.not_ge
      · refine .inr ⟨hnone, ?_⟩
        rintro other (hother | rfl)
        · exact hbehind other hother
        · exact hlt
    · rw [nearest?_concat_of_le hle]
      rcases ih with ⟨site, heq, hmem, hsite, hnearest⟩ | ⟨hnone, hbehind⟩
      · simp only [heq]
        by_cases hnearer : site.quote < last.quote
        · rw [if_pos hnearer]
          refine .inl ⟨last, rfl, .inr rfl, hle, ?_⟩
          rintro other (hother | rfl) hle'
          · exact (hnearest other hother hle').trans hnearer.le
          · exact Nat.le_refl _
        · rw [if_neg hnearer]
          refine .inl ⟨site, rfl, .inl hmem, hsite, ?_⟩
          rintro other (hother | rfl) hle'
          · exact hnearest other hother hle'
          · exact Nat.le_of_not_lt hnearer
      · simp only [hnone]
        refine .inl ⟨last, rfl, .inr rfl, hle, ?_⟩
        rintro other (hother | rfl) hle'
        · exact absurd (hbehind other hother) hle'.not_gt
        · exact Nat.le_refl _

end CallSite

namespace Context

open CallSite

variable {line : Text} {sites : List CallSite} {offset : Nat} {site : CallSite}

/-- Any sites of a line that occur there give the context of the nearest one, if those that the
search finds are among them. -/
theorem ofSites_of_isNearest (hfound : ∀ site ∈ callSites line, site ∈ sites)
    (hoccurs : ∀ site ∈ sites, CallSite.Occurs line site)
    (h : IsNearest (CallSite.Occurs line) offset site) : ofSites sites offset = site.context := by
  obtain ⟨found, hmem, hcontext, hle, hbetween⟩ := h.holds.exists_callSite
  have hfoundle : found.quote ≤ offset := hle.trans h.le
  rcases nearest?_spec sites offset with ⟨nearest, heq, hnearest⟩ | ⟨-, hbehind⟩
  · rw [ofSites, heq, Option.elim_some]
    have hlast := h.nearest nearest (hoccurs nearest hnearest.holds) hnearest.le
    have hfirst := hnearest.nearest found (hfound found hmem) hfoundle
    rcases hfirst.eq_or_lt with hquote | hlt
    · rw [← hcontext]
      exact (hoccurs nearest hnearest.holds).context_eq (occurs_of_mem_callSites hmem) hquote.symm
    · have hquote := hbetween nearest (hoccurs nearest hnearest.holds) hlt
      exact (hoccurs nearest hnearest.holds).context_eq h.holds (hlast.antisymm hquote)
  · exact absurd (hbehind found (hfound found hmem)) hfoundle.not_gt

theorem ofSites_of_behind (hoccurs : ∀ site ∈ sites, CallSite.Occurs line site)
    (h : ∀ site, CallSite.Occurs line site → offset < site.quote) :
    ofSites sites offset = .outside := by
  rcases nearest?_spec sites offset with ⟨nearest, -, hnearest⟩ | ⟨hnone, -⟩
  · exact absurd (h nearest (hoccurs nearest hnearest.holds)) hnearest.le.not_gt
  · rw [ofSites, hnone, Option.elim_none]

/-- Of the sites that occur, one is nearest if any of them is not behind the offset. -/
theorem exists_isNearest (line : Text) (offset : Nat) :
    (∃ site, IsNearest (CallSite.Occurs line) offset site) ∨
      ∀ site, CallSite.Occurs line site → offset < site.quote := by
  classical
  by_cases h : ∃ site, CallSite.Occurs line site ∧ site.quote ≤ offset
  · obtain ⟨site, hsite, hle⟩ := h
    let p (quote : Nat) : Prop := ∃ site, CallSite.Occurs line site ∧ site.quote = quote
    obtain ⟨last, hlast, hquote⟩ : p (Nat.findGreatest p offset) :=
      Nat.findGreatest_spec hle ⟨site, hsite, rfl⟩
    refine .inl ⟨last, hlast, hquote ▸ Nat.findGreatest_le offset, fun other hother hle => ?_⟩
    rw [hquote]
    exact Nat.le_findGreatest hle ⟨other, hother, rfl⟩
  · refine .inr fun site hsite => ?_
    by_contra hlt
    exact h ⟨site, hsite, Nat.le_of_not_lt hlt⟩

/-- The context at an offset is that of the nearest site that occurs, found or not, and there is
none if all sites that occur are behind it. No two patterns share a quote, so it does not depend on
what occurrences a search passes over, nor on the order of those it finds. -/
theorem ofLine_nearest (line : Text) (offset : Nat) :
    ((∃ site, IsNearest (CallSite.Occurs line) offset site ∧ ofLine line offset = site.context) ∨
      (∀ site, CallSite.Occurs line site → offset < site.quote) ∧
        ofLine line offset = .outside) ∧
    (∀ pattern ∈ patterns, ∀ other ∈ patterns, ∀ quote, pattern.Occurs line quote →
      other.Occurs line quote → pattern = other) ∧
    ∀ sites, (∀ site ∈ callSites line, site ∈ sites) →
      (∀ site ∈ sites, CallSite.Occurs line site) → ofSites sites offset = ofLine line offset := by
  have hself : ∀ site ∈ callSites line, site ∈ callSites line := fun _ => id
  have hoccurs : ∀ site ∈ callSites line, CallSite.Occurs line site :=
    fun _ => occurs_of_mem_callSites
  refine ⟨?_, fun _ hpattern _ hother _ h h' => h.unique hpattern hother h', ?_⟩
  · rcases exists_isNearest line offset with ⟨site, hsite⟩ | hbehind
    · exact .inl ⟨site, hsite, ofSites_of_isNearest hself hoccurs hsite⟩
    · exact .inr ⟨hbehind, ofSites_of_behind hoccurs hbehind⟩
  · intro sites hfound hsites
    rcases exists_isNearest line offset with ⟨site, hsite⟩ | hbehind
    · rw [ofSites_of_isNearest hfound hsites hsite]
      exact (ofSites_of_isNearest hself hoccurs hsite).symm
    · rw [ofSites_of_behind hsites hbehind]
      exact (ofSites_of_behind hoccurs hbehind).symm

/-- Of two calls that overlap the second one is passed over, which makes no difference. -/
theorem ofLine_nearest_overlapping :
    let line := "WithComputed(\"WithComputed(\",\",\"x\")".toList
    let sites : List CallSite := [⟨31, .computedProperty⟩, ⟨29, .computedProperty⟩]
    callSites line = [⟨29, .computedProperty⟩] ∧ (∀ site ∈ sites, CallSite.Occurs line site) ∧
      ofSites sites 32 = ofLine line 32 := by
  intro line sites
  have hfound : callSites line = [⟨29, .computedProperty⟩] := by decide +kernel
  have hinner : 31 ∈ search patterns[2] "WithComputed(\"".toList 0
      "WithComputed(\",\",\"x\")".toList := by decide +kernel
  have hpattern : patterns[2] ∈ patterns := List.getElem_mem _
  have hoccurs : ∀ site ∈ sites, CallSite.Occurs line site := by
    refine List.forall_mem_cons.2 ⟨?_, List.forall_mem_singleton.2 ?_⟩
    · exact ⟨_, hpattern, occurs_of_mem_search hpattern hinner, rfl⟩
    · exact occurs_of_mem_callSites (hfound ▸ List.mem_singleton_self _)
  refine ⟨hfound, hoccurs, (ofLine_nearest line 32).2.2 sites ?_ hoccurs⟩
  simp [hfound, sites]

end Context

end LogSyntax
