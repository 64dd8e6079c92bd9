import LogSyntax.Proofs.CallSite.Nearest
/-!
# A line that goes on

What stands behind an offset makes no difference to the context there (`ofLine_append`). More text
may well complete a call that begins in front of the offset, and the search then passes over what it
found within it before. But the last quote of that call stands behind the offset, and the calls with
their last quote in front of it are those of the shorter line (`Occurs.append_iff`), so the nearest
one of them is the same.
-/

namespace LogSyntax

namespace CallSite

variable {pattern : Pattern} {line more before call after : Text} {site : CallSite} {offset : Nat}

theorem Pattern.OccursAt.append (h : pattern.OccursAt line before call after)
    (hmore : more.head? ≠ some '"') :
    pattern.OccursAt (line ++ more) before call (after ++ more) := by
  refine ⟨by simp [h.line_eq], h.whole, h.spells, ?_⟩
  cases after with
  | nil => exact hmore
  | cons c after => exact h.last

/-- An occurrence with its last quote in the first part of a line occurs in that part alone. -/
theorem Pattern.OccursAt.of_append (h : pattern.OccursAt (line ++ more) before call after)
    (hmore : more.head? ≠ some '"') (hle : Text.bytes (before ++ call) ≤ Text.bytes line) :
    ∃ after', pattern.OccursAt line before call after' := by
  have hline : line ++ more = before ++ call ++ '"' :: after := by
    rw [h.line_eq, List.append_assoc]
  rcases Text.append_eq_append_cons hline with ⟨after', hin⟩ | ⟨y, hy, hbehind⟩
  · refine ⟨after', by simp [hin], h.whole, h.spells, ?_⟩
    have hafter : after = after' ++ more := by
      rw [hin] at hline
      simpa using hline.symm
    intro hhead
    apply h.last
    rw [hafter, List.head?_append, hhead]
    rfl
  · -- the quote would be the first character of the second part
    rw [hy, Text.bytes_append] at hle
    cases y with
    | nil => simp [hbehind] at hmore
    | cons c y =>
      have hpos := Text.one_le_bytes (List.cons_ne_nil c y)
      omega

/-- The sites with their quote in the first part of a line are those of that part. -/
theorem Occurs.append_iff (hmore : more.head? ≠ some '"') (hle : site.quote ≤ Text.bytes line) :
    Occurs (line ++ more) site ↔ Occurs line site := by
  constructor
  · rintro ⟨pattern, hpattern, ⟨before, call, after, h, hquote⟩, hcontext⟩
    obtain ⟨after', h'⟩ := h.of_append hmore (hquote ▸ hle)
    exact ⟨pattern, hpattern, ⟨before, call, after', h', hquote⟩, hcontext⟩
  · rintro ⟨pattern, hpattern, ⟨before, call, after, h, hquote⟩, hcontext⟩
    exact ⟨pattern, hpattern, ⟨before, call, _, h.append hmore, hquote⟩, hcontext⟩

theorem IsNearest.congr {p q : CallSite → Prop}
    (hpq : ∀ site : CallSite, site.quote ≤ offset → (p site ↔ q site))
    (h : IsNearest p offset site) : IsNearest q offset site :=
  ⟨(hpq site h.le).1 h.holds, h.le,
    fun other hother hle => h.nearest other ((hpq other hle).2 hother) hle⟩

end CallSite

namespace Context

open CallSite

variable {line line' : Text} {offset : Nat} {site : CallSite}

theorem ofLine_of_isNearest (h : IsNearest (CallSite.Occurs line) offset site) :
    ofLine line offset = site.context :=
  ofSites_of_isNearest (fun _ => id) (fun _ => occurs_of_mem_callSites) h

theorem ofLine_of_behind (h : ∀ site, CallSite.Occurs line site → offset < site.quote) :
    ofLine line offset = .outside :=
  ofSites_of_behind (fun _ => occurs_of_mem_callSites) h

/-- The context at an offset depends only on the sites that occur up to there. -/
theorem ofLine_congr (h : ∀ site : CallSite, site.quote ≤ offset →
    (CallSite.Occurs line site ↔ CallSite.Occurs line' site)) :
    ofLine line offset = ofLine line' offset := by
  rcases exists_isNearest line offset with ⟨site, hsite⟩ | hbehind
  · rw [ofLine_of_isNearest hsite, ofLine_of_isNearest (hsite.congr h)]
  · have hbehind' (site : CallSite) (hsite : CallSite.Occurs line' site) : offset < site.quote := by
      by_contra hle
      exact hle (hbehind site ((h site (Nat.le_of_not_lt hle)).2 hsite))
    rw [ofLine_of_behind hbehind, ofLine_of_behind hbehind']

/-- Text that is added behind an offset does not change the context there, unless it begins with a
quote, which could belong to the quotes that the line ends with. -/
theorem ofLine_append (line more : Text) (offset : Nat) (hmore : more.head? ≠ some '"')
    (hle : offset ≤ Text.bytes line) : ofLine (line ++ more) offset = ofLine line offset :=
  ofLine_congr fun _ hquote => Occurs.append_iff hmore (hquote.trans hle)

/-- The text that is added makes the literal at the offset the first argument of a call with two. It
counts for what stands behind the second one only. -/
theorem ofLine_append_straddling :
    let line := "WithComputed(\"ExpressionTemplate(\"".toList
    let more := ",\"x\")".toList
    more.head? ≠ some '"' ∧ 33 ≤ Text.bytes line ∧ ofLine (line ++ more) 33 = ofLine line 33 ∧
      ofLine line 33 = .expressionTemplate ∧ ofLine (line ++ more) 35 = .computedProperty := by
  intro line more
  have hmore : more.head? ≠ some '"' := by decide
  have hle : 33 ≤ Text.bytes line := by decide
  refine ⟨hmore, hle, ofLine_append line more 33 hmore hle, ?_, ?_⟩
  · decide +kernel
  · decide +kernel

end Context

end LogSyntax
