import LogSyntax.Proofs.ExpressionTemplate.LoopScope
/-!
# Braces in pairs

The regions of an expression template come in groups, one for each segment that is accepted. A group
begins with an opening brace and ends with the mark that closes it, and shows no other brace; only a
directive that is still to be closed has none (`Group`). `Groups` lists them along the run of a
reader, and `classify_groups` puts them together: one step of the reader shows nothing or a group
(`Scan.exists_groups`).
-/

namespace LogSyntax.ExpressionTemplate

variable {h : Heuristics} {names : LoopNames} {offset : Nat} {t keyword body : Text}

/-! ## Directives without closing brace -/

namespace Directive

/-- White space and the whole word `if` stand at the head of the text. -/
def BeginsIf (t : Text) : Prop :=
  ∃ gap rest, t = gap ++ "if".toList ++ rest ∧ gap ≠ [] ∧ gap.all isBlank ∧
    Text.Stops isIdentChar rest

/-- What may stand behind a keyword that has no closing brace: nothing, or spaces in front of
anything but a closing brace. -/
def LeavesOpen (t : Text) : Prop :=
  t = [] ∨ ∃ spaces rest, t = spaces ++ rest ∧ spaces ≠ [] ∧ (∀ c ∈ spaces, c = ' ') ∧
    ∀ c ∈ rest.head?, c ≠ ' ' ∧ c ≠ '}'

/-- The text begins with a directive that is still to be closed: `#end`, or `#else` that is no
`#else if`. -/
def BeginsBare (keyword t : Text) : Prop :=
  ∃ rest, t = keyword ++ rest ∧ LeavesOpen rest ∧
    (keyword = "#end".toList ∨ (keyword = "#else".toList ∧ ¬ BeginsIf rest))

theorem elseIfLength?_isSome_iff : (elseIfLength? t).isSome ↔ BeginsIf t := by
  obtain ⟨gap, u, rfl, -, hgap, hu⟩ := Text.exists_run isBlank t
  have hrun : Text.run isBlank (gap ++ u) = gap.length := Text.run_append hgap hu
  simp only [elseIfLength?, hrun, List.drop_left]
  constructor
  · intro hsome
    split at hsome
    · next cs =>
      split at hsome
      · next hcond =>
        refine ⟨gap, cs, by simp, by simpa using hcond.1, hgap, fun c hc => ?_⟩
        simpa [Option.mem_def.1 hc] using hcond.2
      · contradiction
    · contradiction
  · rintro ⟨gap', rest, heq, hne, hgap', hrest⟩
    rw [List.append_assoc] at heq
    have hword : Text.Stops isBlank ("if".toList ++ rest) := by
      rintro c ⟨⟩
      decide
    obtain ⟨rfl, rfl⟩ := Text.run_inj hgap hgap' hu hword heq
    have hstops : rest.head?.any isIdentChar = false := by
      cases rest with
      | nil => rfl
      | cons c rest => exact hrest c rfl
    simp [hne, hstops]

theorem standsAlone_iff : standsAlone t ↔ LeavesOpen t := by
  constructor
  · intro halone
    unfold standsAlone at halone
    split at halone
    · exact .inl rfl
    · next cs =>
      obtain ⟨spaces, rest, rfl, -, hspaces, hrest⟩ := Text.exists_run (· == ' ') cs
      rw [Text.dropWhile_run hspaces hrest] at halone
      refine .inr ⟨' ' :: spaces, rest, rfl, List.cons_ne_nil _ _, ?_, fun c hc => ⟨?_, ?_⟩⟩
      · simpa using hspaces
      · simpa using hrest c hc
      · rintro rfl
        simp [Option.mem_def.1 hc] at halone
    · contradiction
  · rintro (rfl | ⟨spaces, rest, rfl, hne, hspaces, hrest⟩)
    · rfl
    · obtain ⟨c, spaces, rfl⟩ := List.exists_cons_of_ne_nil hne
      obtain ⟨rfl, hspaces⟩ := List.forall_mem_cons.1 hspaces
      show ((spaces ++ rest).dropWhile (· == ' ')).head? != some '}'
      rw [Text.dropWhile_run (by simpa using hspaces)]
      · cases rest with
        | nil => rfl
        | cons c rest => simpa using (hrest c rfl).2
      · intro c hc
        simpa using (hrest c hc).1

theorem readBare?_isSome_iff :
    (∃ directive, readBare? t = some (directive, keyword)) ↔ BeginsBare keyword t := by
  constructor
  · rintro ⟨directive, hread⟩
    simp only [readBare?] at hread
    split at hread
    · next hend =>
      obtain ⟨rest, rfl⟩ := List.isPrefixOf_iff_prefix.1 hend
      obtain ⟨halone, -, rfl⟩ := by simpa using hread
      exact ⟨rest, rfl, standsAlone_iff.1 halone, .inl rfl⟩
    · split at hread
      · next helse =>
        obtain ⟨rest, rfl⟩ := List.isPrefixOf_iff_prefix.1 helse.1
        have hif : ¬ BeginsIf rest := by
          rw [← elseIfLength?_isSome_iff]
          simpa using helse.2
        obtain ⟨halone, -, rfl⟩ := by simpa using hread
        exact ⟨rest, rfl, standsAlone_iff.1 halone, .inr ⟨rfl, hif⟩⟩
      · contradiction
  · rintro ⟨rest, rfl, hopen, hkeyword⟩
    rw [← standsAlone_iff] at hopen
    rcases hkeyword with rfl | ⟨rfl, hif⟩
    · exact ⟨.endBlock, by simp [readBare?, hopen]⟩
    · rw [← elseIfLength?_isSome_iff] at hif
      have hnone : elseIfLength? rest = none := by simpa using hif
      exact ⟨.otherwise, by simp [readBare?, List.isPrefixOf, hopen, hnone]⟩

end Directive

/-! ## Between the braces -/

/-- No region shows a brace. -/
def Braceless (regions : List Region) : Prop :=
  ∀ r ∈ regions, r.category ≠ .propertyBrace

theorem braceless_append {regions more : List Region} :
    Braceless (regions ++ more) ↔ Braceless regions ∧ Braceless more :=
  List.forall_mem_append

theorem braceless_cons {r : Region} {regions : List Region} :
    Braceless (r :: regions) ↔ r.category ≠ .propertyBrace ∧ Braceless regions :=
  List.forall_mem_cons

theorem braceless_nil : Braceless [] :=
  fun _ hr => nomatch hr

theorem braceless_tokens (tokens : List Token) :
    Braceless (tokens.filterMap Region.ofToken?) := by
  have hkind (kind : Token.Kind) : Category.ofKind? kind ≠ some .propertyBrace := by
    cases kind <;> decide
  intro r hr hbrace
  obtain ⟨token, -, htoken⟩ := List.mem_filterMap.1 hr
  obtain ⟨category, hcategory, rfl⟩ := Option.map_eq_some_iff.1 htoken
  exact hkind token.kind (hcategory.trans (congrArg some hbrace))

theorem braceless_visible {category : Category} (hcategory : category ≠ .propertyBrace) :
    Braceless (Region.visible category offset t) := by
  unfold Region.visible
  split
  · exact braceless_nil
  · exact braceless_cons.2 ⟨hcategory, braceless_nil⟩

theorem Directive.braceless_loopRegions (tokens : List Token) : Braceless (loopRegions tokens) := by
  unfold loopRegions
  refine braceless_append.2 ⟨braceless_tokens _, ?_⟩
  split
  · exact braceless_nil
  · exact braceless_cons.2 ⟨by simp, braceless_tokens _⟩

theorem Directive.braceless_classify : Braceless (classify h names offset t).1 := by
  unfold classify
  split
  · exact braceless_nil
  · next directive n _ =>
    cases directive with
    | ifThen => exact braceless_cons.2 ⟨by simp, braceless_tokens _⟩
    | elseIf => exact braceless_cons.2 ⟨by simp, braceless_tokens _⟩
    | each => exact braceless_cons.2 ⟨by simp, braceless_loopRegions _⟩
    | otherwise => exact braceless_cons.2 ⟨by simp, braceless_nil⟩
    | endBlock => exact braceless_cons.2 ⟨by simp, braceless_nil⟩
    | delimit => exact braceless_cons.2 ⟨by simp, braceless_nil⟩

theorem Indexer.braceless_regions (x : Indexer) : Braceless (x.regions h offset) := by
  unfold regions
  refine braceless_append.2 ⟨by simp [Braceless], ?_⟩
  split
  · exact braceless_visible (by simp)
  · exact braceless_tokens _

theorem Hole.braceless_expressionRegions : Braceless (expressionRegions h names offset t) := by
  unfold expressionRegions
  dsimp only
  split
  · refine braceless_cons.2 ⟨?_, braceless_nil⟩
    split <;> simp
  · exact braceless_tokens _

theorem Hole.braceless_regions : Braceless (regions h names offset t) := by
  unfold regions
  split
  · exact braceless_append.2 ⟨braceless_expressionRegions, braceless_visible (by simp)⟩
  · exact braceless_expressionRegions

theorem braceless_bodyRegions : Braceless (bodyRegions h names offset body).1 := by
  unfold bodyRegions
  split
  · exact Directive.braceless_classify
  · split
    · exact Indexer.braceless_regions _
    · exact Hole.braceless_regions

/-! ## Marks that close -/

namespace Segment

variable {formats : Bool} {length o : Nat} {c : Char} {s : Search} {colon : Option Nat} {e : End}

/-- In code only a closing brace ends a segment. -/
theorem Search.mark_of_stepCode (hstep : s.stepCode formats o c = .ends colon) : c = '}' := by
  unfold stepCode at hstep
  split at hstep
  · contradiction
  split at hstep
  · contradiction
  split at hstep
  · contradiction
  split at hstep
  · split at hstep <;> contradiction
  split at hstep
  · split at hstep <;> contradiction
  split at hstep
  · assumption
  · contradiction

theorem Search.mark_of_step (hstep : s.step formats o c = .ends colon) : c = '}' ∨ c = ']' := by
  unfold step at hstep
  split at hstep
  · exact .inl (mark_of_stepCode hstep)
  · contradiction
  · split at hstep
    · assumption
    · split at hstep <;> contradiction
  · contradiction

theorem Search.mark_of_run (hrun : (s.run formats length o t).1 = some e) :
    e.mark = '}' ∨ e.mark = ']' := by
  induction t generalizing length o s with
  | nil => contradiction
  | cons c cs ih =>
    rw [run] at hrun
    split at hrun
    · exact ih hrun
    · next colon hstep =>
      cases hrun
      exact mark_of_step hstep
    · contradiction

end Segment

/-! ## Groups -/

/-- The regions of a directive that is without its closing brace. -/
def bareGroup (offset : Nat) (keyword : Text) : List Region :=
  [⟨.propertyBrace, offset, ['{']⟩, ⟨.expressionDirective, offset + 1, keyword⟩]

/-- The regions of a segment that begins at an offset: its only braces are the opening one and the
mark that closes it, and what else it shows stands between them. -/
def Closed (offset : Nat) (group : List Region) : Prop :=
  ∃ inner stop mark,
    group = ⟨.propertyBrace, offset, ['{']⟩ :: (inner ++ [⟨.propertyBrace, stop, [mark]⟩]) ∧
      (mark = '}' ∨ mark = ']') ∧ offset < stop ∧
      ∀ r ∈ inner, r.category ≠ .propertyBrace ∧ offset < r.start ∧ r.stop ≤ stop

theorem closed_segmentRegions {start : Nat} {e : Segment.End}
    (he : e.offset = start + 1 + Text.bytes t) (hmark : e.mark = '}' ∨ e.mark = ']')
    (hbody : Text.trim t ≠ []) : Closed start (segmentRegions h names start t e).1 := by
  have hordered := (shown_segmentRegions h names start t he).ordered
  have hone : Text.bytes ['{'] = 1 := rfl
  unfold segmentRegions at hordered ⊢
  dsimp only at hordered ⊢
  rw [if_neg (by simpa using hbody)] at hordered ⊢
  obtain ⟨hopening, hrest⟩ := List.pairwise_cons.1 hordered
  obtain ⟨-, -, hclosing⟩ := List.pairwise_append.1 hrest
  simp only [hone] at hopening
  have hstop := hopening _ (List.mem_append_right _ (List.mem_singleton_self _))
  refine ⟨_, _, _, rfl, hmark, hstop, fun r hr => ⟨?_, ?_, ?_⟩⟩
  · exact braceless_bodyRegions r hr
  · exact hopening r (List.mem_append_left _ hr)
  · exact hclosing r hr _ (List.mem_singleton_self _)

namespace Scan

/-- The reader accepts a segment, and shows a group of regions for it. -/
inductive Accepts (t : Text) (s : Scan) (s' : Scan) : List Region → Prop
  /-- Behind the keyword of a directive without closing brace reading goes on. -/
  | bare {cs keyword : Text} (hplace : s.place.In t) (hopens : s.Opens cs)
      (hbare : Directive.BeginsBare keyword cs)
      (hbehind : s'.place = s.place.advance (keyword.length + 1)) :
      Accepts t s s' (bareGroup s.place.offset keyword)
  | closed {cs body : Text} {offset : Nat} {group : List Region} (hplace : s.place.In t)
      (hopens : s.Opens cs) (hbare : ∀ keyword, ¬ Directive.BeginsBare keyword cs)
      (hat : s.AtSegment offset body) (hbody : body ≠ []) (hgroup : Closed s.place.offset group) :
      Accepts t s s' group

/-- The reader is at no segment, or at one that never ends or is blank. -/
structure Rejects (s : Scan) : Prop where
  bare : ∀ cs keyword, s.Opens cs → ¬ Directive.BeginsBare keyword cs
  segment : ∀ offset body, s.AtSegment offset body → body = []

/-- The groups that a reader shows from a state on, one for each segment that it accepts. -/
inductive Groups (t : Text) : Scan → List (List Region) → Prop
  | done {s : Scan} (hend : s.next? Segment.end? = none) : Groups t s []
  | reject {s s' : Scan} {groups : List (List Region)}
      (hnext : s.next? Segment.end? = some ([], s')) (hrejects : s.Rejects)
      (hgroups : Groups t s' groups) : Groups t s groups
  | accept {s s' : Scan} {group : List Region} {groups : List (List Region)}
      (hnext : s.next? Segment.end? = some (group, s')) (haccepts : s.Accepts t s' group)
      (hgroups : Groups t s' groups) : Groups t s (group :: groups)

variable {s s' : Scan} {regions : List Region} {groups : List (List Region)}

theorem rejects_of_not_opens (hs : ∀ cs, ¬ s.Opens cs) : s.Rejects where
  bare cs _ hopens := absurd hopens (hs cs)
  segment offset body := by
    rintro ⟨cs, -, -, hopens, -⟩
    exact absurd hopens (hs cs)

/-- A step stays in the text. -/
theorem in_of_next? (hplace : s.place.In t) (hnext : s.next? Segment.end? = some (regions, s')) :
    s'.place.In t := by
  obtain ⟨behind, happend, hbytes⟩ := hplace
  obtain ⟨passed, hrest, hoffset, -⟩ := shows_next? hnext
  refine ⟨behind ++ passed, ?_, ?_⟩
  · rw [List.append_assoc, ← hrest, happend]
  · rw [Text.bytes_append, hbytes, hoffset]

/-- What a step shows at an opening brace: nothing, or a group. -/
theorem accepts_or_rejects {cs : Text} (hplace : s.place.In t) (hopens : s.Opens cs) :
    s.Accepts t (s.readSegment Segment.end? cs).2 (s.readSegment Segment.end? cs).1 ∨
      ((s.readSegment Segment.end? cs).1 = [] ∧ s.Rejects) := by
  unfold readSegment
  split
  · next directive keyword hbare =>
    exact .inl (.bare hplace hopens (Directive.readBare?_isSome_iff.1 ⟨directive, hbare⟩) rfl)
  · next hnone =>
    have hbare (keyword : Text) : ¬ Directive.BeginsBare keyword cs := by
      rw [← Directive.readBare?_isSome_iff, hnone]
      simp
    have hopen (cs' keyword : Text) (hopens' : s.Opens cs') :
        ¬ Directive.BeginsBare keyword cs' := hopens.inj hopens' ▸ hbare keyword
    split
    · next outcomes hend =>
      refine .inr ⟨rfl, hopen, ?_⟩
      rintro offset body ⟨cs', e, outcomes', hopens', -, hend', -⟩
      obtain rfl := hopens.inj hopens'
      cases hend.symm.trans hend'
    · next e outcomes hend =>
      have hat : s.AtSegment (s.place.offset + 1 +
          Text.bytes ((cs.take e.length).takeWhile isBlank)) (Text.trim (cs.take e.length)) :=
        ⟨cs, e, outcomes, hopens, hnone, hend, rfl, rfl⟩
      by_cases hbody : Text.trim (cs.take e.length) = []
      · refine .inr ⟨by simp [segmentRegions, hbody], hopen, ?_⟩
        intro offset body hat'
        rw [← (hat.inj hat').2, hbody]
      · have hfound := congrArg Prod.fst hend
        exact .inl (.closed hplace hopens hbare hat hbody (closed_segmentRegions
          (Segment.end?_eq_some hfound).1 (Segment.Search.mark_of_run hfound) hbody))

/-- A step adds its regions to the groups behind it, as a group or not at all. -/
theorem exists_groups (hplace : s.place.In t)
    (hnext : s.next? Segment.end? = some (regions, s')) (hgroups : s'.Groups t groups) :
    ∃ groups', s.Groups t groups' ∧ groups'.flatten = regions ++ groups.flatten := by
  rcases next?_cases hnext with ⟨cs, hopens, hread⟩ | ⟨hs, rfl, -⟩
  · have hstep := accepts_or_rejects hplace hopens
    rw [hread] at hstep
    rcases hstep with haccepts | ⟨hnothing, hrejects⟩
    · exact ⟨_, .accept hnext haccepts hgroups, List.flatten_cons⟩
    · obtain rfl : regions = [] := hnothing
      exact ⟨_, .reject hnext hrejects hgroups, rfl⟩
  · exact ⟨_, .reject hnext (rejects_of_not_opens hs) hgroups, rfl⟩

end Scan

/-- The regions of an expression template are groups, one for each segment that a reader of the
template accepts. -/
theorem classify_groups (h : Heuristics) (t : Text) :
    ∃ groups, (Scan.start h t).Groups t groups ∧ classify h t = groups.flatten := by
  refine drain_induction
    (motive := fun s steps => s.place.In t → ∃ groups, s.Groups t groups ∧
      steps.flatten = groups.flatten) (Scan.start h t) ?_ ?_ (Place.start_in t)
  · intro s hend _
    exact ⟨[], .done hend, rfl⟩
  · intro s regions s' steps hnext ih hplace
    obtain ⟨groups, hgroups, hsteps⟩ := ih (Scan.in_of_next? hplace hnext)
    obtain ⟨groups', hgroups', hflatten⟩ := Scan.exists_groups hplace hnext hgroups
    exact ⟨groups', hgroups', by rw [List.flatten_cons, hsteps, hflatten]⟩

/-- A directive without closing brace, and a segment that a bracket closes. -/
example : classify .standard "\x7b#end \x7ba:x]".toList =
    [⟨.propertyBrace, 0, ['{']⟩, ⟨.expressionDirective, 1, "#end".toList⟩,
      ⟨.propertyBrace, 6, ['{']⟩, ⟨.propertyName, 7, ['a']⟩, ⟨.formatSpecifier, 9, ['x']⟩,
      ⟨.propertyBrace, 10, [']']⟩] := by
  decide +kernel

end LogSyntax.ExpressionTemplate
