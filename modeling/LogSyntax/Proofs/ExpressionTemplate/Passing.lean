import LogSyntax.Proofs.ExpressionTemplate.Plain
import LogSyntax.Proofs.MessageTemplate.Parse
import LogSyntax.Proofs.Text.Trim
/-!
# Passing over a template

What a reader of an expression template makes of a stretch of text, whatever stands behind it. The
search for the end of a segment passes over a text without braces outside quotes and only counts its
brackets (`run_pass`), so it stops at the brace behind it, with a format (`end?_format`) or without
(`end?_body`). Where braces have their partners it passes over the groups as well, and it does not
count what stands in them (`run_groups`, `end?_groups`). Between segments the reader passes over a
text in which opening braces come in pairs (`ahead_literal`).
-/

namespace LogSyntax.ExpressionTemplate

open Brackets (straight curly)

namespace Segment

open Search

variable {formats q : Bool} {d length o : Nat} {outcomes : Outcomes} {s t body format rest : Text}

/-- A text without braces outside quotes, in which no format begins, is passed over. -/
theorem run_pass (hbrace : Text.BraceFree (Text.outside q s))
    (hcolon : formats = true → straight.HidesColons d (Text.outside q s)) :
    (reading q d [] outcomes).run formats length o (s ++ t) =
      (reading (Text.quotedAfter q s) (straight.depth d (Text.outside q s)) [] outcomes).run formats
        (length + s.length) (o + Text.bytes s) t := by
  induction s generalizing q d length o with
  | nil => rfl
  | cons c s ih =>
    -- what stands outside quotes begins with `c`, if no quote is open
    rw [show c :: s = [c] ++ s from rfl, Text.outside_append] at hbrace hcolon ⊢
    rw [Text.braceFree_append] at hbrace
    have hopen : ¬ (q = false ∧ c = '{') := by
      rintro ⟨rfl, rfl⟩
      exact hbrace.1.1 (by simp [Text.outside])
    have hclose : ¬ (q = false ∧ c = '}') := by
      rintro ⟨rfl, rfl⟩
      exact hbrace.1.2 (by simp [Text.outside])
    have hbegins : ¬ (formats = true ∧ q = false ∧ d = 0 ∧ c = ':') := by
      rintro ⟨hformats, rfl, rfl, rfl⟩
      exact hcolon hformats [] (by simp [Text.outside]) rfl
    have hrest : formats = true →
        straight.HidesColons (straight.depth d (Text.outside q [c]))
          (Text.outside (Text.quotedAfter q [c]) s) :=
      fun hformats => (Brackets.hidesColons_append.1 (hcolon hformats)).2
    rw [Text.quotedAfter_append, Brackets.depth_append, List.cons_append, List.nil_append,
      List.cons_append, Search.run, step_reading hopen hclose hbegins]
    refine (ih hbrace.2 hrest).trans ?_
    rw [List.length_cons, Text.bytes_cons, Nat.add_assoc o, Nat.add_assoc length, Nat.add_comm 1]

/-- Every group that is open or known opens in front of an offset. -/
def Behind (o : Nat) (groups : List Nat) (outcomes : Outcomes) : Prop :=
  ∀ n, o ≤ n → n ∉ groups ∧ outcomes[n]? = none

namespace Behind

variable {o' group : Nat} {groups : List Nat}

theorem mono (h : Behind o groups outcomes) (hle : o ≤ o') : Behind o' groups outcomes := by
  intro n hn
  exact h n (hle.trans hn)

theorem opened (h : Behind o groups outcomes) : Behind (o + 1) (o :: groups) outcomes := by
  intro n hn
  have hlt : o < n := hn
  obtain ⟨hgroup, hknown⟩ := h n hlt.le
  exact ⟨by simpa using ⟨hlt.ne', hgroup⟩, hknown⟩

theorem closed (h : Behind o (group :: groups) outcomes) (outcome : Option Nat) :
    Behind o groups (outcomes.insert group outcome) := by
  intro n hn
  obtain ⟨hgroup, hknown⟩ := h n hn
  rw [List.mem_cons, not_or] at hgroup
  refine ⟨hgroup.2, ?_⟩
  rw [Std.TreeMap.getElem?_insert, hknown]
  simp [Ne.symm hgroup.1]

end Behind

/-- A brace opens or closes a group, and any other character means in a group what it means to
quotes, and outside groups what it means without them. -/
theorem step_groups {c : Char} {groups : List Nat}
    (hwithin : curly.Within groups.length (Text.outside q [c]))
    (hcolon : formats = true →
      straight.HidesColons d (Text.ungrouped groups.length (Text.outside q [c])))
    (hbehind : Behind o groups outcomes) :
    ∃ groups' outcomes', groups'.length = curly.depth groups.length (Text.outside q [c]) ∧
      Behind (o + c.utf8Size) groups' outcomes' ∧
      (reading q d groups outcomes).step formats o c =
        .next (reading (Text.quotedAfter q [c])
          (straight.depth d (Text.ungrouped groups.length (Text.outside q [c]))) groups'
          outcomes') := by
  by_cases hopen : q = false ∧ c = '{'
  · obtain ⟨rfl, rfl⟩ := hopen
    have hnew : outcomes[o]? = none := (hbehind o (Nat.le_refl o)).2
    refine ⟨o :: groups, outcomes, rfl, hbehind.opened, ?_⟩
    simp [reading, step, stepCode, hnew, Text.quotedAfter, Text.outside, Text.ungrouped]
  by_cases hclose : q = false ∧ c = '}'
  · obtain ⟨rfl, rfl⟩ := hclose
    cases groups with
    | nil => exact absurd (hwithin.pos rfl) (Nat.lt_irrefl 0)
    | cons group groups =>
      refine ⟨groups, outcomes.insert group (some o), rfl,
        (hbehind.closed _).mono (Nat.le_add_right _ _), ?_⟩
      simp [reading, step, stepCode, Text.quotedAfter, Text.outside, Text.ungrouped]
  have hfree : Text.BraceFree (Text.outside q [c]) := Text.braceFree_outside hopen hclose
  refine ⟨groups, outcomes, hfree.depth_curly.symm, hbehind.mono (Nat.le_add_right _ _), ?_⟩
  cases groups with
  | nil =>
    rw [List.length_nil, Text.ungrouped_of_braceFree hfree] at hcolon ⊢
    refine step_reading hopen hclose ?_ outcomes
    rintro ⟨hformats, rfl, rfl, rfl⟩
    exact hcolon hformats [] (by simp [Text.outside]) rfl
  | cons group groups =>
    rw [List.length_cons, Text.ungrouped_of_open hfree]
    exact step_reading_nested hopen hclose group groups outcomes

/-- A text that closes no more groups than are open is passed over. What it learns of those that it
closes is of no use to it: all that opens in it is new. -/
theorem run_groups {groups : List Nat}
    (hwithin : curly.Within groups.length (Text.outside q s))
    (hcolon : formats = true →
      straight.HidesColons d (Text.ungrouped groups.length (Text.outside q s)))
    (hbehind : Behind o groups outcomes) :
    ∃ groups' outcomes', groups'.length = curly.depth groups.length (Text.outside q s) ∧
      (reading q d groups outcomes).run formats length o (s ++ t) =
        (reading (Text.quotedAfter q s)
          (straight.depth d (Text.ungrouped groups.length (Text.outside q s))) groups'
          outcomes').run formats (length + s.length) (o + Text.bytes s) t := by
  induction s generalizing q d length o groups outcomes with
  | nil => exact ⟨groups, outcomes, rfl, rfl⟩
  | cons c s ih =>
    rw [show c :: s = [c] ++ s from rfl, Text.outside_append] at hwithin hcolon ⊢
    rw [Brackets.within_append] at hwithin
    rw [Text.ungrouped_append, Brackets.hidesColons_append] at hcolon
    obtain ⟨groups', outcomes', hdepth, hbehind', hstep⟩ :=
      step_groups hwithin.1 (fun hformats => (hcolon hformats).1) hbehind
    rw [← hdepth] at hwithin hcolon
    obtain ⟨groups'', outcomes'', hdepth', hrun⟩ :=
      ih hwithin.2 (fun hformats => (hcolon hformats).2) hbehind'
    refine ⟨groups'', outcomes'', ?_, ?_⟩
    · rw [hdepth', hdepth, Brackets.depth_append]
    · rw [Text.ungrouped_append, Brackets.depth_append, Text.quotedAfter_append, ← hdepth,
        List.append_assoc, List.cons_append, List.nil_append, Search.run, hstep]
      refine hrun.trans ?_
      rw [List.cons_append, List.nil_append, List.length_cons, Text.bytes_cons, Nat.add_assoc o,
        Nat.add_assoc length, Nat.add_comm 1]

/-- In a format nothing is passed over but what can end it. -/
theorem run_format {colon : Nat} (hs : ∀ c ∈ s, c ≠ '{' ∧ c ≠ '}' ∧ c ≠ ']') :
    (⟨.format colon, d, [], outcomes⟩ : Search).run formats length o (s ++ t) =
      (⟨.format colon, d, [], outcomes⟩ : Search).run formats (length + s.length)
        (o + Text.bytes s) t := by
  induction s generalizing length o with
  | nil => rfl
  | cons c s ih =>
    rw [List.forall_mem_cons] at hs
    obtain ⟨hopen, hclose, hbracket⟩ := hs.1
    have hstep : (⟨.format colon, d, [], outcomes⟩ : Search).step formats o c =
        .next ⟨.format colon, d, [], outcomes⟩ := by
      simp [Search.step, hopen, hclose, hbracket]
    rw [List.cons_append, Search.run, hstep]
    refine (ih hs.2).trans ?_
    rw [List.length_cons, Text.bytes_cons, Nat.add_assoc o, Nat.add_assoc length, Nat.add_comm 1]

/-- A segment ends at the brace behind a body in which no quote is open, no brace stands and no
format begins. -/
theorem end?_body (hquoted : Text.quotedAfter false body = false)
    (hbrace : Text.BraceFree (Text.outside false body))
    (hcolon : isDirective (body ++ '}' :: rest) = false →
      straight.HidesColons 0 (Text.outside false body)) :
    Segment.end? outcomes o (body ++ '}' :: rest) =
      (some ⟨body.length, o + Text.bytes body, '}', none⟩, outcomes) := by
  have hpass : Segment.end? outcomes o (body ++ '}' :: rest) = _ :=
    run_pass hbrace (by simpa using hcolon)
  rw [hquoted, Nat.zero_add] at hpass
  exact hpass

/-- A segment also ends at the brace behind a body in which every brace has its partner and no
format begins outside nested groups. -/
theorem end?_groups (hquoted : Text.quotedAfter false body = false)
    (hbraces : curly.Balanced (Text.outside false body))
    (hcolon : isDirective (body ++ '}' :: rest) = false →
      straight.HidesColons 0 (Text.ungrouped 0 (Text.outside false body))) :
    ∃ learned, Segment.end? ∅ o (body ++ '}' :: rest) =
      (some ⟨body.length, o + Text.bytes body, '}', none⟩, learned) := by
  have hwithin : curly.Within ([] : List Nat).length (Text.outside false body) := hbraces.closed
  have hcolon' : (!isDirective (body ++ '}' :: rest)) = true →
      straight.HidesColons 0 (Text.ungrouped 0 (Text.outside false body)) := by
    simpa using hcolon
  have hbehind : Behind o [] ∅ := fun n _ => ⟨List.not_mem_nil, rfl⟩
  obtain ⟨groups, learned, hdepth, hpass⟩ := run_groups (t := '}' :: rest) hwithin hcolon' hbehind
  obtain rfl : groups = [] := List.length_eq_zero_iff.1 (hdepth.trans (hbraces.depth_eq 0))
  rw [hquoted, Nat.zero_add] at hpass
  exact ⟨learned, hpass⟩

/-- A segment ends at the brace behind a format, which the colon behind its body begins. -/
theorem end?_format (hquoted : Text.quotedAfter false body = false)
    (hbrace : Text.BraceFree (Text.outside false body))
    (hcolon : straight.HidesColons 0 (Text.outside false body))
    (hdepth : straight.depth 0 (Text.outside false body) = 0)
    (hformat : ∀ c ∈ format, c ≠ '{' ∧ c ≠ '}' ∧ c ≠ ']')
    (hdirective : isDirective (body ++ ':' :: (format ++ '}' :: rest)) = false) :
    Segment.end? outcomes o (body ++ ':' :: (format ++ '}' :: rest)) =
      (some ⟨body.length + 1 + format.length, o + Text.bytes body + 1 + Text.bytes format, '}',
        some (o + Text.bytes body)⟩, outcomes) := by
  have hpass : (reading false 0 [] outcomes).run true 0 o
      (body ++ ':' :: (format ++ '}' :: rest)) = _ := run_pass hbrace fun _ => hcolon
  rw [hquoted, hdepth, Nat.zero_add, Search.run, step_reading_colon] at hpass
  rw [end?, hdirective]
  refine hpass.trans ((run_format hformat).trans ?_)
  rfl

end Segment

/-! ## Between segments -/

namespace Scan

variable {s : Scan} {h : Heuristics} {names : LoopNames} {outcomes : Outcomes} {o : Nat}
  {t content rest : Text}

/-- The regions ahead of a reader. -/
def ahead (s : Scan) : List Region :=
  (s.steps Segment.end?).flatten

theorem ahead_of_none (hs : s.next? Segment.end? = none) : s.ahead = [] := by
  rw [ahead, steps, drain_of_none hs]
  rfl

theorem ahead_of_some {regions : List Region} {s' : Scan}
    (hs : s.next? Segment.end? = some (regions, s')) : s.ahead = regions ++ s'.ahead := by
  rw [ahead, steps, drain_of_some hs]
  rfl

theorem ahead_nil : ahead ⟨⟨o, []⟩, h, names, outcomes⟩ = [] :=
  ahead_of_none rfl

theorem ahead_pair {c : Char} (hc : c = '{' ∨ c = '}') :
    ahead ⟨⟨o, c :: c :: t⟩, h, names, outcomes⟩ =
      ahead ⟨⟨o + c.utf8Size + c.utf8Size, t⟩, h, names, outcomes⟩ := by
  have hnext : next? Segment.end? ⟨⟨o, c :: c :: t⟩, h, names, outcomes⟩ =
      some ([], ⟨⟨o + c.utf8Size + c.utf8Size, t⟩, h, names, outcomes⟩) := by
    simp [next?, hc, pass, Place.advance, Nat.add_assoc]
  exact ahead_of_some hnext

theorem ahead_char {c : Char} (hopen : c ≠ '{') (hclose : c = '}' → t.head? ≠ some '}') :
    ahead ⟨⟨o, c :: t⟩, h, names, outcomes⟩ =
      ahead ⟨⟨o + c.utf8Size, t⟩, h, names, outcomes⟩ := by
  have hpair : ¬ ((c = '{' ∨ c = '}') ∧ t.head? = some c) := by
    rintro ⟨rfl | rfl, ht⟩
    · exact hopen rfl
    · exact hclose rfl ht
  have hnext : next? Segment.end? ⟨⟨o, c :: t⟩, h, names, outcomes⟩ =
      some ([], ⟨⟨o + c.utf8Size, t⟩, h, names, outcomes⟩) := by
    unfold next?
    dsimp only
    rw [if_neg hpair, if_neg hopen]
    simp [pass, Place.advance]
  exact ahead_of_some hnext

/-- A segment that is not blank shows what its trimmed body shows, between its braces. -/
theorem ahead_segment {names' : LoopNames} {inner : List Region} {colon : Option Nat}
    {learned : Outcomes}
    (hend : Segment.end? outcomes (o + 1) (content ++ '}' :: rest) =
      (some ⟨content.length, o + 1 + Text.bytes content, '}', colon⟩, learned))
    (hbare : Directive.readBare? (content ++ '}' :: rest) = none)
    (hblank : ¬ content.all isBlank) (hhead : content.head? ≠ some '{')
    (hinner : bodyRegions h names (o + 1 + Text.bytes (content.takeWhile isBlank))
      (Text.trim content) = (inner, names')) :
    ahead ⟨⟨o, '{' :: (content ++ '}' :: rest)⟩, h, names, outcomes⟩ =
      ⟨.propertyBrace, o, ['{']⟩ ::
        (inner ++ [⟨.propertyBrace, o + 1 + Text.bytes content, ['}']⟩]) ++
      ahead ⟨⟨o + 1 + Text.bytes content + 1, rest⟩, h, names', learned⟩ := by
  have hcontent : content ≠ [] := by
    rintro rfl
    exact hblank rfl
  have hpair : (content ++ '}' :: rest).head? ≠ some '{' := by
    rwa [List.head?_append_of_ne_nil _ hcontent]
  have hbody : (Text.trim content).isEmpty = false :=
    List.isEmpty_eq_false_iff.2 (Text.trim_ne_nil hblank)
  have hregions : segmentRegions h names o content
      ⟨content.length, o + 1 + Text.bytes content, '}', colon⟩ =
        (⟨.propertyBrace, o, ['{']⟩ ::
          (inner ++ [⟨.propertyBrace, o + 1 + Text.bytes content, ['}']⟩]), names') := by
    have hopening : (⟨.propertyBrace, o, ['{']⟩ : Region).stop = o + 1 := rfl
    simp only [segmentRegions, hbody, Bool.false_eq_true, if_false, hopening, hinner]
  have hplace : (⟨o, '{' :: (content ++ '}' :: rest)⟩ : Place).advance (content.length + 2) =
      ⟨o + 1 + Text.bytes content + 1, rest⟩ := by
    have htake : (content ++ '}' :: rest).take (content.length + 1) = content ++ ['}'] :=
      List.take_length_add_append 1
    have hdrop : (content ++ '}' :: rest).drop (content.length + 1) = rest :=
      List.drop_length_add_append 1
    rw [Place.advance_succ, Place.advance, htake, hdrop, Text.bytes_append]
    rfl
  apply ahead_of_some
  simp only [next?, hpair, and_false, if_false, if_true, readSegment, hbare, hend, pass,
    List.take_left, hregions, hplace]

end Scan

/-- In the longest runs of opening braces these come in pairs. -/
def BracesPaired (t : Text) : Prop :=
  ∀ before n behind, MessageTemplate.IsRun t before n behind → Even n

namespace BracesPaired

variable {c : Char} {t : Text}

theorem tail (ht : BracesPaired (c :: t)) (hc : c ≠ '{') : BracesPaired t := by
  intro before n behind hrun
  exact ht (c :: before) n behind (hrun.cons fun _ => hc)

/-- A run of opening braces that begins a text with pairs is one of a brace and another one. -/
theorem pair (ht : BracesPaired ('{' :: t)) : ∃ u, t = '{' :: u ∧ BracesPaired u := by
  have hrest (u : Text) (hu : t = '{' :: u) : BracesPaired u := by
    rintro before n behind ⟨rfl, hleft, hright⟩
    cases before with
    | nil =>
      have heven := ht [] (n + 2) behind ⟨by simp [hu, List.replicate_succ], by simp, hright⟩
      rwa [Nat.even_add, iff_true_right (by decide)] at heven
    | cons d before =>
      refine ht ('{' :: '{' :: d :: before) n behind ⟨by simp [hu], ?_, hright⟩
      rwa [List.getLast?_cons_cons, List.getLast?_cons_cons]
  cases t with
  | nil =>
    have heven := ht [] 1 [] ⟨rfl, by simp, by simp⟩
    simp at heven
  | cons d u =>
    by_cases hd : d = '{'
    · subst hd
      exact ⟨u, rfl, hrest u rfl⟩
    · have heven := ht [] 1 (d :: u) ⟨rfl, by simp, by simpa using hd⟩
      simp at heven

/-- A pair may be put in front of pairs. -/
theorem cons_pair (ht : BracesPaired t) : BracesPaired ('{' :: '{' :: t) := by
  rintro before n behind ⟨heq, hleft, hright⟩
  match before, n with
  | [], 0 => exact ⟨0, rfl⟩
  | [], 1 =>
    obtain rfl : '{' :: t = behind := (List.cons.inj heq).2
    exact absurd rfl hright
  | [], n + 2 =>
    have htail : t = List.replicate n '{' ++ behind := by simpa [List.replicate_succ] using heq
    exact (ht [] n behind ⟨htail, by simp, hright⟩).add (by decide)
  | [c], n =>
    obtain ⟨rfl, -⟩ := List.cons.inj heq
    exact absurd rfl hleft
  | [c, d], n =>
    obtain ⟨-, hd⟩ := List.cons.inj heq
    obtain ⟨rfl, -⟩ := List.cons.inj hd
    exact absurd rfl hleft
  | c :: d :: e :: before, n =>
    obtain ⟨-, hd⟩ := List.cons.inj heq
    obtain ⟨-, htail⟩ := List.cons.inj hd
    refine ht (e :: before) n behind ⟨htail, ?_, hright⟩
    rwa [List.getLast?_cons_cons, List.getLast?_cons_cons] at hleft

end BracesPaired

theorem bracesPaired_of_not_mem {t : Text} (ht : '{' ∉ t) : BracesPaired t := by
  rintro before n behind ⟨rfl, -, -⟩
  cases n with
  | zero => exact ⟨0, rfl⟩
  | succ n => exact absurd (by simp [List.replicate_succ]) ht

namespace Scan

variable {h : Heuristics} {names : LoopNames} {outcomes : Outcomes} {literal rest : Text}

/-- A literal shows nothing. What stands behind it is no brace that its last one could pair up
with. -/
theorem ahead_literal (hliteral : BracesPaired literal) (hrest : rest.head? ≠ some '}') (o : Nat) :
    ahead ⟨⟨o, literal ++ rest⟩, h, names, outcomes⟩ =
      ahead ⟨⟨o + Text.bytes literal, rest⟩, h, names, outcomes⟩ := by
  -- a pair takes two characters, so the induction is on the length
  induction hn : literal.length using Nat.strongRecOn generalizing literal o with
  | ind n ih =>
    subst hn
    cases literal with
    | nil => rfl
    | cons c t =>
      by_cases hopen : c = '{'
      · subst hopen
        obtain ⟨u, rfl, hu⟩ := hliteral.pair
        have hlt : u.length < ('{' :: '{' :: u).length := by
          simp only [List.length_cons]
          omega
        rw [List.cons_append, List.cons_append, ahead_pair (.inl rfl), ih _ hlt hu _ rfl]
        simp only [Text.bytes_cons, Nat.add_assoc]
      · have ht := hliteral.tail hopen
        by_cases hclose : c = '}' ∧ t.head? = some '}'
        · obtain ⟨rfl, hhead⟩ := hclose
          obtain ⟨u, rfl⟩ : ∃ u, t = '}' :: u := by
            cases t with
            | nil => contradiction
            | cons d u => exact ⟨u, by simpa using hhead⟩
          have hlt : u.length < ('}' :: '}' :: u).length := by
            simp only [List.length_cons]
            omega
          rw [List.cons_append, List.cons_append, ahead_pair (.inr rfl),
            ih _ hlt (ht.tail (by decide)) _ rfl]
          simp only [Text.bytes_cons, Nat.add_assoc]
        · rw [List.cons_append, ahead_char hopen, ih _ (by simp) ht _ rfl, Text.bytes_cons,
            Nat.add_assoc]
          rintro rfl
          cases t with
          | nil => exact hrest
          | cons d u => exact fun hd => hclose ⟨rfl, hd⟩

end Scan

end LogSyntax.ExpressionTemplate
