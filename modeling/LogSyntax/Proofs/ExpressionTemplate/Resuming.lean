import LogSyntax.Proofs.ExpressionTemplate.LoopScope
/-!
# Resuming from a place

What a reader of an expression template shows from a place on depends on what stands there, not on
where it stands: every part of it shows `n` bytes further on what it shows here, moved by `n`
(`Scan.steps_move`). It depends on what the reader has learned of nested groups as little. So a
reader that carries no names is as good as a new one, set to the text ahead of it
(`Scan.Passes.resumes`).
-/

namespace LogSyntax

/-- The place in a text that has `n` more bytes in front. -/
def Place.move (n : Nat) (p : Place) : Place := { p with offset := p.offset + n }

theorem Place.advance_move (n k : Nat) (p : Place) :
    (p.move n).advance k = (p.advance k).move n := by
  simp only [Place.advance, Place.move, Nat.add_right_comm]

/-- The text from a place on is what stands ahead there. -/
theorem Place.In.dropBytes_eq {p : Place} {t : Text} (hp : p.In t) :
    Text.dropBytes p.offset t = p.rest := by
  obtain ⟨behind, rfl, hbehind⟩ := hp
  rw [← hbehind, ← Nat.add_zero (Text.bytes behind), Text.dropBytes_append, Text.dropBytes]

theorem Region.stop_add (category : Category) (o n : Nat) (t : Text) :
    (⟨category, o + n, t⟩ : Region).stop = (⟨category, o, t⟩ : Region).stop + n :=
  Nat.add_right_comm ..

theorem Region.visible_add (category : Category) (o n : Nat) (t : Text) :
    Region.visible category (o + n) t = (Region.visible category o t).map (·.rebase n) := by
  unfold Region.visible
  split <;> rfl

namespace ExpressionTemplate

variable {h : Heuristics} {names : LoopNames} {t : Text}

/-! ## The end of a segment, further on -/

namespace Segment

/-- What a search passes over, `n` bytes further on. -/
def Mode.move (n : Nat) : Mode → Mode
  | .code => .code
  | .string => .string
  | .format colon => .format (colon + n)
  | .group stop => .group (stop + n)

/-- The end of a segment, `n` bytes further on. -/
def End.move (n : Nat) (e : End) : End :=
  { e with offset := e.offset + n, colon := e.colon.map (· + n) }

@[simp] theorem End.length_move (n : Nat) (e : End) : (e.move n).length = e.length := rfl

/-- A search outside nested groups, `n` bytes further on. -/
def Search.move (n : Nat) (s : Search) : Search := { s with mode := s.mode.move n }

/-- What a character means for a search, `n` bytes further on. -/
def Step.move (n : Nat) : Step → Step
  | .next s => .next (s.move n)
  | .ends colon => .ends (colon.map (· + n))
  | .fails => .fails

variable {formats : Bool} {length o d : Nat} {c : Char} {s s' : Search} {outcomes : Outcomes}

/-- Outside nested groups every character but an opening brace means the same further on. -/
theorem Search.stepCode_move (n : Nat) (hopen : c ≠ '{') :
    stepCode formats (o + n) c ⟨.code, d, [], outcomes⟩ =
      (stepCode formats o c ⟨.code, d, [], outcomes⟩).move n := by
  unfold stepCode
  split
  · rfl
  split
  · rfl
  split
  · rfl
  split
  · split <;> rfl
  -- a closing brace, or a character that means nothing
  split <;> rfl

theorem Search.step_move (formats : Bool) (o n : Nat) (hgroups : s.groups = [])
    (hs : ¬ (s.mode = .code ∧ c = '{')) :
    (s.move n).step formats (o + n) c = (s.step formats o c).move n := by
  obtain ⟨mode, d, groups, outcomes⟩ := s
  obtain rfl : groups = [] := hgroups
  cases mode with
  | code => exact stepCode_move n fun hc => hs ⟨rfl, hc⟩
  | string => by_cases hquote : c = '\'' <;> simp [move, step, Mode.move, Step.move, hquote]
  | format colon =>
    by_cases hends : c = '}' ∨ c = ']'
    · simp [move, step, Mode.move, Step.move, hends]
    · by_cases hopen : c = '{' <;> simp [move, step, Mode.move, Step.move, hends, hopen]
  | group stop => by_cases hstop : o = stop <;> simp [move, step, Mode.move, Step.move, hstop]

/-- Outside nested groups only an opening brace begins one. -/
theorem Search.groups_of_step (hgroups : s.groups = []) (hs : ¬ (s.mode = .code ∧ c = '{'))
    (hstep : s.step formats o c = .next s') : s'.groups = [] := by
  cases turns_step hstep with
  | keeps hsame _ => rw [hsame, hgroups]
  | opens hmode hc _ _ _ => exact absurd ⟨hmode, hc⟩ hs
  | closes hopen _ =>
    rw [hgroups] at hopen
    contradiction

theorem Search.mode_move (n : Nat) : (s.move n).mode = .code ↔ s.mode = .code := by
  obtain ⟨mode, d, groups, outcomes⟩ := s
  cases mode <;> simp [move, Mode.move]

theorem plainRun_move (n : Nat) (hgroups : s.groups = []) (p : Place) :
    plainRun formats length (s.move n) (p.move n) =
      (plainRun formats length s p).map (End.move n) := by
  obtain ⟨o, t⟩ := p
  -- behind a nested group the search goes on further on, so the induction is on the length
  induction hk : t.length using Nat.strongRecOn generalizing formats length s o t with
  | ind k ih =>
    cases t with
    | nil =>
      rw [plainRun_nil]
      exact plainRun_nil
    | cons c cs =>
      have hlt : cs.length < k := by simp [← hk]
      by_cases hopen : s.mode = .code ∧ c = '{'
      · obtain ⟨hmode, rfl⟩ := hopen
        have hmode' : (s.move n).mode = .code := (Search.mode_move n).2 hmode
        have hgroup : plainRun false 0 (.start ∅) ⟨o + n + 1, cs⟩ =
            (plainRun false 0 (.start ∅) ⟨o + 1, cs⟩).map (End.move n) := by
          rw [Nat.add_right_comm]
          exact ih _ hlt (s := .start ∅) rfl _ cs rfl
        show plainRun formats length (s.move n) ⟨o + n, '{' :: cs⟩ = _
        rw [plainRun_open hmode', plainRun_open hmode, hgroup]
        cases plainRun false 0 (.start ∅) ⟨o + 1, cs⟩ with
        | none => rfl
        | some e =>
          have hdrop : (cs.drop (e.length + 1)).length < k := by
            rw [List.length_drop]
            omega
          have hbehind : (⟨o + n + 1, cs⟩ : Place).advance ((e.move n).length + 1) =
              ((⟨o + 1, cs⟩ : Place).advance (e.length + 1)).move n := by
            rw [Nat.add_right_comm]
            exact Place.advance_move n _ ⟨o + 1, cs⟩
          rw [Option.map_some, Option.bind_some, Option.bind_some, hbehind]
          exact ih _ hdrop hgroups _ _ rfl
      · have hopen' : ¬ ((s.move n).mode = .code ∧ c = '{') := by rwa [Search.mode_move]
        show plainRun formats length (s.move n) ⟨o + n, c :: cs⟩ = _
        have hmove := Search.step_move formats o n hgroups hopen
        cases hstep : s.step formats o c with
        | next s' =>
          rw [hstep] at hmove
          rw [plainRun_next hopen' hmove, plainRun_next hopen hstep, Nat.add_right_comm]
          exact ih _ hlt (Search.groups_of_step hgroups hopen hstep) _ cs rfl
        | ends colon =>
          rw [hstep] at hmove
          rw [plainRun_ends hopen' hmove, plainRun_ends hopen hstep]
          rfl
        | fails =>
          rw [hstep] at hmove
          rw [plainRun_fails hopen' hmove, plainRun_fails hopen hstep]
          rfl

/-- A segment ends further on as it does here. -/
theorem plainEnd?_add (o n : Nat) (t : Text) :
    plainEnd? (o + n) t = (plainEnd? o t).map (End.move n) :=
  plainRun_move n (s := .start ∅) rfl ⟨o, t⟩

end Segment

/-! ## Regions, further on -/

namespace Directive

theorem loopRegions_move (n : Nat) (tokens : List Token) :
    loopRegions (tokens.map (Token.move n)) = (loopRegions tokens).map (·.rebase n) := by
  induction tokens with
  | nil => rfl
  | cons token tokens ih =>
    rw [List.map_cons]
    cases hseparator : isSeparator token with
    | true =>
      have hmoved : isSeparator (token.move n) = true := hseparator
      rw [loopRegions_separator hmoved, loopRegions_separator hseparator, Region.filterMap_move]
      rfl
    | false =>
      have hmoved : isSeparator (token.move n) = false := hseparator
      have htoken := Region.filterMap_move n [token]
      rw [List.map_singleton] at htoken
      rw [loopRegions_name hmoved, loopRegions_name hseparator, ih, htoken, List.map_append]

theorem classify_add (h : Heuristics) (names : LoopNames) (o n : Nat) (t : Text) :
    classify h names (o + n) t =
      ((classify h names o t).1.map (·.rebase n), (classify h names o t).2) := by
  unfold classify
  cases read? t with
  | none => rfl
  | some found =>
    obtain ⟨directive, k⟩ := found
    cases directive with
    | ifThen =>
      simp only [Region.stop_add, Expression.regions_add]
      rfl
    | elseIf =>
      simp only [Region.stop_add, Expression.regions_add]
      rfl
    | each =>
      simp only [Region.stop_add, Expression.tokens_add, loopRegions_move, boundNames_move]
      rfl
    | otherwise => rfl
    | endBlock => rfl
    | delimit => rfl

end Directive

theorem Indexer.regions_add (h : Heuristics) (o n : Nat) (x : Indexer) :
    x.regions h (o + n) = (x.regions h o).map (·.rebase n) := by
  unfold regions
  simp only [Region.stop, Region.length, Nat.add_right_comm _ n, List.map_append]
  congr 1
  split
  · exact Region.visible_add ..
  · exact Expression.regions_add ..

namespace Hole

theorem property?_move (n : Nat) (tokens : List Token) :
    property? (tokens.map (Token.move n)) = (property? tokens).map (Token.move n) := by
  rcases tokens with _ | ⟨token, _ | ⟨next, tokens⟩⟩
  · rfl
  · simp only [List.map_cons, List.map_nil, property?]
    split <;> simp_all [Token.move]
  · rfl

theorem expressionRegions_add (h : Heuristics) (names : LoopNames) (o n : Nat) (t : Text) :
    expressionRegions h names (o + n) t =
      (expressionRegions h names o t).map (·.rebase n) := by
  unfold expressionRegions
  dsimp only
  rw [Expression.tokens_add, property?_move]
  cases property? (Expression.tokens h o t) with
  | none => exact Region.filterMap_move n _
  | some token => rfl

theorem regions_add (h : Heuristics) (names : LoopNames) (o n : Nat) (t : Text) :
    regions h names (o + n) t = (regions h names o t).map (·.rebase n) := by
  unfold regions
  cases colon? t with
  | none => exact expressionRegions_add ..
  | some k =>
    simp only [expressionRegions_add, Nat.add_right_comm _ n, Region.visible_add, List.map_append]

end Hole

theorem bodyRegions_add (h : Heuristics) (names : LoopNames) (o n : Nat) (body : Text) :
    bodyRegions h names (o + n) body =
      ((bodyRegions h names o body).1.map (·.rebase n), (bodyRegions h names o body).2) := by
  unfold bodyRegions
  split
  · exact Directive.classify_add ..
  · split
    · rw [Indexer.regions_add]
    · rw [Hole.regions_add]

/-- A segment shows further on what it shows here, moved. -/
theorem segmentRegions_add (h : Heuristics) (names : LoopNames) (start n : Nat) (t : Text)
    (e : Segment.End) :
    segmentRegions h names (start + n) t (e.move n) =
      ((segmentRegions h names start t e).1.map (·.rebase n),
        (segmentRegions h names start t e).2) := by
  unfold segmentRegions
  dsimp only
  split
  · rfl
  · rw [Region.stop_add, Nat.add_right_comm, bodyRegions_add]
    simp [Region.rebase, Segment.End.move]

/-! ## Readers, further on -/

namespace Scan

variable {s : Scan} {history : List Scan}

/-- The reader in a text that has `n` more bytes in front. -/
def move (n : Nat) (s : Scan) : Scan := { s with place := s.place.move n }

theorem pass_move (n k : Nat) (s : Scan) : (s.move n).pass k = (s.pass k).move n := by
  simp only [pass, move, Place.advance_move]

theorem readSegment_move (n : Nat) (s : Scan) (cs : Text) :
    (s.move n).readSegment Segment.plain cs =
      ((s.readSegment Segment.plain cs).1.map (·.rebase n),
        (s.readSegment Segment.plain cs).2.move n) := by
  have hend : Segment.plain (s.move n).outcomes ((s.move n).place.offset + 1) cs =
      ((Segment.plainEnd? (s.place.offset + 1) cs).map (·.move n), ∅) := by
    rw [← Segment.plainEnd?_add, Nat.add_right_comm]
    rfl
  unfold readSegment
  rw [hend, Segment.plain]
  cases Directive.readBare? cs with
  | some found =>
    obtain ⟨directive, keyword⟩ := found
    have hstop := Region.stop_add .propertyBrace s.place.offset n ['{']
    simp only [pass_move]
    simp only [move, Place.move, hstop]
    rfl
  | none =>
    cases Segment.plainEnd? (s.place.offset + 1) cs with
    | none =>
      simp only [Option.map_none, pass_move]
      rfl
    | some e =>
      have hregions := segmentRegions_add s.heuristics s.names s.place.offset n (cs.take e.length) e
      simp only [Option.map_some, Segment.End.length_move, pass_move]
      simp only [move, Place.move, hregions]

theorem next?_move (n : Nat) (s : Scan) :
    (s.move n).next? Segment.plain =
      (s.next? Segment.plain).map fun (regions, s') =>
        (regions.map (·.rebase n), s'.move n) := by
  obtain ⟨⟨o, _ | ⟨c, cs⟩⟩, h, names, outcomes⟩ := s
  · rfl
  · have hpass (k : Nat) := pass_move n k ⟨⟨o, c :: cs⟩, h, names, outcomes⟩
    have hread := readSegment_move n ⟨⟨o, c :: cs⟩, h, names, outcomes⟩ cs
    unfold next?
    simp only [move, Place.move] at hpass hread ⊢
    split
    · rw [hpass]
      rfl
    · split
      · rw [hread]
        rfl
      · rw [hpass]
        rfl

/-- What a reader that keeps nothing shows further on is what it shows here, moved. -/
theorem steps_move (n : Nat) (s : Scan) :
    (s.move n).steps Segment.plain =
      (s.steps Segment.plain).map (List.map (·.rebase n)) :=
  drain_mapItems (move n) (List.map (Region.rebase · n)) (fun _ => True) (fun s _ => next?_move n s)
    (fun _ _ _ _ _ => trivial) s trivial

/-! ## A reader and a new one -/

/-- What a reader has learned of nested groups makes no difference to what it shows. -/
theorem Knows.steps_forget (hs : s.Knows t) :
    s.forget.steps Segment.plain = s.steps Segment.end? :=
  drain_map forget (Knows t) (fun _ => next?_forget) (fun _ _ _ hs => hs.next) s hs

/-- What is ahead of a reader goes by the text ahead and by the names that it carries: if it carries
none, a new reader of that text shows the same, moved. -/
theorem ahead_eq_rebase (hs : s.Knows t) (hnames : s.names = []) :
    s.ahead = (classify s.heuristics s.place.rest).map (·.rebase s.place.offset) := by
  have hnew : (start s.heuristics s.place.rest).steps Segment.plain =
      (start s.heuristics s.place.rest).steps Segment.end? :=
    (knows_start s.heuristics s.place.rest).steps_forget
  have hmove : s.forget = (start s.heuristics s.place.rest).move s.place.offset := by
    obtain ⟨⟨o, rest⟩, h, names, outcomes⟩ := s
    obtain rfl : names = [] := hnames
    simp [forget, start, move, Place.move, Place.start]
  rw [ahead, ← hs.steps_forget, hmove, steps_move, hnew, ← List.map_flatten]
  rfl

namespace Passes

theorem reachable (hs : Passes h t history s) : s.Reachable h t := by
  induction hs with
  | start => exact .start
  | next _ hnext ih => exact .next ih hnext

/-- What a template shows is what a reader has shown, all of which begins in front of it, and what
is ahead. -/
theorem exists_shown (hs : Passes h t history s) :
    ∃ shown, classify h t = shown ++ s.ahead ∧ ∀ r ∈ shown, r.start < s.place.offset := by
  induction hs with
  | start => exact ⟨[], rfl, by simp⟩
  | @next history s s' regions hs hnext ih =>
    obtain ⟨shown, happend, hfront⟩ := ih
    obtain ⟨behind, -, hbehind⟩ := hs.reachable.knows.1
    obtain ⟨passed, -, hoffset, hregions⟩ := shows_next? hnext
    rw [← hbehind] at hregions
    have hdescribes := hregions.describes behind []
    refine ⟨shown ++ regions, ?_, fun r hr => ?_⟩
    · rw [happend, ahead_of_some hnext, List.append_assoc]
    · rcases List.mem_append.1 hr with hr | hr
      · have := hfront r hr
        omega
      · have hlength := hdescribes.nonempty r hr
        have hstop := (hdescribes.inside r hr).2
        unfold Region.stop at hstop
        omega

/-- The regions of a template from a reader on are those ahead of it. -/
theorem filter_classify (hs : Passes h t history s) :
    (classify h t).filter (s.place.offset ≤ ·.start) = s.ahead := by
  obtain ⟨shown, happend, hfront⟩ := hs.exists_shown
  have hshown : shown.filter (s.place.offset ≤ ·.start) = [] := by
    simpa using hfront
  have hbehind : ∀ r ∈ s.ahead, s.place.offset ≤ r.start := s.shown_steps.offset_le
  have hahead : s.ahead.filter (s.place.offset ≤ ·.start) = s.ahead := by
    simpa using hbehind
  rw [happend, List.filter_append, hshown, hahead, List.nil_append]

/-- A reader that carries no names may as well be a new one: from its place on, the template shows
what the text from there on shows by itself, moved. The states are those of a reader that passes
over whole characters, so their places are between two characters; of the offsets at which a reader
of octets is inside a character (`Checked.Template.Scan.Stands`) nothing is said. -/
theorem resumes (hs : Passes h t history s) (hnames : s.names = []) :
    Text.IsBoundary t s.place.offset ∧
      (classify h t).filter (s.place.offset ≤ ·.start) =
        (classify h (Text.dropBytes s.place.offset t)).map (·.rebase s.place.offset) := by
  have hknows := hs.reachable.knows
  constructor
  · obtain ⟨behind, happend, hbehind⟩ := hknows.1
    exact ⟨behind, s.place.rest, happend.symm, hbehind⟩
  · rw [hs.filter_classify, ahead_eq_rebase hknows hnames, hs.heuristics, hknows.1.dropBytes_eq]

/-- Behind an opening brace that never closes, and a hole in which the search for its partner has
been, the next hole is read as if the text began with it. -/
theorem resumes_unclosed :
    (∃ history s, Passes .standard "\x7ba{b}{c}".toList history s ∧ s.names = [] ∧
      s.place.offset = 5 ∧ s.outcomes[5]? = some (some 7)) ∧
    (classify .standard "\x7ba{b}{c}".toList).filter (5 ≤ ·.start) =
      (classify .standard "{c}".toList).map (·.rebase 5) := by
  let template := "\x7ba{b}{c}".toList
  let unclosed := Scan.start .standard template
  let literal := (unclosed.readSegment Segment.end? "a{b}{c}".toList).2
  let first := literal.pass 1
  let second := (first.readSegment Segment.end? "b\x7d{c}".toList).2
  have hliteral : Passes .standard template [unclosed] literal := .next .start rfl
  have hfirst : Passes .standard template [unclosed, literal] first := .next hliteral rfl
  have hsecond : Passes .standard template [unclosed, literal, first] second := .next hfirst rfl
  exact ⟨⟨_, _, hsecond, rfl, rfl, rfl⟩, (hsecond.resumes rfl).2⟩

end Passes

end Scan

end ExpressionTemplate

end LogSyntax
