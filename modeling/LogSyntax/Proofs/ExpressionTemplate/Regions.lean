import LogSyntax.Proofs.ExpressionTemplate.Step
import LogSyntax.Proofs.Region
import LogSyntax.Proofs.Text.Trim
/-!
# The regions of an expression template

Every reader of an expression template shows its regions where it stands: directives, indexers and
holes inside their trimmed bodies, segments between their braces, and the template segment by
segment.
-/

namespace LogSyntax

namespace ExpressionTemplate

variable {offset : Nat} {t : Text} {tokens : List Token}

/-! ## Directives -/

namespace Directive

theorem loopRegions_separator {token : Token} (h : isSeparator token) (tokens : List Token) :
    loopRegions (token :: tokens) = ⟨.expressionKeyword, token.start, token.source⟩ ::
      tokens.filterMap Region.ofToken? := by
  simp [loopRegions, h]

theorem loopRegions_name {token : Token} (h : isSeparator token = false) (tokens : List Token) :
    loopRegions (token :: tokens) = [token].filterMap Region.ofToken? ++ loopRegions tokens := by
  simp only [loopRegions, List.takeWhile_cons, h, Bool.not_false, if_true, List.length_cons,
    List.drop_succ_cons, ← List.append_assoc, ← List.filterMap_append, List.singleton_append]

theorem shown_loopRegions (h : Laid Token.source Token.start (·.all isBlank) offset tokens t) :
    Shown offset (loopRegions tokens) t := by
  induction h with
  | nil _ => exact .nothing _ _
  | @cons offset gap token tokens rest hgap hsource hstart hitems ih =>
    rw [hstart] at hitems ih
    apply Shown.skip gap
    cases hseparator : isSeparator token with
    | true =>
      rw [loopRegions_separator hseparator, ← hstart]
      rw [← hstart] at hitems
      exact .first (r := ⟨.expressionKeyword, token.start, token.source⟩) hsource rfl
        hitems.shown_filterMap
    | false =>
      rw [loopRegions_name hseparator]
      refine .append ?_ ih
      have htoken : Laid Token.source Token.start (·.all isBlank) (offset + Text.bytes gap) [token]
          ([] ++ (token.source ++ [])) := .cons rfl hsource hstart (.nil rfl)
      rw [List.append_nil] at htoken
      exact htoken.shown_filterMap

theorem shown_classify (h : Heuristics) (names : LoopNames) (offset : Nat) (t : Text) :
    Shown offset (classify h names offset t).1 ('#' :: t) := by
  unfold classify
  split
  · exact .nothing _ _
  · next directive n _ =>
    -- the mark of the directive and what stands behind it
    have hsplit : '#' :: t = ('#' :: t.take n) ++ t.drop n := by
      rw [List.cons_append, List.take_append_drop]
    have hmark {regions : List Region}
        (hrest : Shown (offset + Text.bytes ('#' :: t.take n)) regions (t.drop n)) :
        Shown offset (⟨.expressionDirective, offset, '#' :: t.take n⟩ :: regions) ('#' :: t) := by
      rw [hsplit]
      exact Shown.first (r := ⟨_, _, '#' :: t.take n⟩) (List.cons_ne_nil _ _) rfl hrest
    cases directive with
    | ifThen => exact hmark (Expression.shown_regions h _ _)
    | elseIf => exact hmark (Expression.shown_regions h _ _)
    | each => exact hmark (shown_loopRegions (Expression.laid_tokens h _ _))
    | otherwise => exact hmark (.nothing _ _)
    | endBlock => exact hmark (.nothing _ _)
    | delimit => exact hmark (.nothing _ _)

theorem prefix_of_readBare? {directive : Directive} {keyword : Text}
    (h : readBare? t = some (directive, keyword)) : keyword ≠ [] ∧ keyword <+: t := by
  simp only [readBare?] at h
  split at h
  · next hend =>
    obtain ⟨-, rfl, rfl⟩ := by simpa using h
    exact ⟨by decide, List.isPrefixOf_iff_prefix.1 hend⟩
  · split at h
    · next helse =>
      obtain ⟨-, rfl, rfl⟩ := by simpa using h
      exact ⟨by decide, List.isPrefixOf_iff_prefix.1 helse.1⟩
    · contradiction

end Directive

/-! ## Indexers -/

namespace Indexer

/-- An indexer as it is written. -/
def text (x : Indexer) : Text :=
  ('@' :: x.code.toList) ++ (['['] ++ ((x.quote :: (x.key ++ [x.quote])) ++ ([']'] ++ x.tail)))

theorem text_of_readKey? {quote : Char} {key tail : Text}
    (h : readKey? t = some (quote, key, tail)) :
    t = ['['] ++ ((quote :: (key ++ [quote])) ++ ([']'] ++ tail)) := by
  unfold readKey? at h
  split at h
  · next quote' cs =>
    split at h
    · dsimp only at h
      split at h
      · next c tail' hdrop =>
        cases h
        have hsplit := List.takeWhile_append_dropWhile (p := (· != quote)) (l := cs)
        have hrest : cs.dropWhile (· != quote) = c :: ']' :: tail := by
          have hleft : (cs.takeWhile (· != quote) ++ cs.dropWhile (· != quote)).drop
              (cs.takeWhile (· != quote)).length = cs.dropWhile (· != quote) := List.drop_left
          rw [hsplit, hdrop] at hleft
          exact hleft.symm
        -- what ends the key is the quote that began it
        obtain rfl : c = quote := by
          have hhead := List.head?_dropWhile_not (· != quote) cs
          rw [hrest] at hhead
          simpa using hhead
        rw [hrest] at hsplit
        simp only [List.cons_append, List.nil_append, List.append_assoc, hsplit]
      · contradiction
    · contradiction
  · contradiction

theorem text_of_read? {x : Indexer} (h : read? t = some x) : x.text = t := by
  unfold read? at h
  split at h
  · next cs =>
    obtain ⟨code, hcode, h⟩ := Option.bind_eq_some_iff.1 h
    obtain ⟨⟨quote, key, tail⟩, hkey, h⟩ := Option.bind_eq_some_iff.1 h
    cases h
    have hfind : builtinCodes.find? (standsAtHead · cs) = some code := hcode
    have hhead := List.find?_some hfind
    obtain ⟨rest, rfl⟩ : code.toList <+: cs := by
      dsimp only [standsAtHead] at hhead
      rw [Bool.and_eq_true, List.isPrefixOf_iff_prefix] at hhead
      exact hhead.1
    have hdrop : (code.toList ++ rest).drop code.length = rest := by
      rw [← String.length_toList, List.drop_left]
    rw [hdrop] at hkey
    rw [text, ← text_of_readKey? hkey]
    rfl
  · contradiction

theorem shown_regions (h : Heuristics) (offset : Nat) (x : Indexer) :
    Shown offset (x.regions h offset) x.text := by
  unfold regions text
  simp only [List.cons_append, List.nil_append]
  apply Shown.first (r := ⟨_, _, '@' :: x.code.toList⟩) (List.cons_ne_nil _ _) rfl
  apply Shown.first (r := ⟨_, _, ['[']⟩) (List.cons_ne_nil _ _) rfl
  apply Shown.first (r := ⟨_, _, x.quote :: (x.key ++ [x.quote])⟩) (List.cons_ne_nil _ _) rfl
  apply Shown.first (r := ⟨_, _, [']']⟩) (List.cons_ne_nil _ _) rfl
  split
  · next format heq =>
    rw [heq]
    exact .skip [':'] (.visible _ _ _)
  · exact Expression.shown_regions h _ _

end Indexer

/-! ## Holes -/

namespace Hole

theorem shown_expressionRegions (h : Heuristics) (names : LoopNames) (offset : Nat) (t : Text) :
    Shown offset (expressionRegions h names offset t) t := by
  unfold expressionRegions
  dsimp only
  split
  · next token htoken =>
    unfold property? at htoken
    split at htoken
    · next token' htokens =>
      split at htoken
      · next hkind =>
        cases htoken
        have hmem : token ∈ Expression.tokens h offset t := htokens ▸ List.mem_singleton_self token
        have htext : token.text = token.source :=
          ((Tokenizer.faithful_of_mem_tokens _ token hmem).plain (by simp [hkind.1])).1
        have hlaid := Expression.laid_tokens h offset t
        rw [htokens] at hlaid
        rw [htext]
        cases hlaid with
        | @cons _ gap _ _ rest _ hsource hstart _ =>
          rw [hstart]
          exact .skip gap (.first (r := ⟨_, _, token.source⟩) hsource rfl (.nothing _ _))
      · contradiction
    · contradiction
  · exact Expression.shown_regions h offset t

theorem shown_regions (h : Heuristics) (names : LoopNames) (offset : Nat) (t : Text) :
    Shown offset (regions h names offset t) t := by
  unfold regions
  split
  · next n _ =>
    have hhead : Text.trimEnd (t.take n) <+: t.take (n + 1) :=
      (Text.trimEnd_prefix_self _).trans (List.take_prefix_take_left (Nat.le_succ n))
    have hall := ((shown_expressionRegions h names offset _).widen hhead).append
      (.visible .formatSpecifier _ (t.drop (n + 1)))
    rwa [List.take_append_drop] at hall
  · exact (shown_expressionRegions h names offset _).widen (Text.trimEnd_prefix_self t)

end Hole

/-! ## Segments -/

theorem shown_bodyRegions (h : Heuristics) (names : LoopNames) (offset : Nat) (t : Text) :
    Shown offset (bodyRegions h names offset t).1 t := by
  unfold bodyRegions
  split
  · exact Directive.shown_classify h names offset _
  · split
    · next x hx =>
      rw [← Indexer.text_of_read? hx]
      exact x.shown_regions h offset
    · exact Hole.shown_regions h names offset t

/-- A segment shows its regions where it is written, if its end stands behind its text. -/
theorem shown_segmentRegions (h : Heuristics) (names : LoopNames) (start : Nat) (t : Text)
    {e : Segment.End} (he : e.offset = start + 1 + Text.bytes t) :
    Shown start (segmentRegions h names start t e).1 ('{' :: (t ++ [e.mark])) := by
  unfold segmentRegions
  dsimp only
  split
  · exact .nothing _ _
  · obtain ⟨trail, -, htrail⟩ := Text.exists_trim t
    have hbody : Shown (start + 1)
        (bodyRegions h names (start + 1 + Text.bytes (t.takeWhile isBlank)) (Text.trim t)).1 t := by
      conv => rhs; rw [htrail]
      apply Shown.skip
      apply Shown.extend
      exact shown_bodyRegions h names _ _
    have hmark : Shown (start + 1 + Text.bytes t) [⟨.propertyBrace, e.offset, [e.mark]⟩]
        [e.mark] := by
      rw [he]
      exact .first (r := ⟨_, _, [e.mark]⟩) (List.cons_ne_nil _ _) rfl (.nothing _ [])
    exact .first (r := ⟨_, _, ['{']⟩) (List.cons_ne_nil _ _) rfl (hbody.append hmark)

namespace Segment

/-- The search answers the place of the character that it stops at. -/
theorem Search.run_eq_some {formats : Bool} {length offset : Nat} {s : Search} {t : Text} {e : End}
    (h : (s.run formats length offset t).1 = some e) :
    ∃ n, e.length = length + n ∧ e.offset = offset + Text.bytes (t.take n) ∧
      t.drop n = e.mark :: t.drop (n + 1) := by
  induction t generalizing length offset s with
  | nil => contradiction
  | cons c cs ih =>
    rw [run] at h
    split at h
    · obtain ⟨n, hlength, hoffset, hmark⟩ := ih h
      refine ⟨n + 1, by omega, ?_, hmark⟩
      rw [hoffset, List.take_succ_cons, Text.bytes_cons, Nat.add_assoc]
    · cases h
      exact ⟨0, rfl, rfl, rfl⟩
    · contradiction

theorem end?_eq_some {outcomes : Outcomes} {offset : Nat} {t : Text} {e : End}
    (h : (end? outcomes offset t).1 = some e) :
    e.offset = offset + Text.bytes (t.take e.length) ∧
      t.drop e.length = e.mark :: t.drop (e.length + 1) := by
  obtain ⟨n, hlength, hoffset, hmark⟩ := Search.run_eq_some h
  rw [Nat.zero_add] at hlength
  rw [hlength]
  exact ⟨hoffset, hmark⟩

end Segment

/-! ## Templates -/

namespace Scan

/-- A step shows its regions in the text that it passes over. -/
def Shows (s : Scan) (regions : List Region) (s' : Scan) : Prop :=
  ∃ passed, s.place.rest = passed ++ s'.place.rest ∧
    s'.place.offset = s.place.offset + Text.bytes passed ∧ Shown s.place.offset regions passed

theorem shows_pass {s : Scan} {regions : List Region} (n : Nat) (names : LoopNames)
    (outcomes : Outcomes) (h : Shown s.place.offset regions (s.place.rest.take n)) :
    s.Shows regions { s.pass n with names, outcomes } :=
  ⟨s.place.rest.take n, (List.take_append_drop _ _).symm, rfl, h⟩

theorem shows_readSegment {s : Scan} {cs : Text} (hrest : s.place.rest = '{' :: cs) :
    s.Shows (s.readSegment Segment.end? cs).1 (s.readSegment Segment.end? cs).2 := by
  unfold readSegment
  split
  · next directive keyword hbare =>
    obtain ⟨hne, rest, rfl⟩ := Directive.prefix_of_readBare? hbare
    apply shows_pass
    have htake : s.place.rest.take (keyword.length + 1) = ['{'] ++ (keyword ++ []) := by
      simp [hrest]
    rw [htake]
    apply Shown.first (r := ⟨_, _, ['{']⟩) (List.cons_ne_nil _ _) rfl
    exact .first (r := ⟨_, _, keyword⟩) hne rfl (.nothing _ _)
  · split
    · exact shows_pass _ _ _ (.nothing _ _)
    · next e outcomes hend =>
      obtain ⟨hoffset, hmark⟩ := Segment.end?_eq_some (congrArg Prod.fst hend)
      apply shows_pass
      have htake : s.place.rest.take (e.length + 2) = '{' :: (cs.take e.length ++ [e.mark]) := by
        rw [hrest, List.take_succ_cons, List.take_add, hmark]
        rfl
      rw [htake]
      exact shown_segmentRegions _ _ _ _ hoffset

theorem shows_next? {s s' : Scan} {regions : List Region}
    (h : s.next? Segment.end? = some (regions, s')) : s.Shows regions s' := by
  rcases next?_cases h with ⟨cs, hopens, hread⟩ | ⟨-, rfl, n, rfl⟩
  · have hshows := shows_readSegment hopens.1
    rwa [hread] at hshows
  · exact shows_pass n _ _ (.nothing _ _)

/-- A step takes the reader further. -/
theorem offset_lt_of_next? {s s' : Scan} {regions : List Region}
    (h : s.next? Segment.end? = some (regions, s')) : s.place.offset < s'.place.offset := by
  obtain ⟨passed, hrest, hoffset, -⟩ := shows_next? h
  have hpassed : passed ≠ [] := by
    rintro rfl
    have hlt := next?_shrinks Segment.end? h
    simp [hrest] at hlt
  have := Text.one_le_bytes hpassed
  omega

/-- The regions ahead stand in the text one behind the other. -/
theorem shown_steps (s : Scan) :
    Shown s.place.offset (s.steps Segment.end?).flatten s.place.rest := by
  refine drain_induction
    (motive := fun s steps => Shown s.place.offset steps.flatten s.place.rest) s ?_ ?_
  · intro s _
    exact .nothing _ _
  · intro s regions s' steps h ih
    obtain ⟨passed, hrest, hoffset, hshown⟩ := shows_next? h
    rw [hrest, List.flatten_cons]
    rw [hoffset] at ih
    exact hshown.append ih

end Scan

theorem shown_classify (h : Heuristics) (t : Text) : Shown 0 (classify h t) t :=
  (Scan.start h t).shown_steps

end ExpressionTemplate

end LogSyntax
