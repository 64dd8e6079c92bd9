import LogSyntax.Proofs.ExpressionTemplate.Pairing
import LogSyntax.Proofs.Token.Unknown
/-!
# Markers of directives

The marker of a directive is read in two places: the tokenizer takes it as one token, and a reader
of templates finds it at the head of a segment. To the tokenizer its word goes on to white space or
a brace, to the reader only as far as identifiers do. Where both end at the same place, the two know
the same directives (`directive_iff_token`), and they show the same text unless an `if` behind
`#else` is written in upper case.
-/

namespace LogSyntax.ExpressionTemplate

variable {h h' : Heuristics} {names : LoopNames} {word rest s t trail u : Text} {n : Nat}

namespace Directive

/-! ## What a reader of templates takes -/

theorem elseIfLength?_run {gap v : Text} (hgap : gap.all isBlank) (hv : Text.Stops isBlank v) :
    elseIfLength? (gap ++ v) =
      if gap ≠ [] ∧ v.take 2 = "if".toList ∧ (v.drop 2).head?.any isIdentChar = false then
        some (gap.length + 2)
      else none := by
  have hrun : Text.run isBlank (gap ++ v) = gap.length := Text.run_append hgap hv
  simp only [elseIfLength?, hrun, List.drop_left]
  split
  · simp
  · next hother =>
    rw [if_neg]
    rintro ⟨-, htake, -⟩
    rcases v with - | ⟨a, - | ⟨b, v⟩⟩
    · simp at htake
    · simp at htake
    · obtain ⟨rfl, rfl⟩ : a = 'i' ∧ b = 'f' := by simpa using htake
      exact hother v rfl

theorem elseIfLength?_le (h : elseIfLength? t = some n) : n ≤ t.length := by
  obtain ⟨gap, v, rfl, -, hgap, hv⟩ := Text.exists_run isBlank t
  rw [elseIfLength?_run hgap hv] at h
  split at h
  · next hif =>
    have hlength := congrArg List.length hif.2.1
    rw [List.length_take] at hlength
    simp at h hlength ⊢
    omega
  · contradiction

/-- What stands behind the trimmed body of a segment goes on with no word. -/
theorem any_head?_behind {c : Char} (htrail : trail.all isBlank) (hc : c = '}' ∨ c = ']') :
    (trail ++ c :: u).head?.any isIdentChar = false := by
  have hclose : isIdentChar '}' = false ∧ isIdentChar ']' = false := by decide +kernel
  cases trail with
  | nil =>
    rcases hc with rfl | rfl
    · exact hclose.1
    · exact hclose.2
  | cons b trail => exact isIdentChar_of_isBlank (List.all_eq_true.1 htrail b List.mem_cons_self)

theorem elseIfLength?_append {c : Char} (hs : ∀ d ∈ s.getLast?, isBlank d = false)
    (htrail : trail.all isBlank) (hc : c = '}' ∨ c = ']') :
    elseIfLength? (s ++ (trail ++ c :: u)) = elseIfLength? s := by
  have hbehind : (trail ++ c :: u).head?.any isIdentChar = false := any_head?_behind htrail hc
  obtain ⟨gap, v, rfl, -, hgap, hv⟩ := Text.exists_run isBlank s
  rcases v with - | ⟨a, - | ⟨b, v⟩⟩
  · -- a trimmed text that is blank is empty
    obtain rfl : gap = [] := by
      by_contra hne
      have hlast := hs _ (by rw [List.append_nil, List.getLast?_eq_some_getLast hne]; rfl)
      simp [List.all_eq_true.1 hgap _ (List.getLast_mem hne)] at hlast
    have hstops : Text.Stops isBlank (c :: u) := by
      rintro d ⟨⟩
      rcases hc with rfl | rfl
      · decide
      · decide
    rw [List.nil_append, List.nil_append, elseIfLength?_run htrail hstops, if_neg]
    · rfl
    · rintro ⟨-, htake, -⟩
      rcases hc with rfl | rfl
      · simp at htake
      · simp at htake
  · have hlonger : Text.Stops isBlank ([a] ++ (trail ++ c :: u)) := hv
    rw [List.append_assoc, elseIfLength?_run hgap hv, elseIfLength?_run hgap hlonger, if_neg, if_neg]
    · simp
    · rintro ⟨-, htake, -⟩
      have hf : isIdentChar 'f' = true := by decide +kernel
      cases hrest : trail ++ c :: u with
      | nil => simp [hrest] at htake
      | cons d rest =>
        obtain ⟨rfl, rfl⟩ : a = 'i' ∧ d = 'f' := by simpa [hrest] using htake
        rw [hrest, List.head?_cons, Option.any_some, hf] at hbehind
        contradiction
  · have hhead : (v ++ (trail ++ c :: u)).head?.any isIdentChar = v.head?.any isIdentChar := by
      cases v with
      | nil => exact hbehind
      | cons d v => rfl
    have hlonger : Text.Stops isBlank (a :: b :: v ++ (trail ++ c :: u)) := hv
    rw [List.append_assoc, elseIfLength?_run hgap hv, elseIfLength?_run hgap hlonger]
    simp only [List.cons_append, List.drop_succ_cons, List.drop_zero, List.take_succ_cons,
      List.take_zero, hhead]

/-- How many characters a directive takes behind its word: an `else` may go on with an `if`. -/
def more (word rest : Text) : Nat :=
  if word = "else".toList then (elseIfLength? rest).getD 0 else 0

/-- What a segment shows of the directive whose `#` the text `t` follows. -/
def mark? (t : Text) : Option Text :=
  (read? t).map fun found => '#' :: t.take found.2

theorem length_read? (hword : word.all isIdentChar) (hrest : Text.Stops isIdentChar rest) :
    (read? (word ++ rest)).map (·.2) =
      if Phrase.IsMarkerWord word then some (word.length + more word rest) else none := by
  simp only [read?, Text.takeWhile_run hword hrest]
  split
  · next hif =>
    subst hif
    rfl
  split
  · next helse =>
    subst helse
    have hdrop : ("else".toList ++ rest).drop 4 = rest := rfl
    have hmarker : Phrase.IsMarkerWord "else".toList := by decide
    rw [hdrop, if_pos hmarker, more, if_pos rfl]
    cases elseIfLength? rest with
    | none => rfl
    | some n => rfl
  split
  · next hend =>
    subst hend
    rfl
  split
  · next heach =>
    subst heach
    rfl
  split
  · next hdelimit =>
    subst hdelimit
    rfl
  · have hmarker : ¬ Phrase.IsMarkerWord word := by
      rintro ⟨phrase, hphrase, rfl⟩
      simp only [markerPhrases, List.mem_cons, List.not_mem_nil, or_false] at hphrase
      rcases hphrase with rfl | rfl | rfl | rfl | rfl | rfl
      all_goals contradiction
    rw [if_neg hmarker]
    rfl

theorem mark?_run (hword : word.all isIdentChar) (hrest : Text.Stops isIdentChar rest) :
    mark? (word ++ rest) =
      if Phrase.IsMarkerWord word then some ('#' :: (word ++ rest.take (more word rest)))
      else none := by
  have hlength := length_read? hword hrest
  have hmark : mark? (word ++ rest) =
      ((read? (word ++ rest)).map (·.2)).map fun n => '#' :: (word ++ rest).take n := by
    rw [mark?, Option.map_map]
    rfl
  rw [hmark, hlength]
  split
  · rw [Option.map_some, List.take_length_add_append]
  · rfl

theorem more_le (word rest : Text) : more word rest ≤ rest.length := by
  unfold more
  split
  · cases hif : elseIfLength? rest with
    | none => exact Nat.zero_le _
    | some n => exact elseIfLength?_le hif
  · exact Nat.zero_le _

/-- A segment shows the same directive that stands in the text. -/
theorem mark?_append {c : Char} (hs : ∀ d ∈ s.getLast?, isBlank d = false)
    (htrail : trail.all isBlank) (hc : c = '}' ∨ c = ']') :
    mark? (s ++ (trail ++ c :: u)) = mark? s := by
  obtain ⟨word, rest, rfl, -, hword, hrest⟩ := Text.exists_run isIdentChar s
  have hbehind : Text.Stops isIdentChar (trail ++ c :: u) := by
    intro d hd
    simpa [Option.mem_def.1 hd] using any_head?_behind (u := u) htrail hc
  have hlast : ∀ d ∈ rest.getLast?, isBlank d = false := by
    intro d hd
    exact hs d (by rw [List.getLast?_append, Option.mem_def.1 hd]; rfl)
  have hmore : more word (rest ++ (trail ++ c :: u)) = more word rest := by
    rw [more, elseIfLength?_append hlast htrail hc, more]
  have hstops : Text.Stops isIdentChar (rest ++ (trail ++ c :: u)) := by
    cases rest with
    | nil => exact hbehind
    | cons d rest => exact hrest
  rw [List.append_assoc, mark?_run hword hstops, mark?_run hword hrest, hmore,
    List.take_append_of_le_length (more_le word rest)]

/-- A directive without closing brace shows its keyword. -/
theorem mark?_of_readBare? {directive : Directive} {keyword : Text}
    (hbare : readBare? ('#' :: t) = some (directive, keyword)) : mark? t = some keyword := by
  obtain ⟨rest, heq, hopen, hkeyword⟩ := readBare?_isSome_iff.1 ⟨directive, hbare⟩
  have hrest : Text.Stops isIdentChar rest := by
    rcases hopen with rfl | ⟨spaces, rest, rfl, hne, hspaces, -⟩
    · exact Text.stops_nil _
    · obtain ⟨c, spaces, rfl⟩ := List.exists_cons_of_ne_nil hne
      rintro d ⟨⟩
      rw [hspaces c List.mem_cons_self]
      decide +kernel
  rcases hkeyword with rfl | ⟨rfl, hif⟩
  · obtain rfl : t = "end".toList ++ rest := (List.cons.inj heq).2
    rw [mark?_run (by decide +kernel) hrest]
    rfl
  · obtain rfl : t = "else".toList ++ rest := (List.cons.inj heq).2
    have hnone : elseIfLength? rest = none := by
      rw [← elseIfLength?_isSome_iff] at hif
      simpa using hif
    have hmarker : Phrase.IsMarkerWord "else".toList := by decide
    rw [mark?_run (by decide +kernel) hrest, if_pos hmarker, more, if_pos rfl, hnone]
    rfl

/-- The trimmed body of a segment that begins with a directive shows the directive that stands in
the text. -/
theorem exists_body {c : Char} {content : Text} (ht : '#' :: t = content ++ c :: u)
    (hc : c = '}' ∨ c = ']') :
    ∃ s, Text.trim content = '#' :: s ∧ content.takeWhile isBlank = [] ∧ mark? s = mark? t := by
  have hhash : isBlank '#' = false := by decide
  cases content with
  | nil =>
    obtain rfl : '#' = c := (List.cons.inj ht).1
    simp at hc
  | cons d content =>
    obtain ⟨rfl, rfl⟩ : '#' = d ∧ t = content ++ c :: u := List.cons.inj ht
    have htrim : Text.trim ('#' :: content) = Text.trimEnd ('#' :: content) := by
      rw [Text.trim, Text.trimStart, List.dropWhile_cons_of_neg (by simp [hhash])]
    have hlast := Text.getLast?_trimEnd ('#' :: content)
    obtain ⟨trail, htrail, hcontent⟩ := Text.exists_trimEnd ('#' :: content)
    cases hbody : Text.trimEnd ('#' :: content) with
    | nil =>
      rw [hbody, List.nil_append] at hcontent
      rw [← hcontent, List.all_cons, hhash] at htrail
      contradiction
    | cons d s =>
      rw [hbody] at hcontent hlast
      obtain ⟨rfl, rfl⟩ : '#' = d ∧ content = s ++ trail := List.cons.inj hcontent
      refine ⟨s, htrim.trans hbody, by simp [hhash], ?_⟩
      rw [List.append_assoc, mark?_append _ htrail hc]
      intro d hd
      exact hlast d (by rw [List.getLast?_cons, Option.mem_def.1 hd]; rfl)

theorem classify_of_mark? {offset : Nat} {x : Text} (hmark : mark? t = some x) :
    ∃ more, (classify h names offset t).1 = ⟨.expressionDirective, offset, x⟩ :: more := by
  obtain ⟨⟨directive, n⟩, hread, rfl⟩ := Option.map_eq_some_iff.1 hmark
  unfold classify
  rw [hread]
  cases directive with
  | ifThen => exact ⟨_, rfl⟩
  | elseIf => exact ⟨_, rfl⟩
  | each => exact ⟨_, rfl⟩
  | otherwise => exact ⟨_, rfl⟩
  | endBlock => exact ⟨_, rfl⟩
  | delimit => exact ⟨_, rfl⟩

theorem classify_of_mark?_eq_none {offset : Nat} (hmark : mark? t = none) :
    (classify h names offset t).1 = [] := by
  unfold classify
  rw [Option.map_eq_none_iff.1 hmark]

end Directive

/-- A segment whose body is a directive shows what the directive does, between its braces. -/
theorem segmentRegions_directive {start : Nat} {e : Segment.End} (htrim : Text.trim t = '#' :: s)
    (hblank : t.takeWhile isBlank = []) :
    (segmentRegions h names start t e).1 = ⟨.propertyBrace, start, ['{']⟩ ::
      ((Directive.classify h names (start + 1) s).1 ++
        [⟨.propertyBrace, e.offset, [e.mark]⟩]) := by
  unfold segmentRegions
  rw [htrim, hblank]
  rfl

namespace Scan

theorem le_of_mem_ahead {s : Scan} {r : Region} (hr : r ∈ s.ahead) : s.place.offset ≤ r.start :=
  s.shown_steps.offset_le r hr

/-- What a template shows that begins with the hash of a directive, if it accepts the segment there:
the directive behind its opening brace, or nothing at this place. -/
theorem shown_at_mark (haccepted : ∃ r ∈ classify h ('{' :: '#' :: t),
      r.category = .propertyBrace ∧ r.start = 0) :
    (∀ x, Directive.mark? t = some x →
      ⟨.expressionDirective, 1, x⟩ ∈ classify h ('{' :: '#' :: t)) ∧
    (Directive.mark? t = none → ∀ r ∈ classify h ('{' :: '#' :: t), r.start ≠ 1) := by
  let reader := Scan.start h ('{' :: '#' :: t)
  have hopens : reader.Opens ('#' :: t) := ⟨rfl, by simp⟩
  have hshown : classify h ('{' :: '#' :: t) = (reader.readSegment Segment.end? ('#' :: t)).1 ++
      (reader.readSegment Segment.end? ('#' :: t)).2.ahead := ahead_of_some (hopens.next?_eq _)
  cases hbare : Directive.readBare? ('#' :: t) with
  | some found =>
    obtain ⟨directive, keyword⟩ := found
    have hmark := Directive.mark?_of_readBare? hbare
    simp only [readSegment, hbare] at hshown
    rw [hshown, hmark]
    refine ⟨?_, fun hnone => absurd hnone (Option.some_ne_none _)⟩
    rintro x ⟨⟩
    exact List.mem_append_left _ (List.mem_cons_of_mem _ (List.mem_singleton_self _))
  | none =>
    cases hend : Segment.end? reader.outcomes (reader.place.offset + 1) ('#' :: t) with
    | mk found outcomes =>
      cases found with
      | none =>
        -- reading goes on behind the brace, so nothing shows it
        simp only [readSegment, hbare, hend, List.nil_append] at hshown
        rw [hshown] at haccepted
        obtain ⟨r, hr, -, hstart⟩ := haccepted
        have hle := le_of_mem_ahead hr
        rw [hstart] at hle
        contradiction
      | some e =>
        obtain ⟨hoffset, hdrop⟩ := Segment.end?_eq_some (congrArg Prod.fst hend)
        have hmark := Segment.Search.mark_of_run (congrArg Prod.fst hend)
        have hsplit : '#' :: t = ('#' :: t).take e.length ++
            e.mark :: ('#' :: t).drop (e.length + 1) := by
          rw [← hdrop, List.take_append_drop]
        obtain ⟨s, htrim, hblank, hsame⟩ := Directive.exists_body hsplit hmark
        simp only [readSegment, hbare, hend, segmentRegions_directive htrim hblank] at hshown
        rw [← hsame, hshown]
        refine ⟨fun x hx => ?_, fun hnone r hr => ?_⟩
        · obtain ⟨more, hmore⟩ : ∃ more, (Directive.classify reader.heuristics reader.names
              (reader.place.offset + 1) s).1 = ⟨.expressionDirective, 1, x⟩ :: more :=
            Directive.classify_of_mark? hx
          rw [hmore]
          exact List.mem_append_left _ (List.mem_cons_of_mem _ List.mem_cons_self)
        · rw [Directive.classify_of_mark?_eq_none hnone, List.nil_append] at hr
          have hbehind : 2 ≤ (reader.pass (e.length + 2)).place.offset := by
            show 2 ≤ 0 + Text.bytes ('{' :: '#' :: t.take e.length)
            simp only [Text.bytes_cons]
            have hopen : '{'.utf8Size = 1 := rfl
            have hhash : '#'.utf8Size = 1 := rfl
            omega
          rcases List.mem_append.1 hr with hr | hr
          · have hcontent : 1 ≤ Text.bytes (('#' :: t).take e.length) := by
              apply Text.one_le_bytes
              intro hnil
              rw [hnil] at htrim
              contradiction
            have hstart : reader.place.offset = 0 := rfl
            simp only [List.mem_cons, List.not_mem_nil, or_false] at hr
            rcases hr with rfl | rfl
            · rw [hstart]
              decide
            · dsimp only
              omega
          · have hle := le_of_mem_ahead hr
            dsimp only at hle
            omega

/-- If a template accepts the segment at its start, it shows there the directive that it begins
with, and nothing else. -/
theorem mark?_iff (haccepted : ∃ r ∈ classify h ('{' :: '#' :: t),
      r.category = .propertyBrace ∧ r.start = 0) {x : Text} :
    (∃ r ∈ classify h ('{' :: '#' :: t), r.category = .expressionDirective ∧ r.start = 1 ∧
      r.text = x) ↔ Directive.mark? t = some x := by
  obtain ⟨hsome, hnone⟩ := shown_at_mark haccepted
  constructor
  · rintro ⟨r, hr, -, hstart, rfl⟩
    cases hmark : Directive.mark? t with
    | none => exact absurd hstart (hnone hmark r hr)
    | some y =>
      have heq := (shown_classify h _).eq_of_start_eq hr (hsome y hmark) hstart
      rw [heq]
  · intro hmark
    exact ⟨_, hsome x hmark, rfl, rfl, rfl⟩

end Scan

/-! ## What the tokenizer takes -/

/-- An `if` that stands behind an `else` and white space is written in lower case. -/
def Directive.IfInLowerCase (t : Text) : Prop :=
  ∀ gap word rest, t = "else".toList ++ (gap ++ (word ++ rest)) → gap ≠ [] → gap.all isBlank →
    word.all isIdentChar → Text.Stops isIdentChar rest →
    Text.eqIgnoringCase word "if".toList → word = "if".toList

/-- In lower case both readers find the same `if`. -/
theorem following?_if (hlower : Directive.IfInLowerCase ("else".toList ++ rest)) :
    Phrase.following? ["if"] rest = Directive.elseIfLength? rest := by
  obtain ⟨gap, v, rfl, -, hgap, hv⟩ := Text.exists_run isBlank rest
  obtain ⟨w, u, rfl, -, hw, hu⟩ := Text.exists_run isIdentChar v
  have hif : "if".toList.all isIdentChar := by decide +kernel
  by_cases hword : gap ≠ [] ∧ w = "if".toList
  · obtain ⟨hne, rfl⟩ := hword
    have hbehind : u.head?.any isIdentChar = false := by
      cases u with
      | nil => rfl
      | cons c u => exact hu c rfl
    rw [Phrase.following?_cons "if" [] hne hgap (by decide) hif hu, if_pos (by decide),
      Directive.elseIfLength?_run hgap hv, if_pos ⟨hne, rfl, hbehind⟩]
    rfl
  · have hnone : Directive.elseIfLength? (gap ++ (w ++ u)) = none := by
      rw [Directive.elseIfLength?_run hgap hv, if_neg]
      rintro ⟨hne, htake, hdrop⟩
      -- two characters of an identifier that ends behind them are the identifier
      have hstops : Text.Stops isIdentChar ((w ++ u).drop 2) := by
        intro c hc
        simpa [Option.mem_def.1 hc] using hdrop
      have hsplit : w ++ u = "if".toList ++ (w ++ u).drop 2 := by
        rw [← htake, List.take_append_drop]
      exact hword ⟨hne, (Text.run_inj hw hif hu hstops hsplit).1⟩
    rw [hnone]
    cases hfollowing : Phrase.following? ["if"] (gap ++ (w ++ u)) with
    | none => rfl
    | some n =>
      obtain ⟨gap', w', u', m, heq, hne, hgap', hw', hident, hu', hsame, -, -⟩ :=
        Phrase.exists_of_following? (by decide) hfollowing
      have hstops : Text.Stops isBlank (w' ++ u') := by
        intro c hc
        rw [List.head?_append_of_ne_nil _ hw'] at hc
        exact isBlank_of_isIdentChar (List.all_eq_true.1 hident c (List.mem_of_mem_head? hc))
      obtain ⟨rfl, hrest⟩ := Text.run_inj hgap hgap' hv hstops heq
      obtain ⟨rfl, rfl⟩ := Text.run_inj hw hident hu hu' hrest
      exact absurd ⟨hne, hlower gap w u rfl hne hgap hw hu hsame⟩ hword

/-- What the table of markers adds to a word is what a segment shows behind it. -/
theorem taken_marker (hmarker : Phrase.IsMarkerWord word)
    (hlower : Directive.IfInLowerCase (word ++ rest)) :
    Phrase.taken (Phrase.find? markerPhrases (· == word) rest) = Directive.more word rest := by
  by_cases helse : word = "else".toList
  · subst helse
    have hfind : Phrase.find? markerPhrases (· == "else".toList) rest =
        ((Phrase.following? ["if"] rest).map (Token.Kind.directiveElseIf, ·)).or
          (some (.directiveElse, 0)) := by
      simp only [Phrase.find?, markerPhrases, List.findSome?_cons]
      have hlast : Phrase.following? [] rest = some 0 := rfl
      cases Phrase.following? ["if"] rest with
      | none => simp [hlast]
      | some n => simp
    rw [hfind, Directive.more, if_pos rfl, following?_if hlower]
    cases Directive.elseIfLength? rest with
    | none => rfl
    | some n => rfl
  · obtain ⟨phrase, hphrase, rfl⟩ := hmarker
    rw [Directive.more, if_neg helse]
    simp only [markerPhrases, List.mem_cons, List.not_mem_nil, or_false] at hphrase
    rcases hphrase with rfl | rfl | rfl | rfl | rfl | rfl
    · rfl
    · exact absurd rfl helse
    · exact absurd rfl helse
    · rfl
    · rfl
    · rfl

/-- The tokenizer knows a directive by its word, behind which no other character may go on. -/
theorem isDirective_iff (hword : word.all isIdentChar) (hrest : Text.Stops isIdentChar rest) :
    (Lexeme.ofBrace ('#' :: (word ++ rest))).kind.isDirective ↔
      Phrase.IsMarkerWord word ∧ Text.Stops Lexeme.isMarkerChar rest := by
  obtain ⟨marker, u, hsplit, -, hmarker, hu⟩ := Text.exists_run Lexeme.isMarkerChar (word ++ rest)
  rw [hsplit, Lexeme.isDirective_ofBrace hmarker hu]
  constructor
  · intro hknown
    have hheads : ∀ phrase ∈ markerPhrases, phrase.head.toList.all isIdentChar := by
      decide +kernel
    have hident : marker.all isIdentChar := by
      obtain ⟨phrase, hphrase, rfl⟩ := hknown
      exact hheads phrase hphrase
    have hstops : Text.Stops isIdentChar u := hu.mono fun _ => isMarkerChar_of_isIdentChar
    obtain ⟨rfl, rfl⟩ := Text.run_inj hword hident hrest hstops hsplit
    exact ⟨hknown, hu⟩
  · rintro ⟨hknown, hstops⟩
    have hchars : word.all Lexeme.isMarkerChar := by
      rw [List.all_eq_true] at hword ⊢
      exact fun c hc => isMarkerChar_of_isIdentChar (hword c hc)
    obtain ⟨rfl, -⟩ := Text.run_inj hchars hmarker hstops hu hsplit
    exact hknown

/-! ## Both readers -/

/-- A template begins with `{#`, and the segment there is accepted. Its first token is a directive
exactly if the template shows one behind its opening brace and the word behind the hash is ended by
white space, a brace or the end of the text. Then the token is written as a brace and what the
template shows, if an `if` behind `#else` is in lower case. -/
theorem directive_iff_token (h h' : Heuristics) {t : Text}
    (haccepted : ∃ r ∈ classify h ('{' :: '#' :: t), r.category = .propertyBrace ∧ r.start = 0) :
    ((∃ token ∈ (tokenize h' ('{' :: '#' :: t)).head?, token.kind.isDirective) ↔
      (∃ r ∈ classify h ('{' :: '#' :: t), r.category = .expressionDirective ∧ r.start = 1) ∧
        Text.Stops Lexeme.isMarkerChar (t.dropWhile isIdentChar)) ∧
    (Directive.IfInLowerCase t → ∀ token ∈ (tokenize h' ('{' :: '#' :: t)).head?,
      token.kind.isDirective → ∀ r ∈ classify h ('{' :: '#' :: t),
        r.category = .expressionDirective → r.start = 1 → token.text = '{' :: r.text) := by
  obtain ⟨word, rest, rfl, -, hword, hrest⟩ := Text.exists_run isIdentChar t
  have hhead : (tokenize h' ('{' :: '#' :: (word ++ rest))).head? = _ :=
    Tokenizer.head?_tokenize (by decide)
  have hmark := Directive.mark?_run hword hrest
  rw [hhead, Token.read_brace, Text.dropWhile_run hword hrest]
  constructor
  · constructor
    · rintro ⟨token, ⟨⟩, hknown⟩
      obtain ⟨hmarker, hstops⟩ := (isDirective_iff hword hrest).1 hknown
      rw [if_pos hmarker] at hmark
      obtain ⟨r, hr, hcategory, hstart, -⟩ := (Scan.mark?_iff haccepted).2 hmark
      exact ⟨⟨r, hr, hcategory, hstart⟩, hstops⟩
    · rintro ⟨⟨r, hr, hcategory, hstart⟩, hstops⟩
      have hshown := (Scan.mark?_iff haccepted).1 ⟨r, hr, hcategory, hstart, rfl⟩
      have hmarker : Phrase.IsMarkerWord word := by
        by_contra hother
        rw [hmark, if_neg hother] at hshown
        contradiction
      exact ⟨_, rfl, (isDirective_iff hword hrest).2 ⟨hmarker, hstops⟩⟩
  · rintro hlower token ⟨⟩ hknown r hr hcategory hstart
    obtain ⟨hmarker, hstops⟩ := (isDirective_iff hword hrest).1 hknown
    have hchars : word.all Lexeme.isMarkerChar := by
      rw [List.all_eq_true] at hword ⊢
      exact fun c hc => isMarkerChar_of_isIdentChar (hword c hc)
    have hshown := (Scan.mark?_iff haccepted).1 ⟨r, hr, hcategory, hstart, rfl⟩
    rw [hmark, if_pos hmarker] at hshown
    have hextra : (Lexeme.ofBrace ('#' :: (word ++ rest))).extra =
        ('#' :: word).length + Directive.more word rest := by
      rw [Lexeme.extra_ofBrace hchars hstops, taken_marker hmarker hlower, List.length_cons,
        Nat.add_comm word.length]
    rw [← Option.some.inj hshown]
    show '{' :: List.take _ ('#' :: word ++ rest) = _
    rw [hextra, List.take_length_add_append]
    rfl

/-- The `if` belongs to the marker, and both readers take it. -/
theorem directive_iff_token_elseIf :
    (∃ r ∈ classify .standard "\x7b#else if x\x7d".toList,
      r.category = .propertyBrace ∧ r.start = 0) ∧
    Directive.IfInLowerCase "else if x\x7d".toList ∧
    (∃ token ∈ (tokenize .standard "\x7b#else if x\x7d".toList).head?, token.kind.isDirective) ∧
    (⟨.expressionDirective, 1, "#else if".toList⟩ : Region) ∈
      classify .standard "\x7b#else if x\x7d".toList ∧
    ∀ token ∈ (tokenize .standard "\x7b#else if x\x7d".toList).head?,
      token.text = "\x7b#else if".toList := by
  have haccepted : ∃ r ∈ classify .standard ('{' :: '#' :: "else if x\x7d".toList),
      r.category = .propertyBrace ∧ r.start = 0 := by
    decide +kernel
  have hshown : (⟨.expressionDirective, 1, "#else if".toList⟩ : Region) ∈
      classify .standard ('{' :: '#' :: "else if x\x7d".toList) := by
    decide +kernel
  have hlower : Directive.IfInLowerCase "else if x\x7d".toList := by
    intro gap word rest heq _ hgap hword hrest hsame
    have hne : word ≠ [] := by
      rintro rfl
      contradiction
    have hstops : Text.Stops isBlank (word ++ rest) := by
      intro c hc
      rw [List.head?_append_of_ne_nil _ hne] at hc
      exact isBlank_of_isIdentChar (List.all_eq_true.1 hword c (List.mem_of_mem_head? hc))
    have hbehind : " ".toList ++ "if x\x7d".toList = gap ++ (word ++ rest) := by
      rw [← List.append_right_inj "else".toList]
      exact heq
    have hword' : Text.Stops isBlank "if x\x7d".toList := by
      rintro d ⟨⟩
      decide
    have hsplit : "if".toList ++ " x\x7d".toList = word ++ rest :=
      (Text.run_inj (by decide) hgap hword' hstops hbehind).2
    have hrest' : Text.Stops isIdentChar " x\x7d".toList := by
      rintro d ⟨⟩
      decide +kernel
    exact (Text.run_inj (by decide +kernel) hword hrest' hrest hsplit).1.symm
  have hended : Text.Stops Lexeme.isMarkerChar
      ("else if x\x7d".toList.dropWhile isIdentChar) := by
    have hrest : "else if x\x7d".toList.dropWhile isIdentChar = " if x\x7d".toList := by
      decide +kernel
    rw [hrest]
    rintro d ⟨⟩
    decide
  obtain ⟨hiff, htext⟩ := directive_iff_token .standard .standard haccepted
  have htoken := hiff.2 ⟨⟨_, hshown, rfl, rfl⟩, hended⟩
  refine ⟨haccepted, hlower, htoken, hshown, ?_⟩
  intro token htoken'
  obtain ⟨known, hknown, hkind⟩ := htoken
  obtain rfl := Option.mem_unique hknown htoken'
  exact htext hlower known hknown hkind _ hshown rfl rfl

/-- A parenthesis ends an identifier but not the word that the tokenizer takes, and to the tokenizer
alone an `if` in upper case belongs to the `else` before it. -/
theorem directive_without_token :
    ((∃ r ∈ classify .standard "\x7b#if(x)\x7d".toList,
        r.category = .propertyBrace ∧ r.start = 0) ∧
      ¬ ((∃ r ∈ classify .standard "\x7b#if(x)\x7d".toList,
          r.category = .expressionDirective ∧ r.start = 1) ↔
        ∃ token ∈ (tokenize .standard "\x7b#if(x)\x7d".toList).head?, token.kind.isDirective)) ∧
    ((∃ r ∈ classify .standard "\x7b#else IF x\x7d".toList,
        r.category = .propertyBrace ∧ r.start = 0) ∧
      ¬ ∀ token ∈ (tokenize .standard "\x7b#else IF x\x7d".toList).head?,
        ∀ r ∈ classify .standard "\x7b#else IF x\x7d".toList,
          r.category = .expressionDirective → r.start = 1 → token.text = '{' :: r.text) := by
  decide +kernel

end LogSyntax.ExpressionTemplate
