import LogSyntax.Proofs.Checked.MessageTemplate
import LogSyntax.Proofs.Checked.Scan
/-!
# No bad slice

A reader that knows its offset alone has to cut its text to see anything of it, and in no state that
it comes to does a cut fail (`slices_valid`): it cuts between characters and in order. Only in the
literal text of an expression template is it not between two characters itself
(`reaches_inside_character`), and there it cuts nothing.
-/

namespace LogSyntax

theorem Place.In.isBoundary {p : Place} {t : Text} (hp : p.In t) : Text.IsBoundary t p.offset := by
  obtain ⟨behind, rfl, hbytes⟩ := hp
  exact hbytes ▸ Text.isBoundary_append behind p.rest

namespace Checked

/-- A tokenizer and a reader of message templates stand between two characters of their text in
every state that they come to, and the reader with the same offset that has to cut the text to see
anything of it takes the same next step, so no cut that it makes is bad. A reader of expression
templates goes over literal text octet by octet. In every state that it comes to, its position is in
the text, no cut of its next step is bad, and where it is at a character of ASCII, such as the brace
of a segment, it is between two characters. Its states between two characters are those of the
reader that passes over whole characters, and at a character of ASCII both take the same step. So
every text is read to its end by cuts alone, with the same result. A scan of octets that stops at a
character of ASCII stops between characters too. -/
theorem slices_valid (h : Heuristics) (t : Text) :
    (∀ z, Reaches LogSyntax.Tokenizer.next? (.start h (.start t)) z →
      Text.IsBoundary t z.place.offset ∧
        (Tokenizer.of t z).next? =
          some (z.next?.map fun (token, z') => (.of token, .of t z'))) ∧
    (∀ r, Reaches MessageTemplate.Reader.answer? (.start (.start t)) r →
      Text.IsBoundary t r.place.offset ∧
        (Message.Reader.of t r).answer? =
          some (r.answer?.map fun (property, r') => (property, .of t r'))) ∧
    (∀ s, Reaches Template.Scan.step? (.start h t) s →
      s.pos ≤ Text.bytes t ∧ s.next? ≠ none ∧
        (∀ c, IsAscii c → s.octet? 0 = some c → Text.IsBoundary t s.pos) ∧
        (Text.IsBoundary t s.pos →
          ∃ x, Reaches (ExpressionTemplate.Scan.next? ExpressionTemplate.Segment.end?)
            (.start h t) x ∧ s = .of t x)) ∧
    (∀ x, Reaches (ExpressionTemplate.Scan.next? ExpressionTemplate.Segment.end?) (.start h t) x →
      Text.IsBoundary t x.place.offset ∧ Reaches Template.Scan.step? (.start h t) (.of t x) ∧
        ∀ c, IsAscii c → x.place.rest.head? = some c →
          (Template.Scan.of t x).next? =
            some ((x.next? ExpressionTemplate.Segment.end?).map fun (regions, x') =>
              (regions, .of t x'))) ∧
    tokenize? h t = some ((tokenize h t).map .of) ∧
    Expression.regions? h 0 t = some (LogSyntax.Expression.classify h t) ∧
    Message.parse? t = some (MessageTemplate.parse t) ∧
    Message.classify? t = some (MessageTemplate.classify t) ∧
    Template.classify? h t = some (ExpressionTemplate.classify h t) ∧
    ∀ n c, IsAscii c → (Text.octets t)[n]? = some c → Text.StandsAt [c] t n := by
  refine ⟨?_, ?_, ?_, ?_, tokenize?_eq h t, regions?_eq h 0 t, Message.parse?_eq t,
    Message.classify?_eq t, Template.classify?_eq h t, fun _ _ => Text.standsAt_of_octet⟩
  · intro z hz
    have hplace : z.place.In t :=
      hz.invariant (Place.start_in t) fun _ _ _ hz hnext => Tokenizer.in_of_next? hz hnext
    exact ⟨hplace.isBoundary, Tokenizer.next?_of hplace⟩
  · intro r hr
    have hsound : Message.Sound t r :=
      hr.invariant (.fresh (Place.start_in t) _ (.inl rfl) 0)
        fun _ _ _ hr hanswer => Message.Reader.sound_answer? hr hanswer
    exact ⟨hsound.place.isBoundary, Message.Reader.answer?_of hsound⟩
  · intro s hs
    obtain ⟨x, hreach, hx, hstands⟩ := Template.Scan.exists_stands hs
    refine ⟨hstands.pos_le hx.1, hstands.next?_ne_none hx, fun c hc hoctet => ?_, fun hpos => ?_⟩
    · rw [Template.Scan.octet?, hstands.input_eq] at hoctet
      exact (Text.standsAt_of_octet hc hoctet).isBoundary_start
    · exact ⟨x, hreach, hstands.eq_of hx.1 hpos⟩
  · intro x hx
    have hknows : x.Knows t :=
      hx.invariant (ExpressionTemplate.Scan.knows_start h t) fun _ _ _ hx hnext => hx.next hnext
    refine ⟨hknows.1.isBoundary, Template.Scan.reaches_of hx, fun c hc hhead => ?_⟩
    obtain ⟨cs, hrest⟩ := List.head?_eq_some_iff.1 hhead
    exact Template.Scan.next?_ascii hknows hrest hc

/-- A character of two bytes stands on both sides of both braces and of the colon. A tokenizer reads
the word in front, the readers of templates come to the place behind the hole, the brace is found
among the octets, and the hole is shown by cuts of the text. -/
theorem slices_valid_hole :
    (∃ z, Reaches LogSyntax.Tokenizer.next?
        (.start .standard (.start ['é', '{', 'é', ':', 'é', '}', 'é'])) z ∧ z.place.offset = 2 ∧
      Text.IsBoundary ['é', '{', 'é', ':', 'é', '}', 'é'] z.place.offset) ∧
    (∃ r, Reaches MessageTemplate.Reader.answer?
        (.start (.start ['é', '{', 'é', ':', 'é', '}', 'é'])) r ∧ r.place.offset = 9 ∧
      Text.IsBoundary ['é', '{', 'é', ':', 'é', '}', 'é'] r.place.offset) ∧
    (∃ s, Reaches Template.Scan.step? (.start .standard ['é', '{', 'é', ':', 'é', '}', 'é']) s ∧
      s.pos = 9 ∧ s.next? ≠ none) ∧
    Template.classify? .standard ['é', '{', 'é', ':', 'é', '}', 'é'] =
      some [⟨.propertyBrace, 2, ['{']⟩, ⟨.propertyName, 3, ['é']⟩, ⟨.formatSpecifier, 6, ['é']⟩,
        ⟨.propertyBrace, 8, ['}']⟩] ∧
    Text.StandsAt ['{'] ['é', '{', 'é', ':', 'é', '}', 'é'] 2 := by
  obtain ⟨htokenizer, hreader, hscan, hmeets, -, -, -, -, hclassify, hoctets⟩ :=
    slices_valid .standard ['é', '{', 'é', ':', 'é', '}', 'é']
  refine ⟨?_, ?_, ?_, ?_, hoctets 2 '{' (by decide) (by decide)⟩
  · have hz : Reaches LogSyntax.Tokenizer.next?
        (.start .standard (.start ['é', '{', 'é', ':', 'é', '}', 'é'])) _ := .next .start rfl
    exact ⟨_, hz, rfl, (htokenizer _ hz).1⟩
  · have hr : Reaches MessageTemplate.Reader.answer?
        (.start (.start ['é', '{', 'é', ':', 'é', '}', 'é'])) _ :=
      .next (.next (.next (.next (.next (.next .start rfl) rfl) rfl) rfl) rfl) rfl
    exact ⟨_, hr, rfl, (hreader _ hr).1⟩
  · have hx : Reaches (ExpressionTemplate.Scan.next? ExpressionTemplate.Segment.end?)
        (.start .standard ['é', '{', 'é', ':', 'é', '}', 'é']) _ := .next (.next .start rfl) rfl
    have hs := (hmeets _ hx).2.1
    exact ⟨_, hs, rfl, (hscan _ hs).2.1⟩
  · rw [hclassify]
    decide +kernel

/-- In a literal character of two bytes a reader of expression templates is not between two
characters: it passes over the one octet and then over the other. -/
theorem reaches_inside_character :
    ∃ s, Reaches Template.Scan.step? (.start .standard ['é']) s ∧ s.pos = 1 ∧
      ¬ Text.IsBoundary ['é'] s.pos := by
  have hs : Reaches Template.Scan.step? (.start .standard ['é']) _ := .next .start rfl
  exact ⟨_, hs, rfl, by decide⟩

end Checked

end LogSyntax
