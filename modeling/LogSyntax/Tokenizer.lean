import LogSyntax.Drain
import LogSyntax.Text.Place
import LogSyntax.Token.Lexeme
/-!
# The tokenizer

The tokenizer skips white space and reads one lexeme at a time. Besides its place in the text it
knows the limits for string literals and the kind of the last token, on which the meaning of a minus
and of a star depends. Nothing but white space is left out: between two tokens, before the first and
behind the last there is no other character.
-/

namespace LogSyntax

/-- A tokenizer at a place of its text. -/
structure Tokenizer where
  place : Place
  heuristics : Heuristics
  last : Option Token.Kind

namespace Tokenizer

/-- A tokenizer that has read nothing yet. -/
def start (h : Heuristics) (p : Place) : Tokenizer := ⟨p, h, none⟩

/-- The tokenizer before the first character of another text, under the same limits. -/
def reset (z : Tokenizer) (t : Text) : Tokenizer := start z.heuristics (.start t)

/-- The next token and the tokenizer behind it, if anything but white space is ahead. -/
def next? (z : Tokenizer) : Option (Token × Tokenizer) :=
  let p := z.place.skip isBlank
  match p.rest with
  | [] => none
  | c :: cs =>
    let token := Token.read z.heuristics z.last p.offset c cs
    some (token, ⟨p.advance token.source.length, z.heuristics, some token.kind⟩)

theorem next?_shrinks : Shrinks next? (·.place.rest.length) := by
  intro z token z' h
  simp only [next?] at h
  split at h
  · contradiction
  · next c cs hrest =>
    cases h
    have hne : (z.place.skip isBlank).rest ≠ [] := by simp [hrest]
    obtain ⟨s, hsource, -⟩ :=
      Token.source_read z.heuristics z.last (z.place.skip isBlank).offset c cs
    rw [hsource]
    exact Nat.lt_of_lt_of_le (Place.length_rest_advance_lt hne (Nat.succ_ne_zero _))
      (z.place.length_rest_skip_le isBlank)

/-- The tokens ahead. -/
def tokens (z : Tokenizer) : List Token :=
  drain next? (·.place.rest.length) next?_shrinks z

end Tokenizer

/-- The tokens of a text. -/
def tokenize (h : Heuristics) (t : Text) : List Token :=
  (Tokenizer.start h (.start t)).tokens

end LogSyntax
