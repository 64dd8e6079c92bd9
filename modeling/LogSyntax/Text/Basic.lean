import LogSyntax.Text.Blank
/-!
# Texts

A text is a list of characters. Offsets and lengths count the bytes of its UTF-8 form, so every
boundary between two characters has an offset, and offsets add up over concatenation.
-/

namespace LogSyntax

/-- A text, character by character. -/
abbrev Text := List Char

namespace Text

/-- The length of a text in bytes of UTF-8. -/
def bytes (t : Text) : Nat :=
  t.foldr (fun c n => c.utf8Size + n) 0

/-- How many characters at the head of a text satisfy `p`. -/
def run (p : Char → Bool) (t : Text) : Nat :=
  (t.takeWhile p).length

/-- The text without the white space it begins with. -/
def trimStart (t : Text) : Text :=
  t.dropWhile isBlank

/-- The text without the white space it ends with. -/
def trimEnd (t : Text) : Text :=
  (t.reverse.dropWhile isBlank).reverse

/-- The text without white space at either end. -/
def trim (t : Text) : Text :=
  trimEnd (trimStart t)

/-- The text with its ASCII letters in lower case. -/
def lower (t : Text) : Text :=
  t.map Char.toLower

/-- Whether two texts differ in the case of ASCII letters at most. -/
def eqIgnoringCase (s t : Text) : Bool :=
  lower s == lower t

/-- The text without its first `n` bytes, when they end on a boundary. -/
def dropBytes : Nat → Text → Text
  | 0, t => t
  | _, [] => []
  | n, c :: cs => dropBytes (n - c.utf8Size) cs

/-- The first `n` bytes of a text, when they end on a boundary. -/
def takeBytes : Nat → Text → Text
  | 0, _ => []
  | _, [] => []
  | n, c :: cs => c :: takeBytes (n - c.utf8Size) cs

/-- The bytes of a text from `start` to before `stop`, when both are boundaries. -/
def slice (t : Text) (start stop : Nat) : Text :=
  takeBytes (stop - start) (dropBytes start t)

@[simp] theorem bytes_nil : bytes [] = 0 := rfl

@[simp] theorem bytes_cons (c : Char) (t : Text) : bytes (c :: t) = c.utf8Size + bytes t := rfl

@[simp] theorem bytes_append (s t : Text) : bytes (s ++ t) = bytes s + bytes t := by
  induction s with
  | nil => simp
  | cons c s ih => simp [ih, Nat.add_assoc]

end Text

end LogSyntax
