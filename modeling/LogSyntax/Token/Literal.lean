import LogSyntax.Heuristics
/-!
# Literals

How far a number or a string literal reaches. Lengths count characters, so a reader takes the
literal and the rest of the text with `take` and `drop`.
-/

namespace LogSyntax.Literal

/-- How many characters of a number follow its first digit. A hexadecimal number needs a digit
behind its `0x`; a decimal one takes every digit and every dot. -/
def numberTail (first : Char) : Text → Nat
  | x :: d :: cs =>
    if first = '0' ∧ (x = 'x' ∨ x = 'X') ∧ isHexDigit d then
      1 + Text.run isHexDigit (d :: cs)
    else
      Text.run (fun c => c.isDigit || c == '.') (x :: d :: cs)
  | cs => Text.run (fun c => c.isDigit || c == '.') cs

/-- How many characters of a string literal follow its opening quote, and its decoded text, when
`scanned` of them are read and `value` is decoded so far, the last character first. A doubled quote
belongs to the content, where it stands for one, and a single one closes the literal; without one it
runs on until the limits cut it short. -/
def readString (h : Heuristics) (scanned : Nat) (value : Text) : Text → Nat × Text
  | '\'' :: '\'' :: cs => readString h (scanned + 2) ('\'' :: value) cs
  | '\'' :: _ => (scanned + 1, ('\'' :: value).reverse)
  | c :: cs =>
    if h.endsBefore scanned value.head? c then (scanned, value.reverse)
    else readString h (scanned + 1) (c :: value) cs
  | [] => (scanned, value.reverse)

end LogSyntax.Literal
