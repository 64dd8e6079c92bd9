import LogSyntax.Text.Letter
import LogSyntax.Text.Numeral
import LogSyntax.Text.Basic
/-!
# Identifiers and fixed names

The characters of identifiers, the names of the functions, and the codes that follow an `@` to name
a built-in property of an event.
-/

namespace LogSyntax

/-- A character that can begin an identifier: a letter or `_`. -/
def isIdentStart (c : Char) : Bool :=
  isLetter c || c == '_'

/-- A character that can stand in an identifier: a letter, a numeral or `_`. -/
def isIdentChar (c : Char) : Bool :=
  isLetter c || isNumeral c || c == '_'

theorem isIdentChar_of_isIdentStart {c : Char} (h : isIdentStart c = true) :
    isIdentChar c = true := by
  simp only [isIdentStart, isIdentChar, Bool.or_eq_true] at h ⊢
  exact h.imp_left .inl

/-- White space stands in no identifier. -/
theorem isIdentChar_of_isBlank {c : Char} (h : isBlank c = true) : isIdentChar c = false := by
  have hline : isBlank '_' = false := by decide
  have hc : c ≠ '_' := by
    rintro rfl
    exact Bool.false_ne_true (hline ▸ h)
  have hpoints : ∀ n ∈ blankRanges.points, letterRanges.covers n = false ∧
      decimalRanges.covers n = false ∧ letterNumberRanges.covers n = false ∧
      otherNumberRanges.covers n = false := by
    decide +kernel
  have hpoint := hpoints _ (CodeRanges.mem_points_of_covers h)
  simp [isIdentChar, isLetter, isNumeral, isDecimal, hpoint, hc]

/-- An arithmetic operator. -/
def isArithmetic (c : Char) : Bool :=
  c == '+' || c == '-' || c == '*' || c == '/' || c == '%' || c == '^'

/-- A hexadecimal digit in ASCII. -/
def isHexDigit (c : Char) : Bool :=
  c.isDigit || ('a' ≤ c && c ≤ 'f') || ('A' ≤ c && c ≤ 'F')

/-! ## Functions -/

/-- The functions of the expression language. -/
def functionNames : List String :=
  ["Coalesce", "Concat", "Contains", "ElementAt", "EndsWith", "IndexOf", "IndexOfMatch", "Inspect",
   "IsDefined", "IsMatch", "LastIndexOf", "Length", "Now", "Rest", "Round", "StartsWith",
   "Substring", "TagOf", "ToLower", "ToString", "ToUpper", "TypeOf", "Undefined", "UtcDateTime"]

/-- A function may be named in any ASCII case. -/
def isFunctionName (word : Text) : Bool :=
  functionNames.any fun name => Text.eqIgnoringCase name.toList word

/-! ## Built-in properties -/

/-- The codes of the built-in properties: trace, message template, span, timestamp, message, level,
exception, properties, event type and renderings. -/
def builtinCodes : List String :=
  ["tr", "mt", "sp", "t", "m", "l", "x", "p", "i", "r"]

/-- The text begins with this code, and the code is not the head of a longer name. -/
def standsAtHead (code : String) (t : Text) : Bool :=
  code.toList.isPrefixOf t && !(t.drop code.length).head?.any isIdentChar

/-- The code of the built-in property whose `@` this text follows. -/
def builtinCode? (t : Text) : Option String :=
  builtinCodes.find? (standsAtHead · t)

end LogSyntax
