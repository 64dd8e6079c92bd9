import LogSyntax.Text.Basic
import LogSyntax.Identifier
/-!
# Reading limits

A string literal that is still being typed has no closing quote yet and would swallow the rest of
the text. Two limits say when to cut it short: how long a literal may grow before a closing bracket
ends it, and how far into it an operator after a dot does.

Limits come with standard values and can be overridden by settings, which are texts and may come from
the environment. A setting is accepted exactly when it is a decimal number of 64 bits, with an
optional plus sign and white space around it.
-/

namespace LogSyntax

/-- The settings that can be overridden. -/
inductive Setting where
  | runawayLiteralLimit
  | operatorWindow
deriving DecidableEq, Repr

/-- The name of a setting in messages. -/
def Setting.name : Setting → String
  | .runawayLiteralLimit => "runaway_literal_limit"
  | .operatorWindow => "operator_window"

/-- The name of the variable of the environment that overrides a setting. -/
def Setting.key : Setting → String
  | .runawayLiteralLimit => "MESSAGE_TEMPLATE_SYNTAX_RUNAWAY_LITERAL_LIMIT"
  | .operatorWindow => "MESSAGE_TEMPLATE_SYNTAX_OPERATOR_WINDOW"

/-- The variables of an environment: a name may stand for any bytes. -/
abbrev Environment := String → Option ByteArray

/-- The text of a setting in an environment. Bytes that are not UTF-8 are no text. -/
def Setting.find? (environment : Environment) (setting : Setting) : Option String :=
  (environment setting.key).bind String.fromUTF8?

/-- Why a configuration is refused. -/
inductive ConfigError where
  /-- A cache was to hold no entry at all. -/
  | zeroCapacity
  /-- The text of a setting is not a number in range. -/
  | invalidValue (setting : Setting) (raw : String)
  /-- A setting is below its least value. -/
  | outOfRange (setting : Setting) (least value : Nat)
deriving DecidableEq, Repr

/-- The message for a refused configuration. -/
def ConfigError.message : ConfigError → String
  | .zeroCapacity => "cache capacity must be at least 1"
  | .invalidValue setting raw => "invalid value '" ++ raw ++ "' for " ++ setting.name
  | .outOfRange setting least value =>
    setting.name ++ " must be at least " ++ toString least ++ ", got " ++ toString value

/-- When a string literal that may have lost its closing quote is cut short. -/
structure Heuristics where
  /-- A literal of more characters than this ends before a closing bracket. -/
  runawayLiteralLimit : Nat
  /-- Within this many characters, a literal ends before an operator that follows a dot. -/
  operatorWindow : Nat
deriving DecidableEq, Repr

namespace Heuristics

/-- The standard limits. -/
def standard : Heuristics := ⟨50, 3⟩

instance : Inhabited Heuristics := ⟨standard⟩

/-- The given limits, if literals may have at least one character. -/
def ofLimits (limit window : Nat) : Except ConfigError Heuristics :=
  if limit = 0 then .error (.outOfRange .runawayLiteralLimit 1 limit) else .ok ⟨limit, window⟩

/-- Whether a literal of `scanned` characters so far, whose decoded text ends with `last`, ends
before `c`. -/
def endsBefore (h : Heuristics) (scanned : Nat) (last : Option Char) (c : Char) : Bool :=
  (isArithmetic c && scanned < h.operatorWindow && last == some '.') ||
    (h.runawayLiteralLimit < scanned && (c == ')' || c == ']' || c == '}'))

/-! ## Settings -/

/-- The number that a run of decimal digits denotes. -/
def decimalValue (digits : Text) : Nat :=
  digits.foldl (fun n d => 10 * n + (d.toNat - '0'.toNat)) 0

/-- The first number that no setting can hold. -/
def settingBound : Nat := UInt64.size

/-- The number that the text of a setting denotes. -/
def readSetting? (raw : Text) : Option Nat :=
  let trimmed := Text.trim raw
  let digits := if trimmed.head? = some '+' then trimmed.tail else trimmed
  if digits ≠ [] ∧ digits.all Char.isDigit ∧ decimalValue digits < settingBound then
    some (decimalValue digits)
  else
    none

/-- The value of a setting: the standard one if it is absent, else the number that its text
denotes. -/
def override (setting : Setting) (standardValue : Nat) : Option String → Except ConfigError Nat
  | none => .ok standardValue
  | some raw =>
    match readSetting? raw.toList with
    | some value => .ok value
    | none => .error (.invalidValue setting raw)

/-- The standard limits with overrides. Both settings are read before their range is checked, the
limit first. -/
def ofOverrides (limit window : Option String) : Except ConfigError Heuristics := do
  let limit ← override .runawayLiteralLimit standard.runawayLiteralLimit limit
  let window ← override .operatorWindow standard.operatorWindow window
  ofLimits limit window

/-- The standard limits as an environment overrides them. -/
def ofEnvironment (environment : Environment) : Except ConfigError Heuristics :=
  ofOverrides (Setting.find? environment .runawayLiteralLimit)
    (Setting.find? environment .operatorWindow)

end Heuristics

end LogSyntax
