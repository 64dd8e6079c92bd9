import LogSyntax.CallSite
import LogSyntax.ExpressionTemplate.Scan
import LogSyntax.MessageTemplate.Properties
/-!
# Highlighting

The context of a string literal decides how its content is classified. Regions of the content move
to where the content stands in its line.
-/

namespace LogSyntax

/-- The regions of a text in a context, under the standard limits. -/
def classify (context : Context) (t : Text) : List Region :=
  match context with
  | .filterExpression | .computedProperty | .conditionalExpression =>
    Expression.classify .standard t
  | .expressionTemplate => ExpressionTemplate.classify .standard t
  | .outside => MessageTemplate.classify t

/-- The context of the content that a line holds from `start` to before `stop`, and its regions at
their places in the line. -/
def highlight (line : Text) (start stop : Nat) : Context × List Region :=
  let context := Context.ofLine line start
  (context, (classify context (Text.slice line start stop)).map (·.rebase start))

end LogSyntax
