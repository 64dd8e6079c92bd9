import LogSyntax.Highlight
import LogSyntax.Memo
import LogSyntax.Proofs.Token.Lossless
import LogSyntax.Proofs.Token.Locality
import LogSyntax.Proofs.MessageTemplate.Hole
import LogSyntax.Proofs.MessageTemplate.Regions
import LogSyntax.Proofs.ExpressionTemplate.Remembered
import LogSyntax.Proofs.ExpressionTemplate.Regions
import LogSyntax.Proofs.ExpressionTemplate.Colons
import LogSyntax.Proofs.ExpressionTemplate.Indexed
import LogSyntax.Proofs.ExpressionTemplate.Written
import LogSyntax.Proofs.Highlight
import LogSyntax.Proofs.LruCache.History
import LogSyntax.Proofs.LruCache.Larger
import LogSyntax.Proofs.LruCache.Building
import LogSyntax.Proofs.Memo
import LogSyntax.Proofs.MessageTemplate.Rendering
import LogSyntax.Proofs.CallSite.Nearest
import LogSyntax.Proofs.CallSite.Continued
import LogSyntax.Proofs.Token.NormalForm
import LogSyntax.Proofs.Token.Spacing
import LogSyntax.Proofs.SharedTemplate
import LogSyntax.Proofs.ExpressionTemplate.LoopScope
import LogSyntax.Proofs.Token.Quoting
import LogSyntax.Proofs.Token.Limits
import LogSyntax.Proofs.Token.Joining
import LogSyntax.Proofs.ExpressionTemplate.Pairing
import LogSyntax.Proofs.ExpressionTemplate.Resuming
import LogSyntax.Proofs.Token.LetterCase
import LogSyntax.Proofs.Token.Unknown
import LogSyntax.Proofs.ExpressionTemplate.Marker
import LogSyntax.Proofs.Checked.Reachable
import LogSyntax.Proofs.MessageTemplate.Attempt
import LogSyntax.Proofs.Settings
import LogSyntax.Proofs.Token.Sigil
import LogSyntax.Proofs.ExpressionTemplate.Once
