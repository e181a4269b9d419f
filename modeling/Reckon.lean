import Reckon.CommandLine
import Reckon.Main
import Reckon.Proofs.Program.Alternation
import Reckon.Proofs.Session.Conversation
import Reckon.Proofs.Wire.Canonical
import Reckon.Proofs.Wire.Stream
import Reckon.Proofs.Session.AnswerLength
import Reckon.Proofs.Session.Serving
import Reckon.Proofs.Expr.Leftmost
import Reckon.Proofs.Session.Script
import Reckon.Proofs.Decimal.RoundTrip
import Reckon.Proofs.Number.Text
import Reckon.Proofs.Program.Text
import Reckon.Proofs.CommandLine.Remote
import Reckon.Proofs.Formula.Assemble
import Reckon.Proofs.Formula.Regroup
import Reckon.Proofs.Expr.Precedence
import Reckon.Proofs.Postfix.FirstFault
import Reckon.Proofs.Expr.Stage
import Reckon.Proofs.Expr.Viable
import Reckon.Proofs.Postfix.Parentheses
import Reckon.Proofs.Postfix.Conservation
import Reckon.Proofs.Postfix.Barrier
import Reckon.Proofs.Lexeme.Pattern
import Reckon.Proofs.Lexeme.Longest
import Reckon.Proofs.Lexeme.NumberForm
import Reckon.Proofs.Lexeme.First
import Reckon.Proofs.Lexeme.Cuts
import Reckon.Proofs.Expr.Numeral
import Reckon.Proofs.Lexeme.Parentheses
import Reckon.Proofs.Lexeme.Surroundings
import Reckon.Proofs.Expr.Nesting
import Reckon.Proofs.Expr.Room
import Reckon.Proofs.Expr.Unclosed
import Reckon.Proofs.Program.Compose
import Reckon.Proofs.Program.Offence
import Reckon.Proofs.Wire.Outcome
import Reckon.Proofs.Session.Alignment
import Reckon.Proofs.Lexeme.Spacing
import Reckon.Proofs.Program.Spacing
import Reckon.Proofs.Expr.Traversal
import Reckon.Proofs.Program.Kind
import Reckon.Proofs.Formula.Chain
import Reckon.Proofs.Postfix.Split
import Reckon.Proofs.Postfix.Layers
import Reckon.Proofs.Wire.Progress
import Reckon.Proofs.Expr.Activation
import Reckon.Proofs.Decimal.Rounding
import Reckon.Proofs.Program.Spelling
