import RuleLisp.Main
import RuleLisp.Proofs.Eval.Repetition
import RuleLisp.Proofs.Eval.SingleArgument
import RuleLisp.Proofs.Expr.Joined
import RuleLisp.Proofs.Expr.RoundTrip
import RuleLisp.Proofs.Json.RoundTrip
import RuleLisp.Proofs.Mentions
import RuleLisp.Proofs.Program.Lines
import RuleLisp.Proofs.Eval.Trace
import RuleLisp.Proofs.Eval.Upholds
import RuleLisp.Proofs.Lineage
import RuleLisp.Proofs.Store
import RuleLisp.Proofs.Eval.WellFormed
import RuleLisp.Proofs.Session
import RuleLisp.Proofs.Expr.Signature
import RuleLisp.Proofs.Session.Nesting
import RuleLisp.Proofs.Token.Tiling
import RuleLisp.Proofs.Eval.QuotedNames
import RuleLisp.Proofs.Value.Equality
import RuleLisp.Proofs.Expr.NestingLimit
import RuleLisp.Proofs.Expr.Layout
import RuleLisp.Proofs.Expr.ErrorPlaces
import RuleLisp.Proofs.Eval.OperandOrder
import RuleLisp.Proofs.Eval.WithoutFunctions
import RuleLisp.Proofs.Eval.ObjectLiteral
import RuleLisp.Proofs.Inputs
import RuleLisp.Proofs.Json.Indentation
import RuleLisp.Proofs.Store.History
import RuleLisp.Proofs.Expr.TokenReader
import RuleLisp.Proofs.Diagnostic.Labels
import RuleLisp.Proofs.Diagnostic.Color
import RuleLisp.Proofs.Number.Shortest
import RuleLisp.Proofs.Eval.NumericOperands
import RuleLisp.Proofs.Expr.Keys
