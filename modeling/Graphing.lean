import Graphing.Expr.Printer
import Graphing.Plot.Description
import Graphing.Session.Basic
import Graphing.Main
import Graphing.Proofs.Expr.Acceptance
import Graphing.Proofs.Expr.RoundTrip
import Graphing.Proofs.Expr.Reference
import Graphing.Proofs.Expr.FieldMeaning
import Graphing.Proofs.Binary64.Alike
import Graphing.Proofs.Expr.Height
import Graphing.Proofs.Expr.DepthLimit
import Graphing.Proofs.Term.Alike
import Graphing.Proofs.Expr.Rereading
import Graphing.Proofs.Cache.Ledger
import Graphing.Proofs.Cache.Traffic
import Graphing.Proofs.Plot.Coherence
import Graphing.Proofs.Session.Coherence
import Graphing.Proofs.Token.Placement
import Graphing.Proofs.Expr.Blame
import Graphing.Proofs.Plot.Anonymous
import Graphing.Proofs.Session.Transparency
import Graphing.Proofs.Session.Atomicity
import Graphing.Proofs.Session.Reloading
import Graphing.Proofs.Expr.Continuation
import Graphing.Proofs.Binary64.Absolute
import Graphing.Proofs.Cache.Counters
import Graphing.Proofs.Expr.Grouping
import Graphing.Proofs.Expr.Finiteness
import Graphing.Proofs.Expr.Substitution
import Graphing.Proofs.Expr.Collapse
import Graphing.Proofs.Token.Longest
import Graphing.Proofs.Token.Coverage
import Graphing.Proofs.Expr.Spacing
import Graphing.Proofs.Expr.Leftover
import Graphing.Proofs.Expr.Names
import Graphing.Proofs.Expr.Canonical
import Graphing.Proofs.Plot.Succession
import Graphing.Proofs.Binary64.Order
import Graphing.Proofs.CommandLine.Caret
import Graphing.Proofs.Plot.Loading
import Graphing.Proofs.SampleGrid.Ends
import Graphing.Proofs.Term.Unambiguous
import Graphing.Proofs.Expr.Equality
