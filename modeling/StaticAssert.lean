import StaticAssert.Main
import StaticAssert.Token.Checked
import StaticAssert.Proofs.Compile.Failures
import StaticAssert.Proofs.Compile.Layout
import StaticAssert.Proofs.Expr.Limits
import StaticAssert.Proofs.Expr.Modular
import StaticAssert.Proofs.Expr.Overflows
import StaticAssert.Proofs.Expr.Typing
import StaticAssert.Proofs.Report.Colours
import StaticAssert.Proofs.Report.Excerpt
import StaticAssert.Proofs.Report.Replies
import StaticAssert.Proofs.Report.Showing
import StaticAssert.Proofs.Report.Truncation
import StaticAssert.Proofs.Token.Handing
import StaticAssert.Proofs.Token.Numerals
import StaticAssert.Proofs.Token.Positions
import StaticAssert.Proofs.Token.Resuming
