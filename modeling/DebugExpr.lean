import DebugExpr.Main
import DebugExpr.Expr.Document
import DebugExpr.Expr.Equality
import DebugExpr.Proofs.Readable
import DebugExpr.Proofs.Reparse
import DebugExpr.Proofs.Longest
import DebugExpr.Proofs.Blame
import DebugExpr.Proofs.Endings
import DebugExpr.Proofs.Extended
import DebugExpr.Proofs.Literals
import DebugExpr.Proofs.Positions
import DebugExpr.Proofs.Session
import DebugExpr.Proofs.Reports
import DebugExpr.Proofs.Joining
import DebugExpr.Proofs.Phrases
import DebugExpr.Proofs.Composition
import DebugExpr.Proofs.Census
import DebugExpr.Proofs.Summands
import DebugExpr.Proofs.Spelling
import DebugExpr.Proofs.Reasons
import DebugExpr.Proofs.Tracking
import DebugExpr.Proofs.Quotes
import DebugExpr.Proofs.Seams
import DebugExpr.Proofs.Locations
import DebugExpr.Proofs.Warnings
import DebugExpr.Proofs.Traversal
import DebugExpr.Proofs.Lookahead
import DebugExpr.Proofs.Overrides
import DebugExpr.Proofs.Verbatim
import DebugExpr.Proofs.Printing
