/-!
# Settings

The two switches of the language.
-/

namespace DebugExpr

structure Settings where
  /-- Binary literals are read. -/
  extended : Bool := false
  /-- Ambiguous literals are reported. -/
  warn : Bool := true
  deriving DecidableEq

end DebugExpr
