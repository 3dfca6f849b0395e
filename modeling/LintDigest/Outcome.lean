import LintDigest.Document.Basic
import LintDigest.Gate

/-!
# Outcomes
-/

namespace LintDigest

/-- What happened to one module. -/
structure Outcome where
  module : String
  /-- The tools whose reports were read. -/
  tools : List String
  counts : Counts
  /-- The path of the module's page, if it could be written. -/
  report : Option String
  document : Document
  /-- The verdict of the gate: nothing when the module passes. -/
  gate : Option GateFailure
  deriving DecidableEq, Inhabited

namespace Outcome

/-- Whether the gate let the module pass. -/
def passed (o : Outcome) : Bool :=
  o.gate.isNone

/-- The sum of the counts of several outcomes. -/
def total (os : List Outcome) : Counts :=
  os.foldl (fun c o => c.add o.counts) {}

end Outcome

end LintDigest
