import LintDigest.Document.Basic

/-!
# The severity gate

A build fails when a severity that its thresholds enable has any diagnostic.
-/

namespace LintDigest

/-- The severities that fail a build. -/
structure Thresholds where
  error : Bool := true
  warning : Bool := false
  info : Bool := false
  deriving DecidableEq, Inhabited

namespace Thresholds

/-- Nothing fails the build. -/
def none : Thresholds := ⟨false, false, false⟩

/-- Whether a severity fails the build. -/
def enabled (t : Thresholds) : Severity → Bool
  | .error => t.error
  | .warning => t.warning
  | .info => t.info

end Thresholds

/-- A failed gate: the severities that failed it, the worst first, with their counts. -/
structure GateFailure where
  violations : List (Severity × Nat)
  deriving DecidableEq, Inhabited

namespace GateFailure

/-- The text shown for a failed gate, one line for each violated severity. -/
def message (f : GateFailure) : String :=
  "Static analysis thresholds exceeded:" ++
    String.join (f.violations.map fun (s, n) =>
      "\n  " ++ toString n ++ " " ++ s.name ++ "(s) found. Please fix the " ++ s.name ++
        "(s) and rerun the build.")

end GateFailure

/-- The gate's verdict on a document: nothing when it passes. -/
def Thresholds.judge (t : Thresholds) (d : Document) : Option GateFailure :=
  let counts := d.counts
  let violations := (Severity.all.filter t.enabled).map (fun s => (s, counts.get s))
    |>.filter (0 < ·.2)
  if violations.isEmpty then Option.none else some ⟨violations⟩

end LintDigest
