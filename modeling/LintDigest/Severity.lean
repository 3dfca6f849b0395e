import LintDigest.Text.Blank

/-!
# Severities

Three ranks, `info < warning < error`, and the words that name them.
-/

namespace LintDigest

/-- How bad a diagnostic is. -/
inductive Severity
  | info
  | warning
  | error
  deriving DecidableEq, Inhabited

namespace Severity

/-- All severities, the worst first. -/
def all : List Severity := [.error, .warning, .info]

/-- The name that documents and pages show. -/
def name : Severity → String
  | info => "info"
  | warning => "warning"
  | error => "error"

/-- The rank in `info < warning < error`. -/
def rank : Severity → Nat
  | info => 0
  | warning => 1
  | error => 2

/-- The worse of two severities. -/
def worse (a b : Severity) : Severity :=
  if a.rank ≤ b.rank then b else a

/-- Reads a severity word, whatever its letter case and the white space around it; an unknown word
comes back trimmed and in lower case. -/
def parse (s : String) : Except String Severity :=
  match Text.keyword s with
  | "info" | "information" => .ok info
  | "warning" | "warn" => .ok warning
  | "error" | "err" => .ok error
  | other => .error other

/-- The complaint about an unknown severity word. -/
def unknownMessage (word : String) : String :=
  "unknown severity '" ++ word ++ "'"

end Severity

end LintDigest
