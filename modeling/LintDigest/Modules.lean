import LintDigest.Glob

/-!
# Module directories

The directories that patterns below a root match, each once and in path order.
-/

namespace LintDigest

/-- A pattern that cannot be read. -/
structure PatternFault where
  pattern : String
  fault : Glob.Fault
  deriving DecidableEq, Inhabited

/-- The text of a pattern fault. -/
def PatternFault.message (f : PatternFault) : String :=
  "bad module pattern '" ++ f.pattern ++ "': " ++ f.fault.message

open Script

namespace Modules

/-- The paths that lead to directories. -/
def directories : List Path → Script (List Path)
  | [] => return []
  | p :: ps => do
    if ← isDir p then return p :: (← directories ps) else directories ps

/-- The directories that match each pattern, up to the first pattern that cannot be read. -/
def matching (root : Path) : List String → Script (Except PatternFault (List Path))
  | [] => return .ok []
  | pattern :: patterns => do
    match ← Glob.expand (root / pattern) with
    | .error fault => return .error ⟨pattern, fault⟩
    | .ok found =>
      let dirs ← directories found
      return (← matching root patterns).map (dirs ++ ·)

/-- Paths without those that walk like the path before them. -/
def distinct : List Path → List Path
  | p :: q :: rest =>
    if p.compare q = .eq then distinct (p :: rest) else p :: distinct (q :: rest)
  | ps => ps
  termination_by ps => ps.length

/-- Paths in order, each walk once. -/
def arrange (ps : List Path) : List Path :=
  distinct (ps.mergeSort fun p q => (p.compare q).isLE)

/-- The directories that match any of the patterns. -/
def find (root : Path) (patterns : List String) : Script (Except PatternFault (List Path)) := do
  return (← matching root patterns).map arrange

end Modules

end LintDigest
