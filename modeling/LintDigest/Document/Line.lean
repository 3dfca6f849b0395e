import LintDigest.Document.Basic

/-!
# Diagnostics as lines of text
-/

namespace LintDigest

/-- A diagnostic as `path:line: [source] message`, without the line when it is 0 and without the
brackets when there is no source. -/
def Diagnostic.textLine (path : String) (d : Diagnostic) : String :=
  path ++ (if d.line = 0 then "" else ":" ++ toString d.line.toNat) ++ ": " ++
    (match d.source with
      | some source => "[" ++ source ++ "] "
      | none => "") ++ d.message

end LintDigest
