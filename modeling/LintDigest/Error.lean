import LintDigest.Gate
import LintDigest.Tree.Basic
import LintDigest.Xml.Fault

/-!
# Errors

Each error is a cause; `Error.message` is the one place that words it.
-/

namespace LintDigest

/-- What is wrong with a well-formed document. -/
inductive Complaint
  | wrongRoot (expected found : String)
  | unnamedFile
  | unknownSeverity (word : String)
  | missingMarker
  deriving DecidableEq, Inhabited

/-- The text of a complaint. -/
def Complaint.message : Complaint → String
  | wrongRoot expected found => "expected <" ++ expected ++ "> root, found <" ++ found ++ ">"
  | unnamedFile => "<file> without name attribute"
  | unknownSeverity word => Severity.unknownMessage word
  | missingMarker => "placeholder row marker is missing"

/-- What is wrong with a configuration. -/
inductive ConfigFault
  /-- The text of a configuration file, or the type of a value in it. -/
  | badFile (file : Path) (reason : String)
  | badOutput (word : String)
  | unknownTool (word : String)
  | unknownRegenerate (word : String)
  deriving DecidableEq, Inhabited

/-- The complaint about an unknown tool. -/
def unknownToolMessage (word : String) : String :=
  "unknown source '" ++ word ++ "'"

/-- The complaint about an unknown mode of regeneration. -/
def unknownRegenerateMessage (word : String) : String :=
  "unknown regenerate mode '" ++ word ++ "'"

/-- The text of a configuration fault. -/
def ConfigFault.message : ConfigFault → String
  | badFile file reason => file.text ++ ": " ++ reason
  | badOutput word => "output must be human or json, got '" ++ word ++ "'"
  | unknownTool word => unknownToolMessage word
  | unknownRegenerate word => unknownRegenerateMessage word

/-- Everything that can go wrong. -/
inductive Error
  | file (path : Path) (fault : FileFault)
  | document (origin : Path) (complaint : Complaint)
  | xml (fault : Xml.Fault)
  | config (fault : ConfigFault)
  | gate (failure : GateFailure)
  deriving DecidableEq, Inhabited

/-- The text of an error. -/
def Error.message : Error → String
  | file path fault => "I/O error on " ++ path.text ++ ": " ++ fault.message
  | document origin complaint => "cannot read " ++ origin.text ++ ": " ++ complaint.message
  | xml fault => "malformed XML: " ++ fault.message
  | config fault => "invalid configuration: " ++ fault.message
  | gate failure => failure.message

end LintDigest
