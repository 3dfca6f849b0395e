import LintDigest.Text.Blank

/-!
# Analysis tools
-/

namespace LintDigest

/-- The tools whose reports can be read. -/
inductive Tool
  | checkstyle
  | pmd
  | spotbugs
  deriving DecidableEq, Inhabited

namespace Tool

/-- All tools, in the order in which they run by default. -/
def all : List Tool := [.checkstyle, .pmd, .spotbugs]

/-- The name of a tool. -/
def name : Tool → String
  | checkstyle => "checkstyle"
  | pmd => "pmd"
  | spotbugs => "spotbugs"

/-- The usual name of a tool's report file. -/
def defaultInput : Tool → String
  | checkstyle => "checkstyle-result.xml"
  | pmd => "pmd.xml"
  | spotbugs => "spotbugsXml.xml"

/-- The root element of a tool's report. -/
def rootName : Tool → String
  | checkstyle => "checkstyle"
  | pmd => "pmd"
  | spotbugs => "BugCollection"

/-- Reads a tool's name, whatever its letter case and the white space around it; an unknown name
comes back trimmed and in lower case. -/
def parse (s : String) : Except String Tool :=
  match Text.keyword s with
  | "checkstyle" => .ok checkstyle
  | "pmd" => .ok pmd
  | "spotbugs" | "findbugs" => .ok spotbugs
  | other => .error other

end Tool

end LintDigest
