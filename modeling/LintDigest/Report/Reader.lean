import LintDigest.Document.Codec
import LintDigest.Report.Tool

/-!
# Tool reports

`findings` lists what a tool's report says, in document order. A finding names its file; one that
is only known relative to source directories carries the candidate paths, of which the first that
exists is its file. `Finding.place` and `Document.ofEntries` then make a document of the findings.
-/

namespace LintDigest

/-- One entry of a tool's report. -/
structure Finding where
  /-- Paths to prefer over `path`, if one of them exists; the first that does. -/
  candidates : List Path := []
  path : String
  diagnostic : Diagnostic
  deriving DecidableEq, Inhabited

/-- The located diagnostic of a finding, where `present` tells which paths exist. -/
def Finding.place (present : Path → Bool) (f : Finding) : String × Diagnostic :=
  (((f.candidates.find? present).map Path.text).getD f.path, f.diagnostic)

namespace Report

/-- A priority: a whole number of 8 bits, if it is one. -/
def priority? (raw : Option String) : Option Nat :=
  raw.bind fun s => Text.decimal? Text.maxByte (Text.trim s.toList)

/-! ## checkstyle -/

/-- The severity of an entry; an entry that is to be ignored has none, and an unknown word is an
error. -/
def checkstyleSeverity? (raw : Option String) : Option Severity :=
  match raw.getD "error" with
  | "ignore" => none
  | word =>
    match Severity.parse word with
    | .ok severity => some severity
    | .error _ => some .error

/-- The last part of a dotted name. -/
def lastDotted (s : String) : String :=
  String.ofList ((Text.split (· == '.') s.toList).getLast?.getD [])

/-- Reads one entry of a file. -/
def checkstyleFinding? (path : String) (e : Xml.Element) : Option Finding :=
  (checkstyleSeverity? (e.attribute? "severity")).map fun severity =>
    { path
      diagnostic :=
        { line := lineOf (e.attribute? "line")
          severity
          message := Text.squash ((e.attribute? "message").getD "")
          source := (e.attribute? "source").map fun s => "checkstyle:" ++ lastDotted s } }

/-! ## PMD -/

/-- The severity of a priority: 1 and 2 are errors, 3, 4 and no number are warnings. -/
def pmdSeverity (raw : Option String) : Severity :=
  match priority? raw with
  | some n => if n = 1 ∨ n = 2 then .error else if n = 3 ∨ n = 4 then .warning else .info
  | none => .warning

/-- Reads one entry of a file. -/
def pmdFinding (path : String) (e : Xml.Element) : Finding :=
  { path
    diagnostic :=
      { line := lineOf (e.attribute? "beginline")
        severity := pmdSeverity (e.attribute? "priority")
        message := Text.squash e.allText
        source := (e.attribute? "rule").map ("pmd:" ++ ·) } }

/-! ## SpotBugs -/

/-- The severity of a priority: 1 is an error, 2 a warning, all else an info. -/
def spotbugsSeverity (raw : Option String) : Severity :=
  match priority? raw with
  | some n => if n = 1 then .error else if n = 2 then .warning else .info
  | none => .info

/-- The source directories that the report lists. -/
def sourceDirs (root : Xml.Element) : List Path :=
  (root.childrenNamed "Project").flatMap fun project =>
    (project.childrenNamed "SrcDir").filterMap fun dir =>
      dir.leadingText?.map fun s => ⟨String.ofList (Text.trim s.toList)⟩

/-- The message of an entry: its long message, else its short one, else its type. An element
without leading text gives way to the type. -/
def spotbugsMessage (e : Xml.Element) : String :=
  let element? := (e.childrenNamed "LongMessage" ++ e.childrenNamed "ShortMessage").head?
  match element?.bind Xml.Element.leadingText? with
  | some text => Text.squash text
  | none => (e.attribute? "type").getD ""

/-- Reads one entry; without a source path it is passed over. -/
def spotbugsFinding? (dirs : List Path) (e : Xml.Element) : Option Finding := do
  let line ← (e.childrenNamed "SourceLine").head?
  let path ← line.attribute? "sourcepath"
  return {
    candidates := dirs.map (· / path)
    path
    diagnostic :=
      { line := lineOf (line.attribute? "start")
        severity := spotbugsSeverity (e.attribute? "priority")
        message := spotbugsMessage e
        source := (e.attribute? "type").map ("spotbugs:" ++ ·) } }

/-! ## All tools -/

/-- The elements of one name in the named files of a report, each with its file's name. -/
def inFiles (root : Xml.Element) (name : String) : List (String × Xml.Element) :=
  (root.childrenNamed "file").flatMap fun file =>
    match file.attribute? "name" with
    | none => []
    | some path => (file.childrenNamed name).map fun e => (path, e)

/-- The findings below the root element of a tool's report. -/
def findingsBelow (tool : Tool) (root : Xml.Element) : List Finding :=
  match tool with
  | .checkstyle => (inFiles root "error").filterMap fun (path, e) => checkstyleFinding? path e
  | .pmd => (inFiles root "violation").map fun (path, e) => pmdFinding path e
  | .spotbugs =>
    (root.childrenNamed "BugInstance").filterMap (spotbugsFinding? (sourceDirs root))

/-- The findings of a tool's report; `origin` only labels errors. -/
def findings (tool : Tool) (origin : Path) (text : String) : Except Error (List Finding) :=
  match Xml.Element.parse text with
  | .error fault => .error (.xml fault)
  | .ok root =>
    if root.name = tool.rootName then .ok (findingsBelow tool root)
    else .error (.document origin (.wrongRoot tool.rootName root.name))

/-- The document of a tool's report, where `present` tells which paths exist. -/
def read (tool : Tool) (present : Path → Bool) (origin : Path) (text : String) :
    Except Error Document :=
  (findings tool origin text).map fun fs => Document.ofEntries (fs.map (Finding.place present))

end Report

end LintDigest
