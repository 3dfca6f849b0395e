import LintDigest.Document.Basic
import LintDigest.Error
import LintDigest.Text.Blank
import LintDigest.Text.Markup
import LintDigest.Xml.Node

/-!
# Documents as XML

`toXml` writes a document and `ofXml` reads one back. The reader joins groups of one path, takes a
missing severity for an error, and a missing or unreadable line for 0.
-/

namespace LintDigest

/-- A line number in an attribute: 0 when it is missing or no number of 32 bits. -/
def lineOf (raw : Option String) : UInt32 :=
  match raw.bind fun s => Text.decimal? Text.maxWord (Text.trim s.toList) with
  | some n => UInt32.ofNat n
  | none => 0

namespace Document

/-- The name of the root element. -/
def rootName : String := "lintfold"

/-- The element of a diagnostic, on a line of its own. -/
def diagnosticXml (d : Diagnostic) : String :=
  "    <diagnostic line=\"" ++ toString d.line.toNat ++
    "\" severity=\"" ++ d.severity.name ++ "\"" ++
    (match d.source with
      | some source => " source=\"" ++ Markup.escape source ++ "\""
      | none => "") ++
    " message=\"" ++ Markup.escape d.message ++ "\"/>\n"

/-- The element of a file group. -/
def groupXml (g : FileGroup) : String :=
  "  <file name=\"" ++ Markup.escape g.path ++ "\">\n" ++
    String.join (g.diagnostics.map diagnosticXml) ++ "  </file>\n"

/-- The text of a document. -/
def toXml (d : Document) : String :=
  "<?xml version=\"1.0\" encoding=\"UTF-8\"?>\n<" ++ rootName ++ " version=\"1\">\n" ++
    String.join (d.groups.map groupXml) ++ "</" ++ rootName ++ ">\n"

/-- Reads a diagnostic element. -/
def readDiagnostic (e : Xml.Element) : Except Complaint Diagnostic :=
  match Severity.parse ((e.attribute? "severity").getD "error") with
  | .error word => .error (.unknownSeverity word)
  | .ok severity => .ok
    { line := lineOf (e.attribute? "line")
      severity
      message := (e.attribute? "message").getD ""
      source := e.attribute? "source" }

/-- Reads a file element. -/
def readGroup (e : Xml.Element) : Except Complaint FileGroup :=
  match e.attribute? "name" with
  | none => .error .unnamedFile
  | some path => do return ⟨path, ← (e.childrenNamed "diagnostic").mapM readDiagnostic⟩

/-- Reads the root element of a document. -/
def ofElement (root : Xml.Element) : Except Complaint Document :=
  if root.name = rootName then do
    return ((← (root.childrenNamed "file").mapM readGroup).foldl pushGroup {} : Document)
  else .error (.wrongRoot rootName root.name)

/-- Reads the text of a document; `origin` only labels errors. -/
def ofXml (origin : Path) (text : String) : Except Error Document :=
  match Xml.Element.parse text with
  | .error fault => .error (.xml fault)
  | .ok root => (ofElement root).mapError (.document origin)

end Document

end LintDigest
