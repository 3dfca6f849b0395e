import LintDigest.Document.Codec
import LintDigest.Report.Reader
import LintDigest.Script

/-!
# Reading and writing files

Files are read whole and written by replacement: `replaceFile` fills a scratch file next to the
target and renames it over the target, so no reader ever sees half a file.
-/

namespace LintDigest.Storage

open Script

/-- The text of a file. -/
def readText (p : Path) : Script (Except Error String) := do
  match ← request (.read p) with
  | .ok text => return .ok text
  | .error fault => return .error (.file p fault)

/-- The directory in which a file is written. -/
def directoryOf (p : Path) : Path :=
  match p.parent? with
  | some dir => if dir.text = "" then ⟨"."⟩ else dir
  | none => ⟨"."⟩

/-- Writes a file as a whole. Missing directories are created; a scratch file that cannot be filled
or renamed is removed. -/
def replaceFile (p : Path) (text : String) : Script (Except Error Unit) := do
  let dir := directoryOf p
  match ← request (.makeDirs dir) with
  | .error fault => return .error (.file dir fault)
  | .ok () =>
    match ← request (.scratch dir) with
    | .error fault => return .error (.file dir fault)
    | .ok scratch =>
      match ← request (.fill scratch text) with
      | .error fault =>
        let _ ← request (.remove scratch)
        return .error (.file scratch fault)
      | .ok () =>
        match ← request (.rename scratch p) with
        | .error fault =>
          let _ ← request (.remove scratch)
          return .error (.file p fault)
        | .ok () => return .ok ()

/-- Reads a document from its file. -/
def loadDocument (p : Path) : Script (Except Error Document) := do
  match ← readText p with
  | .error e => return .error e
  | .ok text => return Document.ofXml p text

/-- Writes a document to its file. -/
def saveDocument (p : Path) (d : Document) : Script (Except Error Unit) :=
  replaceFile p d.toXml

/-- The first of the paths that exists. -/
def firstPresent : List Path → Script (Option Path)
  | [] => return none
  | p :: ps => do
    if ← isPresent p then return some p else firstPresent ps

/-- The located diagnostic of a finding. -/
def placeFinding (f : Finding) : Script (String × Diagnostic) := do
  match ← firstPresent f.candidates with
  | some p => return (p.text, f.diagnostic)
  | none => return (f.path, f.diagnostic)

/-- The document of a tool's report, given its text. -/
def transformReport (tool : Tool) (origin : Path) (text : String) :
    Script (Except Error Document) := do
  match Report.findings tool origin text with
  | .error e => return .error e
  | .ok findings => return .ok (Document.ofEntries (← findings.mapM placeFinding))

/-- Reads a tool's report from its file. -/
def loadReport (tool : Tool) (p : Path) : Script (Except Error Document) := do
  match ← readText p with
  | .error e => return .error e
  | .ok text =>
    log .debug "lintfold::sources" ("Reading " ++ tool.name ++ " report " ++ p.text)
    transformReport tool p text

end LintDigest.Storage
