import LintDigest.Document.Line
import LintDigest.Outcome
import LintDigest.Summary.Bundle
import LintDigest.Summary.Rule

/-!
# Sessions

One module at a time, `process` reads the reports that are present, merges them, writes the
module's document and page, updates both summaries under the lock, logs the diagnostics if asked,
and asks the gate. Only the gate can fail a module: what cannot be read or written is logged.
-/

namespace LintDigest

open Script Storage

/-- What a session needs to know. -/
structure Session where
  outputDir : String
  /-- The tools to read, each with the name of its report file. -/
  inputs : List (Tool × String)
  console : Bool
  thresholds : Thresholds
  summaryDir : Path
  regenerate : Regenerate
  period : Nat
  nameDepth : Nat

namespace Session

/-- The file name of a module's document. -/
def moduleDocument : String := "lintfold-result.xml"

/-- The file name of a module's page. -/
def modulePage : String := "lintfold-report.html"

/-- The target of the session's log records. -/
def logTarget : String := "lintfold::pipeline"

/-- The bundle summary of a session. -/
def bundle (s : Session) : BundleSummary where
  dir := s.summaryDir
  nameDepth := s.nameDepth

/-- The rule summary of a session. -/
def rule (s : Session) : RuleSummary where
  dir := s.summaryDir
  regenerate := s.regenerate
  period := s.period

/-- Removes the named files of a directory, up to the first that cannot be removed. -/
def removeAll (dir : Path) : List String → Script (Except Error Unit)
  | [] => return .ok ()
  | name :: names => do
    let p := dir / name
    if ← isPresent p then
      match ← request (.remove p) with
      | .error fault => return .error (.file p fault)
      | .ok () => removeAll dir names
    else removeAll dir names

/-- Removes what an earlier session has left in a summary directory. -/
def reset (dir : Path) : Script (Except Error Unit) :=
  removeAll dir
    [BundleSummary.pageName, RuleSummary.documentName, RuleSummary.pageName,
      RuleSummary.snapshotName]

/-- Starts a session. -/
def begin (s : Session) : Script (Except Error Unit) := locked do
  log .debug logTarget
    ("New session in " ++ s.summaryDir.text ++ " under lock '" ++ (← request .lockName) ++ "'")
  reset s.summaryDir

/-- Logs how a session ended. -/
def noteEnd (s : Session) : Except Error Bool → Script Unit
  | .ok true => log .info logTarget ("Rendered rule summary " ++ s.rule.page.text)
  | .ok false => return ()
  | .error e => log .warn logTarget ("Rule summary might be incomplete: " ++ e.message)

/-- Ends a session: a page that is still to be rendered is rendered now. -/
def finish (s : Session) : Script Unit := do
  s.noteEnd (← s.rule.finish)

/-- Reads one report, if it is present and readable. -/
def collectOne (outDir : Path) (tool : Tool) (file : String) : Script (Option Document) := do
  let p := outDir / file
  if ← isFile p then
    match ← loadReport tool p with
    | .ok d => return some d
    | .error e =>
      log .error logTarget
        ("Skipping " ++ tool.name ++ " report " ++ p.text ++ ": " ++ e.message)
      return none
  else
    log .debug logTarget ("No " ++ tool.name ++ " report at " ++ p.text)
    return none

/-- Reads the reports of a module: the documents, each with its tool. -/
def collectFrom (outDir : Path) : List (Tool × String) → Script (List (Tool × Document))
  | [] => return []
  | (tool, file) :: rest => do
    match ← collectOne outDir tool file with
    | some d => return (tool, d) :: (← collectFrom outDir rest)
    | none => collectFrom outDir rest

/-- The build-output directory of a module. -/
def outDir (s : Session) (module : Path) : Path :=
  module / s.outputDir

/-- The merged document of a module and the tools it comes from. -/
def collect (s : Session) (module : Path) : Script (Document × List String) := do
  let found ← collectFrom (s.outDir module) s.inputs
  return (Document.mergeAll (found.map (·.2)), found.map (·.1.name))

/-- The title of a module's page: the name of its directory. -/
def moduleTitle (module : Path) : Script String := do
  return ((← absolute module).fileName?).getD "module"

/-- Writes the document and the page of a module. -/
def writeModule (s : Session) (module : Path) (d : Document) (page : String) :
    Script (Except Error Unit) := do
  match ← saveDocument (s.outDir module / moduleDocument) d with
  | .error e => return .error e
  | .ok () => replaceFile (s.outDir module / modulePage) page

/-- Logs what became of a module's row in the bundle summary. -/
def noteRow : Option (Except Error Appended) → Script Unit
  | some (.ok (.row name _)) => log .debug logTarget ("Bundle summary row added for " ++ name)
  | some (.ok .skipped) => return ()
  | some (.error e) => log .warn logTarget ("Bundle summary might be incomplete: " ++ e.message)
  | none =>
    log .warn logTarget "Bundle summary might be incomplete: no module report to link"

/-- Logs what became of a module's diagnostics in the rule summary. -/
def noteUpdate : Except Error RuleUpdate → Script Unit
  | .ok .skipped => return ()
  | .ok update => log .debug logTarget ("Rule summary updated: " ++ update.describe)
  | .error e => log .warn logTarget ("Rule summary might be incomplete: " ++ e.message)

/-- Updates both summaries in one critical section. Without a report there is nothing to link, and
the bundle page stays as it is. -/
def updateSummaries (s : Session) (report : Option Path) (d : Document) (page : String) :
    Script Unit := locked do
  match report with
  | some p => noteRow (some (← s.bundle.append p d))
  | none => noteRow none
  noteUpdate (← s.rule.update d page)

/-- The level at which a diagnostic is logged. -/
def levelOf : Severity → Log.Level
  | .error => .error
  | .warning => .warn
  | .info => .info

/-- Logs located diagnostics. -/
def report : List (String × Diagnostic) → Script Unit
  | [] => return ()
  | (path, d) :: rest => do
    log (levelOf d.severity) "lintfold::console" (d.textLine path)
    report rest

/-- Takes one module through the whole session. -/
def process (s : Session) (module : Path) : Script Outcome := do
  let (document, tools) ← s.collect module
  if tools.isEmpty then
    log .info logTarget ("No reports found in " ++ module.text)
    return { module := module.text, tools, counts := {}, report := none, document, gate := none }
  else
    let title ← moduleTitle module
    let page := ({ title } : Page).render (← request .now) document
    let pagePath := s.outDir module / modulePage
    let written ← s.writeModule module document page
    match written with
    | .ok () => s.updateSummaries (some pagePath) document page
    | .error e =>
      log .error logTarget
        ("Could not write module report for " ++ module.text ++ ": " ++ e.message)
      s.updateSummaries none document page
    if s.console then report document.entries
    return {
      module := module.text
      tools
      counts := document.counts
      report := match written with
        | .ok () => some pagePath.text
        | .error _ => none
      document
      gate := s.thresholds.judge document }

/-- Like `process`, but a failed gate is an error. -/
def processStrictly (s : Session) (module : Path) : Script (Except Error Outcome) := do
  let outcome ← s.process module
  match outcome.gate with
  | some failure => return .error (.gate failure)
  | none => return .ok outcome

/-- Takes several modules through the session, one after another. -/
def processAll (s : Session) : List Path → Script (List Outcome)
  | [] => return []
  | m :: ms => do
    let outcome ← s.process m
    return outcome :: (← s.processAll ms)

end Session

end LintDigest
