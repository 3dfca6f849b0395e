import LintDigest.Document.Merge
import LintDigest.Page
import LintDigest.Storage

/-!
# The summary by rule

The merged document of every module of a session, and its page. The first module that has
diagnostics founds the summary; later ones are merged into it. The previous document is kept as a
snapshot until the new state is written, and put back if that fails.
-/

namespace LintDigest

open Script Storage

/-- When the page of the summary is rendered. -/
inductive Regenerate
  /-- After every module. -/
  | continuous
  /-- After every so many modules, and at the end of the session. -/
  | periodic
  /-- At the end of the session. -/
  | once
  | never
  deriving DecidableEq, Inhabited

/-- Reads a mode, whatever its letter case and the white space around it; an unknown word comes
back trimmed and in lower case. -/
def Regenerate.parse (s : String) : Except String Regenerate :=
  match Text.keyword s with
  | "continuous" | "continuously" => .ok continuous
  | "periodic" | "periodically" => .ok periodic
  | "once" => .ok once
  | "never" => .ok never
  | other => .error other

/-- Where the summary lives and when its page is rendered. -/
structure RuleSummary where
  dir : Path
  regenerate : Regenerate
  /-- The period of `periodic`; 0 counts as 1. -/
  period : Nat

/-- What became of a module's diagnostics. -/
inductive RuleUpdate
  /-- The module has no diagnostics. -/
  | skipped
  /-- The module founded the summary. -/
  | initial
  /-- The module was merged, and the page rendered or not. -/
  | merged (rendered : Bool)
  deriving DecidableEq, Inhabited

/-- An update in the log. -/
def RuleUpdate.describe : RuleUpdate → String
  | skipped => "Skipped"
  | initial => "Initial"
  | merged rendered => "Merged \x7b rendered: " ++ (if rendered then "true" else "false") ++ " \x7d"

namespace RuleSummary

/-- The file name of the document. -/
def documentName : String := "summary-by-rule.xml"

/-- The file name of the page. -/
def pageName : String := "summary-by-rule.html"

/-- The file name of the snapshot. -/
def snapshotName : String := ".summary-by-rule.prev.xml"

/-- The path of the document. -/
def document (r : RuleSummary) : Path := r.dir / documentName

/-- The path of the page. -/
def page (r : RuleSummary) : Path := r.dir / pageName

/-- The path of the snapshot. -/
def snapshot (r : RuleSummary) : Path := r.dir / snapshotName

/-- The target of the summary's log records. -/
def logTarget : String := "lintfold::summary::rule"

/-- The frame of the page. -/
def frame : Page := { title := "Summary by rule", view := .byRule }

/-- Whether the page is rendered with the `n`-th update. -/
def due (r : RuleSummary) (n : Nat) : Bool :=
  match r.regenerate with
  | .continuous => true
  | .periodic => n % max r.period 1 = 0
  | .once | .never => false

/-- Puts the snapshot back, if there is one. -/
def restore (r : RuleSummary) : Script Unit := do
  if ← isPresent r.snapshot then
    match ← request (.rename r.snapshot r.document) with
    | .ok () => return ()
    | .error fault =>
      log .warn logTarget
        ("Could not restore " ++ r.document.text ++ " from snapshot: " ++ fault.message)

/-- Removes the snapshot, if there is one. -/
def discard (r : RuleSummary) : Script Unit := do
  if ← isPresent r.snapshot then
    match ← request (.remove r.snapshot) with
    | .ok () => return ()
    | .error fault =>
      log .debug logTarget ("Could not remove " ++ r.snapshot.text ++ ": " ++ fault.message)

/-- Writes the module's own page as the first page if it is due, else notes that it is still to be
rendered. -/
def foundPage (r : RuleSummary) (n : Nat) (modulePage : String) : Script (Except Error Unit) := do
  if r.due n then replaceFile r.page modulePage
  else
    let _ ← request (.setPending (r.regenerate ≠ .never))
    return .ok ()

/-- Founds the summary with its first document. -/
def found (r : RuleSummary) (n : Nat) (d : Document) (modulePage : String) :
    Script (Except Error RuleUpdate) := do
  match ← saveDocument r.document d with
  | .error e => return .error e
  | .ok () =>
    match ← r.foundPage n modulePage with
    | .error e => return .error e
    | .ok () =>
      log .info logTarget ("Started rule summary at " ++ r.document.text)
      return .ok .initial

/-- The document so far, by way of the snapshot; none gives the empty one. -/
def prior (r : RuleSummary) : Script (Except Error Document) := do
  if ← isPresent r.document then
    match ← request (.copy r.document r.snapshot) with
    | .error fault => return .error (.file r.snapshot fault)
    | .ok () => loadDocument r.snapshot
  else return .ok {}

/-- Renders the page of a merged document if it is due, else notes that it is still to be done. -/
def refresh (r : RuleSummary) (n : Nat) (merged : Document) : Script (Except Error Bool) := do
  if r.due n then
    match ← replaceFile r.page (frame.render (← request .now) merged) with
    | .error e => return .error e
    | .ok () =>
      let _ ← request (.setPending false)
      return .ok true
  else
    if r.regenerate ≠ .never then
      let _ ← request (.setPending true)
    return .ok false

/-- Merges a document into the summary. -/
def extend (r : RuleSummary) (n : Nat) (d : Document) : Script (Except Error RuleUpdate) := do
  match ← r.prior with
  | .error e => return .error e
  | .ok prior =>
    let merged := prior.merge d
    match ← saveDocument r.document merged with
    | .error e =>
      r.discard
      return .error e
    | .ok () =>
      match ← r.refresh n merged with
      | .error e =>
        r.restore
        return .error e
      | .ok rendered =>
        r.discard
        log .debug logTarget
          ("Rule summary now holds " ++ toString merged.size ++ " diagnostic(s)")
        return .ok (.merged rendered)

/-- Whether the summary has a document or a page. -/
def isFounded (r : RuleSummary) : Script Bool := do
  if ← isPresent r.document then return true else isPresent r.page

/-- Takes a module's document into the summary. -/
def update (r : RuleSummary) (d : Document) (modulePage : String) :
    Script (Except Error RuleUpdate) := do
  if d.isEmpty then return .ok .skipped
  else locked do
    let n ← request .countUpdate
    if ← r.isFounded then r.extend n d else r.found n d modulePage

/-- Renders the page if that is still to be done, and tells whether it was. -/
def finish (r : RuleSummary) : Script (Except Error Bool) := do
  if ← request .takePending then
    locked do
      match ← loadDocument r.document with
      | .error e => return .error e
      | .ok merged =>
        match ← replaceFile r.page (frame.render (← request .now) merged) with
        | .error e => return .error e
        | .ok () => return .ok true
  else return .ok false

end RuleSummary

end LintDigest
