import LintDigest.CommandLine
import LintDigest.Modules
import LintDigest.Outcome.Print

/-!
# The program

Each command as a script. A command that cannot do its work complains and fails; a command whose
work fails the gate is rejected.
-/

namespace LintDigest

open Script Storage

/-- How the program ends. -/
inductive Exit
  | success
  /-- The gate has failed. -/
  | rejected
  /-- The work could not be done. -/
  | failed
  deriving DecidableEq, Inhabited

/-- The exit code. -/
def Exit.code : Exit → Nat
  | success => 0
  | rejected => 1
  | failed => 2

/-- The exit of a refused command line; to have asked for help or the version is no failure. -/
def CommandLine.Refusal.exit : CommandLine.Refusal → Exit
  | help | version => .success
  | _ => .failed

namespace Program

/-- The name of the program. -/
def name : String := "lintfold"

/-- The version of the program. -/
def version : String := "0.1.0"

/-- What is printed when the version is asked for. -/
def versionLine : String :=
  name ++ " " ++ version ++ "\n"

/-- The filter of the log when none is asked for. -/
def defaultFilter : String := "lintfold=info"

/-- The target of the program's own log records. -/
def logTarget : String := "lintfold"

/-- The name of the lock that guards the summaries. -/
def lockName : String := "lintfold.summary"

/-- The mark in front of an error. -/
def errorMark (colour : Bool) : String :=
  Text.styled colour [.red, .bold] "error:"

/-- The mark in front of a note. -/
def noteMark (colour : Bool) : String :=
  Text.styled colour [.cyan, .bold] "note:"

/-- Complains about an error. -/
def complain (colour : Bool) (message : String) : Script Unit :=
  request (.complain (errorMark colour ++ " " ++ message ++ "\n"))

/-- Complains, and ends. -/
def fail (colour : Bool) (message : String) : Script Exit := do
  complain colour message
  return .failed

/-- Goes on with a value, or complains about the error and ends. -/
def orFail {α : Type} (colour : Bool) (work : Script (Except Error α)) (next : α → Script Exit) :
    Script Exit := do
  match ← work with
  | .ok a => next a
  | .error e => fail colour e.message

/-- Goes on with the configuration in force. -/
def configured (colour : Bool) (overrides : Overrides) (order : MapOrder)
    (next : Config → Script Exit) : Script Exit :=
  orFail colour (Config.discover overrides order) fun config => do
    if !config.found then
      request (.complain (noteMark colour ++ " No lintfold.toml found; using defaults.\n"))
    next config

/-- Starts a session; old summaries that cannot be removed are only logged. -/
def startSession (s : Session) : Script Unit := do
  match ← s.begin with
  | .ok () => return ()
  | .error e => log .warn logTarget ("Could not reset previous summaries: " ++ e.message)

/-- Prints the outcomes; one that did not pass rejects the whole. -/
def conclude (colour : Bool) (config : Config) (outcomes : List Outcome) : Script Exit := do
  let _ : Unit ← request (.print (Outcome.output config.output colour outcomes))
  return if outcomes.all Outcome.passed then .success else .rejected

/-- Takes one module through the session. -/
def report (colour : Bool) (module : Option String) (newSession : Bool) (overrides : Overrides)
    (order : MapOrder) : Script Exit :=
  configured colour overrides order fun config => do
    let session := config.session
    if newSession then startSession session
    let outcome ← session.process (← absolute ⟨module.getD "."⟩)
    session.finish
    conclude colour config [outcome]

/-- Takes the given modules through a new session. -/
def runOver (colour : Bool) (config : Config) (dirs : List Path) : Script Exit := do
  if dirs.isEmpty then fail colour "no module directories matched"
  else
    let session := config.session
    startSession session
    let outcomes ← session.processAll dirs
    session.finish
    conclude colour config outcomes

/-- Takes all modules through a new session: those that match the patterns of the command line, else
those of the configuration, else the root alone. -/
def run (colour : Bool) (patterns : List String) (overrides : Overrides) (order : MapOrder) :
    Script Exit :=
  configured colour overrides order fun config => do
    let patterns := if patterns.isEmpty then config.modules else patterns
    if patterns.isEmpty then runOver colour config [config.repoRoot]
    else
      match ← Modules.find config.repoRoot patterns with
      | .error fault => fail colour fault.message
      | .ok dirs => runOver colour config dirs

/-- Reads documents; one that cannot be read is logged and left out. -/
def loadAll : List String → Script (List Document)
  | [] => return []
  | input :: inputs => do
    match ← loadDocument ⟨input⟩ with
    | .ok d => return d :: (← loadAll inputs)
    | .error e =>
      log .error logTarget ("Skipping " ++ input ++ ": " ++ e.message)
      loadAll inputs

/-- Merges documents into one. -/
def merge (colour : Bool) (out : String) (inputs : List String) (output : Option String) :
    Script Exit := do
  let merged := Document.mergeAll (← loadAll inputs)
  orFail colour (saveDocument ⟨out⟩ merged) fun () => do
    let _ : Unit ← request (.print (merged.countsOutput (output.getD "human")))
    return .success

/-- Renders a document as a page. -/
def render (colour : Bool) (input out : String) (byRule : Bool) (title : Option String) :
    Script Exit :=
  orFail colour (loadDocument ⟨input⟩) fun d => do
    let plain : Page := {}
    let page : Page :=
      { title := title.getD plain.title, view := if byRule then .byRule else plain.view }
    let text := page.render (← request .now) d
    orFail colour (replaceFile ⟨out⟩ text) fun () => return .success

/-- Puts a document before the gate. -/
def gate (colour : Bool) (input : String) (overrides : Overrides) (order : MapOrder) :
    Script Exit :=
  configured colour overrides order fun config =>
    orFail colour (loadDocument ⟨input⟩) fun d => do
      let _ : Unit ← request (.print (d.countsOutput config.output))
      match config.thresholds.judge d with
      | none => return .success
      | some failure =>
        complain colour failure.message
        return .rejected

/-- Does what a command says. Modules are taken one after another, whatever number of jobs is asked
for. -/
def execute (colour : Bool) (command : Command) (order : MapOrder := .written) : Script Exit :=
  match command with
  | .version => do
    let _ : Unit ← request (.print (version ++ "\n"))
    return .success
  | .report module newSession overrides => report colour module newSession overrides order
  | .run patterns _ overrides => run colour patterns overrides order
  | .merge out inputs output => merge colour out inputs output
  | .render input out byRule title => render colour input out byRule title
  | .gate input overrides => gate colour input overrides order

end Program

end LintDigest
