import LintDigest.CommandLine.Words
import LintDigest.Config.Basic

/-!
# Commands
-/

namespace LintDigest

/-- What the program can be told to do. -/
inductive Command
  /-- Prints the version. -/
  | version
  /-- Takes one module through a session. -/
  | report (module : Option String) (newSession : Bool) (overrides : Overrides)
  /-- Takes all modules that match patterns through a new session. -/
  | run (patterns : List String) (jobs : Option Nat) (overrides : Overrides)
  /-- Merges documents. -/
  | merge (out : String) (inputs : List String) (output : Option String)
  /-- Renders a document as a page. -/
  | render (input out : String) (byRule : Bool) (title : Option String)
  /-- Puts a document before the gate. -/
  | gate (input : String) (overrides : Overrides)
  deriving DecidableEq, Inhabited

namespace CommandLine

/-- The switches that set thresholds. -/
def thresholdSwitches : List String :=
  ["fail-on-error", "fail-on-warning", "fail-on-info", "no-fail"]

/-- The options of the commands that run a session. -/
def sessionOptions : List String :=
  ["repo-root", "output", "output-dir", "summary-dir", "regenerate"]

/-- The switches of the commands that run a session. -/
def sessionSwitches : List String :=
  "no-console" :: thresholdSwitches

/-- What a threshold switch decides. `no-fail` decides against all of them. -/
def threshold? (r : Reading) (name : String) : Option Bool :=
  if r.has "no-fail" then some false
  else if r.has name then some true
  else none

/-- What the options and switches of a session set. -/
def overridesOf (r : Reading) : Overrides where
  repoRoot := r.option? "repo-root"
  output := r.option? "output"
  outputDir := r.option? "output-dir"
  summaryDir := r.option? "summary-dir"
  console := if r.has "no-console" then some false else none
  failOnError := threshold? r "fail-on-error"
  failOnWarning := threshold? r "fail-on-warning"
  failOnInfo := threshold? r "fail-on-info"
  regenerate := r.option? "regenerate"

/-- A command by its name: its grammar, and the command that a reading stands for. -/
structure Verb where
  name : String
  grammar : Grammar
  command : Reading → Except Refusal Command

/-- All commands. -/
def verbs : List Verb :=
  [ { name := "version"
      grammar := {}
      command := fun _ => .ok .version },
    { name := "report"
      grammar :=
        { options := "module" :: sessionOptions
          switches := "new-session" :: sessionSwitches }
      command := fun r =>
        .ok (.report (r.option? "module") (r.has "new-session") (overridesOf r)) },
    { name := "run"
      grammar :=
        { options := "jobs" :: sessionOptions
          numeric := ["jobs"]
          switches := sessionSwitches
          most := none }
      command := fun r =>
        let jobs := (r.option? "jobs").bind fun s => Text.decimal? Text.maxLong s.toList
        .ok (.run r.operands jobs (overridesOf r)) },
    { name := "merge"
      grammar := { options := ["output"], least := 2, most := none }
      command := fun r =>
        match r.operands with
        | out :: inputs => .ok (.merge out inputs (r.option? "output"))
        | [] => .error .missingOperand },
    { name := "render"
      grammar := { options := ["title"], switches := ["by-rule"], least := 2, most := some 2 }
      command := fun r =>
        match r.operands with
        | [input, out] => .ok (.render input out (r.has "by-rule") (r.option? "title"))
        | _ => .error .missingOperand },
    { name := "gate"
      grammar :=
        { options := ["repo-root"], switches := thresholdSwitches, least := 1, most := some 1 }
      command := fun r =>
        match r.operands with
        | [input] => .ok (.gate input (overridesOf r))
        | _ => .error .missingOperand } ]

/-- The command of a name. -/
def verb? (name : String) : Option Verb :=
  verbs.find? (·.name = name)

/-- Whether a word is the name of a command or `help`. -/
def isCommand (word : String) : Bool :=
  word = "help" || (verb? word).isSome

/-- What the words behind `help` lead to: at most one may follow, the name of a command. -/
def readHelp : List String → Refusal
  | [] => .help
  | [word] => if isCommand word then .help else .unknownCommand
  | _ => .unknownCommand

/-- Reads the words of a command line. -/
def parse : List String → Except Refusal Command
  | [] | ["--"] => .error .nothing
  | "--" :: word :: _ => .error (if isCommand word then .unknownWord else .unknownCommand)
  | "help" :: words => .error (readHelp words)
  | word :: words =>
    match Word.ofText word with
    | .long "help" none | .short 'h' => .error .help
    | .long "version" none | .short 'V' => .error .version
    | .long "help" (some _) | .long "version" (some _) => .error .surplusValue
    | .long _ _ | .short _ => .error .unknownWord
    | .divider | .plain _ =>
      match verb? word with
      | some verb => do verb.command (← Reading.ofWords verb.grammar words)
      | none => .error .unknownCommand

/-- How the program is called. -/
def usage : String :=
  "Usage: lintfold <COMMAND>\n\nCommands:\n" ++
    String.join (verbs.map fun v => "  " ++ v.name ++ "\n") ++ "  help\n"

end CommandLine

end LintDigest
