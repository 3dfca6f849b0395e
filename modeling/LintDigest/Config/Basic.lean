import LintDigest.Config.File
import LintDigest.Session

/-!
# Configuration

The settings in force come from the command line, else from the configuration file at the root of
the repository, else from defaults. The root is the nearest ancestor that has a configuration file
or a `.git`.
-/

namespace LintDigest

open Script Storage

/-- What the command line may set. -/
structure Overrides where
  repoRoot : Option String := none
  output : Option String := none
  outputDir : Option String := none
  summaryDir : Option String := none
  console : Option Bool := none
  failOnError : Option Bool := none
  failOnWarning : Option Bool := none
  failOnInfo : Option Bool := none
  regenerate : Option String := none
  deriving DecidableEq, Inhabited

/-- The settings in force. -/
structure Config where
  repoRoot : Path
  /-- Whether there is a configuration file. -/
  found : Bool
  output : String
  outputDir : String
  tools : List Tool
  /-- Report file names that differ from the usual ones; the latest first. -/
  inputs : List (Tool × String)
  console : Bool
  modules : List String
  thresholds : Thresholds
  summaryDir : Path
  regenerate : Regenerate
  period : Nat
  nameDepth : Nat
  deriving DecidableEq, Inhabited

namespace Config

/-- The name of a tool's report file. -/
def inputName (c : Config) (tool : Tool) : String :=
  (c.inputs.lookup tool).getD tool.defaultInput

/-- The session of a configuration. -/
def session (c : Config) : Session where
  outputDir := c.outputDir
  inputs := c.tools.map fun tool => (tool, c.inputName tool)
  console := c.console
  thresholds := c.thresholds
  summaryDir := c.summaryDir
  regenerate := c.regenerate
  period := c.period
  nameDepth := c.nameDepth

/-! ## Finding and reading the file -/

/-- The file name of a configuration in TOML, which comes before all others. -/
def tomlName : String := "lintfold.toml"

/-- The file names of a configuration in YAML, in order of preference. -/
def yamlNames : List String := ["lintfold.yaml", "lintfold.yml"]

/-- Whether any of the names exists in a directory. -/
def hasAny (dir : Path) : List String → Script Bool
  | [] => return false
  | name :: names => do
    if ← isPresent (dir / name) then return true else hasAny dir names

/-- Whether a directory is marked as the root of a repository. -/
def isMarked (dir : Path) : Script Bool :=
  hasAny dir (tomlName :: yamlNames ++ [".git"])

/-- The first path that is marked as a root. -/
def firstMarked : List Path → Script (Option Path)
  | [] => return none
  | p :: ps => do
    if ← isMarked p then return some p else firstMarked ps

/-- The path and those of its ancestors that are not empty. -/
def rootCandidates (start : Path) : List Path :=
  start :: start.ancestors.tail.takeWhile (·.text ≠ "")

/-- The nearest marked ancestor of a path, else the path itself. -/
def detectRoot (start : Path) : Script Path := do
  return (← firstMarked (rootCandidates start)).getD start

/-- Reads a configuration file. -/
def loadFile (p : Path) (read : String → Except String ConfigFile) :
    Script (Except Error ConfigFile) := do
  match ← readText p with
  | .error e => return .error e
  | .ok text =>
    match read text with
    | .error reason => return .error (.config (.badFile p reason))
    | .ok file => return .ok file

/-- Reads the first of the YAML files that exists. -/
def loadYaml (root : Path) : List String → Script (Except Error (Option ConfigFile))
  | [] => return .ok none
  | name :: names => do
    if ← isPresent (root / name) then
      return (← loadFile (root / name) ConfigFile.ofYaml).map some
    else loadYaml root names

/-- Reads the configuration file at a root, if there is one. -/
def load (root : Path) : Script (Except Error (Option ConfigFile)) := do
  if ← isPresent (root / tomlName) then
    return (← loadFile (root / tomlName) ConfigFile.ofToml).map some
  else loadYaml root yamlNames

/-! ## Resolving -/

/-- A tool name in a configuration. -/
def parseTool (s : String) : Except ConfigFault Tool :=
  (Tool.parse s).mapError .unknownTool

/-- Takes report file names into account, one after the other. -/
def collectInputs (entries : List (String × String)) :
    Except ConfigFault (List (Tool × String)) :=
  entries.foldlM (fun inputs (name, file) => do return (← parseTool name, file) :: inputs) []

/-- The settings in force, given what the command line and the file say. The report file names of the
file are gone through in the order in which its map lists them. -/
def resolve (order : MapOrder) (root : Path) (cli : Overrides) (file : Option ConfigFile) :
    Except ConfigFault Config := do
  let cfg := file.getD {}
  let output := (cli.output <|> cfg.output).getD "human"
  if output ≠ "human" ∧ output ≠ "json" then throw (.badOutput output)
  let tools ←
    match cfg.sources with
    | some names => names.mapM parseTool
    | none => pure Tool.all
  let inputs ← collectInputs (order.list cfg.inputs)
  let failOn := cfg.failOn.getD {}
  let defaults : Thresholds := {}
  let summary := cfg.summary.getD {}
  let regenerate ←
    match cli.regenerate <|> summary.regenerate with
    | some word => (Regenerate.parse word).mapError ConfigFault.unknownRegenerate
    | none => pure Regenerate.continuous
  return {
    repoRoot := root
    found := file.isSome
    output
    outputDir := (cli.outputDir <|> cfg.outputDir).getD "target"
    tools
    inputs
    console := (cli.console <|> cfg.console).getD true
    modules := cfg.modules
    thresholds :=
      { error := (cli.failOnError <|> failOn.error).getD defaults.error
        warning := (cli.failOnWarning <|> failOn.warning).getD defaults.warning
        info := (cli.failOnInfo <|> failOn.info).getD defaults.info }
    summaryDir := root / ((cli.summaryDir <|> summary.dir).getD "target/lintfold-summary")
    regenerate
    period := summary.period.getD 5
    nameDepth := summary.nameDepth.getD 2 }

/-- Finds the root, reads its configuration and resolves the settings in force. -/
def discover (cli : Overrides) (order : MapOrder := .written) : Script (Except Error Config) := do
  let root ← detectRoot (← absolute ⟨cli.repoRoot.getD "."⟩)
  match ← load root with
  | .error e => return .error e
  | .ok file => return (resolve order root cli file).mapError .config

end Config

end LintDigest
