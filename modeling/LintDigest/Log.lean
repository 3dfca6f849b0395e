import LintDigest.Text.Blank
import LintDigest.Text.Terminal

/-!
# Log records

A record has a level and a target. A filter is a list of directives; of those whose name starts the
record's target, the one with the longest name decides.
-/

namespace LintDigest.Log

/-- How important a record is. -/
inductive Level
  | error
  | warn
  | info
  | debug
  deriving DecidableEq, Inhabited

namespace Level

/-- The name of a level. -/
def name : Level → String
  | error => "ERROR"
  | warn => "WARN"
  | info => "INFO"
  | debug => "DEBUG"

/-- How many levels a filter must admit to let this one through. -/
def depth : Level → Nat
  | error => 1
  | warn => 2
  | info => 3
  | debug => 4

end Level

/-- One entry of the log. -/
structure Record where
  level : Level
  target : String
  message : String
  deriving DecidableEq, Inhabited

/-- The record as a line; further lines of its message are indented, and what would steer a terminal
is left out. -/
def Record.line (r : Record) (stamp : String) : String :=
  let level := r.level.name ++ "".pushn ' ' (5 - r.level.name.length)
  Text.visible ("[" ++ stamp ++ " " ++ level ++ " " ++ r.target ++ "] " ++
    "\n    ".intercalate (r.message.splitOn "\n") ++ "\n")

/-- A directive admits the first `depth` levels of the targets that start with its name, or of all
targets. -/
structure Directive where
  name : Option String
  depth : Nat
  deriving DecidableEq, Inhabited

/-- The number of levels that a level word admits. -/
def depth? (word : String) : Option Nat :=
  match word.toLower with
  | "off" => some 0
  | "error" => some 1
  | "warn" => some 2
  | "info" => some 3
  | "debug" => some 4
  | "trace" => some 5
  | _ => none

/-- A text without the white space at its two ends. -/
def trimmed (s : String) : String := String.ofList (Text.trim s.toList)

/-- Reads one directive: a level, a target, or a target and a level. One that cannot be read gives
the part that is at fault. -/
def readDirective (spec : String) : Except String Directive :=
  match spec.splitOn "=" with
  | [word] =>
    match depth? word with
    | some depth => .ok ⟨none, depth⟩
    | none => .ok ⟨some word, 5⟩
  | [name, word] =>
    if trimmed word = "" then .ok ⟨some name, 5⟩
    else
      match depth? (trimmed word) with
      | some depth => .ok ⟨some name, depth⟩
      | none => .error (trimmed word)
  | _ => .error spec

/-- A filter: its directives, and the parts of its text that could not be read. -/
structure Filter where
  directives : List Directive := []
  unread : List String := []
  deriving Inhabited

namespace Filter

/-- Adds a directive; it takes the place of one of the same name. -/
def add (f : Filter) (d : Directive) : Filter :=
  if f.directives.any (·.name = d.name) then
    { f with directives := f.directives.map fun e => if e.name = d.name then d else e }
  else { f with directives := f.directives ++ [d] }

/-- Reads one more directive. -/
def read (f : Filter) (spec : String) : Filter :=
  match readDirective spec with
  | .ok d => f.add d
  | .error part => { f with unread := f.unread ++ [part] }

/-- Reads a filter: directives with commas between them. Without any, only errors pass. -/
def parse (spec : String) : Filter :=
  let f := (((spec.splitOn ",").map trimmed).filter (· ≠ "")).foldl read {}
  if f.directives.isEmpty then f.add ⟨none, 1⟩ else f

/-- What is said about the parts that could not be read. -/
def warnings (f : Filter) : String :=
  String.join (f.unread.map fun part =>
    "warning: invalid logging spec \x27" ++ part ++ "\x27, ignoring it\n")

/-- The length of a directive's name. -/
def nameSize (d : Directive) : Nat := d.name.elim 0 String.utf8ByteSize

/-- Whether a record passes. Of directives with names of one length the last one counts. -/
def admits (f : Filter) (r : Record) : Bool :=
  let fitting := f.directives.filter fun d => d.name.all fun name => r.target.startsWith name
  let best := fitting.foldl
    (fun (b : Option Directive) d =>
      match b with
      | none => some d
      | some b => if nameSize b ≤ nameSize d then some d else some b) none
  match best with
  | none => false
  | some d => r.level.depth ≤ d.depth

end Filter

end LintDigest.Log
