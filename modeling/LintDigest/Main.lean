import LintDigest.Program
import LintDigest.Workspace
import Std.Time

/-!
# The command line

Runs a command for real: the operating system answers the requests of its script.
-/

namespace LintDigest.System

/-- What stays the same, or is remembered, while a script runs. -/
structure Surroundings where
  filter : Log.Filter
  lock : IO.Ref Lock
  progress : IO.Ref Progress

/-- The number that the operating system gives an error, if there is one. -/
def errorNumber? : IO.Error → Option Nat
  | .alreadyExists _ code _ | .noFileOrDirectory _ code _ | .invalidArgument _ code _
  | .permissionDenied _ code _ | .resourceExhausted _ code _ | .inappropriateType _ code _
  | .noSuchThing _ code _ | .otherError code _ | .resourceBusy code _
  | .unsatisfiedConstraints code _ | .illegalOperation code _ =>
    some (if code.toNat < 0x80000000 then code.toNat else 0x100000000 - code.toNat)
  | _ => none

/-- The fault that an error stands for. -/
def faultOf (e : IO.Error) : FileFault :=
  match errorNumber? e with
  | some 2 => .notFound
  | some 16 => .busy
  | some 17 => .alreadyExists
  | some 20 => .notDirectory
  | some 21 => .isDirectory
  | some 22 => .invalid
  | some 36 => .nameTooLong
  | some 39 => .notEmpty
  | _ => .refused (toString e)

/-- The result of an action that may fail. -/
def attempt {α : Type} (action : IO α) : IO (Except FileFault α) :=
  try return .ok (← action)
  catch e => return .error (faultOf e)

/-- What stands at a path: what can be opened but not read from is a directory. -/
def stat (p : Path) : IO (Option EntryKind) := do
  match ← attempt (IO.FS.Handle.mk p.text .read) with
  | .error _ => return none
  | .ok handle =>
    match ← attempt (handle.read 1) with
    | .ok _ => return some .file
    | .error _ => return some .dir

/-- The text of a file. -/
def readText (p : Path) : IO (Except FileFault String) := do
  match ← attempt (IO.FS.readBinFile p.text) with
  | .error fault => return .error fault
  | .ok bytes =>
    match String.fromUTF8? bytes with
    | some text => return .ok text
    | none => return .error .notUtf8

/-- The names in a directory. -/
def list (p : Path) : IO (List String) := do
  let entries ← ((← IO.currentDir) / p.text).readDir
  return (entries.toList.map (·.fileName)).mergeSort

/-- Creates the first of the paths, after the others when it lacks its parent. -/
def makeDirsAlong : List Path → IO (Except FileFault Unit)
  | [] => return .error .notFound
  | p :: rest => do
    if p.text = "" then return .ok ()
    match ← attempt (IO.FS.createDir p.text) with
    | .ok () => return .ok ()
    | .error .notFound =>
      match ← makeDirsAlong rest with
      | .error fault => return .error fault
      | .ok () => attempt (IO.FS.createDir p.text)
    | .error fault => return if (← stat p) = some .dir then .ok () else .error fault

/-- Creates an empty file under the first of the names that is free. -/
def scratchAmong (dir : Path) : List String → IO (Except FileFault Path)
  | [] => return .error .alreadyExists
  | name :: names => do
    match ← attempt (IO.FS.Handle.mk (dir / name).text .writeNew) with
    | .ok _ => return .ok (dir / name)
    | .error .alreadyExists => scratchAmong dir names
    | .error fault => return .error fault

/-- The names tried for a scratch file. -/
def scratchNames : List String :=
  (List.range 1000).map Tree.scratchName

/-- Copies a regular file. -/
def copy (p q : Path) : IO (Except FileFault Unit) := do
  if (← stat p) = some .dir then return .error .notRegular
  attempt do IO.FS.writeBinFile q.text (← IO.FS.readBinFile p.text)

/-- The present moment on pages. -/
def now : IO String := do
  return (← Std.Time.PlainDateTime.now).format "uuuu-MM-dd HH:mm:ss"

/-- The present moment in the log. -/
def logStamp : IO String := do
  let moment ← Std.Time.Timestamp.now
  let utc := Std.Time.PlainDateTime.ofWallTime (.ofTimestamp moment .zero)
  return utc.format "uuuu-MM-dd\x27T\x27HH:mm:ss\x27Z\x27"

/-- The name of the only thread. -/
def thread : Thread := "main"

/-- Answers a request. -/
def answer (s : Surroundings) : (r : Request) → IO r.Answer
  | .stat p => stat p
  | .read p => readText p
  | .list p => attempt (list p)
  | .makeDirs p => makeDirsAlong p.ancestors
  | .scratch dir => scratchAmong dir scratchNames
  | .fill p text => attempt (IO.FS.writeFile p.text text)
  | .rename p q => attempt (IO.FS.rename p.text q.text)
  | .copy p q => copy p q
  | .remove p => attempt (IO.FS.removeFile p.text)
  | .cwd => return ⟨(← IO.currentDir).toString⟩
  | .now => now
  | .log r => do IO.eprint ((Event.logged r).errorOutput s.filter (← logStamp))
  | .print text => IO.print text
  | .complain text => IO.eprint text
  | .acquire => s.lock.modify fun l => (l.acquire? thread).getD l
  | .release => s.lock.modify fun l => l.release thread
  | .lockName => return (← s.lock.get).name
  | .countUpdate => do
    s.progress.modify fun p => { p with updates := p.updates + 1 }
    return (← s.progress.get).updates
  | .setPending pending => s.progress.modify fun p => { p with pending }
  | .takePending => do
    let pending := (← s.progress.get).pending
    s.progress.modify fun p => { p with pending := false }
    return pending

/-- Runs a script. -/
def perform {α : Type} (s : Surroundings) : Script α → IO α
  | .done a => return a
  | .ask r next => do
    let a ← answer s r
    perform s (next a)

/-- The environment variable that filters the log. -/
def filterVariable : String := "RUST_LOG"

/-- The environment variable that turns colours off. -/
def plainVariable : String := "NO_COLOR"

/-- Tells why a command line was refused. -/
def explain (r : CommandLine.Refusal) : IO Unit :=
  match r with
  | .version => IO.print Program.versionLine
  | .help => IO.print CommandLine.usage
  | r => IO.eprint ("error: " ++ r.message ++ "\n\n" ++ CommandLine.usage)

/-- Runs the program with the words of a command line. -/
def run (words : List String) : IO Exit := do
  let filter := Log.Filter.parse ((← IO.getEnv filterVariable).getD Program.defaultFilter)
  let colour := (← IO.getEnv plainVariable).isNone
  IO.eprint filter.warnings
  match CommandLine.parse words with
  | .error r =>
    explain r
    return r.exit
  | .ok command =>
    let lock ← IO.mkRef ({ name := Program.lockName } : Lock)
    let progress ← IO.mkRef ({} : Progress)
    perform { filter, lock, progress } (Program.execute colour command)

end LintDigest.System

/-- The program. -/
def main (words : List String) : IO UInt32 := do
  return UInt32.ofNat (← LintDigest.System.run words).code
