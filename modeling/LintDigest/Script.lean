import LintDigest.Lock
import LintDigest.Log
import LintDigest.Tree.Basic

/-!
# Scripts

A script is a program written as a sequence of requests to its surroundings: file operations, log
records, the summary lock, the clock. It can be run against a `Workspace` in one go, one request at
a time between the requests of other threads, or for real. `run_bind` says that running one script
after another is running their composition.
-/

namespace LintDigest

/-- What a script may ask for. -/
inductive Request
  /-- What stands at a path. -/
  | stat (p : Path)
  /-- The text of a file. -/
  | read (p : Path)
  /-- The names in a directory. -/
  | list (p : Path)
  /-- Creates a directory and the ancestors it lacks. -/
  | makeDirs (p : Path)
  /-- Creates an empty file of a new name in a directory. -/
  | scratch (dir : Path)
  /-- Sets the text of a file. -/
  | fill (p : Path) (text : String)
  | rename (p q : Path)
  | copy (p q : Path)
  | remove (p : Path)
  /-- The current directory. -/
  | cwd
  /-- The present moment, as pages show it. -/
  | now
  | log (r : Log.Record)
  /-- Writes to the standard output. -/
  | print (text : String)
  /-- Writes to the standard error. -/
  | complain (text : String)
  /-- Waits for the summary lock. -/
  | acquire
  /-- Gives up one hold of the summary lock. -/
  | release
  /-- The name of the summary lock. -/
  | lockName
  /-- Counts one more update of the rule summary, and gives its number. -/
  | countUpdate
  /-- Notes whether the page of the rule summary is still to be rendered. -/
  | setPending (pending : Bool)
  /-- Whether that page is still to be rendered; the note is taken down. -/
  | takePending

/-- The type of the answer to a request. -/
abbrev Request.Answer : Request → Type
  | stat _ => Option EntryKind
  | read _ => Except FileFault String
  | list _ => Except FileFault (List String)
  | makeDirs _ => Except FileFault Unit
  | scratch _ => Except FileFault Path
  | fill _ _ => Except FileFault Unit
  | rename _ _ => Except FileFault Unit
  | copy _ _ => Except FileFault Unit
  | remove _ => Except FileFault Unit
  | cwd => Path
  | now => String
  | log _ => Unit
  | print _ => Unit
  | complain _ => Unit
  | acquire => Unit
  | release => Unit
  | lockName => String
  | countUpdate => Nat
  | setPending _ => Unit
  | takePending => Bool

/-- A sequence of requests that ends in a value. -/
inductive Script (α : Type) : Type
  | done (a : α)
  | ask (r : Request) (next : r.Answer → Script α)

namespace Script

variable {α β : Type}

/-- One script after another. -/
def bind : Script α → (α → Script β) → Script β
  | done a, f => f a
  | ask r next, f => ask r fun answer => (next answer).bind f

instance : Monad Script where
  pure := done
  bind := bind

/-- The script of one request. -/
def request (r : Request) : Script r.Answer :=
  ask r done

/-- Writes a log record. -/
def log (level : Log.Level) (target message : String) : Script Unit :=
  request (.log ⟨level, target, message⟩)

/-- Whether anything stands at a path. -/
def isPresent (p : Path) : Script Bool := do
  let kind : Option EntryKind ← request (.stat p)
  return kind.isSome

/-- Whether a path leads to a regular file. -/
def isFile (p : Path) : Script Bool := do
  let kind : Option EntryKind ← request (.stat p)
  return kind = some .file

/-- Whether a path leads to a directory. -/
def isDir (p : Path) : Script Bool := do
  let kind : Option EntryKind ← request (.stat p)
  return kind = some .dir

/-- A path as seen from the current directory. -/
def absolute (p : Path) : Script Path := do
  if p.isAbsolute then return p
  else
    let cwd : Path ← request .cwd
    return cwd.join p

/-- Runs a script while holding the summary lock. -/
def locked (body : Script α) : Script α := do
  let _ : Unit ← request .acquire
  let a ← body
  let _ : Unit ← request .release
  return a

@[simp] theorem done_bind (a : α) (f : α → Script β) : (done a >>= f) = f a := rfl

@[simp] theorem ask_bind (r : Request) (next : r.Answer → Script α) (f : α → Script β) :
    (ask r next >>= f) = ask r fun answer => next answer >>= f := rfl

@[simp] theorem pure_eq_done (a : α) : (pure a : Script α) = done a := rfl

theorem bind_assoc {γ : Type} (s : Script α) (f : α → Script β) (g : β → Script γ) :
    s >>= f >>= g = s >>= fun a => f a >>= g := by
  induction s with
  | done a => rfl
  | ask r next ih => simp only [ask_bind]; congr 1; funext answer; exact ih answer

theorem bind_done (s : Script α) : s >>= done = s := by
  induction s with
  | done a => rfl
  | ask r next ih => rw [ask_bind]; congr 1; funext answer; exact ih answer

instance : LawfulMonad Script := LawfulMonad.mk' Script bind_done (fun _ _ => rfl) bind_assoc

end Script

end LintDigest
