import LintDigest.Severity

/-!
# Diagnostic documents

A document is a list of file groups in order of discovery. `pushGroup` appends to the group of the
same path or opens a new one, so documents built by it name each path once. `entries` is the view
that all counting goes by.
-/

namespace LintDigest

/-- One finding of a tool; line 0 stands for the whole file or an unknown line. -/
structure Diagnostic where
  line : UInt32
  severity : Severity
  message : String
  /-- The tool and its rule, written `tool:rule`, when the tool names one. -/
  source : Option String := none
  deriving DecidableEq, Inhabited

/-- The diagnostics of one file, in order of discovery. -/
structure FileGroup where
  path : String
  diagnostics : List Diagnostic
  deriving DecidableEq, Inhabited

/-- File groups in order of discovery. -/
structure Document where
  groups : List FileGroup := []
  deriving DecidableEq, Inhabited

/-- Number of diagnostics of each severity, and of files that have any. -/
structure Counts where
  errors : Nat := 0
  warnings : Nat := 0
  infos : Nat := 0
  files : Nat := 0
  deriving DecidableEq, Inhabited

namespace Counts

/-- The number of diagnostics of one severity. -/
def get (c : Counts) : Severity → Nat
  | .error => c.errors
  | .warning => c.warnings
  | .info => c.infos

/-- One diagnostic more. -/
def tally (c : Counts) : Severity → Counts
  | .error => { c with errors := c.errors + 1 }
  | .warning => { c with warnings := c.warnings + 1 }
  | .info => { c with infos := c.infos + 1 }

/-- Totals are kept in words of 64 bits. -/
def wordSize : Nat := 18446744073709551616

/-- Sum, field by field, in words. -/
def add (a b : Counts) : Counts where
  errors := (a.errors + b.errors) % wordSize
  warnings := (a.warnings + b.warnings) % wordSize
  infos := (a.infos + b.infos) % wordSize
  files := (a.files + b.files) % wordSize

end Counts

namespace Document

/-- The groups with `g` added: onto the first group of its path, else at the end. -/
def addGroup : List FileGroup → FileGroup → List FileGroup
  | [], g => [g]
  | h :: hs, g =>
    if h.path = g.path then { h with diagnostics := h.diagnostics ++ g.diagnostics } :: hs
    else h :: addGroup hs g

/-- Adds a whole group, onto the group of the same path when there is one. -/
def pushGroup (d : Document) (g : FileGroup) : Document :=
  ⟨addGroup d.groups g⟩

/-- Adds one diagnostic to the group of `path`, which is created when missing. -/
def push (d : Document) (path : String) (x : Diagnostic) : Document :=
  d.pushGroup ⟨path, [x]⟩

/-- The document that groups a list of located diagnostics. -/
def ofEntries (es : List (String × Diagnostic)) : Document :=
  es.foldl (fun d (path, x) => d.push path x) {}

/-- The first group of `path`. -/
def group? (d : Document) (path : String) : Option FileGroup :=
  d.groups.find? (·.path = path)

/-- Every diagnostic with its path, in document order. -/
def entries (d : Document) : List (String × Diagnostic) :=
  d.groups.flatMap fun g => g.diagnostics.map fun x => (g.path, x)

/-- No group has a diagnostic. -/
def isEmpty (d : Document) : Bool :=
  d.groups.all (·.diagnostics.isEmpty)

/-- Number of diagnostics, by the lengths of the groups. -/
def size (d : Document) : Nat :=
  d.groups.foldl (fun n g => n + g.diagnostics.length) 0

/-- Number of diagnostics of one severity. -/
def count (d : Document) (s : Severity) : Nat :=
  (d.entries.filter (·.2.severity = s)).length

/-- All counts of a document, tallied in one walk over its entries. -/
def counts (d : Document) : Counts :=
  let tallied : Counts := d.entries.foldl (fun c e => c.tally e.2.severity) {}
  { tallied with files := (d.groups.filter (!·.diagnostics.isEmpty)).length }

end Document

end LintDigest
