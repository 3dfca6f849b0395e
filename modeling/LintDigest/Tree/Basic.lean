import LintDigest.Path.Basic

/-!
# File trees

A tree maps places to entries. A place lists the names on the way up from an entry to the root, so
the parent of a place is its tail. `resolve` walks a path through a tree the way an operating system
does: every step needs a directory to start from, and `..` is taken from where the walk stands.
-/

namespace LintDigest

/-- Why a file operation fails. -/
inductive FileFault
  | notFound
  | busy
  | alreadyExists
  | notDirectory
  | isDirectory
  | invalid
  | nameTooLong
  | notEmpty
  | notUtf8
  | notRegular
  | zeroByte
  /-- Any other refusal, in the words of the operating system. -/
  | refused (text : String)
  deriving DecidableEq, Inhabited

/-- The text of a fault in error messages. -/
def FileFault.message : FileFault → String
  | notFound => "No such file or directory (os error 2)"
  | busy => "Device or resource busy (os error 16)"
  | alreadyExists => "File exists (os error 17)"
  | notDirectory => "Not a directory (os error 20)"
  | isDirectory => "Is a directory (os error 21)"
  | invalid => "Invalid argument (os error 22)"
  | nameTooLong => "File name too long (os error 36)"
  | notEmpty => "Directory not empty (os error 39)"
  | notUtf8 => "stream did not contain valid UTF-8"
  | notRegular => "the source path is neither a regular file nor a symlink to a regular file"
  | zeroByte => "file name contained an unexpected NUL byte"
  | refused text => text

/-- What a file holds. -/
inductive Content
  | text (s : String)
  /-- Bytes that are no UTF-8 text. -/
  | binary (bytes : List UInt8)
  deriving DecidableEq, Inhabited

/-- What stands at a place. -/
inductive Entry
  | dir
  | file (content : Content)
  deriving DecidableEq, Inhabited

/-- The kind of an entry. -/
inductive EntryKind
  | dir
  | file
  deriving DecidableEq, Inhabited

/-- The kind of an entry. -/
def Entry.kind : Entry → EntryKind
  | dir => .dir
  | file _ => .file

/-- The names on the way from an entry up to the root, which is the empty place. -/
abbrev Place := List String

/-- Entries by place. The root is a directory without being listed. -/
structure Tree where
  entries : List (Place × Entry) := []
  deriving Inhabited

namespace Tree

/-- The entry at a place. -/
def get? (t : Tree) (p : Place) : Option Entry :=
  if p = [] then some .dir else t.entries.lookup p

/-- The tree with an entry put at a place. -/
def put (t : Tree) (p : Place) (e : Entry) : Tree :=
  ⟨(p, e) :: t.entries.filter (·.1 ≠ p)⟩

/-- The tree without the entry at a place. -/
def erase (t : Tree) (p : Place) : Tree :=
  ⟨t.entries.filter (·.1 ≠ p)⟩

/-- The places below a place. -/
def below (t : Tree) (p : Place) : List (Place × Entry) :=
  t.entries.filter fun e => p.isSuffixOf e.1 && e.1 ≠ p

/-- The names in a directory, in increasing order. -/
def names (t : Tree) (p : Place) : List String :=
  (t.entries.filterMap fun e =>
    match e.1 with
    | name :: parent => if parent = p then some name else none
    | [] => none).mergeSort

/-! ## Walking -/

/-- The longest name of an entry, in bytes. -/
def maxName : Nat := 255

/-- The longest path that can be walked, in bytes. -/
def maxPath : Nat := 4095

/-- One step of a walk. -/
def step (t : Tree) (here : Place) (name : String) : Except FileFault Place :=
  match t.get? here with
  | none => .error .notFound
  | some (.file _) => .error .notDirectory
  | some .dir =>
    if name = "." then .ok here
    else if name = ".." then .ok here.tail
    else if maxName < name.utf8ByteSize then .error .nameTooLong
    else if (t.get? (name :: here)).isSome then .ok (name :: here)
    else .error .notFound

/-- The names a path walks through, `.` and `..` among them. -/
def route (p : Path) : List String :=
  (Text.split (· == '/') p.text.toList).filter (· ≠ []) |>.map String.ofList

/-- Whether a path ends in a slash. -/
def trailing (p : Path) : Bool :=
  p.text.toList.getLast? = some '/'

/-- The place where the walk of a path starts. -/
def start (cwd : Place) (p : Path) : Except FileFault Place :=
  if p.text.toList.contains '\x00' then .error .zeroByte
  else if p.text = "" then .error .notFound
  else if maxPath < p.text.utf8ByteSize then .error .nameTooLong
  else .ok (if p.isAbsolute then [] else cwd)

/-- The place and the entry that a path leads to; behind a slash it must be a directory. -/
def resolve (t : Tree) (cwd : Place) (p : Path) : Except FileFault (Place × Entry) := do
  let place ← (route p).foldlM t.step (← start cwd p)
  match t.get? place with
  | none => .error .notFound
  | some (.file c) => if trailing p then .error .notDirectory else .ok (place, .file c)
  | some .dir => .ok (place, .dir)

/-- The spot that a path names, whether or not something stands there. -/
inductive Spot
  /-- The root, or a path that ends in `.` or `..`. -/
  | fixed
  /-- A name in an existing directory; `slash` when the path goes on with a slash. -/
  | child (parent : Place) (name : String) (slash : Bool)

/-- Finds the spot of a path: all its names but the last must lead to a directory. -/
def spot (t : Tree) (cwd : Place) (p : Path) : Except FileFault Spot := do
  let origin ← start cwd p
  match (route p).getLast? with
  | none => return .fixed
  | some name =>
    let parent ← (route p).dropLast.foldlM t.step origin
    match t.get? parent with
    | none => throw FileFault.notFound
    | some (.file _) => throw FileFault.notDirectory
    | some .dir =>
      if name = "." ∨ name = ".." then return .fixed
      else if maxName < name.utf8ByteSize then throw FileFault.nameTooLong
      else return .child parent name (trailing p)

/-! ## Operations

Each operation gives its result and the tree it leaves behind; one that fails may have changed the
tree only where its description says so. -/

/-- What stands at a path. -/
def stat (t : Tree) (cwd : Place) (p : Path) : Option EntryKind :=
  match t.resolve cwd p with
  | .ok (_, e) => some e.kind
  | .error _ => none

/-- The text of a file. -/
def read (t : Tree) (cwd : Place) (p : Path) : Except FileFault String := do
  match ← t.resolve cwd p with
  | (_, .dir) => .error .isDirectory
  | (_, .file (.binary _)) => .error .notUtf8
  | (_, .file (.text s)) => .ok s

/-- The names in the directory that a path leads to. -/
def list (t : Tree) (cwd : Place) (p : Path) : Except FileFault (List String) := do
  match ← t.resolve cwd p with
  | (place, .dir) => .ok (t.names place)
  | (_, .file _) => .error .notDirectory

/-- Creates one directory. -/
def makeDir (t : Tree) (cwd : Place) (p : Path) : Except FileFault Tree := do
  match ← t.spot cwd p with
  | .fixed => .error .alreadyExists
  | .child parent name _ =>
    if (t.get? (name :: parent)).isSome then .error .alreadyExists
    else .ok (t.put (name :: parent) .dir)

/-- Creates the first of the paths, after the others when it lacks its parent: the others are its
ancestors. Ancestors created before a failure stay. -/
def makeDirsAlong (t : Tree) (cwd : Place) : List Path → Except FileFault Unit × Tree
  | [] => (.error .notFound, t)
  | p :: rest =>
    if p.text = "" then (.ok (), t)
    else
      match t.makeDir cwd p with
      | .ok t' => (.ok (), t')
      | .error .notFound =>
        match t.makeDirsAlong cwd rest with
        | (.error e, t') => (.error e, t')
        | (.ok (), t') =>
          match t'.makeDir cwd p with
          | .ok t'' => (.ok (), t'')
          | .error e => (if t'.stat cwd p = some .dir then .ok () else .error e, t')
      | .error e => (if t.stat cwd p = some .dir then .ok () else .error e, t)

/-- Creates a directory and the ancestors that it lacks. -/
def makeDirs (t : Tree) (cwd : Place) (p : Path) : Except FileFault Unit × Tree :=
  t.makeDirsAlong cwd p.ancestors

/-- The name of a scratch file with a given number, of six digits or more. -/
def scratchName (n : Nat) : String :=
  let digits := toString n
  ".tmp" ++ "".pushn '0' (6 - digits.length) ++ digits

/-- The names tried for a scratch file, of which one is free. -/
def scratchNames (t : Tree) : List String :=
  (List.range (t.entries.length + 1)).map scratchName

/-- Creates an empty file of a new name in a directory. -/
def scratch (t : Tree) (cwd : Place) (dir : Path) : Except FileFault (Path × Tree) := do
  match ← t.resolve cwd dir with
  | (_, .file _) => .error .notDirectory
  | (place, .dir) =>
    match t.scratchNames.find? fun name => (t.get? (name :: place)).isNone with
    | none => .error .alreadyExists
    | some name => do
      let _ ← start cwd (dir / name)
      if maxName < name.utf8ByteSize then .error .nameTooLong
      else return (dir / name, t.put (name :: place) (.file (.text "")))

/-- Creates a file, or replaces what it holds. -/
def write (t : Tree) (cwd : Place) (p : Path) (c : Content) : Except FileFault Tree := do
  match ← t.spot cwd p with
  | .fixed => .error .isDirectory
  | .child parent name slash =>
    if slash ∨ t.get? (name :: parent) = some .dir then .error .isDirectory
    else .ok (t.put (name :: parent) (.file c))

/-- Copies a regular file; the directory of the target must exist. -/
def copy (t : Tree) (cwd : Place) (p q : Path) : Except FileFault Tree := do
  match ← t.resolve cwd p with
  | (_, .dir) => .error .notRegular
  | (_, .file c) => t.write cwd q c

/-- Removes a file. -/
def remove (t : Tree) (cwd : Place) (p : Path) : Except FileFault Tree := do
  match ← t.spot cwd p with
  | .fixed => .error .isDirectory
  | .child parent name slash =>
    match t.get? (name :: parent) with
    | none => .error .notFound
    | some .dir => .error .isDirectory
    | some (.file _) => if slash then .error .notDirectory else .ok (t.erase (name :: parent))

/-- The tree with everything at and below one place moved to another. -/
def move (t : Tree) (p q : Place) : Tree :=
  match t.get? p with
  | none => t
  | some e =>
    let moved := (t.below p).map fun (place, entry) =>
      (place.take (place.length - p.length) ++ q, entry)
    let kept := t.entries.filter fun e => !p.isSuffixOf e.1 && e.1 ≠ q
    ⟨(q, e) :: moved ++ kept⟩

/-- Renames a file or a directory. A file replaces a file, and a directory an empty directory. -/
def rename (t : Tree) (cwd : Place) (p q : Path) : Except FileFault Tree := do
  let _ ← start cwd p
  let _ ← start cwd q
  let source ← t.spot cwd p
  let target ← t.spot cwd q
  match source, target with
  | .child parent name slash, .child parent' name' slash' =>
    let old := name :: parent
    let new := name' :: parent'
    match t.get? old, t.get? new with
    | none, _ => .error .notFound
    | some (.file c), found =>
      if slash ∨ slash' then .error .notDirectory
      else if found = some .dir then .error .isDirectory
      else if old = new then .ok t
      else .ok ((t.erase old).put new (.file c))
    | some .dir, found =>
      if old = new then .ok t
      else if old.isSuffixOf new then .error .invalid
      else if new.isSuffixOf old then .error .notEmpty
      else
        match found with
        | some (.file _) => .error .notDirectory
        | some .dir => if (t.below new).isEmpty then .ok (t.move old new) else .error .notEmpty
        | none => .ok (t.move old new)
  | _, _ => .error .busy

end Tree

end LintDigest
