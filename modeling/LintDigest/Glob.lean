import LintDigest.Script

/-!
# Glob patterns

In a pattern `?` stands for one character, `*` for any run of characters, `[...]` for one of a set,
and the component `**` for any number of directories. `expand` finds the paths that match.
-/

namespace LintDigest.Glob

/-- Why a pattern is refused. -/
inductive Cause
  | stars
  | directories
  | range
  deriving DecidableEq, Inhabited

/-- A refused pattern: why, and near which character. -/
structure Fault where
  position : Nat
  cause : Cause
  deriving DecidableEq, Inhabited

/-- The text of a fault. -/
def Fault.message (f : Fault) : String :=
  "Pattern syntax error near position " ++ toString f.position ++ ": " ++
    match f.cause with
    | .stars => "wildcards are either regular `*` or recursive `**`"
    | .directories => "recursive wildcards must form a single path component"
    | .range => "invalid range pattern"

/-- One element of a pattern; a set is a list of ranges. -/
inductive Piece
  | char (c : Char)
  | anyChar
  | anyRun
  | directories
  | oneOf (set : List (Char × Char))
  | noneOf (set : List (Char × Char))
  deriving DecidableEq, Inhabited

/-- A pattern for one path component, or a whole pattern. -/
abbrev Pattern := List Piece

/-! ## Reading patterns -/

/-- The ranges of a set: `a-z`, or single characters. -/
def ranges : List Char → List (Char × Char)
  | a :: '-' :: b :: cs => (a, b) :: ranges cs
  | a :: cs => (a, a) :: ranges cs
  | [] => []

/-- Reads a set from behind its opening bracket: whether it is negated, its ranges, and the number
of characters up to and with the closing bracket. The first character of a set may be `]`. -/
def set? : List Char → Option (Bool × List (Char × Char) × Nat)
  | '!' :: first :: cs =>
    let others := cs.takeWhile (· ≠ ']')
    if others.length < cs.length then
      some (true, ranges (first :: others), others.length + 3)
    else none
  | '!' :: [] => none
  | first :: cs =>
    let others := cs.takeWhile (· ≠ ']')
    if others.length < cs.length then
      some (false, ranges (first :: others), others.length + 2)
    else none
  | [] => none

/-- Reads a pattern from a position on; `before` is the character in front of it. -/
def readFrom (position : Nat) (before : Option Char) (cs : List Char) : Except Fault Pattern :=
  match cs with
  | [] => .ok []
  | '?' :: cs => do return .anyChar :: (← readFrom (position + 1) (some '?') cs)
  | '*' :: cs =>
    match cs with
    | '*' :: '*' :: _ => .error ⟨position + 2, .stars⟩
    | '*' :: cs =>
      if before.isNone || before = some '/' then
        match cs with
        | [] => .ok [.directories]
        | '/' :: cs => do return .directories :: (← readFrom (position + 3) (some '/') cs)
        | _ => .error ⟨position + 2, .directories⟩
      else .error ⟨position - 1, .directories⟩
    | cs => do return .anyRun :: (← readFrom (position + 1) (some '*') cs)
  | '[' :: cs =>
    match set? cs with
    | none => .error ⟨position, .range⟩
    | some (negated, set, n) => do
      let rest ← readFrom (position + 1 + n) (some ']') (cs.drop n)
      return (if negated then .noneOf set else .oneOf set) :: rest
  | c :: cs => do return .char c :: (← readFrom (position + 1) (some c) cs)
  termination_by cs.length
  decreasing_by all_goals simp_all; try omega

/-- Reads a pattern. -/
def read (text : List Char) : Except Fault Pattern :=
  readFrom 0 none text

/-! ## Matching -/

/-- Whether a character lies in a set. -/
def inSet (set : List (Char × Char)) (c : Char) : Bool :=
  set.any fun (lo, hi) => lo ≤ c && c ≤ hi

/-- Whether an element that stands for one character admits it. -/
def Piece.admits (p : Piece) (c : Char) : Bool :=
  match p with
  | char x => x = c
  | anyChar => true
  | oneOf set => inSet set c
  | noneOf set => !inSet set c
  | anyRun | directories => false

/-- The character of an element that stands for itself only. -/
def Piece.char? : Piece → Option Char
  | char c => some c
  | _ => none

/-- Whether a name matches a pattern. -/
def isMatch (ps : Pattern) (cs : List Char) : Bool :=
  match ps, cs with
  | [], cs => cs.isEmpty
  | .anyRun :: ps, [] | .directories :: ps, [] => isMatch ps []
  | .anyRun :: ps, c :: cs => isMatch ps (c :: cs) || isMatch (.anyRun :: ps) cs
  | .directories :: ps, c :: cs => isMatch ps (c :: cs) || isMatch (.directories :: ps) cs
  | p :: ps, c :: cs => p.admits c && isMatch ps cs
  | _ :: _, [] => false
  termination_by ps.length + cs.length

/-- The text of a pattern without wildcards. -/
def literal? (ps : Pattern) : Option String :=
  (ps.mapM Piece.char?).map String.ofList

/-- Whether a pattern is the component `**`. -/
def isDirectories (ps : Pattern) : Bool :=
  ps.contains .directories

/-! ## Expanding -/

open Script

/-- The patterns without the `**` at their head. -/
def pastDirectories (ps : List Pattern) : List Pattern :=
  ps.dropWhile isDirectories

/-- The matches of a script for each element, one after the other. -/
def gather {α : Type} (f : α → Script (List Path)) : List α → Script (List Path)
  | [] => return []
  | a :: as => do return (← f a) ++ (← gather f as)

mutual

/-- The matches of component patterns below a directory. A component without wildcards is looked up;
for others the directory is listed. `.` and `..` match only what is written with a leading dot, and
then come first, `..` before `.`. -/
def below : (bound : Nat) → List Pattern → Path → Script (List Path)
  | 0, _, _ => return []
  | _, [], dir => return [dir]
  | bound + 1, p :: ps, dir => do
    match literal? p with
    | some name =>
      let next := dir / name
      let found ← if name = "." || name = ".." then isDir dir else isPresent next
      if found then below bound ps next else return []
    | none =>
      match ← request (.list dir) with
      | .error _ => return []
      | .ok names =>
        let dots :=
          if p.head? = some (.char '.') then ["..", "."].filter fun s => isMatch p s.toList else []
        let around ← gather (fun name => below bound ps (dir / name)) dots
        return around ++ (← gather (fun name => visit bound (p :: ps) (dir / name)) names)

/-- The matches of component patterns at or below a listed entry, its own before deeper ones. -/
def visit : (bound : Nat) → List Pattern → Path → Script (List Path)
  | 0, _, _ => return []
  | bound + 1, ps, entry => do
    let later := pastDirectories ps
    let deeper ←
      if later.length < ps.length then
        if ← isDir entry then below bound (ps.drop (ps.length - later.length - 1)) entry
        else pure []
      else pure []
    match later with
    | [] => if ← isDir entry then return entry :: deeper else return deeper
    | p :: rest =>
      if isMatch p ((entry.fileName?).getD "").toList then
        return (← below bound rest entry) ++ deeper
      else return deeper

end

/-- The components of a pattern behind its root; a slash at the end adds none. -/
def componentsOf (text : List Char) : List (List Char) :=
  let parts := Text.split (· == '/') (text.drop 1)
  if text.length ≤ 1 then [[]]
  else if parts.getLast? = some [] then parts.dropLast else parts

/-- No path has more components than this. -/
def maxDepth : Nat := 4096

/-- The patterns of the components of an absolute pattern, which must be readable as a whole too. -/
def readAll (pattern : Path) : Except Fault (List Pattern) := do
  let text := pattern.text.toList
  let _ ← read text
  (componentsOf text).mapM read

/-- The paths that match an absolute pattern, in the order in which the search comes upon them. Each
of its steps takes a pattern or goes down by a name. -/
def expand (pattern : Path) : Script (Except Fault (List Path)) := do
  match readAll pattern with
  | .error f => return .error f
  | .ok patterns => return .ok (← below (2 * maxDepth + patterns.length) patterns ⟨"/"⟩)

end LintDigest.Glob
