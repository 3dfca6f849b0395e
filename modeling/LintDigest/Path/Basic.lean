import LintDigest.Text.Split

/-!
# Paths

A path is a text with `/` between its pieces, kept as it is written. `components` reads it as a
walk, in which empty pieces and `.` say nothing, except that a relative path may start with `.`.
`ancestors` are the path and its lexical parents.
-/

namespace LintDigest

/-- A path, as written. -/
structure Path where
  text : String
  deriving DecidableEq, Inhabited

namespace Path

/-- One step of a path. -/
inductive Component
  /-- The root directory, at the head of an absolute path. -/
  | root
  /-- A `.` at the head of a relative path. -/
  | here
  | up
  | name (text : String)
  deriving DecidableEq, Inhabited

/-- The text of a component. -/
def Component.text : Component → String
  | root => "/"
  | here => "."
  | up => ".."
  | name s => s

/-- How a path begins: at the root, with a `.`, or with a plain piece. -/
inductive Lead
  | root
  | here
  | plain
  deriving DecidableEq

/-- The text of a lead. -/
def Lead.chars : Lead → List Char
  | root => ['/']
  | here => ['.']
  | plain => []

/-- The lead of a path and the pieces between the slashes behind it. -/
def layout (p : Path) : Lead × List (List Char) :=
  match p.text.toList with
  | '/' :: body => (.root, Text.split (· == '/') body)
  | ['.'] => (.here, [[]])
  | '.' :: '/' :: body => (.here, [] :: Text.split (· == '/') body)
  | body => (.plain, Text.split (· == '/') body)

/-- The path of a lead and pieces. -/
def ofLayout (lead : Lead) (pieces : List (List Char)) : Path :=
  ⟨String.ofList (lead.chars ++ Text.glue ['/'] pieces)⟩

/-- Whether a piece says nothing. -/
def idle (piece : List Char) : Bool :=
  piece == [] || piece == ['.']

/-- The component of a piece behind the lead. -/
def component? (piece : List Char) : Option Component :=
  if idle piece then none
  else if piece == ['.', '.'] then some .up
  else some (.name (String.ofList piece))

/-- The walk that a path describes. -/
def components (p : Path) : List Component :=
  let (lead, pieces) := p.layout
  let steps := pieces.filterMap component?
  match lead with
  | .root => .root :: steps
  | .here => .here :: steps
  | .plain => steps

/-- Whether a path starts at the root. -/
def isAbsolute (p : Path) : Bool :=
  p.layout.1 = .root

/-- The path `q` as seen from the directory `p`; an absolute `q` stands for itself. -/
def join (p q : Path) : Path :=
  if q.isAbsolute then q
  else match p.text.toList.getLast? with
    | none | some '/' => ⟨p.text ++ q.text⟩
    | some _ => ⟨p.text ++ "/" ++ q.text⟩

instance : HDiv Path String Path := ⟨fun p s => p.join ⟨s⟩⟩

/-- The pieces that are left when components are taken off the end one by one. Pieces are given
and returned last one first; idle pieces at the end go together with the component before them. -/
def shorter : List (List Char) → List (List (List Char))
  | [] => []
  | piece :: before =>
    if idle piece then shorter before else before.dropWhile idle :: shorter before

/-- The path, its parent, the parent of that, and so on. A path that begins with `.` or a plain
piece ends in the empty path; an absolute one ends in the root. -/
def ancestors (p : Path) : List Path :=
  let (lead, pieces) := p.layout
  p :: (shorter pieces.reverse).map (fun ps => ofLayout lead ps.reverse) ++
    (if lead = .here then [⟨""⟩] else [])

/-- The path without its last component. -/
def parent? (p : Path) : Option Path :=
  p.ancestors.tail.head?

/-- The last component, if it is a name. -/
def fileName? (p : Path) : Option String :=
  match p.components.getLast? with
  | some (.name s) => some s
  | _ => none

/-- The rank of a component's kind: the root, `.`, `..`, then names. -/
def Component.rank : Component → Nat
  | root => 0
  | here => 1
  | up => 2
  | name _ => 3

/-- The order of components: by kind, and names by their characters. -/
def Component.compare (a b : Component) : Ordering :=
  match a, b with
  | name s, name t => Ord.compare s t
  | _, _ => Ord.compare a.rank b.rank

/-- The order of paths: component by component, a path before those that continue it. -/
def compare (p q : Path) : Ordering :=
  walk p.components q.components
where
  /-- The order of two walks. -/
  walk : List Component → List Component → Ordering
    | [], [] => .eq
    | [], _ :: _ => .lt
    | _ :: _, [] => .gt
    | a :: as, b :: bs => (a.compare b).then (walk as bs)

end Path

end LintDigest
