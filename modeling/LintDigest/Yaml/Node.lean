import LintDigest.Yaml.Token

/-!
# YAML nodes

`parse` turns a text into its single document. An alias is kept as the number of an anchor, and
`Document.resolve` follows it. An anchor is numbered by how many names are known when it is met;
where a name is used again, numbers can coincide, and then the later node counts.
-/

namespace LintDigest.Yaml

/-- A node of a document. -/
inductive Node
  | scalar (style : Style) (tag : Option String) (text : String)
  | sequence (items : List Node)
  | mapping (pairs : List (Node × Node))
  /-- The node with a given anchor number. -/
  | alias (number : Nat)
  deriving Inhabited

/-- A scalar that is not written at all. -/
def Node.nothing : Node := .scalar .plain none ""

/-- Tokens that are being read. -/
structure Reader where
  tokens : List Token
  /-- The handles of tags, with what they stand for. -/
  handles : List (String × String) := []
  /-- The names of anchors seen so far, with their latest numbers. -/
  anchors : List (String × Nat) := []
  /-- The numbers of the anchored nodes that have begun, the latest node first. -/
  begun : List Nat := []
  /-- The anchored nodes that are complete, by how many had begun before each. -/
  complete : List (Nat × Node) := []

namespace Reader

/-- The next token. -/
def peek (r : Reader) : Option Token := r.tokens.head?

/-- Moves over one token. -/
def skip (r : Reader) : Reader := { r with tokens := r.tokens.tail }

/-- Begins an anchored node. -/
def beginAnchored (r : Reader) (name : String) : Reader :=
  let number := r.anchors.length
  { r with
    anchors := (name, number) :: r.anchors.filter (·.1 ≠ name)
    begun := number :: r.begun }

/-- Completes the anchored node before whose start `earlier` others had begun. -/
def completeAnchored (r : Reader) (earlier : Nat) (n : Node) : Reader :=
  { r with complete := (earlier, n) :: r.complete }

/-- The nodes that anchor numbers stand for: of nodes with one number the one that began last. -/
def anchored (r : Reader) : List (Nat × Node) :=
  r.begun.zipIdx.filterMap fun (number, later) =>
    (r.complete.lookup (r.begun.length - 1 - later)).map (number, ·)

/-- The full text of a tag. -/
def fullTag (r : Reader) (handle suffix : String) : Except Fault String :=
  if handle = "" then .ok suffix
  else
    match r.handles.lookup handle with
    | some lead => .ok (lead ++ suffix)
    | none => .error .badTag

/-- The anchor and the tag in front of a node, in either order. -/
structure Properties where
  anchor : Option String := none
  tag : Option String := none

/-- Reads the properties of a node. -/
def properties (r : Reader) : Except Fault (Properties × Reader) := do
  match r.tokens with
  | .anchor name :: .tag handle suffix :: rest =>
    let tag ← r.fullTag handle suffix
    return ({ anchor := some name, tag := some tag }, { r with tokens := rest })
  | .tag handle suffix :: .anchor name :: rest =>
    let tag ← r.fullTag handle suffix
    return ({ anchor := some name, tag := some tag }, { r with tokens := rest })
  | .anchor name :: rest => return ({ anchor := some name }, { r with tokens := rest })
  | .tag handle suffix :: rest =>
    return ({ tag := some (← r.fullTag handle suffix) }, { r with tokens := rest })
  | _ => return ({}, r)

/-- Whether the next token is one of those given, or there is none. -/
def atAny (r : Reader) (ts : List Token) : Bool :=
  match r.peek with
  | none => true
  | some t => ts.contains t

/-- Where a node stands: in brackets, in a block, or as the key or value of a block mapping, where
a sequence need not be indented. -/
inductive Place
  | flow
  | block
  | pair
  deriving DecidableEq

mutual

/-- Reads a node. -/
def node : (bound : Nat) → Place → Reader → Except Fault (Node × Reader)
  | 0, _, _ => .error .nesting
  | bound + 1, place, r => do
    match r.peek with
    | some (.alias name) =>
      match r.anchors.lookup name with
      | some number => return (.alias number, r.skip)
      | none => throw Fault.unknownAlias
    | _ =>
      let (props, r) ← r.properties
      match props.anchor with
      | some name =>
        let earlier := r.begun.length
        let (n, r) ← content bound place props (r.beginAnchored name)
        return (n, r.completeAnchored earlier n)
      | none => content bound place props r

/-- Reads what follows the properties of a node. -/
def content : (bound : Nat) → Place → Properties → Reader → Except Fault (Node × Reader)
  | 0, _, _, _ => .error .nesting
  | bound + 1, place, props, r => do
    match r.peek with
    | some (.scalar style text) =>
      -- A lone `!` says nothing about a scalar.
      let tag := if props.tag = some "!" then none else props.tag
      return (.scalar style tag text, r.skip)
    | some .flowSequence =>
      let (items, r) ← flowItems bound true r.skip
      return (.sequence items, r)
    | some .flowMapping =>
      let (pairs, r) ← flowPairs bound true r.skip
      return (.mapping pairs, r)
    | some .blockEntry =>
      if place = .pair then
        let (items, r) ← looseItems bound r
        return (.sequence items, r)
      else empty props r
    | some .blockSequence =>
      if place = .flow then empty props r
      else
        let (items, r) ← blockItems bound r.skip
        return (.sequence items, r)
    | some .blockMapping =>
      if place = .flow then empty props r
      else
        let (pairs, r) ← blockPairs bound r.skip
        return (.mapping pairs, r)
    | _ => empty props r

/-- A node of which only the properties are written. -/
def empty (props : Properties) (r : Reader) : Except Fault (Node × Reader) :=
  if props.anchor.isSome || props.tag.isSome then .ok (.scalar .plain props.tag "", r)
  else .error .nesting

/-- Reads the items of an indented sequence. -/
def blockItems : (bound : Nat) → Reader → Except Fault (List Node × Reader)
  | 0, _ => .error .nesting
  | bound + 1, r => do
    match r.peek with
    | some .blockEntry =>
      let r := r.skip
      let (n, r) ←
        if r.atAny [.blockEntry, .blockEnd] then pure (.nothing, r) else node bound .block r
      let (ns, r) ← blockItems bound r
      return (n :: ns, r)
    | some .blockEnd => return ([], r.skip)
    | _ => throw Fault.nesting

/-- Reads the items of a sequence that is not indented. -/
def looseItems : (bound : Nat) → Reader → Except Fault (List Node × Reader)
  | 0, _ => .error .nesting
  | bound + 1, r => do
    match r.peek with
    | some .blockEntry =>
      let r := r.skip
      let (n, r) ←
        if r.atAny [.blockEntry, .key, .value, .blockEnd] then pure (.nothing, r)
        else node bound .block r
      let (ns, r) ← looseItems bound r
      return (n :: ns, r)
    | _ => return ([], r)

/-- Reads the pairs of a block mapping. -/
def blockPairs : (bound : Nat) → Reader → Except Fault (List (Node × Node) × Reader)
  | 0, _ => .error .nesting
  | bound + 1, r => do
    match r.peek with
    | some .key =>
      let r := r.skip
      let ends : List Token := [.key, .value, .blockEnd]
      let (k, r) ← if r.atAny ends then pure (.nothing, r) else node bound .pair r
      let (v, r) ←
        if r.peek = some .value then
          let r := r.skip
          if r.atAny ends then pure (.nothing, r) else node bound .pair r
        else pure (.nothing, r)
      let (ps, r) ← blockPairs bound r
      return ((k, v) :: ps, r)
    | some .blockEnd => return ([], r.skip)
    | _ => throw Fault.nesting

/-- Reads the items in brackets; an item may be a single pair. -/
def flowItems : (bound : Nat) → (first : Bool) → Reader → Except Fault (List Node × Reader)
  | 0, _, _ => .error .nesting
  | bound + 1, first, r => do
    match r.peek with
    | some .flowSequenceEnd => return ([], r.skip)
    | _ =>
      let r ← (
        if first then pure r
        else if r.peek = some .flowEntry then pure r.skip
        else throw Fault.nesting)
      match r.peek with
      | some .flowSequenceEnd => return ([], r.skip)
      | some .key =>
        let r := r.skip
        let (k, r) ←
          if r.atAny [.value, .flowEntry, .flowSequenceEnd] then pure (.nothing, r.skip)
          else node bound .flow r
        let (v, r) ←
          if r.peek = some .value then
            let r := r.skip
            if r.atAny [.flowEntry, .flowSequenceEnd] then pure (.nothing, r)
            else node bound .flow r
          else pure (.nothing, r)
        let (ns, r) ← flowItems bound false r
        return (.mapping [(k, v)] :: ns, r)
      | _ =>
        let (n, r) ← node bound .flow r
        let (ns, r) ← flowItems bound false r
        return (n :: ns, r)

/-- Reads the pairs in braces; a value may be missing. -/
def flowPairs : (bound : Nat) → (first : Bool) → Reader →
    Except Fault (List (Node × Node) × Reader)
  | 0, _, _ => .error .nesting
  | bound + 1, first, r => do
    match r.peek with
    | some .flowMappingEnd => return ([], r.skip)
    | _ =>
      let r ← (
        if first then pure r
        else if r.peek = some .flowEntry then pure r.skip
        else throw Fault.nesting)
      match r.peek with
      | some .flowMappingEnd => return ([], r.skip)
      | some .key =>
        let r := r.skip
        let (k, r) ←
          if r.atAny [.value, .flowEntry, .flowMappingEnd] then pure (.nothing, r)
          else node bound .flow r
        let (v, r) ←
          if r.peek = some .value then
            let r := r.skip
            if r.atAny [.flowEntry, .flowMappingEnd] then pure (.nothing, r)
            else node bound .flow r
          else pure (.nothing, r)
        let (ps, r) ← flowPairs bound false r
        return ((k, v) :: ps, r)
      | _ =>
        let (k, r) ← node bound .flow r
        let (ps, r) ← flowPairs bound false r
        return ((k, .nothing) :: ps, r)

end

/-- The handles that every document knows. -/
def usualHandles : List (String × String) :=
  [("!", "!"), ("!!", "tag:yaml.org,2002:")]

/-- Reads the directives before a document; a version must be 1.1 or 1.2, and nothing may be said
twice. -/
def directives : (versioned : Bool) → List (String × String) → List Token →
    Except Fault (List (String × String) × List Token)
  | versioned, handles, .version major minor :: ts =>
    if versioned || major ≠ 1 || (minor ≠ 1 && minor ≠ 2) then .error .directive
    else directives true handles ts
  | versioned, handles, .tagDirective handle lead :: ts =>
    if (handles.lookup handle).isSome then .error .directive
    else directives versioned ((handle, lead) :: handles) ts
  | _, handles, ts => .ok (handles, ts)

end Reader

/-- A document: its root, if anything is written, and the nodes that aliases refer to. -/
structure Document where
  root : Option Node
  anchored : List (Nat × Node) := []

/-- The node that an alias refers to; any other node is itself. -/
def Document.resolve (d : Document) : Node → Option Node
  | .alias number => d.anchored.lookup number
  | n => some n

/-- Reads the single document of a list of tokens. -/
def Document.ofTokens (ts : List Token) : Except Fault Document := do
  if ts.isEmpty then return { root := none }
  let (handles, rest) ← Reader.directives false [] ts
  let explicit := rest.head? = some .documentStart
  if rest.length ≠ ts.length && !explicit then throw Fault.directive
  let ts := if explicit then rest.tail else rest
  let r : Reader := { tokens := ts, handles := handles ++ Reader.usualHandles }
  let separators : List Token := [.documentStart, .documentEnd]
  let (n, r) ←
    if explicit && r.atAny separators then pure (.nothing, r)
    else Reader.node (4 * ts.length + 4) .block r
  if r.tokens.all (· = .documentEnd) then return { root := some n, anchored := r.anchored }
  else throw Fault.manyDocuments

/-- The single document of a text. -/
def parse (text : String) : Except Fault Document := do
  Document.ofTokens (← tokens text)

end LintDigest.Yaml
