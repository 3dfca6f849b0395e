import LintDigest.Xml.Token

/-!
# XML trees

`Element.parse` turns a text into its root element, or says why it is no document. Elements are
known by the local part of their names, and only attributes without a namespace are kept: those are
the ones that reports and documents use. Character data on both sides of a reference or a `CDATA`
section is one text node; a comment or an instruction is a node of its own and so separates text
nodes.
-/

namespace LintDigest.Xml

/-- A node of a tree. -/
inductive Node
  | element (name : String) (attributes : List (String × String)) (children : List Node)
  | text (content : String)
  /-- A comment or a processing instruction. -/
  | aside
  deriving Inhabited

/-- An element: its local name, its attributes without a namespace, and its children. -/
structure Element where
  name : String
  attributes : List (String × String)
  children : List Node
  deriving Inhabited

/-! ## Namespaces -/

/-- The namespace that the lead `xml` stands for. -/
def xmlSpace : String := "http://www.w3.org/XML/1998/namespace"

/-- The namespace of namespace declarations. -/
def xmlnsSpace : String := "http://www.w3.org/2000/xmlns/"

/-- Namespace leads with what they stand for, the innermost declaration first. -/
abbrev Scope := List (String × String)

/-- What one attribute declares: nothing, the default namespace, or a lead. Names with a namespace
lead of `xmlns`, and those whose local part is `xmlns`, are declarations. -/
inductive Declaration
  | none
  | default
  | lead (name : String) (space : String)

/-- Classifies an attribute, refusing declarations that touch the two reserved namespaces. -/
def Attribute.declaration (a : Attribute) : Except Fault Declaration :=
  if a.name.lead = "xmlns" then
    if a.value = xmlnsSpace then .error .badNamespace
    else if (a.name.base = "xml") ≠ (a.value = xmlSpace) then .error .badNamespace
    else .ok (.lead a.name.base a.value)
  else if a.name.base = "xmlns" then
    if a.value = xmlSpace ∨ a.value = xmlnsSpace then .error .badNamespace else .ok .default
  else .ok .none

/-- The leads that a tag declares and its attributes that declare nothing. A lead is declared once;
declaring `xml` says nothing. -/
def declarations : List Attribute → Except Fault (Scope × List Attribute)
  | [] => .ok ([], [])
  | a :: rest => do
    let (scope, plain) ← declarations rest
    match ← a.declaration with
    | .none => return (scope, a :: plain)
    | .default => return (scope, plain)
    | .lead name space =>
      if name = "xml" then return (scope, plain)
      else if scope.any (·.1 = name) then throw Fault.badNamespace
      else return ((name, space) :: scope, plain)

/-- The namespace that the lead of a name stands for in a scope; a name without a lead has none. -/
def QName.space (scope : Scope) (name : QName) : Except Fault (Option String) :=
  if name.lead = "" then .ok none
  else
    match scope.lookup name.lead with
    | some space => .ok (some space)
    | none => .error .unknownNamespace

/-- The attributes without a namespace, by name and value. Two attributes of one name and one
namespace are an error, whatever their leads. The lead `xml` is known to every attribute, but to no
element. -/
def plainAttributes (scope : Scope) (attributes : List Attribute) :
    Except Fault (List (String × String)) := do
  let keyed ← attributes.mapM fun a => do
    return ((← a.name.space (("xml", xmlSpace) :: scope), a.name.base), a.value)
  if (keyed.map (·.1)).Nodup then
    return keyed.filterMap fun ((space, name), value) =>
      if space.isNone then some (name, value) else none
  else throw Fault.repeatedAttribute

/-! ## From tokens to a tree -/

/-- An element that is still open; its children stand in reverse order. -/
structure Frame where
  name : QName
  attributes : List (String × String)
  scope : Scope
  children : List Node := []

/-- The open elements, the innermost first, and the root element once it is closed. -/
structure Builder where
  openElements : List Frame := []
  root : Option Element := none

/-- The node of a closed frame. -/
def Frame.close (f : Frame) : Element where
  name := f.name.base
  attributes := f.attributes
  children := f.children.reverse

/-- The element as a node of a tree. -/
def Element.node (e : Element) : Node :=
  .element e.name e.attributes e.children

/-- Children, in reverse order, with character data added to a text node at their end. -/
def addText (s : String) : List Node → List Node
  | .text before :: nodes => .text (before ++ s) :: nodes
  | nodes => .text s :: nodes

namespace Builder

/-- The scope in which the next tag is read. -/
def scope (b : Builder) : Scope :=
  match b.openElements with
  | [] => []
  | f :: _ => f.scope

/-- A complete element joins its parent, or becomes the root. -/
def add (b : Builder) (e : Element) : Builder :=
  match b.openElements with
  | [] => { b with root := some e }
  | f :: fs => { b with openElements := { f with children := e.node :: f.children } :: fs }

/-- Opens an element. -/
def enter (b : Builder) (name : QName) (attributes : List Attribute) : Except Fault Frame := do
  if b.openElements.isEmpty && b.root.isSome then throw Fault.outsideRoot
  if name.lead = "xmlns" then throw Fault.badNamespace
  let (declared, plain) ← declarations attributes
  let scope := declared ++ b.scope
  let attributes ← plainAttributes scope plain
  let _ ← name.space scope
  return { name, attributes, scope }

/-- Takes one token. -/
def step (b : Builder) (t : Token) : Except Fault Builder :=
  match t with
  | .startTag name attributes closed => do
    let frame ← b.enter name attributes
    if closed then return b.add frame.close
    else return { b with openElements := frame :: b.openElements }
  | .endTag name =>
    match b.openElements with
    | [] => .error .endTag
    | f :: fs =>
      if f.name = name then .ok (add { b with openElements := fs } f.close) else .error .endTag
  | .blank s =>
    match b.openElements with
    | [] => .ok b
    | f :: fs => .ok { b with openElements := { f with children := addText s f.children } :: fs }
  | .text s | .verbatim s =>
    match b.openElements with
    | [] => .error .outsideRoot
    | f :: fs => .ok { b with openElements := { f with children := addText s f.children } :: fs }
  | .aside =>
    match b.openElements with
    | [] => .ok b
    | f :: fs => .ok { b with openElements := { f with children := .aside :: f.children } :: fs }

/-- The finished tree. -/
def finish (b : Builder) : Except Fault Element :=
  match b.openElements, b.root with
  | [], some e => .ok e
  | [], none => .error .noRoot
  | _ :: _, _ => .error .unclosed

end Builder

/-- The tree of a list of tokens. -/
def Element.ofTokens (ts : List Token) : Except Fault Element := do
  (← ts.foldlM Builder.step {}).finish

/-- The root element of a document. -/
def Element.parse (text : String) : Except Fault Element := do
  Element.ofTokens (← documentTokens text.toList)

/-! ## Looking into a tree -/

namespace Node

/-- The node as an element of the given local name. -/
def named? (name : String) : Node → Option Element
  | element n attributes children => if n = name then some ⟨n, attributes, children⟩ else none
  | _ => none

mutual

/-- The text nodes of a subtree, in document order. -/
def texts : Node → List String
  | element _ _ children => textsOfAll children
  | text content => [content]
  | aside => []

/-- The text nodes of several subtrees. -/
def textsOfAll : List Node → List String
  | [] => []
  | n :: ns => texts n ++ textsOfAll ns

end

end Node

namespace Element

/-- The child elements of the given local name, in order. -/
def childrenNamed (e : Element) (name : String) : List Element :=
  e.children.filterMap (Node.named? name)

/-- The value of an attribute that has no namespace. -/
def attribute? (e : Element) (name : String) : Option String :=
  e.attributes.lookup name

/-- The first child if it is a text node. -/
def leadingText? (e : Element) : Option String :=
  match e.children with
  | .text s :: _ => some s
  | _ => none

/-- All character data inside the element, in document order. -/
def allText (e : Element) : String :=
  String.join (Node.textsOfAll e.children)

end Element

end LintDigest.Xml
