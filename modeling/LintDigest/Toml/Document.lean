import LintDigest.Toml.Quoted
import LintDigest.Toml.Scalar

/-!
# TOML documents

`parse` reads a whole document into the fields of its root table. Values nest, and the readers of
nested values carry a bound on the depth, which `parse` sets to the length of the text.
-/

namespace LintDigest.Toml

/-- White space within a line. -/
def isBlankChar (c : Char) : Bool := c == ' ' || c == '\t'

/-- The text behind white space within the line. -/
def skipBlanks (cs : List Char) : List Char := cs.dropWhile isBlankChar

/-- The text behind white space, line breaks and comments. -/
def skipLines : (inComment : Bool) → List Char → Except Fault (List Char)
  | _, [] => .ok []
  | _, '\n' :: cs => skipLines false cs
  | _, '\r' :: '\n' :: cs => skipLines false cs
  | true, c :: cs => if isPlain c then skipLines true cs else .error .malformed
  | false, '#' :: cs => skipLines true cs
  | false, c :: cs => if isBlankChar c then skipLines false cs else .ok (c :: cs)

/-- The text behind the end of a line, where only white space and a comment may stand. -/
def endLine : (inComment : Bool) → List Char → Except Fault (List Char)
  | _, [] => .ok []
  | _, '\n' :: cs => .ok cs
  | _, '\r' :: '\n' :: cs => .ok cs
  | true, c :: cs => if isPlain c then endLine true cs else .error .malformed
  | false, '#' :: cs => endLine true cs
  | false, c :: cs => if isBlankChar c then endLine false cs else .error .malformed

/-- A character of a key without quotes. -/
def isKeyChar (c : Char) : Bool :=
  c.isAlphanum || c == '_' || c == '-'

/-- One part of a dotted key. -/
def keyPart (cs : List Char) : Except Fault (String × List Char) :=
  match cs with
  | '"' :: cs => do
    let (key, rest) ← basic cs
    return (String.ofList key, rest)
  | '\x27' :: cs => do
    let (key, rest) ← literal cs
    return (String.ofList key, rest)
  | _ =>
    match cs.takeWhile isKeyChar with
    | [] => .error .malformed
    | key => .ok (String.ofList key, cs.dropWhile isKeyChar)

/-- A dotted key, at most `bound` parts long, with white space around its parts. -/
def key : (bound : Nat) → List Char → Except Fault (List String × List Char)
  | 0, _ => .error .tooDeep
  | bound + 1, cs => do
    let (part, cs) ← keyPart (skipBlanks cs)
    match skipBlanks cs with
    | '.' :: cs =>
      let (parts, rest) ← key bound cs
      return (part :: parts, rest)
    | cs => return ([part], cs)

/-- A character of a scalar without quotes. -/
def isScalarChar (c : Char) : Bool :=
  c.isAlphanum || c == '_' || c == '-' || c == '+' || c == '.' || c == ':'

/-- Reads a scalar without quotes; a time may follow a date behind a space. -/
def bareScalar (cs : List Char) : Except Fault (Item × List Char) :=
  let word := cs.takeWhile isScalarChar
  let rest := cs.dropWhile isScalarChar
  match rest with
  | ' ' :: more =>
    let time := more.takeWhile isScalarChar
    if date? word == some [] && (time.head?.map isDigit).getD false then do
      return (← scalar (word ++ ' ' :: time), more.dropWhile isScalarChar)
    else do return (← scalar word, rest)
  | _ => do return (← scalar word, rest)

mutual

/-- Reads a value. -/
def value : (bound : Nat) → List Char → Except Fault (Item × List Char)
  | 0, _ => .error .malformed
  | bound + 1, cs =>
    match cs with
    | '[' :: cs => do
      let (items, rest) ← items bound (← skipLines false cs)
      return (.array items, rest)
    | '\x7b' :: cs => do
      let (fields, rest) ← inlineFields bound [] (← skipLines false cs)
      return (.table .closed fields, rest)
    | _ =>
      match quoted? cs with
      | some piece => do
        let (text, rest) ← piece
        return (.text (String.ofList text), rest)
      | none => bareScalar cs

/-- Reads array items up to the closing bracket; a comma may follow the last one. -/
def items : (bound : Nat) → List Char → Except Fault (List Item × List Char)
  | 0, _ => .error .malformed
  | bound + 1, cs =>
    match cs with
    | ']' :: rest => .ok ([], rest)
    | _ => do
      let (item, cs) ← value bound cs
      match ← skipLines false cs with
      | ',' :: cs =>
        let (more, rest) ← items bound (← skipLines false cs)
        return (item :: more, rest)
      | ']' :: rest => return ([item], rest)
      | _ => throw Fault.malformed

/-- Reads the fields of an inline table up to the closing brace. Lines may break between a key, its
equals sign and its value, and a comma may follow the last field. -/
def inlineFields : (bound : Nat) → Fields → List Char → Except Fault (Fields × List Char)
  | 0, _, _ => .error .malformed
  | bound + 1, fields, cs =>
    match cs with
    | '\x7d' :: rest => .ok (fields, rest)
    | _ => do
      let (path, cs) ← key maxDepth cs
      match ← skipLines false cs with
      | '=' :: cs =>
        let (item, cs) ← value bound (← skipLines false cs)
        let fields ← Fields.assign item true path fields
        match ← skipLines false cs with
        | ',' :: cs => inlineFields bound fields (← skipLines false cs)
        | '\x7d' :: rest => return (fields, rest)
        | _ => throw Fault.malformed
      | _ => throw Fault.malformed

end

/-- A document under construction: its fields, and the keys of the last header. -/
structure Draft where
  fields : Fields := []
  header : List String := []

/-- Opens the table of a header, or adds one to the tables of a double-bracketed header. -/
def Draft.enter (d : Draft) (last : String → Fields → Except Fault Fields) (path : List String) :
    Except Fault Draft :=
  match path.getLast? with
  | none => .error .malformed
  | some name => do
    return { fields := ← Fields.descend (last name) path.dropLast d.fields, header := path }

/-- Reads the header of a table, or of one of several tables, from behind its bracket. -/
def header (d : Draft) (cs : List Char) : Except Fault (Draft × List Char) :=
  match cs with
  | '[' :: cs => do
    let (path, cs) ← key maxDepth cs
    match cs with
    | ']' :: ']' :: cs => return (← d.enter Fields.addTable path, ← endLine false cs)
    | _ => throw Fault.malformed
  | _ => do
    let (path, cs) ← key maxDepth cs
    match cs with
    | ']' :: cs => return (← d.enter Fields.openTable path, ← endLine false cs)
    | _ => throw Fault.malformed

/-- Reads a key and its value. -/
def assignment (d : Draft) (cs : List Char) : Except Fault (Draft × List Char) := do
  let (path, cs) ← key maxDepth cs
  match cs with
  | '=' :: cs =>
    let (item, cs) ← value (cs.length + 1) (skipBlanks cs)
    if maxDepth < item.depth then throw Fault.tooDeep
    let fields ← Fields.descend (Fields.assign item true path) d.header d.fields
    return ({ d with fields }, ← endLine false cs)
  | _ => throw Fault.malformed

/-- Reads at most `bound` headers and assignments. -/
def expressions : (bound : Nat) → Draft → List Char → Except Fault Draft
  | 0, d, _ => .ok d
  | bound + 1, d, cs => do
    match ← skipLines false cs with
    | [] => return d
    | '[' :: cs =>
      let (d, rest) ← header d cs
      expressions bound d rest
    | cs =>
      let (d, rest) ← assignment d cs
      expressions bound d rest

/-- The fields of a document; a byte order mark at its head is skipped. -/
def parse (text : String) : Except Fault Fields := do
  let cs := (Text.after? [Char.ofNat 0xFEFF] text.toList).getD text.toList
  return (← expressions (cs.length + 1) {} cs).fields

end LintDigest.Toml
