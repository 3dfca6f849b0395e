/-!
# The characters of YAML
-/

namespace LintDigest.Yaml

/-- What makes a text no YAML document. -/
inductive Fault
  | character
  | token
  | badText
  | badTag
  | directive
  | indentation
  | misplaced
  | nesting
  | unknownAlias
  | manyDocuments
  deriving DecidableEq, Inhabited

/-- A short description for error messages. -/
def Fault.message : Fault → String
  | character => "control characters are not allowed"
  | token => "a character cannot start any token"
  | badText => "a scalar is malformed"
  | badTag => "an anchor, an alias or a tag is malformed"
  | directive => "a directive is malformed"
  | indentation => "a tab or an indentation is out of place"
  | misplaced => "an indicator is not allowed in its place"
  | nesting => "the structure of the document is broken"
  | unknownAlias => "an alias has no anchor"
  | manyDocuments => "there is more than one document"

/-- A character that may occur in a document. -/
def isPrintable (c : Char) : Bool :=
  let n := c.toNat
  n == 0x09 || n == 0x0A || n == 0x0D || (0x20 ≤ n && n ≤ 0x7E) || n == 0x85 ||
    (0xA0 ≤ n && n ≤ 0xD7FF) || (0xE000 ≤ n && n ≤ 0xFFFD) || 0x10000 ≤ n

/-- The byte order mark, which is passed over at the start of a line. -/
def orderMark : Char := Char.ofNat 0xFEFF

/-- A space or a tab. -/
def isBlank (c : Char) : Bool := c == ' ' || c == '\t'

/-- A character that breaks lines. -/
def isBreak (c : Char) : Bool :=
  c == '\n' || c == '\r' || c == Char.ofNat 0x85 || c == Char.ofNat 0x2028 ||
    c == Char.ofNat 0x2029

/-- The line break that a breaking character stands for. -/
def breakOf (c : Char) : Char :=
  if c == Char.ofNat 0x2028 || c == Char.ofNat 0x2029 then c else '\n'

/-- Whether a text ends, or goes on with white space or a line break. -/
def atGap : List Char → Bool
  | [] => true
  | c :: _ => isBlank c || isBreak c

/-- A character of an anchor's name or of a directive's. -/
def isWordChar (c : Char) : Bool :=
  c.isAlphanum || c == '_' || c == '-'

/-- Whether a text starts with one of the marks that separate documents. -/
def atMark (cs : List Char) : Bool :=
  match cs with
  | '-' :: '-' :: '-' :: rest => atGap rest
  | '.' :: '.' :: '.' :: rest => atGap rest
  | _ => false

/-- A position in a text. -/
structure Mark where
  /-- The number of bytes before it. -/
  index : Nat := 0
  line : Nat := 0
  /-- The number of characters before it on its line. -/
  column : Nat := 0
  deriving DecidableEq, Inhabited

/-- The position behind a character of a line. -/
def Mark.past (m : Mark) (c : Char) : Mark :=
  { m with index := m.index + c.utf8Size, column := m.column + 1 }

/-- The position behind `n` characters of a line, each of a single byte. -/
def Mark.skip (m : Mark) (n : Nat) : Mark :=
  { m with index := m.index + n, column := m.column + n }

/-- The position behind a line break of `n` bytes. -/
def Mark.newLine (m : Mark) (n : Nat) : Mark :=
  { index := m.index + n, line := m.line + 1, column := 0 }

/-- The rest of a text and its position. -/
structure Cursor where
  rest : List Char
  mark : Mark := {}
  deriving Inhabited

end LintDigest.Yaml
