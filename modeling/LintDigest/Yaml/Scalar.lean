import LintDigest.Text.Decimal
import LintDigest.Yaml.Alphabet

/-!
# YAML scalars

Plain scalars, quoted ones and block scalars, each with its rules for folding lines. Every reader
walks the text character by character and gives the scalar and where it ends.
-/

namespace LintDigest.Yaml

/-- How a scalar is written. -/
inductive Style
  | plain
  | singleQuoted
  | doubleQuoted
  | literal
  | folded
  deriving DecidableEq, Inhabited

/-- A scalar that is being read, its characters last one first: the text so far, and the white space
behind it, which only counts once more text follows. -/
structure Draft where
  text : List Char := []
  /-- White space on the line of the text. -/
  blanks : List Char := []
  /-- Whether a line break has followed the text. -/
  broken : Bool := false
  /-- The first line break. -/
  first : List Char := []
  /-- Further line breaks. -/
  further : List Char := []

namespace Draft

/-- A blank: it counts only before the first line break. -/
def blank (d : Draft) (c : Char) : Draft :=
  if d.broken then d else { d with blanks := c :: d.blanks }

/-- A line break; blanks before the first one are dropped. -/
def lineBreak (d : Draft) (c : Char) : Draft :=
  if d.broken then { d with further := breakOf c :: d.further }
  else { d with blanks := [], broken := true, first := [breakOf c] }

/-- The text with the white space behind it: a single line feed is folded into a space, and of more
line feeds the first is dropped. -/
def joined (d : Draft) : List Char :=
  if d.broken then
    if d.first = ['\n'] then
      if d.further = [] then ' ' :: d.text else d.further ++ d.text
    else d.further ++ d.first ++ d.text
  else d.blanks ++ d.text

/-- The draft with the white space taken into the text, and characters behind it. -/
def push (d : Draft) (cs : List Char) : Draft :=
  { text := cs.reverse ++ d.joined }

end Draft

/-! ## Plain scalars -/

/-- Whether white space has just been read. -/
def Draft.inGap (d : Draft) : Bool :=
  d.broken || d.blanks ≠ []

/-- Characters that end a plain scalar inside brackets or braces. -/
def isFlowMark (c : Char) : Bool :=
  c == ',' || c == '[' || c == ']' || c == '\x7b' || c == '\x7d'

/-- Reads a plain scalar whose lines are indented by at least `indent`. -/
def plain (flow : Bool) (indent : Nat) : Draft → Mark → List Char → Except Fault (Draft × Cursor)
  | d, m, [] => .ok (d, ⟨[], m⟩)
  | d, m, '\r' :: '\n' :: cs => plain flow indent (d.lineBreak '\n') (m.newLine 2) cs
  | d, m, c :: cs =>
    if isBreak c then plain flow indent (d.lineBreak c) (m.newLine c.utf8Size) cs
    else if isBlank c then
      if d.broken && m.column < indent && c == '\t' then .error .indentation
      else plain flow indent (d.blank c) (m.skip 1) cs
    else if d.inGap && ((!flow && d.broken && m.column < indent) ||
        (m.column = 0 && atMark (c :: cs)) || c == '#') then
      .ok (d, ⟨c :: cs, m⟩)
    else if flow && c == ':' && (match cs with
        | n :: _ => isFlowMark n || n == '?'
        | [] => false) then .error .badText
    else if (c == ':' && atGap cs) || (flow && isFlowMark c) then .ok (d, ⟨c :: cs, m⟩)
    else plain flow indent (d.push [c]) (m.past c) cs

/-! ## Quoted scalars -/

/-- The character of a code point written in radix 16. -/
def hexChar (digits : List Char) : Except Fault Char :=
  match Text.digitsFrom? 16 0 digits with
  | none => .error .badText
  | some n => if n.isValidChar then .ok (Char.ofNat n) else .error .badText

/-- The character of an escape of one letter. -/
def escaped? : Char → Option Char
  | '0' => some '\x00'
  | 'a' => some '\x07'
  | 'b' => some '\x08'
  | 't' | '\t' => some '\t'
  | 'n' => some '\n'
  | 'v' => some '\x0b'
  | 'f' => some '\x0c'
  | 'r' => some '\r'
  | 'e' => some '\x1b'
  | ' ' => some ' '
  | '"' => some '"'
  | '/' => some '/'
  | '\\' => some '\\'
  | 'N' => some (Char.ofNat 0x85)
  | '_' => some (Char.ofNat 0xA0)
  | 'L' => some (Char.ofNat 0x2028)
  | 'P' => some (Char.ofNat 0x2029)
  | _ => none

/-- Reads a quoted scalar from behind its opening quote. -/
def quoted (double : Bool) : Draft → Mark → List Char → Except Fault (Draft × Cursor)
  | _, _, [] => .error .badText
  | d, m, '\r' :: '\n' :: cs => quoted double (d.lineBreak '\n') (m.newLine 2) cs
  | d, m, '\x27' :: '\x27' :: cs =>
    if double then quoted double (d.push ['\x27', '\x27']) (m.skip 2) cs
    else quoted double (d.push ['\x27']) (m.skip 2) cs
  | d, m, '\\' :: '\r' :: '\n' :: cs =>
    if double then quoted double { text := d.joined, broken := true } ((m.skip 1).newLine 2) cs
    else quoted double ((d.push ['\\']).lineBreak '\n') ((m.skip 1).newLine 2) cs
  | d, m, '\\' :: 'x' :: a :: b :: cs =>
    if double then do quoted double (d.push [← hexChar [a, b]]) (m.skip 4) cs
    else quoted double (d.push ['\\']) (m.skip 1) ('x' :: a :: b :: cs)
  | d, m, '\\' :: 'u' :: a :: b :: c :: e :: cs =>
    if double then do quoted double (d.push [← hexChar [a, b, c, e]]) (m.skip 6) cs
    else quoted double (d.push ['\\']) (m.skip 1) ('u' :: a :: b :: c :: e :: cs)
  | d, m, '\\' :: 'U' :: a :: b :: c :: e :: f :: g :: h :: i :: cs =>
    if double then do quoted double (d.push [← hexChar [a, b, c, e, f, g, h, i]]) (m.skip 10) cs
    else
      quoted double (d.push ['\\']) (m.skip 1)
        ('U' :: a :: b :: c :: e :: f :: g :: h :: i :: cs)
  | d, m, '\\' :: c :: cs =>
    if double then
      if isBreak c then
        quoted double { text := d.joined, broken := true } ((m.skip 1).newLine c.utf8Size) cs
      else
        match escaped? c with
        | some x => quoted double (d.push [x]) (m.skip 2) cs
        | none => .error .badText
    else quoted double (d.push ['\\']) (m.skip 1) (c :: cs)
  | d, m, c :: cs =>
    if isBreak c then quoted double (d.lineBreak c) (m.newLine c.utf8Size) cs
    else if isBlank c then quoted double (d.blank c) (m.skip 1) cs
    else if m.column = 0 && atMark (c :: cs) then .error .badText
    else if c == (if double then '"' else '\x27') then
      .ok ({ text := d.joined }, ⟨cs, m.skip 1⟩)
    else quoted double (d.push [c]) (m.past c) cs

/-! ## Block scalars -/

/-- What happens to the line breaks at the end of a block scalar. -/
inductive Chomp
  | strip
  | clip
  | keep
  deriving DecidableEq

/-- A block scalar that is being read, its characters last one first. -/
structure Block where
  literal : Bool
  chomp : Chomp
  /-- The least indentation that can be found for the scalar. -/
  least : Nat
  /-- The indentation, 0 while it is not known. -/
  indent : Nat
  /-- The deepest indentation of the empty lines before the indentation is known. -/
  deepest : Nat := 0
  text : List Char := []
  /-- The break of the last line. -/
  last : List Char := []
  /-- The breaks of empty lines behind it. -/
  empty : List Char := []
  /-- Whether the last line starts with a blank. -/
  blankLine : Bool := false

namespace Block

/-- The block when its next line starts with a blank or not: the break before that line is folded
when neither line starts with a blank. -/
def startLine (b : Block) (blank : Bool) : Block :=
  let folds := !b.literal && b.last = ['\n'] && !b.blankLine && !blank
  let text :=
    if folds then if b.empty = [] then ' ' :: b.text else b.text
    else b.last ++ b.text
  { b with text := b.empty ++ text, last := [], empty := [], blankLine := blank }

/-- The text of a finished block. -/
def finish (b : Block) : List Char :=
  match b.chomp with
  | .strip => b.text.reverse
  | .clip => (b.last ++ b.text).reverse
  | .keep => (b.empty ++ b.last ++ b.text).reverse

/-- The block once its indentation has to be known. -/
def settle (b : Block) (column : Nat) : Block :=
  if b.indent = 0 then { b with indent := max (max b.deepest column) (max b.least 1) } else b

end Block

/-- Reads the lines of a block scalar. `inLine` tells whether the text at hand belongs to a line of
the scalar; otherwise indentation and empty lines are read. -/
def block : (inLine : Bool) → Block → Mark → List Char → Except Fault (List Char × Cursor)
  | _, b, m, [] => .ok (b.finish, ⟨[], m⟩)
  | inLine, b, m, '\r' :: '\n' :: cs =>
    if inLine then block false { b with last := ['\n'] } (m.newLine 2) cs
    else
      block false { b with empty := '\n' :: b.empty, deepest := max b.deepest m.column }
        (m.newLine 2) cs
  | inLine, b, m, c :: cs =>
    if inLine then
      if isBreak c then block false { b with last := [breakOf c] } (m.newLine c.utf8Size) cs
      else block true { b with text := c :: b.text } (m.past c) cs
    else if c == ' ' && (b.indent = 0 || m.column < b.indent) then block false b (m.skip 1) cs
    else if c == '\t' && (b.indent = 0 || m.column < b.indent) then .error .indentation
    else if isBreak c then
      block false { b with empty := breakOf c :: b.empty, deepest := max b.deepest m.column }
        (m.newLine c.utf8Size) cs
    else
      let b := b.settle m.column
      if m.column = b.indent then
        let b := b.startLine (isBlank c)
        block true { b with text := c :: b.text } (m.past c) cs
      else .ok (b.finish, ⟨c :: cs, m⟩)

end LintDigest.Yaml
