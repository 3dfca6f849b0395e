import LintDigest.Text.Split
import LintDigest.Yaml.Scalar

/-!
# YAML tokens

Indentation and the colons behind simple keys are turned into tokens of their own, so that the
tokens of a text describe its structure without looking at columns again. A simple key is known as
such only when its colon is met; its tokens are then put in front of it.
-/

namespace LintDigest.Yaml

/-- One lexical unit of a document. -/
inductive Token
  | version (major minor : Nat)
  | tagDirective (handle lead : String)
  | documentStart
  | documentEnd
  | blockSequence
  | blockMapping
  | blockEnd
  | flowSequence
  | flowSequenceEnd
  | flowMapping
  | flowMappingEnd
  | blockEntry
  | flowEntry
  | key
  | value
  | alias (name : String)
  | anchor (name : String)
  | tag (handle suffix : String)
  | scalar (style : Style) (text : String)
  deriving DecidableEq, Inhabited

/-- A place where a simple key may have started. -/
structure SimpleKey where
  possible : Bool := false
  /-- Whether the block would be broken without the key. -/
  required : Bool := false
  /-- The number of tokens before the key. -/
  number : Nat := 0
  mark : Mark := {}

/-- A text that is being cut into tokens. -/
structure Scan where
  cursor : Cursor
  tokens : List Token := []
  /-- The columns of the open blocks around the innermost one. -/
  outer : List Int := []
  /-- The column of the innermost block, -1 outside all blocks. -/
  indent : Int := -1
  /-- Whether a simple key may start here. -/
  keyAllowed : Bool := true
  /-- The possible simple key of the text at hand. -/
  simpleKey : SimpleKey := {}
  /-- The possible simple keys of the brackets and braces around it. -/
  outerKeys : List SimpleKey := []

namespace Scan

/-- Inside brackets or braces. -/
def inFlow (s : Scan) : Bool := !s.outerKeys.isEmpty

/-- The current column. -/
def column (s : Scan) : Nat := s.cursor.mark.column

/-- Adds a token at the end. -/
def emit (s : Scan) (t : Token) : Scan :=
  { s with tokens := s.tokens ++ [t] }

/-- Puts tokens in front of the `n`-th token. -/
def insertAt (s : Scan) (n : Nat) (ts : List Token) : Scan :=
  { s with tokens := s.tokens.take n ++ ts ++ s.tokens.drop n }

/-- Moves over `n` characters of the line. -/
def advance (s : Scan) (n : Nat) : Scan :=
  { s with cursor := ⟨s.cursor.rest.drop n, s.cursor.mark.skip n⟩ }

/-! ## Simple keys and indentation -/

/-- Gives up the possible simple key. -/
def dropKey (s : Scan) : Except Fault Scan :=
  if s.simpleKey.possible && s.simpleKey.required then .error .misplaced
  else .ok { s with simpleKey := { s.simpleKey with possible := false } }

/-- A key must end on its line and within 1024 bytes. -/
def stale (m : Mark) (k : SimpleKey) : Bool :=
  k.possible && (k.mark.line < m.line || k.mark.index + 1024 < m.index)

/-- Gives up the simple keys that have become too long. -/
def dropStaleKeys (s : Scan) : Except Fault Scan :=
  let m := s.cursor.mark
  if (s.simpleKey :: s.outerKeys).any fun k => stale m k && k.required then .error .misplaced
  else
    let fresh := fun (k : SimpleKey) => if stale m k then { k with possible := false } else k
    .ok { s with simpleKey := fresh s.simpleKey, outerKeys := s.outerKeys.map fresh }

/-- Notes that a simple key may start here. -/
def saveKey (s : Scan) : Except Fault Scan :=
  if s.keyAllowed then do
    let s ← s.dropKey
    return { s with simpleKey :=
      { possible := true
        required := !s.inFlow && s.indent = s.column
        number := s.tokens.length
        mark := s.cursor.mark } }
  else .ok s

/-- Opens a block at a column, if that is deeper than the innermost block; its token goes in front
of the `n`-th token. -/
def openBlock (s : Scan) (column : Nat) (n : Nat) (t : Token) : Scan :=
  if !s.inFlow && s.indent < column then
    { s.insertAt n [t] with outer := s.indent :: s.outer, indent := column }
  else s

/-- Closes the blocks that are deeper than a column. -/
def closeBlocks (column : Int) (s : Scan) : Scan :=
  if s.inFlow then s else close s.outer s
where
  /-- Closes blocks one by one. -/
  close : List Int → Scan → Scan
    | [], s => s
    | i :: outer, s =>
      if column < s.indent then close outer { s.emit .blockEnd with indent := i, outer } else s

/-! ## Reading tokens -/

/-- The cursor at the next token, and whether a line break was passed. A byte order mark at the
start of a line is passed over like a blank. -/
def toToken (tabs : Bool) : (comment : Bool) → Bool → Mark → List Char → Cursor × Bool
  | _, broke, m, [] => (⟨[], m⟩, broke)
  | _, _, m, '\r' :: '\n' :: cs => toToken tabs false true (m.newLine 2) cs
  | comment, broke, m, c :: cs =>
    if isBreak c then toToken tabs false true (m.newLine c.utf8Size) cs
    else if comment then toToken tabs true broke (m.past c) cs
    else if c == orderMark && m.column = 0 then toToken tabs false broke (m.past c) cs
    else if c == ' ' || (c == '\t' && (tabs || !broke)) then
      toToken tabs false broke (m.skip 1) cs
    else if c == '#' then toToken tabs true broke (m.skip 1) cs
    else (⟨c :: cs, m⟩, broke)

/-- Moves to the next token. A line break outside brackets allows a simple key again; tabs do not
count as white space where a simple key may start. -/
def skipToToken (s : Scan) : Scan :=
  let start := if s.inFlow then false else s.keyAllowed
  let (cursor, broke) := toToken s.inFlow false start s.cursor.mark s.cursor.rest
  { s with cursor, keyAllowed := s.keyAllowed || (broke && !s.inFlow) }

/-- An indicator of `n` characters. -/
def indicator (s : Scan) (n : Nat) (t : Token) : Scan :=
  (s.advance n).emit t

/-- A mark between documents. -/
def documentMark (s : Scan) (t : Token) : Except Fault Scan := do
  let s ← (s.closeBlocks (-1)).dropKey
  return { s with keyAllowed := false }.indicator 3 t

/-- An opening bracket or brace. -/
def openFlow (s : Scan) (t : Token) : Except Fault Scan := do
  let s ← s.saveKey
  return { s with
    outerKeys := s.simpleKey :: s.outerKeys, simpleKey := {}, keyAllowed := true }.indicator 1 t

/-- A closing bracket or brace. -/
def closeFlow (s : Scan) (t : Token) : Except Fault Scan := do
  let s ← s.dropKey
  let s :=
    match s.outerKeys with
    | [] => s
    | k :: ks => { s with simpleKey := k, outerKeys := ks }
  return { s with keyAllowed := false }.indicator 1 t

/-- A comma in brackets or braces. -/
def flowEntry (s : Scan) : Except Fault Scan := do
  let s ← s.dropKey
  return { s with keyAllowed := true }.indicator 1 .flowEntry

/-- A dash before an item. -/
def blockEntry (s : Scan) : Except Fault Scan := do
  if !s.inFlow && !s.keyAllowed then throw Fault.misplaced
  let s ← (s.openBlock s.column s.tokens.length .blockSequence).dropKey
  return { s with keyAllowed := true }.indicator 1 .blockEntry

/-- A question mark before a key. -/
def explicitKey (s : Scan) : Except Fault Scan := do
  if !s.inFlow && !s.keyAllowed then throw Fault.misplaced
  let s ← (s.openBlock s.column s.tokens.length .blockMapping).dropKey
  return { s with keyAllowed := !s.inFlow }.indicator 1 .key

/-- A colon before a value: behind a simple key, or on its own. -/
def valueMark (s : Scan) : Except Fault Scan :=
  let k := s.simpleKey
  if k.possible then
    let s := (s.insertAt k.number [.key]).openBlock k.mark.column k.number .blockMapping
    .ok ({ s with simpleKey := { k with possible := false }, keyAllowed := false }.indicator 1
      .value)
  else if !s.inFlow && !s.keyAllowed then .error .misplaced
  else
    let s := s.openBlock s.column s.tokens.length .blockMapping
    .ok ({ s with keyAllowed := !s.inFlow }.indicator 1 .value)

/-- An anchor or an alias. -/
def anchorMark (s : Scan) (make : String → Token) : Except Fault Scan := do
  let s ← s.saveKey
  let name := (s.cursor.rest.drop 1).takeWhile isWordChar
  let rest := s.cursor.rest.drop (1 + name.length)
  let ends := atGap rest ||
    (match rest with
      | c :: _ => "?:,]\x7d%@`".toList.contains c
      | [] => true)
  if name = [] || !ends then throw Fault.badTag
  return { s with keyAllowed := false }.indicator (1 + name.length) (make (String.ofList name))

/-- A character of a tag. -/
def isTagChar (c : Char) : Bool :=
  isWordChar c || ";/?:@&=+$.!~*\x27()".toList.contains c

/-- A character of a tag that is being read from escaped bytes. -/
structure EscapedChar where
  /-- The number of bytes that are still to come. -/
  missing : Nat
  /-- The code point so far. -/
  code : Nat
  /-- The least code point that needs so many bytes. -/
  least : Nat

/-- The character whose first byte is given; the high bits of that byte tell their number. -/
def EscapedChar.first? (byte : Nat) : Option EscapedChar :=
  if byte < 0x80 then some ⟨0, byte, 0⟩
  else if byte < 0xC0 then none
  else if byte < 0xE0 then some ⟨1, byte - 0xC0, 0x80⟩
  else if byte < 0xF0 then some ⟨2, byte - 0xE0, 0x800⟩
  else if byte < 0xF8 then some ⟨3, byte - 0xF0, 0x10000⟩
  else none

/-- The character with one more byte. -/
def EscapedChar.next? (e : EscapedChar) (byte : Nat) : Option EscapedChar :=
  if 0x80 ≤ byte ∧ byte < 0xC0 then
    some { e with missing := e.missing - 1, code := e.code * 64 + (byte - 0x80) }
  else none

/-- The character of a complete code point; one that is not valid, or written with needless bytes,
gives the replacement character. -/
def EscapedChar.char (e : EscapedChar) : Char :=
  if e.least ≤ e.code && e.code.isValidChar then Char.ofNat e.code else Char.ofNat 0xFFFD

/-- Reads the characters of a tag: percent signs escape the bytes of characters. -/
def tagText (allowed : Char → Bool) :
    (open? : Option EscapedChar) → List Char → Option (List Char × List Char)
  | open?, '%' :: a :: b :: cs => do
    let byte ← Text.digitsFrom? 16 0 [a, b]
    let e ← (match open? with
      | some e => e.next? byte
      | none => EscapedChar.first? byte)
    if e.missing = 0 then
      let (text, rest) ← tagText allowed none cs
      return (e.char :: text, rest)
    else tagText allowed (some e) cs
  | some _, _ => none
  | none, '%' :: _ => none
  | none, c :: cs =>
    if allowed c then do
      let (text, rest) ← tagText allowed none cs
      return (c :: text, rest)
    else some ([], c :: cs)
  | none, [] => some ([], [])

/-- The text of a tag, which ends at a null character. -/
def tagOf (text : List Char) : String :=
  String.ofList (text.takeWhile (· != '\x00'))

/-- The handle and the suffix of a tag, and what follows it. -/
def splitTag (cs : List Char) : Option (String × String × List Char) :=
  match cs with
  | '!' :: '<' :: cs => do
    let (text, rest) ← tagText (fun c => isTagChar c || ",[]".toList.contains c) none cs
    match rest with
    | '>' :: rest => if text = [] then none else some ("", tagOf text, rest)
    | _ => none
  | '!' :: cs => do
    let word := cs.takeWhile isWordChar
    match cs.drop word.length with
    | '!' :: cs =>
      let (text, rest) ← tagText isTagChar none cs
      if text = [] then none
      else return ("!" ++ String.ofList word ++ "!", tagOf text, rest)
    | _ =>
      let (text, rest) ← tagText isTagChar none cs
      if tagOf text = "" then return ("", "!", rest) else return ("!", tagOf text, rest)
  | _ => none

/-- A tag. -/
def tagMark (s : Scan) : Except Fault Scan := do
  let s ← s.saveKey
  match splitTag s.cursor.rest with
  | none => throw Fault.badTag
  | some (handle, suffix, rest) =>
    let ends := atGap rest || (s.inFlow && rest.head? = some ',')
    if !ends then throw Fault.badTag
    return { s with keyAllowed := false }.indicator (s.cursor.rest.length - rest.length)
      (.tag handle suffix)

/-- The token and the end of a scalar. -/
def scalarToken (s : Scan) (style : Style) (text : List Char) (cursor : Cursor) : Scan :=
  { s with cursor }.emit (.scalar style (String.ofList text))

/-- A plain scalar; one that ends with its line allows a simple key behind it. -/
def plainScalar (s : Scan) : Except Fault Scan := do
  let s ← s.saveKey
  let (d, cursor) ← plain s.inFlow (s.indent + 1).toNat {} s.cursor.mark s.cursor.rest
  return { s with keyAllowed := d.broken }.scalarToken .plain d.text.reverse cursor

/-- A quoted scalar. -/
def quotedScalar (s : Scan) (double : Bool) : Except Fault Scan := do
  let s ← s.saveKey
  let (d, cursor) ← quoted double {} (s.cursor.mark.skip 1) (s.cursor.rest.drop 1)
  return { s with keyAllowed := false }.scalarToken
    (if double then .doubleQuoted else .singleQuoted) d.text.reverse cursor

/-- The indicators behind `|` or `>`: how to treat the end, and the indentation, 0 if it is to be
found. -/
def blockHeader (cs : List Char) : Except Fault (Chomp × Nat × List Char) :=
  match cs with
  | a :: b :: rest =>
    match chomp? a, digit? b with
    | some c, some n => if n = 0 then .error .badText else .ok (c, n, rest)
    | _, _ =>
      match digit? a, chomp? b with
      | some n, some c => if n = 0 then .error .badText else .ok (c, n, rest)
      | _, _ => one a (b :: rest)
  | [a] => one a []
  | [] => .ok (.clip, 0, [])
where
  /-- A sign that says how to treat the end. -/
  chomp? (c : Char) : Option Chomp :=
    if c == '-' then some .strip else if c == '+' then some .keep else none
  /-- A digit. -/
  digit? (c : Char) : Option Nat := Text.digitValue? 10 c
  /-- At most one indicator. -/
  one (a : Char) (rest : List Char) : Except Fault (Chomp × Nat × List Char) :=
    match chomp? a, digit? a with
    | some c, _ => .ok (c, 0, rest)
    | none, some n => if n = 0 then .error .badText else .ok (.clip, n, rest)
    | none, none => .ok (.clip, 0, a :: rest)

/-- The position at the end of a line on which only white space and a comment may stand. -/
def restOfLine : (comment : Bool) → Mark → List Char → Option Cursor
  | _, m, [] => some ⟨[], m⟩
  | comment, m, c :: cs =>
    if isBreak c then some ⟨c :: cs, m⟩
    else if comment || isBlank c then restOfLine comment (m.past c) cs
    else if c == '#' then restOfLine true (m.skip 1) cs
    else none

/-- The cursor behind a line break, if there is one. -/
def pastBreak (c : Cursor) : Cursor :=
  match c.rest with
  | '\r' :: '\n' :: cs => ⟨cs, c.mark.newLine 2⟩
  | b :: cs => ⟨cs, c.mark.newLine b.utf8Size⟩
  | [] => c

/-- A block scalar. -/
def blockScalar (s : Scan) (literal : Bool) : Except Fault Scan := do
  let s ← s.dropKey
  let body := s.cursor.rest.drop 1
  let (chomp, increment, rest) ← blockHeader body
  let mark := s.cursor.mark.skip (1 + body.length - rest.length)
  match restOfLine false mark rest with
  | none => throw Fault.badText
  | some cursor =>
    let cursor := pastBreak cursor
    let least := (s.indent + 1).toNat
    let indent := if increment = 0 then 0 else (max s.indent 0).toNat + increment
    let (text, cursor) ← block false { literal, chomp, least, indent } cursor.mark cursor.rest
    return { s with keyAllowed := true }.scalarToken (if literal then .literal else .folded) text
      cursor

/-- The number in a version directive, of at most nine digits. -/
def versionNumber (cs : List Char) : Except Fault (Nat × List Char) :=
  let ds := cs.takeWhile Char.isDigit
  match Text.digitsFrom? 10 0 ds with
  | some n =>
    if ds = [] || 9 < ds.length then .error .directive else .ok (n, cs.drop ds.length)
  | none => .error .directive

/-- Reads a directive from behind its percent sign. -/
def readDirective (cs : List Char) : Except Fault (Token × List Char) := do
  let name := cs.takeWhile isWordChar
  let rest := cs.drop name.length
  if name = [] || !atGap rest then throw Fault.directive
  let args := rest.dropWhile isBlank
  if name = "YAML".toList then
    let (major, rest) ← versionNumber args
    match rest with
    | '.' :: rest =>
      let (minor, rest) ← versionNumber rest
      return (.version major minor, rest)
    | _ => throw Fault.directive
  else if name = "TAG".toList then
    match args with
    | '!' :: more =>
      let word := more.takeWhile isWordChar
      let (handle, rest) ← (
        match more.drop word.length with
        | '!' :: rest => pure ('!' :: word ++ ['!'], rest)
        | rest => if word = [] then pure (['!'], rest) else throw Fault.directive)
      match rest with
      | c :: _ =>
        if isBlank c then
          let admits := fun c => isTagChar c || ",[]".toList.contains c
          match tagText admits none (rest.dropWhile isBlank) with
          | some (lead, rest) =>
            if lead = [] || !atGap rest then throw Fault.directive
            return (.tagDirective (String.ofList handle) (tagOf lead), rest)
          | none => throw Fault.directive
        else throw Fault.directive
      | [] => throw Fault.directive
    | _ => throw Fault.directive
  else throw Fault.directive

/-- A directive, on a line of its own. -/
def directive (s : Scan) : Except Fault Scan := do
  let s ← (s.closeBlocks (-1)).dropKey
  let body := s.cursor.rest.drop 1
  let (t, rest) ← readDirective body
  match restOfLine false (s.cursor.mark.skip (1 + body.length - rest.length)) rest with
  | none => throw Fault.directive
  | some cursor => return { s with keyAllowed := false, cursor := pastBreak cursor }.emit t

/-- Whether a plain scalar can start here. -/
def startsPlain (s : Scan) (c : Char) (cs : List Char) : Bool :=
  if c == '-' then (match cs with
    | [] => true
    | n :: _ => !isBlank n)
  else if c == '?' || c == ':' then !s.inFlow && !atGap cs
  else !(isBlank c || isBreak c || ",[]\x7b\x7d#&*!|>\x27\"%@`".toList.contains c)

/-- Reads the token that starts at the cursor. -/
def token (s : Scan) (c : Char) (cs : List Char) : Except Fault Scan :=
  if s.column = 0 && c == '%' then s.directive
  else if s.column = 0 && atMark (c :: cs) then
    s.documentMark (if c == '-' then .documentStart else .documentEnd)
  else if c == '[' then s.openFlow .flowSequence
  else if c == '\x7b' then s.openFlow .flowMapping
  else if c == ']' then s.closeFlow .flowSequenceEnd
  else if c == '\x7d' then s.closeFlow .flowMappingEnd
  else if c == ',' then s.flowEntry
  else if c == '-' && atGap cs then s.blockEntry
  else if c == '?' && (s.inFlow || atGap cs) then s.explicitKey
  else if c == ':' && (s.inFlow || atGap cs) then s.valueMark
  else if c == '*' then s.anchorMark .alias
  else if c == '&' then s.anchorMark .anchor
  else if c == '!' then s.tagMark
  else if c == '|' && !s.inFlow then s.blockScalar true
  else if c == '>' && !s.inFlow then s.blockScalar false
  else if c == '\x27' then s.quotedScalar false
  else if c == '"' then s.quotedScalar true
  else if s.startsPlain c cs then s.plainScalar
  else .error .token

/-- Closes what is open at the end of the text. -/
def finish (s : Scan) : Except Fault (List Token) := do
  return (← (s.closeBlocks (-1)).dropKey).tokens

/-- Reads at most `bound` tokens. -/
def scan : (bound : Nat) → Scan → Except Fault (List Token)
  | 0, s => s.finish
  | bound + 1, s => do
    let s ← s.skipToToken.dropStaleKeys
    let s := s.closeBlocks s.column
    match s.cursor.rest with
    | [] => s.finish
    | c :: cs => scan bound (← s.token c cs)

end Scan

/-- The tokens of a text. -/
def tokens (text : String) : Except Fault (List Token) :=
  let cs := text.toList
  if cs.all isPrintable then Scan.scan (cs.length + 1) { cursor := ⟨cs, {}⟩ }
  else .error .character

end LintDigest.Yaml
