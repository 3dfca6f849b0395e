import LintDigest.Text.Decimal
import LintDigest.Toml.Item

/-!
# TOML strings

Basic strings have escapes, literal strings have none; each comes in one line or in several. Every
reader starts behind the opening quotes and gives the text and what follows the closing quotes.
-/

namespace LintDigest.Toml

/-- A character that may stand in a comment or a string of one line. -/
def isPlain (c : Char) : Bool :=
  c == '\t' || (0x20 ≤ c.toNat && c.toNat != 0x7F)

/-- The character of a code point written in radix 16. -/
def hexChar (digits : List Char) : Except Fault Char :=
  match Text.digitsFrom? 16 0 digits with
  | none => .error .badText
  | some n => if n.isValidChar then .ok (Char.ofNat n) else .error .badText

/-- The character of an escape of one letter. -/
def escaped? : Char → Option Char
  | 'b' => some '\x08'
  | 't' => some '\t'
  | 'n' => some '\n'
  | 'f' => some '\x0c'
  | 'r' => some '\r'
  | 'e' => some '\x1b'
  | '"' => some '"'
  | '\\' => some '\\'
  | _ => none

/-- A string read so far and the rest of the input. -/
abbrev Piece := Except Fault (List Char × List Char)

/-- Puts a character in front of what is read next. -/
def before (c : Except Fault Char) (more : Piece) : Piece := do
  let c ← c
  let (cs, rest) ← more
  return (c :: cs, rest)

/-- A basic string on one line. -/
def basic : List Char → Piece
  | [] => .error .badText
  | '"' :: rest => .ok ([], rest)
  | '\\' :: 'x' :: a :: b :: rest => before (hexChar [a, b]) (basic rest)
  | '\\' :: 'u' :: a :: b :: c :: d :: rest => before (hexChar [a, b, c, d]) (basic rest)
  | '\\' :: 'U' :: a :: b :: c :: d :: e :: f :: g :: h :: rest =>
    before (hexChar [a, b, c, d, e, f, g, h]) (basic rest)
  | '\\' :: c :: rest =>
    match escaped? c with
    | some x => before (.ok x) (basic rest)
    | none => .error .badText
  | c :: rest => if isPlain c && c != '\\' then before (.ok c) (basic rest) else .error .badText

/-- A literal string on one line. -/
def literal : List Char → Piece
  | [] => .error .badText
  | '\x27' :: rest => .ok ([], rest)
  | c :: rest => if isPlain c then before (.ok c) (literal rest) else .error .badText

/-- Where the reader of a basic string of several lines stands. -/
inductive Gap
  | none
  /-- Behind a backslash that ends its line; only white space may follow on the line. -/
  | line
  /-- Behind such a line; white space and line breaks are dropped. -/
  | lines
  deriving DecidableEq

/-- A basic string of several lines. Up to two quotes may stand before the closing ones. A
backslash at the end of a line drops all white space up to the next character. -/
def basicLines : Gap → List Char → Piece
  | _, [] => .error .badText
  | .line, '\n' :: rest => basicLines .lines rest
  | .line, '\r' :: '\n' :: rest => basicLines .lines rest
  | .line, c :: rest => if c == ' ' || c == '\t' then basicLines .line rest else .error .badText
  | .lines, '\r' :: '\n' :: rest => basicLines .lines rest
  | .lines, ' ' :: rest => basicLines .lines rest
  | .lines, '\t' :: rest => basicLines .lines rest
  | .lines, '\n' :: rest => basicLines .lines rest
  | _, '"' :: '"' :: '"' :: '"' :: '"' :: rest => .ok (['"', '"'], rest)
  | _, '"' :: '"' :: '"' :: '"' :: rest => .ok (['"'], rest)
  | _, '"' :: '"' :: '"' :: rest => .ok ([], rest)
  | _, '\\' :: 'x' :: a :: b :: rest => before (hexChar [a, b]) (basicLines .none rest)
  | _, '\\' :: 'u' :: a :: b :: c :: d :: rest =>
    before (hexChar [a, b, c, d]) (basicLines .none rest)
  | _, '\\' :: 'U' :: a :: b :: c :: d :: e :: f :: g :: h :: rest =>
    before (hexChar [a, b, c, d, e, f, g, h]) (basicLines .none rest)
  | _, '\\' :: '\n' :: rest => basicLines .lines rest
  | _, '\\' :: '\r' :: '\n' :: rest => basicLines .lines rest
  | _, '\\' :: c :: rest =>
    if c == ' ' || c == '\t' then basicLines .line rest
    else
      match escaped? c with
      | some x => before (.ok x) (basicLines .none rest)
      | none => .error .badText
  | _, '\r' :: '\n' :: rest => before (.ok '\r') (before (.ok '\n') (basicLines .none rest))
  | _, c :: rest =>
    if c == '\n' || (isPlain c && c != '\\') then before (.ok c) (basicLines .none rest)
    else .error .badText

/-- A literal string of several lines. Up to two quotes may stand before the closing ones. -/
def literalLines : List Char → Piece
  | [] => .error .badText
  | '\x27' :: '\x27' :: '\x27' :: '\x27' :: '\x27' :: rest => .ok (['\x27', '\x27'], rest)
  | '\x27' :: '\x27' :: '\x27' :: '\x27' :: rest => .ok (['\x27'], rest)
  | '\x27' :: '\x27' :: '\x27' :: rest => .ok ([], rest)
  | '\r' :: '\n' :: rest => before (.ok '\r') (before (.ok '\n') (literalLines rest))
  | c :: rest =>
    if c == '\n' || isPlain c then before (.ok c) (literalLines rest) else .error .badText

/-- The text behind a line break, if it starts with one. -/
def dropBreak : List Char → List Char
  | '\n' :: cs => cs
  | '\r' :: '\n' :: cs => cs
  | cs => cs

/-- Reads a string of any kind from its opening quotes; nothing when there are none. -/
def quoted? : List Char → Option Piece
  | '"' :: '"' :: '"' :: cs => some (basicLines .none (dropBreak cs))
  | '"' :: cs => some (basic cs)
  | '\x27' :: '\x27' :: '\x27' :: cs => some (literalLines (dropBreak cs))
  | '\x27' :: cs => some (literal cs)
  | _ => none

end LintDigest.Toml
