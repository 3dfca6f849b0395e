/-!
# JSON output

Values whose objects keep the order of their fields, written on one line or indented by two spaces.
-/

namespace LintDigest

/-- A JSON value. -/
inductive Json
  | null
  | number (n : Nat)
  | string (s : String)
  | array (items : List Json)
  | object (fields : List (String × Json))
  deriving Inhabited

namespace Json

/-- A digit of radix 16, in lower case. -/
def hexDigit (n : Nat) : Char :=
  if n < 10 then Char.ofNat (0x30 + n) else Char.ofNat (0x61 + n - 10)

/-- A character inside a string: quotes, backslashes and control characters are escaped. -/
def escapeChar (c : Char) : List Char :=
  if c = '"' then ['\\', '"']
  else if c = '\\' then ['\\', '\\']
  else if c = '\n' then ['\\', 'n']
  else if c = '\r' then ['\\', 'r']
  else if c = '\t' then ['\\', 't']
  else if c = '\x08' then ['\\', 'b']
  else if c = '\x0c' then ['\\', 'f']
  else if c.toNat < 0x20 then
    ['\\', 'u', '0', '0', hexDigit (c.toNat / 16), hexDigit (c.toNat % 16)]
  else [c]

/-- A string in quotes. -/
def quote (s : String) : String :=
  "\"" ++ String.ofList (s.toList.flatMap escapeChar) ++ "\""

/-- The line break before something at a depth. -/
def breakLine (depth : Nat) : String :=
  "\n" ++ "".pushn ' ' (2 * depth)

mutual

/-- The value on one line, without spaces. -/
def compact : Json → String
  | null => "null"
  | number n => toString n
  | string s => quote s
  | array items => "[" ++ ",".intercalate (compactItems items) ++ "]"
  | object fields => "\x7b" ++ ",".intercalate (compactFields fields) ++ "\x7d"

/-- Array items on one line. -/
def compactItems : List Json → List String
  | [] => []
  | j :: js => compact j :: compactItems js

/-- Object fields on one line. -/
def compactFields : List (String × Json) → List String
  | [] => []
  | (key, j) :: fields => (quote key ++ ":" ++ compact j) :: compactFields fields

end

mutual

/-- The value over several lines, as it stands at a depth; empty arrays and objects stay short. -/
def indented (depth : Nat) : Json → String
  | null => "null"
  | number n => toString n
  | string s => quote s
  | array [] => "[]"
  | array (j :: js) =>
    "[" ++ ",".intercalate (indentedItems depth (j :: js)) ++ breakLine depth ++ "]"
  | object [] => "\x7b\x7d"
  | object (f :: fs) =>
    "\x7b" ++ ",".intercalate (indentedFields depth (f :: fs)) ++ breakLine depth ++ "\x7d"

/-- Array items, each on lines of its own. -/
def indentedItems (depth : Nat) : List Json → List String
  | [] => []
  | j :: js => (breakLine (depth + 1) ++ indented (depth + 1) j) :: indentedItems depth js

/-- Object fields, each on lines of its own. -/
def indentedFields (depth : Nat) : List (String × Json) → List String
  | [] => []
  | (key, j) :: fields =>
    (breakLine (depth + 1) ++ quote key ++ ": " ++ indented (depth + 1) j) ::
      indentedFields depth fields

end

/-- The value over several lines. -/
def pretty (j : Json) : String :=
  indented 0 j

end Json

end LintDigest
