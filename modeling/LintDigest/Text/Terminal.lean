/-!
# What shows of a text

Control characters do not show on a terminal, and neither do the sequences that an escape character
starts: they steer it. `visible` is a text without them.
-/

namespace LintDigest.Text

/-- Where a terminal stands in a text: outside all sequences, or in a part of one. -/
inductive Terminal
  | ground
  /-- Behind an escape character. -/
  | escape
  /-- In a short sequence that its last character ends. -/
  | short
  /-- In a control sequence, behind the bracket. -/
  | control
  /-- At the head of a device string. -/
  | device
  /-- In the numbers at the head of a device string. -/
  | deviceNumbers
  /-- In the intermediate characters at the head of a device string. -/
  | deviceMarks
  /-- In a string that the terminator byte ends. -/
  | string
  /-- In a string that a bell ends. -/
  | command
  deriving DecidableEq, Inhabited

namespace Terminal

/-- Where the terminal stands behind one more byte. Two control characters break off any sequence,
and an escape character starts the next one. -/
def next (t : Terminal) (byte : Nat) : Terminal :=
  let within := fun lo hi => decide (lo ≤ byte ∧ byte ≤ hi)
  if byte = 0x18 || byte = 0x1A then ground
  else if byte = 0x1B then escape
  else
    match t with
    | ground => ground
    | escape =>
      if within 0x20 0x2F then short
      else if byte = 0x50 then device
      else if byte = 0x5B then control
      else if byte = 0x5D then command
      else if byte = 0x58 || byte = 0x5E || byte = 0x5F then string
      else if within 0x30 0x7E then ground
      else escape
    | short => if within 0x30 0x7E then ground else short
    | control => if within 0x40 0x7E then ground else control
    | device =>
      if within 0x20 0x2F then deviceMarks
      else if within 0x30 0x3F then deviceNumbers
      else if within 0x40 0x7E then string
      else device
    | deviceNumbers =>
      if within 0x20 0x2F then deviceMarks
      else if within 0x3C 0x7E then string
      else deviceNumbers
    | deviceMarks => if within 0x30 0x7E then string else deviceMarks
    | string => if byte = 0x9C then ground else string
    | command => if byte = 0x07 then ground else command

/-- Where the terminal stands behind a character that does not show, byte by byte. -/
def behind (t : Terminal) (c : Char) : Terminal :=
  ((String.utf8EncodeChar c).map UInt8.toNat).foldl next t

/-- White space that moves the place of writing: it shows even inside most sequences. -/
def isMove (c : Char) : Bool :=
  c == '\t' || c == '\n' || c == '\x0c' || c == '\r'

/-- Whether a character shows where the terminal stands. -/
def shows (t : Terminal) (c : Char) : Bool :=
  match t with
  | ground => isMove c || (' ' ≤ c && c != '\x7f')
  | escape | short | control => isMove c
  | _ => false

/-- What shows of a text. A character that shows starts a run in which all characters that show on
the ground do so. A control character ends the run, and goes to where the terminal stood before it;
only a character of more than one byte brings the terminal back to the ground on the way. -/
def visibleFrom : (running : Bool) → Terminal → List Char → List Char
  | _, _, [] => []
  | running, t, c :: cs =>
    if shows (if running then ground else t) c then
      c :: visibleFrom true (if c.toNat < 0x80 then t else ground) cs
    else visibleFrom false (t.behind c) cs

end Terminal

/-- The text without control characters and control sequences. -/
def visible (s : String) : String :=
  String.ofList (Terminal.visibleFrom true .ground s.toList)

end LintDigest.Text
