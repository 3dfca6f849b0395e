/-!
# Terminal colours
-/

namespace LintDigest.Text

/-- A way to set off a text on a terminal. -/
inductive Style
  | red
  | green
  | cyan
  | grey
  | bold
  deriving DecidableEq

/-- The escape sequence with a given number. -/
def escapeSequence (code : Nat) : String :=
  "\x1b[" ++ toString code ++ "m"

/-- The text in one style; colours are undone by the default colour, boldness by a reset. -/
def Style.apply (s : Style) (text : String) : String :=
  match s with
  | red => paint 31 39
  | green => paint 32 39
  | cyan => paint 36 39
  | grey => paint 90 39
  | bold => paint 1 0
where
  /-- The text between two escape sequences. -/
  paint (on off : Nat) : String := escapeSequence on ++ text ++ escapeSequence off

/-- The text in several styles, the first one innermost, unless colours are off. -/
def styled (colour : Bool) (styles : List Style) (text : String) : String :=
  if colour then styles.foldl (fun t s => s.apply t) text else text

end LintDigest.Text
