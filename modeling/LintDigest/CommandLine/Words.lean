import LintDigest.Text.Decimal
import LintDigest.Text.Split

/-!
# The words of a command line

A grammar names the options and switches of a command and says how many operands it takes.
`Reading.ofWords` sorts the words of a command line by it. An option whose value is a word of its
own is settled only when a later word needs it to be, so an unknown word right behind it is reported
before its bad value.
-/

namespace LintDigest.CommandLine

/-- Why a command line asks for something else than a command. -/
inductive Refusal
  /-- Help was asked for. -/
  | help
  /-- The version was asked for. -/
  | version
  /-- Nothing was given. -/
  | nothing
  | unknownCommand
  | unknownWord
  | missingOperand
  | missingValue
  /-- A switch has a value. -/
  | surplusValue
  /-- An option or a switch is given twice. -/
  | repeated
  | badValue
  deriving DecidableEq, Inhabited

/-- The text of a refusal. -/
def Refusal.message : Refusal → String
  | help => "help was asked for"
  | version => "the version was asked for"
  | nothing => "no command was given"
  | unknownCommand => "unrecognized subcommand"
  | unknownWord => "unexpected argument"
  | missingOperand => "a required argument was not provided"
  | missingValue => "an option needs a value"
  | surplusValue => "a switch takes no value"
  | repeated => "an argument cannot be used multiple times"
  | badValue => "invalid value for an option"

/-- The words that a command understands. -/
structure Grammar where
  /-- The options, which take a value. -/
  options : List String := []
  /-- The options whose value is a whole number. -/
  numeric : List String := []
  switches : List String := []
  /-- The least number of operands. -/
  least : Nat := 0
  /-- The greatest number of operands, if there is one. -/
  most : Option Nat := some 0

/-- A word by its form. -/
inductive Word
  /-- The word `--`. -/
  | divider
  /-- Written `--name` or `--name=value`. -/
  | long (name : String) (value : Option String)
  /-- Written `-` and at least one letter, of which the first counts. -/
  | short (letter : Char)
  | plain (text : String)
  deriving DecidableEq, Inhabited

/-- The form of a word; a lone `-` is plain. -/
def Word.ofText (text : String) : Word :=
  match text.toList with
  | ['-', '-'] => divider
  | '-' :: '-' :: body =>
    match Text.cutAt? ['='] body with
    | some (name, value) => long (String.ofList name) (some (String.ofList value))
    | none => long (String.ofList body) none
  | '-' :: letter :: _ => short letter
  | _ => plain text

/-- What the words read so far say. -/
structure Reading where
  /-- The settled options with their values. -/
  options : List (String × String) := []
  switches : List String := []
  operands : List String := []
  /-- The latest option, with its value if there is one already; it is not settled yet. -/
  pending : Option (String × Option String) := none
  /-- Whether `--` was read: from there on all words are operands. -/
  divided : Bool := false
  deriving DecidableEq, Inhabited

namespace Reading

/-- The value of an option. -/
def option? (r : Reading) (name : String) : Option String :=
  r.options.lookup name

/-- Whether a switch is given. -/
def has (r : Reading) (name : String) : Bool :=
  r.switches.contains name

/-- Whether a value suits an option. -/
def suits (g : Grammar) (name value : String) : Bool :=
  !g.numeric.contains name || (Text.decimal? Text.maxLong value.toList).isSome

/-- Settles an option with its value. -/
def settleOption (g : Grammar) (r : Reading) (name value : String) : Except Refusal Reading :=
  if (r.option? name).isSome then .error .repeated
  else if suits g name value then .ok { r with options := r.options ++ [(name, value)] }
  else .error .badValue

/-- Settles the latest option. -/
def settle (g : Grammar) (r : Reading) : Except Refusal Reading :=
  match r.pending with
  | none => .ok r
  | some (_, none) => .error .missingValue
  | some (name, some value) => settleOption g { r with pending := none } name value

/-- Reads an operand. -/
def readOperand (g : Grammar) (r : Reading) (text : String) : Except Refusal Reading :=
  if g.most.all (r.operands.length < ·) then do
    let r ← r.settle g
    return { r with operands := r.operands ++ [text] }
  else .error .unknownWord

/-- Reads a word that starts with `--`. -/
def readLong (g : Grammar) (r : Reading) (name : String) (value : Option String) :
    Except Refusal Reading :=
  if g.options.contains name then do
    let r ← r.settle g
    match value with
    | some value => settleOption g r name value
    | none => return { r with pending := some (name, none) }
  else if g.switches.contains name || name = "help" then
    if value.isSome then .error .surplusValue
    else do
      let r ← r.settle g
      if name = "help" then throw .help
      if r.has name then throw .repeated
      return { r with switches := r.switches ++ [name] }
  else .error .unknownWord

/-- Reads one word. -/
def readWord (g : Grammar) (r : Reading) (text : String) : Except Refusal Reading :=
  if r.divided then readOperand g r text
  else
    match Word.ofText text with
    | .divider => .ok { r with divided := true }
    | .long name value => readLong g r name value
    | .short letter =>
      if letter = 'h' then do
        let _ ← r.settle g
        throw .help
      else .error .unknownWord
    | .plain text =>
      match r.pending with
      | some (name, none) => .ok { r with pending := some (name, some text) }
      | _ => readOperand g r text

/-- Reads all words of a command. -/
def ofWords (g : Grammar) (words : List String) : Except Refusal Reading := do
  let r ← words.foldlM (readWord g) {}
  let r ← r.settle g
  if r.operands.length < g.least then throw .missingOperand
  return r

end Reading

end LintDigest.CommandLine
