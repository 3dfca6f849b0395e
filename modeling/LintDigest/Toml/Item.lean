/-!
# TOML tables

A TOML document is a table of items. Each table remembers how it came about, because that decides
who may still add to it: a header may open a table that was only implied by a longer header, a
dotted key may add to a table made by dotted keys, and an inline table is closed.
-/

namespace LintDigest.Toml

/-- What makes a text no TOML document. -/
inductive Fault
  | malformed
  | badText
  | badNumber
  | badDate
  | repeatedKey
  | wrongKind
  | tooDeep
  deriving DecidableEq, Inhabited

/-- A short description for error messages. -/
def Fault.message : Fault → String
  | malformed => "the text is not valid TOML"
  | badText => "a string is malformed"
  | badNumber => "a number is malformed or out of range"
  | badDate => "a date or time is malformed"
  | repeatedKey => "a key or table is defined twice"
  | wrongKind => "a key continues something that is no table"
  | tooDeep => "arrays, inline tables or dotted keys go too deep"

/-- How a table came about. -/
inductive Origin
  /-- By its own header. -/
  | header
  /-- By a header of a table below it. -/
  | implied
  /-- By a dotted key. -/
  | dotted
  /-- In braces; nothing can be added. -/
  | closed
  deriving DecidableEq, Inhabited

/-- An item of a document. -/
inductive Item
  | text (s : String)
  | integer (n : Int)
  | float
  | boolean (b : Bool)
  | moment (s : String)
  | array (items : List Item)
  | table (origin : Origin) (fields : List (String × Item))
  /-- Tables that share a double-bracketed header. -/
  | tables (elements : List (List (String × Item)))
  deriving Inhabited

mutual

/-- How deep brackets and braces nest in an item. -/
def Item.depth : Item → Nat
  | .array items => depthOfItems items + 1
  | .table .closed fields => depthOfFields fields + 1
  | .table _ fields => depthOfFields fields
  | _ => 0

/-- The greatest depth of several items. -/
def depthOfItems : List Item → Nat
  | [] => 0
  | item :: items => max item.depth (depthOfItems items)

/-- The greatest depth of the items of several fields. -/
def depthOfFields : List (String × Item) → Nat
  | [] => 0
  | (_, item) :: fields => max item.depth (depthOfFields fields)

end

/-- Brackets and braces nest at most this deep, and a dotted key has at most so many parts. -/
def maxDepth : Nat := 80

/-- The fields of a table, in order of definition. -/
abbrev Fields := List (String × Item)

namespace Fields

/-- The fields with the item of a key replaced. -/
def set (fields : Fields) (key : String) (item : Item) : Fields :=
  fields.map fun (k, i) => if k = key then (k, item) else (k, i)

/-- Changes the last of several tables. -/
def modifyLast (f : Fields → Except Fault Fields) : List Fields → Except Fault (List Fields)
  | [] => .error .wrongKind
  | [t] => do return [← f t]
  | t :: ts => do return t :: (← modifyLast f ts)

/-- Walks along the keys of a header, implying tables that are missing, and changes the fields at
its end; of several tables the last one is entered. -/
def descend (f : Fields → Except Fault Fields) : List String → Fields → Except Fault Fields
  | [], fields => f fields
  | key :: keys, fields =>
    match fields.lookup key with
    | none => do return fields ++ [(key, .table .implied (← descend f keys []))]
    | some (.table .closed _) => .error .wrongKind
    | some (.table origin inner) => do
      return fields.set key (.table origin (← descend f keys inner))
    | some (.tables elements) => do
      return fields.set key (.tables (← modifyLast (descend f keys) elements))
    | some _ => .error .wrongKind

/-- Opens the table of a header at its last key. -/
def openTable (key : String) (fields : Fields) : Except Fault Fields :=
  match fields.lookup key with
  | none => .ok (fields ++ [(key, .table .header [])])
  | some (.table .implied inner) => .ok (fields.set key (.table .header inner))
  | some _ => .error .repeatedKey

/-- Adds a table to those of a double-bracketed header at its last key. -/
def addTable (key : String) (fields : Fields) : Except Fault Fields :=
  match fields.lookup key with
  | none => .ok (fields ++ [(key, .tables [[]])])
  | some (.tables elements) => .ok (fields.set key (.tables (elements ++ [[]])))
  | some _ => .error .repeatedKey

/-- Assigns a value to a dotted key; of several tables the last one is entered. `fresh` tells
whether the table at hand may take new keys: it is the one that the key is written in, or it was
made by dotted keys. -/
def assign (item : Item) : (fresh : Bool) → List String → Fields → Except Fault Fields
  | _, [], _ => .error .malformed
  | fresh, [key], fields =>
    if fresh && (fields.lookup key).isNone then .ok (fields ++ [(key, item)])
    else .error .repeatedKey
  | _, key :: keys, fields =>
    match fields.lookup key with
    | none => do return fields ++ [(key, .table .dotted (← assign item true keys []))]
    | some (.table .dotted inner) => do
      return fields.set key (.table .dotted (← assign item true keys inner))
    | some (.table .implied inner) => do
      return fields.set key (.table .implied (← assign item false keys inner))
    | some (.table _ _) => .error .repeatedKey
    | some (.tables elements) => do
      return fields.set key (.tables (← modifyLast (assign item false keys) elements))
    | some _ => .error .wrongKind

end Fields

end LintDigest.Toml
