import LintDigest.Toml.Document
import LintDigest.Yaml.Node

/-!
# Configuration files

The same settings can be written in TOML or in YAML. A `Dialect` says how a format's values are
read as texts, flags, numbers, lists and records; one decoder then serves both. Unknown keys are
passed over.

Report file names stand in a `TextMap`. In which order such a map lists its entries is up to the map:
whoever goes through one is told a `MapOrder`.
-/

namespace LintDigest

/-! ## Texts by name -/

/-- The entries that no later one of the same name replaces. -/
def lasting : List (String × String) → List (String × String)
  | [] => []
  | e :: es => if e.1 ∈ es.map (·.1) then lasting es else e :: lasting es

theorem map_fst_lasting_subset (es : List (String × String)) :
    (lasting es).map (·.1) ⊆ es.map (·.1) := by
  induction es with
  | nil => exact List.Subset.refl _
  | cons e es ih =>
    rw [lasting]
    split
    · exact List.subset_cons_of_subset _ ih
    · exact List.cons_subset_cons _ ih

theorem nodup_map_fst_lasting (es : List (String × String)) : ((lasting es).map (·.1)).Nodup := by
  induction es with
  | nil => exact List.nodup_nil
  | cons e es ih =>
    rw [lasting]
    split
    · exact ih
    · next hlast => exact List.nodup_cons.2 ⟨fun h => hlast (map_fst_lasting_subset es h), ih⟩

/-- Texts by name, as a hash map holds them: each name once. -/
structure TextMap where
  entries : List (String × String)
  distinct : (entries.map (·.1)).Nodup
  deriving DecidableEq

instance : EmptyCollection TextMap := ⟨⟨[], List.nodup_nil⟩⟩

instance : Inhabited TextMap := ⟨∅⟩

/-- The map of some entries; of those with one name the last counts. -/
def TextMap.ofEntries (es : List (String × String)) : TextMap :=
  ⟨lasting es, nodup_map_fst_lasting es⟩

/-- The order in which hash maps list their entries. It is any order, which no program can count
on. -/
structure MapOrder where
  list : TextMap → List (String × String)
  perm : ∀ m, (list m).Perm m.entries

namespace MapOrder

/-- Entries are listed as they were written. -/
def written : MapOrder where
  list m := m.entries
  perm _ := .refl _

/-- Entries are listed the other way round. -/
def reversed : MapOrder where
  list m := m.entries.reverse
  perm _ := List.reverse_perm _

end MapOrder

/-! ## What a file may say -/

/-- Thresholds as a file may set them. -/
structure FailOn where
  error : Option Bool := none
  warning : Option Bool := none
  info : Option Bool := none
  deriving DecidableEq, Inhabited

/-- Summary settings as a file may set them. -/
structure SummarySettings where
  dir : Option String := none
  regenerate : Option String := none
  period : Option Nat := none
  nameDepth : Option Nat := none
  deriving DecidableEq, Inhabited

/-- What a configuration file says. -/
structure ConfigFile where
  output : Option String := none
  outputDir : Option String := none
  sources : Option (List String) := none
  console : Option Bool := none
  modules : List String := []
  failOn : Option FailOn := none
  summary : Option SummarySettings := none
  /-- Report file names by tool name. -/
  inputs : TextMap := ∅
  deriving DecidableEq, Inhabited

/-- How values of a format are read; each reading may be refused. -/
structure Dialect (α : Type) where
  /-- Whether an optional value is left open. -/
  isNull : α → Option Bool
  text : α → Option String
  flag : α → Option Bool
  natural : α → Option Nat
  items : α → Option (List α)
  /-- The fields of a record. -/
  record : α → Option (List (String × α))
  /-- Whether a record may be written as a list of its fields. -/
  positional : Bool

namespace Dialect

variable {α β : Type} (d : Dialect α)

/-- Reads an optional value. -/
def optional (read : α → Option β) (v : α) : Option (Option β) := do
  if ← d.isNull v then return none else return some (← read v)

/-- The values of a record's fields, in the order of `names`; fields that are missing have none. A
field must not occur twice. Where a list may give the fields by position, the first `least` of them
must be there, and items to spare are passed over. -/
def fields (names : List String) (least : Nat) (v : α) : Option (List (Option α)) :=
  match d.record v with
  | some entries =>
    if names.all fun n => (entries.filter (·.1 = n)).length ≤ 1 then
      some (names.map fun n => entries.lookup n)
    else none
  | none => do
    let items ← if d.positional then d.items v else none
    if items.length < least then none
    else return (names.zipIdx.map fun (_, i) => items[i]?)

/-- Reads an optional field. -/
def field (read : α → Option β) (v : Option α) : Option (Option β) :=
  match v with
  | none => some none
  | some v => d.optional read v

/-- Reads a list of texts. -/
def texts (v : α) : Option (List String) := do
  (← d.items v).mapM d.text

/-- Reads a map of texts. -/
def textMap (v : α) : Option TextMap := do
  let entries ← (← d.record v).mapM fun (key, value) => do return (key, ← d.text value)
  return .ofEntries entries

/-- Reads thresholds. -/
def failOn (v : α) : Option FailOn := do
  match ← d.fields ["error", "warning", "info"] 3 v with
  | [error, warning, info] =>
    return {
      error := ← d.field d.flag error
      warning := ← d.field d.flag warning
      info := ← d.field d.flag info }
  | _ => none

/-- Reads summary settings. -/
def summary (v : α) : Option SummarySettings := do
  match ← d.fields ["dir", "regenerate", "period", "name_depth"] 4 v with
  | [dir, regenerate, period, nameDepth] =>
    return {
      dir := ← d.field d.text dir
      regenerate := ← d.field d.text regenerate
      period := ← d.field d.natural period
      nameDepth := ← d.field d.natural nameDepth }
  | _ => none

/-- Reads a whole file. -/
def configFile (v : α) : Option ConfigFile := do
  let names :=
    ["output", "output_dir", "sources", "console", "modules", "fail_on", "summary", "inputs"]
  match ← d.fields names 7 v with
  | [output, outputDir, sources, console, modules, failOn, summary, inputs] =>
    return {
      output := ← d.field d.text output
      outputDir := ← d.field d.text outputDir
      sources := ← d.field d.texts sources
      console := ← d.field d.flag console
      modules := ← modules.elim (some []) d.texts
      failOn := ← d.field d.failOn failOn
      summary := ← d.field d.summary summary
      inputs := ← inputs.elim (some ∅) d.textMap }
  | _ => none

end Dialect

/-! ## TOML -/

namespace Toml

/-- TOML values are of the type that they are written in. A date or time counts as a record with one
reserved key. -/
def dialect : Dialect Item where
  isNull _ := some false
  text
    | .text s => some s
    | _ => none
  flag
    | .boolean b => some b
    | _ => none
  natural
    | .integer n => if 0 ≤ n ∧ n ≤ Text.maxLong then some n.toNat else none
    | _ => none
  items
    | .array items => some items
    | .tables elements => some (elements.map (.table .header))
    | _ => none
  record
    | .table _ fields => some fields
    | .moment s => some [("$__toml_private_datetime", .text s)]
    | _ => none
  positional := true

end Toml

/-! ## YAML -/

namespace Yaml

/-- The full text of a standard tag. -/
def standardTag (name : String) : String := "tag:yaml.org,2002:" ++ name

/-- The words that leave a value open. -/
def isNullWord (s : String) : Bool :=
  s = "null" || s = "Null" || s = "NULL" || s = "~"

/-- The text of a scalar that may be read as a value of a standard type: a plain one, or a literal
block with that type's tag. -/
def typed? (name : String) : Node → Option String
  | .scalar .plain _ s => some s
  | .scalar .literal (some tag) s => if tag = standardTag name then some s else none
  | _ => none

/-- The words for truth values. -/
def flagWord? (s : String) : Option Bool :=
  if s = "true" || s = "True" || s = "TRUE" then some true
  else if s = "false" || s = "False" || s = "FALSE" then some false
  else none

/-- A number of 64 bits: with a radix mark, or decimal without needless zeros in front. -/
def naturalWord? (s : String) : Option Nat :=
  let cs := (Text.after? ['+'] s.toList).getD s.toList
  match radix? cs with
  | some n => some n
  | none =>
    match cs with
    | '0' :: _ :: _ => if cs.all Char.isDigit then none else Text.digits? 10 Text.maxLong cs
    | _ => Text.digits? 10 Text.maxLong cs
where
  /-- A number with a radix mark. -/
  radix? : List Char → Option Nat
    | '0' :: 'x' :: ds => Text.digits? 16 Text.maxLong ds
    | '0' :: 'o' :: ds => Text.digits? 8 Text.maxLong ds
    | '0' :: 'b' :: ds => Text.digits? 2 Text.maxLong ds
    | _ => none

/-- A plain scalar of which nothing is written. -/
def isUnwritten : Node → Bool
  | .scalar .plain _ "" => true
  | _ => false

/-- Whether an optional value is left open: by writing nothing or a null word. A scalar with the
tag of nothing must be a null word. -/
def leftOpen : Node → Option Bool
  | .scalar .plain none s => some (s = "" || isNullWord s)
  | .scalar .plain (some tag) s =>
    if tag = standardTag "null" then if isNullWord s then some true else none else some false
  | _ => some false

/-- YAML scalars are read by what is wanted of them. Where a list or a record is wanted, nothing
written is an empty one. -/
def dialect (d : Document) : Dialect Node where
  isNull v := (d.resolve v).bind leftOpen
  text v := do
    match ← d.resolve v with
    | .scalar _ _ s => some s
    | _ => none
  flag v := do flagWord? (← typed? "bool" (← d.resolve v))
  natural v := do naturalWord? (← typed? "int" (← d.resolve v))
  items v := do
    match ← d.resolve v with
    | .sequence items => some items
    | n => if isUnwritten n then some [] else none
  record v := do
    match ← d.resolve v with
    | .mapping pairs => pairs.mapM fun (k, v) => do
      match ← d.resolve k with
      | .scalar _ _ s => some (s, v)
      | _ => none
    | n => if isUnwritten n then some [] else none
  positional := false

end Yaml

namespace ConfigFile

/-- Reads a file in TOML. -/
def ofToml (text : String) : Except String ConfigFile :=
  match Toml.parse text with
  | .error fault => .error fault.message
  | .ok fields =>
    match Toml.dialect.configFile (.table .header fields) with
    | some file => .ok file
    | none => .error "a value is of the wrong type"

/-- Reads a file in YAML; one in which nothing is written sets nothing. -/
def ofYaml (text : String) : Except String ConfigFile :=
  match Yaml.parse text with
  | .error fault => .error fault.message
  | .ok document =>
    match document.root with
    | none => .ok {}
    | some root =>
      match (Yaml.dialect document).configFile root with
      | some file => .ok file
      | none => .error "a value is of the wrong type"

end ConfigFile

end LintDigest
