import LintDigest.Outcome
import LintDigest.Text.Json
import LintDigest.Text.Style

/-!
# Outcomes as output

The lines for people, and the JSON for programs.
-/

namespace LintDigest

/-- The counts as JSON. -/
def Counts.json (c : Counts) : Json :=
  .object
    [("errors", .number c.errors), ("warnings", .number c.warnings), ("infos", .number c.infos),
      ("files", .number c.files)]

/-- The counts in words. -/
def Counts.text (c : Counts) : String :=
  "errors=" ++ toString c.errors ++ " warnings=" ++ toString c.warnings ++ " infos=" ++
    toString c.infos

namespace Outcome

/-- An outcome as JSON; the document stays out. -/
def json (o : Outcome) : Json :=
  .object
    [("module", .string o.module), ("sources", .array (o.tools.map .string)),
      ("counts", o.counts.json),
      ("report", match o.report with
        | some p => .string p
        | none => .null),
      ("failure", match o.gate with
        | some f => .string f.message
        | none => .null)]

/-- Outcomes and their totals as JSON. -/
def allJson (os : List Outcome) : Json :=
  let t := total os
  .object
    [("modules", .array (os.map json)),
      ("summary", .object
        [("modules", .number os.length),
          ("failed", .number (os.filter (!·.passed)).length),
          ("errors", .number t.errors), ("warnings", .number t.warnings),
          ("infos", .number t.infos), ("files", .number t.files)])]

/-- The mark in front of a module. -/
def status (colour : Bool) (o : Outcome) : String :=
  if o.tools.isEmpty then Text.styled colour [.grey] "⟦skip⟧"
  else if o.passed then Text.styled colour [.green, .bold] "⟦pass⟧"
  else Text.styled colour [.red, .bold] "⟦fail⟧"

/-- The lines of one outcome. -/
def lines (colour : Bool) (o : Outcome) : List String :=
  let head := o.status colour ++ " " ++ Text.styled colour [.bold] o.module ++ " "
  if o.tools.isEmpty then [head ++ "no reports found"]
  else
    (head ++ o.counts.text ++ " ❲" ++ ", ".intercalate o.tools ++ "❳") ::
      (match o.gate with
        | some f => (f.message.splitOn "\n").map ("    " ++ ·)
        | none => [])

/-- The line below all outcomes. -/
def summaryLine (os : List Outcome) : String :=
  let t := total os
  "— Summary — modules=" ++ toString os.length ++ " " ++ t.text ++ " files=" ++ toString t.files

/-- What is printed for outcomes in an output mode. -/
def output (mode : String) (colour : Bool) (os : List Outcome) : String :=
  if mode = "json" then (allJson os).pretty ++ "\n"
  else
    String.join ((os.flatMap (lines colour) ++
      [Text.styled colour [.bold] (summaryLine os)]).map (· ++ "\n"))

end Outcome

/-- What is printed for the counts of a single document in an output mode. -/
def Document.countsOutput (mode : String) (d : Document) : String :=
  let c := d.counts
  if mode = "json" then (Json.object [("summary", c.json)]).compact ++ "\n"
  else c.text ++ " files=" ++ toString c.files ++ "\n"

end LintDigest
