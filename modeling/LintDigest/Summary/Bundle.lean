import LintDigest.Path.Relative
import LintDigest.Storage

/-!
# The summary by bundle

A page with one row for each module that has diagnostics. A row is put right before a marker, which
stays in the page for the next row.
-/

namespace LintDigest

open Script Storage

/-- Where the bundle page lives and how modules are named on it. -/
structure BundleSummary where
  dir : Path
  /-- How many levels above the report file the directory is that gives a module its name. -/
  nameDepth : Nat

/-- What became of a module's row. -/
inductive Appended
  /-- The module has no diagnostics. -/
  | skipped
  | row (name link : String)
  deriving DecidableEq, Inhabited

namespace BundleSummary

/-- The file name of the page. -/
def pageName : String := "summary-by-bundle.html"

/-- The place of the next row. -/
def marker : String := "<!-- lintfold:next-row -->"

/-- The path of the page. -/
def page (b : BundleSummary) : Path :=
  b.dir / pageName

/-- The page up to the first row. -/
def opening (stamp : String) : String :=
  "<!DOCTYPE html>\n<html lang=\"en\">\n<head>\n<meta charset=\"UTF-8\">\n" ++
  "<title>Summary by bundle</title>\n" ++
  "<style>body\x7bfont-family:sans-serif;margin:2em\x7dtable\x7bborder-collapse:collapse\x7d" ++
  "th,td\x7bborder:1px solid #ccc;padding:4px 8px\x7d.error\x7bcolor:#b00020\x7d" ++
  ".warning\x7bcolor:#a86400\x7d.info\x7bcolor:#1f5fa8\x7d</style>\n</head>\n<body>\n" ++
  "<h1>Summary by bundle</h1>\n<p class=\"timestamp\">Started: " ++ stamp ++ "</p>\n<table>\n" ++
  "<tr><th>Bundle</th><th>Errors</th><th>Warnings</th><th>Infos</th></tr>\n"

/-- The page behind the marker. -/
def closing : String :=
  "\n</table>\n</body>\n</html>\n"

/-- A page without rows. -/
def template (stamp : String) : String :=
  opening stamp ++ marker ++ closing

/-- The row of a module. -/
def rowText (name link : String) (c : Counts) : String :=
  "<tr><td><a href=\"" ++ Markup.escape link ++ "\">" ++ Markup.escape name ++
    "</a></td><td class=\"error\">" ++ toString c.errors ++ "</td><td class=\"warning\">" ++
    toString c.warnings ++ "</td><td class=\"info\">" ++ toString c.infos ++ "</td></tr>\n"

/-- The page with a row before its first marker; nothing when there is no marker. -/
def insertRow? (row page : String) : Option String :=
  (Text.cutAt? marker.toList page.toList).map fun (before, rest) =>
    String.ofList before ++ row ++ marker ++ String.ofList rest

/-- The pieces of a link that name something. -/
def linkParts (link : String) : List String :=
  ((Text.split (· == '/') link.toList).filter fun p => p ≠ [] && p ≠ ['.']).map String.ofList

/-- The name of a module: that of the directory `depth` levels above its report. It is taken from
the link when the link is deep enough, else from the report's own path; the link itself stands in
when there is no such directory. -/
def displayName (report : Path) (link : String) (depth : Nat) : String :=
  let parts := linkParts link
  match if depth < parts.length then parts[parts.length - 1 - depth]? else none with
  | some part => if part ≠ ".." then part else ancestorName
  | none => ancestorName
where
  /-- The name by the report's own path. -/
  ancestorName : String :=
    ((report.ancestors[depth]?).bind Path.fileName?).getD link

/-- The page as it stands, or a new one. -/
def content (b : BundleSummary) : Script (Except Error String) := do
  if ← isPresent b.page then readText b.page
  else
    log .info "lintfold::summary::bundle" ("Creating bundle summary " ++ b.page.text)
    return .ok (template (← request .now))

/-- Adds the row of a module that has diagnostics. -/
def append (b : BundleSummary) (report : Path) (d : Document) :
    Script (Except Error Appended) := do
  if d.isEmpty then
    log .info "lintfold::summary::bundle"
      ("No diagnostics for " ++ report.text ++ "; bundle summary unchanged")
    return .ok .skipped
  else locked do
    match ← b.content with
    | .error e => return .error e
    | .ok content =>
      if (Text.cutAt? marker.toList content.toList).isNone then
        return .error (.document b.page .missingMarker)
      let report ← absolute report
      let link := Path.relativeText report (← absolute b.dir)
      let name := displayName report link b.nameDepth
      match insertRow? (rowText name link d.counts) content with
      | none => return .error (.document b.page .missingMarker)
      | some page =>
        match ← replaceFile b.page page with
        | .error e => return .error e
        | .ok () => return .ok (.row name link)

end BundleSummary

end LintDigest
