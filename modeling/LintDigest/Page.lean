import LintDigest.Document.Basic
import LintDigest.Text.Markup

/-!
# Pages

A document as a self-contained page, with a table for each file or for each rule. Every text that
comes from a document or a caller is escaped, and the page carries the moment it was made.
-/

namespace LintDigest

/-- How a page groups its rows. -/
inductive View
  | byFile
  | byRule
  deriving DecidableEq, Inhabited

/-- The frame of a page. -/
structure Page where
  title : String := "Static Analysis Report"
  view : View := .byFile

namespace Page

/-- The style sheet of every page. -/
def style : String :=
  "body\x7bfont-family:sans-serif;margin:2em\x7d" ++
  "table\x7bborder-collapse:collapse;margin-bottom:1.5em\x7d" ++
  "th,td\x7bborder:1px solid #ccc;padding:4px 8px;text-align:left\x7d" ++
  "th\x7bbackground:#f0f0f0\x7d" ++
  ".error\x7bcolor:#b00020\x7d.warning\x7bcolor:#a86400\x7d.info\x7bcolor:#1f5fa8\x7d" ++
  ".timestamp\x7bcolor:#666\x7d"

/-- The row of one diagnostic; a line 0 is left blank. -/
def row (location : String) (d : Diagnostic) : String :=
  "<tr><td class=\"" ++ d.severity.name ++ "\">" ++ d.severity.name ++ "</td><td>" ++
    Markup.escape location ++ "</td><td>" ++
    (if d.line = 0 then "" else toString d.line.toNat) ++ "</td><td>" ++
    Markup.escape d.message ++ "</td></tr>\n"

/-- A headed table. -/
def table (heading : String) (column : String) (rows : List String) : String :=
  heading ++ "<table>\n<tr><th>Severity</th><th>" ++ column ++
    "</th><th>Line</th><th>Message</th></tr>\n" ++ String.join rows ++ "</table>\n"

/-- The table of one file; its rows show the rule, or `-` when there is none. -/
def fileSection (g : FileGroup) : String :=
  table ("<h2>" ++ Markup.escape g.path ++ "</h2>\n") "Rule"
    (g.diagnostics.map fun d => row (d.source.getD "-") d)

/-- A table for each file that has diagnostics, in document order. -/
def byFile (d : Document) : String :=
  String.join ((d.groups.filter (!·.diagnostics.isEmpty)).map fileSection)

/-- The key under which a diagnostic is listed by rule. -/
def ruleKey (d : Diagnostic) : String :=
  d.source.getD "unspecified"

/-- Rules in increasing order of their keys, each with its located diagnostics. -/
abbrev RuleIndex := List (String × List (String × Diagnostic))

/-- The index with one entry more, at the end of its rule's list. -/
def RuleIndex.insert (key : String) (e : String × Diagnostic) : RuleIndex → RuleIndex
  | [] => [(key, [e])]
  | (k, es) :: rest =>
    if key < k then (key, [e]) :: (k, es) :: rest
    else if key = k then (k, es ++ [e]) :: rest
    else (k, es) :: RuleIndex.insert key e rest

/-- The rule index of a document. -/
def ruleIndex (d : Document) : RuleIndex :=
  d.entries.foldl (fun ix e => ix.insert (ruleKey e.2) e) []

/-- The table of one rule, headed by its worst severity, its key and the number of its rows. -/
def ruleSection (key : String) (es : List (String × Diagnostic)) : String :=
  let worst := es.foldl (fun s e => s.worse e.2.severity) Severity.info
  table
    ("<h2 class=\"" ++ worst.name ++ "\">" ++ Markup.escape key ++ " (" ++ toString es.length ++
      ")</h2>\n")
    "File" (es.map fun (path, x) => row path x)

/-- A table for each rule, in increasing order of the rules. -/
def byRule (d : Document) : String :=
  String.join ((ruleIndex d).map fun (key, es) => ruleSection key es)

/-- What a page shows below its totals. -/
def body (view : View) (d : Document) : String :=
  if d.isEmpty then "<p class=\"empty\">No diagnostics.</p>"
  else match view with
    | .byFile => byFile d
    | .byRule => byRule d

/-- The page of a document, made at the moment `stamp`. -/
def render (p : Page) (stamp : String) (d : Document) : String :=
  let c := d.counts
  "<!DOCTYPE html>\n<html lang=\"en\">\n<head>\n<meta charset=\"UTF-8\">\n<title>" ++
    Markup.escape p.title ++ "</title>\n<style>" ++ style ++ "</style>\n</head>\n<body>\n<h1>" ++
    Markup.escape p.title ++ "</h1>\n<p class=\"timestamp\">Generated: " ++ stamp ++
    "</p>\n<table class=\"totals\">\n" ++
    "<tr><th>Files</th><th>Errors</th><th>Warnings</th><th>Infos</th></tr>\n<tr><td>" ++
    toString c.files ++ "</td><td class=\"error\">" ++ toString c.errors ++
    "</td><td class=\"warning\">" ++ toString c.warnings ++ "</td><td class=\"info\">" ++
    toString c.infos ++ "</td></tr>\n</table>\n" ++ body p.view d ++ "\n</body>\n</html>\n"

end Page

end LintDigest
