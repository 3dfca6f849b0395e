import Mathlib.Data.List.Infix
import LintDigest.Proofs.Page.Rules
import LintDigest.Proofs.Text.Decimal
import LintDigest.Proofs.Text.Markup
import LintDigest.Proofs.Text.Split

/-!
# The tags of a page

Every text on a page is escaped, so it opens no tag. What tags a page has is therefore known from
the severities of its tables alone (`tags_of_render`), whatever its titles, paths, rules and
messages say.
-/

namespace LintDigest

/-! ## Tags of a text -/

namespace Markup

/-- The tags of a text in order: for every `<`, what stands from there to the next `>`. -/
def tags : List Char → List String
  | [] => []
  | c :: cs =>
    if c = '<' then
      match Text.cutAt? ['>'] cs with
      | some (inside, _) => String.ofList ('<' :: inside ++ ['>']) :: tags cs
      | none => tags cs
    else tags cs

/-- Every `<` has a `>` behind it. -/
def Closed (cs : List Char) : Prop :=
  ∀ t ∈ cs.tails, t.head? = some '<' → '>' ∈ t

instance (cs : List Char) : Decidable (Closed cs) := inferInstanceAs (Decidable (∀ _ ∈ _, _))

/-- A text that leaves no tag open, and its tags. -/
structure Tagged (text : String) (ts : List String) : Prop where
  closed : Closed text.toList
  tags_eq : tags text.toList = ts

instance (text : String) (ts : List String) : Decidable (Tagged text ts) :=
  decidable_of_iff (Closed text.toList ∧ tags text.toList = ts)
    ⟨fun h => ⟨h.1, h.2⟩, fun h => ⟨h.closed, h.tags_eq⟩⟩

variable {c : Char} {cs xs : List Char} {a b : String} {ts us : List String}

theorem closed_cons : Closed (c :: cs) ↔ (c = '<' → '>' ∈ cs) ∧ Closed cs := by
  simp only [Closed, List.tails_cons, List.forall_mem_cons, List.head?_cons, Option.some.injEq]
  refine and_congr_left fun _ => forall_congr' fun hc => ?_
  subst hc
  simp

theorem closed_append {ys : List Char} (hx : Closed xs) (hy : Closed ys) : Closed (xs ++ ys) := by
  induction xs with
  | nil => exact hy
  | cons c xs ih =>
    obtain ⟨hopen, hxs⟩ := closed_cons.1 hx
    exact closed_cons.2 ⟨fun hc => List.mem_append_left _ (hopen hc), ih hxs⟩

/-- What follows a closed text does not change its tags. -/
theorem tags_append (hx : Closed xs) (ys : List Char) : tags (xs ++ ys) = tags xs ++ tags ys := by
  induction xs with
  | nil => rfl
  | cons c xs ih =>
    obtain ⟨hopen, hxs⟩ := closed_cons.1 hx
    rw [List.cons_append, tags, tags, ih hxs]
    split
    · next hc =>
      obtain ⟨inside, rest, rfl, hfirst⟩ := List.eq_append_cons_of_mem (hopen hc)
      rw [List.append_assoc, List.cons_append, Text.cutAt?_singleton hfirst,
        Text.cutAt?_singleton hfirst]
      rfl
    · rfl

theorem Tagged.append (ha : Tagged a ts) (hb : Tagged b us) : Tagged (a ++ b) (ts ++ us) := by
  constructor
  · rw [String.toList_append]
    exact closed_append ha.closed hb.closed
  · rw [String.toList_append, tags_append ha.closed, ha.tags_eq, hb.tags_eq]

/-- A text without `<` has no tags. -/
theorem tagged_plain (h : '<' ∉ a.toList) : Tagged a [] := by
  have hnone : ∀ cs : List Char, '<' ∉ cs → Closed cs ∧ tags cs = [] := by
    intro cs hcs
    induction cs with
    | nil => exact ⟨by decide, rfl⟩
    | cons c cs ih =>
      obtain ⟨hc, hrest⟩ := not_or.1 (mt List.mem_cons.2 hcs)
      obtain ⟨hclosed, htags⟩ := ih hrest
      exact ⟨closed_cons.2 ⟨fun h => absurd h.symm hc, hclosed⟩, by
        rw [tags, if_neg (Ne.symm hc), htags]⟩
  exact ⟨(hnone _ h).1, (hnone _ h).2⟩

theorem tagged_escape (text : String) : Tagged (escape text) [] :=
  tagged_plain (notMem_escape (by decide) (by decide) text)

theorem tagged_toString (n : Nat) : Tagged (toString n) [] := by
  apply tagged_plain
  intro h
  exact absurd (Text.isDigit_of_mem_toString h) (by decide)

theorem tagged_join {α : Type} {f : α → String} {g : α → List String} {l : List α}
    (h : ∀ x ∈ l, Tagged (f x) (g x)) : Tagged (String.join (l.map f)) (l.flatMap g) := by
  induction l with
  | nil => exact tagged_plain (by simp)
  | cons x l ih =>
    obtain ⟨hx, hl⟩ := List.forall_mem_cons.1 h
    rw [List.map_cons, String.join_cons, List.flatMap_cons]
    exact hx.append (ih hl)

end Markup

/-! ## Tags of a page -/

namespace Page

open Markup

/-- The tags of a row. -/
def rowTags (s : Severity) : List String :=
  ["<tr>", "<td class=\"" ++ s.name ++ "\">", "</td>", "<td>", "</td>", "<td>", "</td>", "<td>",
    "</td>", "</tr>"]

/-- The tag that opens the heading of a table with rows of the given severities. -/
def headingTag (ss : List Severity) : View → String
  | .byFile => "<h2>"
  | .byRule => "<h2 class=\"" ++ (Severity.worstOf ss).name ++ "\">"

/-- The tags of a table. -/
def tableTags (view : View) (ss : List Severity) : List String :=
  [headingTag ss view, "</h2>", "<table>", "<tr>", "<th>", "</th>", "<th>", "</th>", "<th>",
    "</th>", "<th>", "</th>", "</tr>"] ++ ss.flatMap rowTags ++ ["</table>"]

/-- The tags of all tables, or of the note that there are none. -/
def bodyTags (view : View) (sections : List (List Severity)) : List String :=
  if sections = [] then ["<p class=\"empty\">", "</p>"] else sections.flatMap (tableTags view)

/-- The tags of a page. -/
def pageTags (view : View) (sections : List (List Severity)) : List String :=
  ["<!DOCTYPE html>", "<html lang=\"en\">", "<head>", "<meta charset=\"UTF-8\">", "<title>",
    "</title>", "<style>", "</style>", "</head>", "<body>", "<h1>", "</h1>",
    "<p class=\"timestamp\">", "</p>", "<table class=\"totals\">", "<tr>", "<th>", "</th>", "<th>",
    "</th>", "<th>", "</th>", "<th>", "</th>", "</tr>", "<tr>", "<td>", "</td>",
    "<td class=\"error\">", "</td>", "<td class=\"warning\">", "</td>", "<td class=\"info\">",
    "</td>", "</tr>", "</table>"] ++ bodyTags view sections ++ ["</body>", "</html>"]

/-- The severities of each table of a page: by file those of each group that has any, by rule those
of each rule in the order of the keys. -/
def sections (d : Document) : View → List (List Severity)
  | .byFile =>
    (d.groups.filter (!·.diagnostics.isEmpty)).map fun g => g.diagnostics.map (·.severity)
  | .byRule => (ruleIndex d).map fun s => s.2.map (·.2.severity)

theorem tagged_row (location : String) (d : Diagnostic) :
    Tagged (row location d) (rowTags d.severity) := by
  have hstart : ∀ s : Severity, Tagged
      ("<tr><td class=\"" ++ s.name ++ "\">" ++ s.name ++ "</td><td>")
      ["<tr>", "<td class=\"" ++ s.name ++ "\">", "</td>", "<td>"] := by
    intro s
    cases s <;> decide +kernel
  have hnext : Tagged "</td><td>" ["</td>", "<td>"] := by decide +kernel
  have hend : Tagged "</td></tr>\n" ["</td>", "</tr>"] := by decide +kernel
  have hline : Tagged (if d.line = 0 then "" else toString d.line.toNat) [] := by
    split
    · decide
    · exact tagged_toString _
  have hlocated := ((hstart d.severity).append (tagged_escape location)).append hnext
  exact (((hlocated.append hline).append hnext).append (tagged_escape d.message)).append hend

theorem tagged_rows {α : Type} (l : List α) (location : α → String) (d : α → Diagnostic) :
    Tagged (String.join (l.map fun x => row (location x) (d x)))
      ((l.map fun x => (d x).severity).flatMap rowTags) := by
  rw [List.flatMap_map]
  exact tagged_join fun x _ => tagged_row (location x) (d x)

theorem tagged_table {heading column : String} {rows : List String} {tag : String}
    {ss : List Severity} (hheading : Tagged heading [tag, "</h2>"]) (hcolumn : '<' ∉ column.toList)
    (hrows : Tagged (String.join rows) (ss.flatMap rowTags)) :
    Tagged (table heading column rows)
      ([tag, "</h2>", "<table>", "<tr>", "<th>", "</th>", "<th>", "</th>", "<th>", "</th>", "<th>",
        "</th>", "</tr>"] ++ ss.flatMap rowTags ++ ["</table>"]) := by
  have hopening : Tagged "<table>\n<tr><th>Severity</th><th>"
      ["<table>", "<tr>", "<th>", "</th>", "<th>"] := by decide +kernel
  have hcolumns : Tagged "</th><th>Line</th><th>Message</th></tr>\n"
      ["</th>", "<th>", "</th>", "<th>", "</th>", "</tr>"] := by decide +kernel
  have hend : Tagged "</table>\n" ["</table>"] := by decide +kernel
  exact ((((hheading.append hopening).append (tagged_plain hcolumn)).append hcolumns).append
    hrows).append hend

theorem tagged_byFile (d : Document) :
    Tagged (byFile d) ((sections d .byFile).flatMap (tableTags .byFile)) := by
  rw [sections, List.flatMap_map]
  refine tagged_join fun g _ => tagged_table ?_ (by decide) (tagged_rows _ _ _)
  have hopen : Tagged "<h2>" ["<h2>"] := by decide +kernel
  have hclose : Tagged "</h2>\n" ["</h2>"] := by decide +kernel
  exact (hopen.append (tagged_escape g.path)).append hclose

theorem tagged_byRule (d : Document) :
    Tagged (byRule d) ((sections d .byRule).flatMap (tableTags .byRule)) := by
  rw [sections, List.flatMap_map]
  refine tagged_join fun s _ => ?_
  have hopen : ∀ worst : Severity, Tagged ("<h2 class=\"" ++ worst.name ++ "\">")
      ["<h2 class=\"" ++ worst.name ++ "\">"] := by
    intro worst
    cases worst <;> decide +kernel
  have hnumber : Tagged " (" [] := by decide +kernel
  have hclose : Tagged ")</h2>\n" ["</h2>"] := by decide +kernel
  show Tagged (ruleSection s.1 s.2) _
  rw [← text_tableOf]
  refine tagged_table ?_ (by decide) (tagged_rows _ _ _)
  exact ((((hopen _).append (tagged_escape s.1)).append hnumber).append
    (tagged_toString s.2.length)).append hclose

theorem sections_eq_nil_iff (d : Document) (view : View) :
    sections d view = [] ↔ d.isEmpty = true := by
  cases view with
  | byFile => simp [sections, Document.isEmpty]
  | byRule =>
    have hkeys := (indexes_indexOf d.entries).keys
    rw [Document.isEmpty_iff, sections, List.map_eq_nil_iff]
    constructor
    · intro hnil
      refine List.eq_nil_iff_forall_not_mem.2 fun e he => ?_
      have hkey := (hkeys (ruleKey e.2)).2 ⟨e, he, rfl⟩
      rw [show indexOf d.entries = [] from hnil] at hkey
      cases hkey
    · intro hnil
      rw [ruleIndex, hnil]
      rfl

theorem tagged_body (view : View) (d : Document) :
    Tagged (body view d) (bodyTags view (sections d view)) := by
  unfold body bodyTags
  by_cases h : d.isEmpty = true
  · rw [if_pos h, if_pos ((sections_eq_nil_iff d view).2 h)]
    decide +kernel
  · rw [if_neg h, if_neg (mt (sections_eq_nil_iff d view).1 h)]
    cases view with
    | byFile => exact tagged_byFile d
    | byRule => exact tagged_byRule d

theorem tagged_style : Tagged style [] := by
  apply tagged_plain
  unfold style
  simp only [String.toList_append, List.mem_append, not_or]
  decide +kernel

theorem tagged_render (p : Page) {stamp : String} (hstamp : '<' ∉ stamp.toList) (d : Document) :
    Tagged (p.render stamp d) (pageTags p.view (sections d p.view)) := by
  have htitle := tagged_escape p.title
  have hhead : Tagged
      "<!DOCTYPE html>\n<html lang=\"en\">\n<head>\n<meta charset=\"UTF-8\">\n<title>"
      ["<!DOCTYPE html>", "<html lang=\"en\">", "<head>", "<meta charset=\"UTF-8\">",
        "<title>"] := by decide +kernel
  have hstyle : Tagged "</title>\n<style>" ["</title>", "<style>"] := by decide +kernel
  have hsheet := tagged_style
  have hheading : Tagged "</style>\n</head>\n<body>\n<h1>"
      ["</style>", "</head>", "<body>", "<h1>"] := by decide +kernel
  have hmoment : Tagged "</h1>\n<p class=\"timestamp\">Generated: "
      ["</h1>", "<p class=\"timestamp\">"] := by decide +kernel
  have htable : Tagged "</p>\n<table class=\"totals\">\n" ["</p>", "<table class=\"totals\">"] := by
    decide +kernel
  have hcolumns : Tagged
      "<tr><th>Files</th><th>Errors</th><th>Warnings</th><th>Infos</th></tr>\n<tr><td>"
      ["<tr>", "<th>", "</th>", "<th>", "</th>", "<th>", "</th>", "<th>", "</th>", "</tr>", "<tr>",
        "<td>"] := by decide +kernel
  have herrors : Tagged "</td><td class=\"error\">" ["</td>", "<td class=\"error\">"] := by
    decide +kernel
  have hwarnings : Tagged "</td><td class=\"warning\">" ["</td>", "<td class=\"warning\">"] := by
    decide +kernel
  have hinfos : Tagged "</td><td class=\"info\">" ["</td>", "<td class=\"info\">"] := by
    decide +kernel
  have hrows : Tagged "</td></tr>\n</table>\n" ["</td>", "</tr>", "</table>"] := by decide +kernel
  have hend : Tagged "\n</body>\n</html>\n" ["</body>", "</html>"] := by decide +kernel
  have hframe := ((((((hhead.append htitle).append hstyle).append hsheet).append hheading).append
    htitle).append hmoment).append (tagged_plain hstamp)
  have hcounts := (((((((hframe.append htable).append hcolumns).append
    (tagged_toString d.counts.files)).append herrors).append
    (tagged_toString d.counts.errors)).append hwarnings).append
    (tagged_toString d.counts.warnings)).append hinfos
  exact ((((hcounts.append (tagged_toString d.counts.infos)).append hrows).append
    (tagged_body p.view d)).append hend)

/-- What tags a page has, is known from the severities of its tables: no title, path, rule or
message adds one, takes one away or changes one. So pages of one view with the same severities have
the same tags. -/
theorem tags_of_render (p : Page) (stamp : String) (hstamp : '<' ∉ stamp.toList) (d : Document) :
    tags (p.render stamp d).toList = pageTags p.view (sections d p.view) ∧
      ∀ (q : Page) (moment : String) (e : Document), '<' ∉ moment.toList → q.view = p.view →
        sections e q.view = sections d p.view →
        tags (q.render moment e).toList = tags (p.render stamp d).toList := by
  refine ⟨(tagged_render p hstamp d).tags_eq, fun q moment e hmoment hview hsections => ?_⟩
  rw [(tagged_render p hstamp d).tags_eq, (tagged_render q hmoment e).tags_eq, hsections, hview]

/-- Two documents whose texts have nothing in common but that two of them look like markup. -/
def plainTexts : Document := ⟨[⟨"A.java", [⟨1, .error, "message", some "rule"⟩]⟩]⟩

@[inherit_doc plainTexts]
def markupTexts : Document :=
  ⟨[⟨"</h2><script>", [⟨0, .error, "<b title='", some "\"><i>&lt;"⟩]⟩, ⟨"<p>", []⟩]⟩

theorem tags_of_render_hostile :
    '<' ∉ "2024-01-01 00:00:00".toList ∧ '<' ∉ "2030-12-31 23:59:59".toList ∧
      sections markupTexts .byRule = sections plainTexts .byRule ∧
      tags ((⟨"</title><script>", .byRule⟩ : Page).render "2030-12-31 23:59:59"
          markupTexts).toList =
        tags ((⟨"report", .byRule⟩ : Page).render "2024-01-01 00:00:00" plainTexts).toList := by
  have hstamp : '<' ∉ "2024-01-01 00:00:00".toList := by decide
  have hmoment : '<' ∉ "2030-12-31 23:59:59".toList := by decide
  have hsections : sections markupTexts .byRule = sections plainTexts .byRule := by decide +kernel
  exact ⟨hstamp, hmoment, hsections, (tags_of_render ⟨"report", .byRule⟩ _ hstamp plainTexts).2
    ⟨"</title><script>", .byRule⟩ _ markupTexts hmoment rfl hsections⟩

end Page

end LintDigest
