import LintDigest.Proofs.Document.Conservation
import LintDigest.Proofs.Document.Gather
import LintDigest.Proofs.Session.SideBySide
import LintDigest.Proofs.Xml.Places

/-!
# The entries of a report

`Report.Entry` says which parts of a report are entries and what each one says, without reading the
report from front to back. The document of a report has all of them and nothing else
(`transform_groups_entries`): in groups of one path each, in document order.
-/

namespace LintDigest

open Xml Script Storage

/-! ## Groups of listed diagnostics -/

namespace Document

/-- The document groups the listed diagnostics: one group for each path, in the order in which the
paths come up, no group without diagnostics, and in every group what is listed for its path, in
order. -/
structure Groups (d : Document) (es : List (String × Diagnostic)) : Prop where
  paths : d.paths = (es.map (·.1)).eraseDups
  nonempty : ∀ g ∈ d.groups, g.diagnostics ≠ []
  diagnostics : ∀ g ∈ d.groups, g.diagnostics = (es.filter (·.1 = g.path)).map (·.2)

theorem groups_ofEntries (es : List (String × Diagnostic)) :
    (ofEntries es).groups = (es.map (·.1)).eraseDups.map fun path =>
      ⟨path, (es.filter (·.1 = path)).map (·.2)⟩ := by
  have hunder : ∀ path, under path (es.map fun e => ⟨e.1, [e.2]⟩) =
      (es.filter (·.1 = path)).map (·.2) := by
    intro path
    rw [under, List.filter_map, List.flatMap_map, ← List.map_eq_flatMap]
    rfl
  rw [groups_ofEntries_eq_foldl, foldl_addGroup_nil, gather, List.map_map]
  exact List.map_congr_left fun path _ => by rw [hunder]

theorem groups_of_ofEntries (es : List (String × Diagnostic)) : (ofEntries es).Groups es where
  paths := by
    rw [paths, groups_ofEntries, List.map_map]
    exact List.map_id' _
  nonempty := by
    rw [groups_ofEntries]
    rintro _ hg hnil
    obtain ⟨path, hpath, rfl⟩ := List.mem_map.1 hg
    obtain ⟨e, he, rfl⟩ := List.mem_map.1 (List.mem_eraseDups.1 hpath)
    have hmem : e ∈ es.filter (·.1 = e.1) := List.mem_filter.2 ⟨he, decide_eq_true rfl⟩
    rw [List.map_eq_nil_iff.1 hnil] at hmem
    cases hmem
  diagnostics := by
    rw [groups_ofEntries]
    rintro _ hg
    obtain ⟨path, -, rfl⟩ := List.mem_map.1 hg
    rfl

end Document

/-! ## Entries -/

namespace Report

/-- What a checkstyle entry says. -/
def checkstyleDiagnostic (e : Element) : Diagnostic where
  line := lineOf (e.attribute? "line")
  severity := (Severity.parse ((e.attribute? "severity").getD "error")).toOption.getD .error
  message := Text.squash ((e.attribute? "message").getD "")
  source := (e.attribute? "source").map fun s => "checkstyle:" ++ lastDotted s

/-- What a SpotBugs entry says, given its source line. -/
def spotbugsDiagnostic (e line : Element) : Diagnostic where
  line := lineOf (line.attribute? "start")
  severity := spotbugsSeverity (e.attribute? "priority")
  message := spotbugsMessage e
  source := (e.attribute? "type").map ("spotbugs:" ++ ·)

/-- The file of a source path: the one below the first source directory that has it, and the source
path itself if none has. -/
inductive Resolves (present : Path → Bool) (dirs : List Path) (path : String) : String → Prop
  | below {before after : List Path} {dir : Path} (hdirs : dirs = before ++ dir :: after)
      (hfirst : ∀ q ∈ before, present (q / path) = false) (hpresent : present (dir / path) = true) :
      Resolves present dirs path (dir / path).text
  | itself (habsent : ∀ dir ∈ dirs, present (dir / path) = false) : Resolves present dirs path path

/-- The entries of a tool's report, each with its place below the root, its file and what it
says. -/
inductive Entry (present : Path → Bool) (root : Element) :
    Tool → List Nat → String × Diagnostic → Prop
  | checkstyle {i j : Nat} {file e : Element} {path : String}
      (hfile : root.childAt? "file" i = some file) (hpath : file.attribute? "name" = some path)
      (hentry : file.childAt? "error" j = some e)
      (hheeded : e.attribute? "severity" ≠ some "ignore") :
      Entry present root .checkstyle [i, j] (path, checkstyleDiagnostic e)
  | pmd {i j : Nat} {file e : Element} {path : String}
      (hfile : root.childAt? "file" i = some file) (hpath : file.attribute? "name" = some path)
      (hentry : file.childAt? "violation" j = some e) :
      Entry present root .pmd [i, j] (path, (pmdFinding path e).diagnostic)
  | spotbugs {i : Nat} {e line : Element} {path file : String}
      (hentry : root.childAt? "BugInstance" i = some e) (hline : e.First "SourceLine" line)
      (hpath : line.attribute? "sourcepath" = some path)
      (hfile : Resolves present (sourceDirs root) path file) :
      Entry present root .spotbugs [i] (file, spotbugsDiagnostic e line)

section

variable {present : Path → Bool} {root e : Element} {dirs : List Path} {path file : String}
  {f : Finding}

theorem checkstyleSeverity?_eq (raw : Option String) :
    checkstyleSeverity? raw = if raw = some "ignore" then none
      else some ((Severity.parse (raw.getD "error")).toOption.getD .error) := by
  unfold checkstyleSeverity?
  split
  · next h =>
    cases raw with
    | none => exact absurd h (by decide)
    | some word => rw [if_pos (show some word = some "ignore" from congrArg some h)]
  · next hword =>
    rw [if_neg fun h => hword (by rw [h]; rfl)]
    cases Severity.parse (raw.getD "error") <;> rfl

theorem checkstyleFinding?_eq_some : checkstyleFinding? path e = some f ↔
    e.attribute? "severity" ≠ some "ignore" ∧
      f = { path, diagnostic := checkstyleDiagnostic e } := by
  rw [checkstyleFinding?, checkstyleSeverity?_eq]
  split
  · next h => simp [h]
  · next h => simp [h, checkstyleDiagnostic, eq_comm]

theorem spotbugsFinding?_eq_some : spotbugsFinding? dirs e = some f ↔
    ∃ line path, e.First "SourceLine" line ∧ line.attribute? "sourcepath" = some path ∧
      f = ⟨dirs.map (· / path), path, spotbugsDiagnostic e line⟩ := by
  constructor
  · intro h
    obtain ⟨line, hline, h⟩ := Option.bind_eq_some_iff.1 h
    obtain ⟨path, hpath, h⟩ := Option.bind_eq_some_iff.1 h
    exact ⟨line, path, Element.head?_childrenNamed.1 hline, hpath, (Option.some.inj h).symm⟩
  · rintro ⟨line, path, hline, hpath, rfl⟩
    unfold spotbugsFinding?
    rw [Element.head?_childrenNamed.2 hline, Option.bind_eq_bind, Option.bind_some, hpath]
    rfl

theorem resolves_iff : Resolves present dirs path file ↔
    (((dirs.map (· / path)).find? present).map Path.text).getD path = file := by
  rw [List.find?_map]
  constructor
  · intro h
    cases h with
    | below hdirs hfirst hpresent =>
      have hfind : dirs.find? (present ∘ (· / path)) = some _ :=
        List.find?_eq_some_iff_append.2 ⟨hpresent, _, _, hdirs, fun q hq => by simp [hfirst q hq]⟩
      rw [hfind]
      rfl
    | itself habsent =>
      have hfind : dirs.find? (present ∘ (· / path)) = none :=
        List.find?_eq_none.2 fun q hq => by simp [habsent q hq]
      rw [hfind]
      rfl
  · rintro rfl
    cases hfind : dirs.find? (present ∘ (· / path)) with
    | none => exact .itself fun q hq => by simpa using List.find?_eq_none.1 hfind q hq
    | some dir =>
      obtain ⟨hpresent, before, after, hdirs, hfirst⟩ := List.find?_eq_some_iff_append.1 hfind
      exact .below hdirs (fun q hq => by simpa using hfirst q hq) hpresent

/-- A finding is placed where its source path resolves to. -/
theorem place_eq_iff (x : Diagnostic) {entry : String × Diagnostic} :
    (⟨dirs.map (· / path), path, x⟩ : Finding).place present = entry ↔
      Resolves present dirs path entry.1 ∧ entry.2 = x := by
  rw [resolves_iff, Finding.place, Prod.ext_iff, eq_comm (a := entry.2)]

/-- The elements of one name in the named files come in document order. -/
theorem inOrder_inFiles (root : Element) (name : String) :
    InOrder (inFiles root name) fun place x => ∃ i j file, place = [i, j] ∧
      root.childAt? "file" i = some file ∧ file.attribute? "name" = some x.1 ∧
        file.childAt? name j = some x.2 := by
  unfold inFiles
  refine (@InOrder.below _ _ (fun file place x => ∃ j, place = [j] ∧
    file.attribute? "name" = some x.1 ∧ file.childAt? name j = some x.2) (fun file => ?_)
    root "file").congr fun place x => ?_
  · split
    · next hnone =>
      refine InOrder.nil ?_
      rintro place x ⟨j, -, hname, -⟩
      cases hnone.symm.trans hname
    · next path hpath =>
      refine ((InOrder.children file name).map _).congr fun place x => ?_
      constructor
      · rintro ⟨e, ⟨j, rfl, he⟩, rfl⟩
        exact ⟨j, rfl, hpath, he⟩
      · rintro ⟨j, rfl, hname, he⟩
        cases hpath.symm.trans hname
        exact ⟨x.2, ⟨j, rfl, he⟩, rfl⟩
  · constructor
    · rintro ⟨i, file, _, rfl, hi, j, rfl, hname, hj⟩
      exact ⟨i, j, file, rfl, hi, hname, hj⟩
    · rintro ⟨i, j, file, rfl, hi, hname, hj⟩
      exact ⟨i, file, [j], rfl, hi, j, rfl, hname, hj⟩

/-- What a reader finds are the entries in document order. -/
theorem inOrder_findingsBelow (present : Path → Bool) (tool : Tool) (root : Element) :
    InOrder ((findingsBelow tool root).map (Finding.place present)) (Entry present root tool) := by
  cases tool with
  | checkstyle =>
    refine (((inOrder_inFiles root "error").filterMap _).map _).congr fun place entry => ?_
    constructor
    · rintro ⟨f, ⟨⟨path, e⟩, ⟨i, j, file, rfl, hfile, hpath, hentry⟩, hf⟩, rfl⟩
      obtain ⟨hheeded, rfl⟩ := checkstyleFinding?_eq_some.1 hf
      exact .checkstyle hfile hpath hentry hheeded
    · intro h
      cases h with | checkstyle hfile hpath hentry hheeded => ?_
      exact ⟨_, ⟨(_, _), ⟨_, _, _, rfl, hfile, hpath, hentry⟩,
        checkstyleFinding?_eq_some.2 ⟨hheeded, rfl⟩⟩, rfl⟩
  | pmd =>
    refine (((inOrder_inFiles root "violation").map _).map _).congr fun place entry => ?_
    constructor
    · rintro ⟨f, ⟨⟨path, e⟩, ⟨i, j, file, rfl, hfile, hpath, hentry⟩, rfl⟩, rfl⟩
      exact .pmd hfile hpath hentry
    · intro h
      cases h with | pmd hfile hpath hentry => ?_
      exact ⟨_, ⟨(_, _), ⟨_, _, _, rfl, hfile, hpath, hentry⟩, rfl⟩, rfl⟩
  | spotbugs =>
    refine (((InOrder.children root "BugInstance").filterMap _).map _).congr fun place entry => ?_
    constructor
    · rintro ⟨f, ⟨e, ⟨i, rfl, hentry⟩, hf⟩, hplace⟩
      obtain ⟨line, path, hline, hpath, rfl⟩ := spotbugsFinding?_eq_some.1 hf
      obtain ⟨hfile, hx⟩ := (place_eq_iff _).1 hplace
      obtain ⟨file, x⟩ := entry
      obtain rfl : x = _ := hx
      exact .spotbugs hentry hline hpath hfile
    · intro h
      cases h with | spotbugs hentry hline hpath hfile => ?_
      exact ⟨_, ⟨_, ⟨_, rfl, hentry⟩, spotbugsFinding?_eq_some.2 ⟨_, _, hline, hpath, rfl⟩⟩,
        (place_eq_iff _).2 ⟨hfile, rfl⟩⟩

end

/-- A transform gives no document just if the text is not well-formed or its root element has
another name than the tool's. Else the document groups the report's entries in document order, and
nothing but these. -/
theorem transform_groups_entries (tool : Tool) (origin : Path) (text : String) (th : Thread)
    (w : Workspace) :
    ((∃ e, ((transformReport tool origin text).run th w).1 = .error e) ↔
      (∃ fault, Element.parse text = .error fault) ∨
        ∃ root, Element.parse text = .ok root ∧ root.name ≠ tool.rootName) ∧
    ∀ root, Element.parse text = .ok root → root.name = tool.rootName →
      ∃ d entries, ((transformReport tool origin text).run th w).1 = .ok d ∧
        InOrder entries (Entry (fun p => (w.tree.stat w.home p).isSome) root tool) ∧
        d.Groups entries := by
  rw [run_transformReport, findings]
  cases hparse : Element.parse text with
  | error fault => simp [Except.map]
  | ok root =>
    by_cases hname : root.name = tool.rootName
    · refine ⟨by simp [hname, Except.map], ?_⟩
      rintro _ ⟨⟩ -
      simp only [hname, if_pos]
      exact ⟨_, _, rfl, inOrder_findingsBelow _ tool root, Document.groups_of_ofEntries _⟩
    · simp [hname, Except.map]

/-- A report that names one file in two ways, the second time in an element of a namespace. Its
first entry says nothing of a file. -/
def bugs : String :=
  "<BugCollection><Project><SrcDir> s</SrcDir></Project><BugInstance/>" ++
    "<BugInstance><SourceLine sourcepath='s/A'/></BugInstance>" ++
    "<x:BugInstance xmlns:x='y' type='T'><SourceLine sourcepath='A'/></x:BugInstance>" ++
    "</BugCollection>"

/-- A workspace with this file. -/
def sources : Workspace where
  tree := ⟨[(["A", "s"], .file (.text "")), (["s"], .dir)]⟩
  lock := ⟨"summary", none, 0⟩

/-- The document of the report in this workspace. -/
def bugDocument : Document :=
  ⟨[⟨"s/A", [⟨0, .info, "", none⟩, ⟨0, .info, "T", some "spotbugs:T"⟩]⟩]⟩

theorem transform_groups_entries_bugs :
    ∃ root entries, Element.parse bugs = .ok root ∧ root.name = Tool.spotbugs.rootName ∧
      ((transformReport .spotbugs ⟨"bugs.xml"⟩ bugs).run "main" sources).1 = .ok bugDocument ∧
      InOrder entries (Entry (fun p => (sources.tree.stat sources.home p).isSome) root .spotbugs) ∧
      bugDocument.Groups entries := by
  have hrun : (Element.parse bugs).toOption.map Element.name = some Tool.spotbugs.rootName ∧
      ((transformReport .spotbugs ⟨"bugs.xml"⟩ bugs).run "main" sources).1.toOption =
        some bugDocument := by decide +kernel
  obtain ⟨hread, hrun⟩ := hrun
  obtain ⟨root, hroot, hname⟩ := Option.map_eq_some_iff.1 hread
  have hparse := eq_ok_of_toOption hroot
  obtain ⟨d, entries, hd, hentries, hgroups⟩ :=
    (transform_groups_entries .spotbugs ⟨"bugs.xml"⟩ bugs "main" sources).2 root hparse hname
  obtain rfl : d = bugDocument := by
    rw [hd] at hrun
    exact Option.some.inj hrun
  exact ⟨root, entries, hparse, hname, hd, hentries, hgroups⟩

end Report

end LintDigest
