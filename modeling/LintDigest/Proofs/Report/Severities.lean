import Mathlib.Data.List.Forall2
import LintDigest.Proofs.Report.Entries

/-!
# How severities are spelled

Two trees are `Respelled` if they differ in nothing but the case of the ASCII letters in severities
and the white space around these. Two checkstyle reports with such trees say the same of every entry, except
whether it is in the document: an entry is dropped if its severity is the very word `ignore`, and in
every other spelling the word makes it an error (`transform_respelled`).
-/

namespace LintDigest

open Script Storage

/-! ## Trees that differ in spelling only -/

namespace Xml

/-- An attribute, with its value as severities are looked up if it is a severity. -/
def spelled (a : String × String) : String × String :=
  if a.1 = "severity" then (a.1, Text.keyword a.2) else a

namespace Node

mutual

/-- Whether two nodes are the same up to the spelling of severities. -/
def respelled : Node → Node → Bool
  | element name attributes children, element name' attributes' children' =>
    name' = name && attributes'.map spelled = attributes.map spelled &&
      allRespelled children children'
  | text s, text s' => s' = s
  | aside, aside => true
  | _, _ => false

/-- Whether two lists of nodes are, node by node, the same up to the spelling of severities. -/
def allRespelled : List Node → List Node → Bool
  | [], [] => true
  | n :: ns, n' :: ns' => respelled n n' && allRespelled ns ns'
  | _, _ => false

end

theorem forall₂_of_allRespelled {ns ns' : List Node} (h : allRespelled ns ns' = true) :
    List.Forall₂ (fun n n' => respelled n n' = true) ns ns' := by
  induction ns generalizing ns' with
  | nil =>
    cases ns' with
    | nil => exact .nil
    | cons n' ns' => cases h
  | cons n ns ih =>
    cases ns' with
    | nil => cases h
    | cons n' ns' =>
      obtain ⟨hn, hns⟩ := Bool.and_eq_true_iff.1 h
      exact .cons hn (ih hns)

end Node

/-- The two elements are the same up to the case of the ASCII letters in severities and the white
space around these. -/
structure Element.Respelled (e e' : Element) : Prop where
  name : e'.name = e.name
  attributes : e'.attributes.map spelled = e.attributes.map spelled
  children : Node.allRespelled e.children e'.children = true

variable {e e' : Element} {n n' : Node} {name : String}

instance : Decidable (e.Respelled e') :=
  decidable_of_iff (e'.name = e.name ∧ e'.attributes.map spelled = e.attributes.map spelled ∧
      Node.allRespelled e.children e'.children = true)
    ⟨fun ⟨hname, hattributes, hchildren⟩ => ⟨hname, hattributes, hchildren⟩,
      fun ⟨hname, hattributes, hchildren⟩ => ⟨hname, hattributes, hchildren⟩⟩

theorem spelled_fst (a : String × String) : (spelled a).1 = a.1 := by
  unfold spelled
  split <;> rfl

theorem lookup_map_spelled (name : String) (attributes : List (String × String)) :
    (attributes.map spelled).lookup name =
      (attributes.lookup name).map fun value => (spelled (name, value)).2 := by
  induction attributes with
  | nil => rfl
  | cons a attributes ih =>
    obtain ⟨n, value⟩ := a
    have hspelled : spelled (n, value) = (n, (spelled (n, value)).2) :=
      Prod.ext (spelled_fst _) rfl
    rw [List.map_cons, hspelled, List.lookup_cons, List.lookup_cons, ih]
    split
    · next h => rw [beq_iff_eq.1 h, Option.map_some]
    · rfl

namespace Element

theorem respelled_of_named? (h : n.respelled n' = true) :
    Option.Rel Respelled (n.named? name) (n'.named? name) := by
  cases n with
  | element m attributes children =>
    cases n' with
    | element m' attributes' children' =>
      simp only [Node.respelled, Bool.and_eq_true, decide_eq_true_eq] at h
      obtain ⟨⟨hname, hattributes⟩, hchildren⟩ := h
      rw [Node.named?, Node.named?, hname]
      split
      · exact .some ⟨rfl, hattributes, hchildren⟩
      · exact .none
    | text s => cases h
    | aside => cases h
  | text s =>
    cases n' with
    | element m' attributes' children' => cases h
    | text s' => exact .none
    | aside => cases h
  | aside =>
    cases n' with
    | element m' attributes' children' => cases h
    | text s' => cases h
    | aside => exact .none

namespace Respelled

theorem childrenNamed (h : e.Respelled e') (name : String) :
    List.Forall₂ Respelled (e.childrenNamed name) (e'.childrenNamed name) :=
  List.rel_filterMap (fun _ _ hn => respelled_of_named? hn)
    (Node.forall₂_of_allRespelled h.children)

theorem map_attribute? (h : e.Respelled e') (name : String) :
    (e'.attribute? name).map (fun value => (spelled (name, value)).2) =
      (e.attribute? name).map fun value => (spelled (name, value)).2 := by
  rw [attribute?, attribute?, ← lookup_map_spelled, ← lookup_map_spelled, h.attributes]

theorem attribute? (h : e.Respelled e') (hname : name ≠ "severity") :
    e'.attribute? name = e.attribute? name := by
  simpa [spelled, hname] using h.map_attribute? name

theorem severity (h : e.Respelled e') :
    (e'.attribute? "severity").map Text.keyword = (e.attribute? "severity").map Text.keyword :=
  h.map_attribute? "severity"

end Respelled

end Element

end Xml

/-! ## What the entries say -/

theorem Severity.parse_congr {s t : String} (h : Text.keyword s = Text.keyword t) :
    parse s = parse t := by
  rw [parse, parse, h]

namespace Report

open Xml

variable {root root' e e' : Element}

theorem checkstyleDiagnostic_respelled (h : e.Respelled e') :
    checkstyleDiagnostic e' = checkstyleDiagnostic e := by
  have hword : Text.keyword ((e'.attribute? "severity").getD "error") =
      Text.keyword ((e.attribute? "severity").getD "error") := by
    have hgetD : ∀ raw : Option String, Text.keyword (raw.getD "error") =
        (raw.map Text.keyword).getD (Text.keyword "error") := fun raw => by cases raw <;> rfl
    rw [hgetD, hgetD, h.severity]
  rw [checkstyleDiagnostic, checkstyleDiagnostic, Severity.parse_congr hword,
    h.attribute? (by decide), h.attribute? (by decide), h.attribute? (by decide)]

theorem inFiles_respelled (h : root.Respelled root') (name : String) :
    List.Forall₂ (fun x x' => x'.1 = x.1 ∧ x.2.Respelled x'.2) (inFiles root name)
      (inFiles root' name) := by
  refine List.rel_flatMap (h.childrenNamed "file") fun file file' hfile => ?_
  rw [hfile.attribute? (by decide)]
  cases file.attribute? "name" with
  | none => exact .nil
  | some path => exact List.rel_map (fun e e' he => ⟨rfl, he⟩) (hfile.childrenNamed name)

/-! ## Which entries are dropped -/

/-- The severity of the entry is the very word that makes the reader drop it. -/
def isIgnored (e : Element) : Bool :=
  e.attribute? "severity" = some "ignore"

/-- For every entry of a checkstyle report in document order, whether it is dropped. -/
def ignored (root : Element) : List Bool :=
  (inFiles root "error").map fun x => isIgnored x.2

/-- What the entries of a checkstyle report say, in document order, dropped or not. -/
def said (root : Element) : List (String × Diagnostic) :=
  (inFiles root "error").map fun x => (x.1, checkstyleDiagnostic x.2)

/-- What the entries say that are not dropped. -/
def heeded (root : Element) : List (String × Diagnostic) :=
  ((inFiles root "error").filter fun x => !isIgnored x.2).map fun x =>
    (x.1, checkstyleDiagnostic x.2)

/-- What the entries say that are dropped. -/
def silenced (root : Element) : List (String × Diagnostic) :=
  ((inFiles root "error").filter fun x => isIgnored x.2).map fun x =>
    (x.1, checkstyleDiagnostic x.2)

theorem map_place_findingsBelow (present : Path → Bool) (root : Element) :
    (findingsBelow .checkstyle root).map (Finding.place present) = heeded root := by
  rw [findingsBelow, List.map_filterMap, heeded, ← List.filterMap_eq_map, List.filterMap_filter]
  refine List.filterMap_congr fun x _ => ?_
  simp only [checkstyleFinding?, checkstyleSeverity?_eq, isIgnored]
  by_cases h : x.2.attribute? "severity" = some "ignore"
  · simp [h]
  · simp [h, Finding.place, checkstyleDiagnostic]

/-- The severity of the entry is the word `ignore`, however it is spelled. -/
def SaysIgnore (e : Element) : Prop :=
  (e.attribute? "severity").map Text.keyword = some "ignore"

theorem severity_of_saysIgnore (h : SaysIgnore e) : (checkstyleDiagnostic e).severity = .error := by
  obtain ⟨word, hword, hkeyword⟩ := Option.map_eq_some_iff.1 h
  simp [checkstyleDiagnostic, hword, Severity.parse, hkeyword, Except.toOption]

/-- All entries say the same in both reports, dropped or not. -/
theorem said_respelled (h : root.Respelled root') : said root' = said root := by
  have hsame : List.Forall₂ (· = ·) (said root) (said root') :=
    List.rel_map (fun x x' ⟨hpath, he⟩ => by rw [hpath, checkstyleDiagnostic_respelled he])
      (inFiles_respelled h "error")
  rw [List.forall₂_eq_eq_eq] at hsame
  exact hsame.symm

theorem perm_heeded_silenced (root : Element) : (heeded root ++ silenced root).Perm (said root) := by
  rw [heeded, silenced, ← List.map_append]
  exact (List.perm_append_comm.trans (List.filter_append_perm _ _)).map _

theorem heeded_eq_zip (root : Element) :
    heeded root = (((ignored root).zip (said root)).filter fun x => !x.1).map (·.2) := by
  rw [ignored, said, List.zip_map', List.filter_map, List.map_map]
  rfl

/-- Two checkstyle reports that differ in the spelling of severities only are both refused, or both
give a document. The documents have the same diagnostics, up to order, once the entries are put
back that have the very word `ignore` for their severity. In any other spelling the word makes its
entry an error. If the same entries are dropped from both reports, the documents are equal. -/
theorem transform_respelled (origin : Path) {text text' : String} (th : Thread) (w : Workspace)
    (hparse : Element.parse text = .ok root) (hparse' : Element.parse text' = .ok root')
    (h : root.Respelled root') :
    (root.name ≠ Tool.checkstyle.rootName →
      ((transformReport .checkstyle origin text').run th w).1 =
        ((transformReport .checkstyle origin text).run th w).1) ∧
    (root.name = Tool.checkstyle.rootName →
      ∃ d d', ((transformReport .checkstyle origin text).run th w).1 = .ok d ∧
        ((transformReport .checkstyle origin text').run th w).1 = .ok d' ∧
        (d'.entries ++ silenced root').Perm (d.entries ++ silenced root) ∧
        (∀ x ∈ inFiles root "error", SaysIgnore x.2 →
          (checkstyleDiagnostic x.2).severity = .error ∧
            (isIgnored x.2 = false → (x.1, checkstyleDiagnostic x.2) ∈ d.entries)) ∧
        (ignored root' = ignored root → d' = d)) := by
  rw [run_transformReport, run_transformReport, findings, findings, hparse, hparse']
  constructor
  · intro hwrong
    simp only [h.name, if_neg hwrong]
  · intro hright
    have hlocated : ∀ root : Element, located w.tree w.home (findingsBelow .checkstyle root) =
        .ofEntries (heeded root) := fun root => by rw [located, map_place_findingsBelow]
    have hentries := fun root : Element => Document.perm_entries_ofEntries (heeded root)
    have hall : ∀ root : Element, ((Document.ofEntries (heeded root)).entries ++ silenced root).Perm
        (said root) := fun root => ((hentries root).append_right _).trans (perm_heeded_silenced root)
    refine ⟨.ofEntries (heeded root), .ofEntries (heeded root'), ?_, ?_, ?_, ?_, ?_⟩
    · simp [hright, Except.map, hlocated]
    · simp [h.name, hright, Except.map, hlocated]
    · exact (said_respelled h ▸ hall root').trans (hall root).symm
    · intro x hx hsays
      refine ⟨severity_of_saysIgnore hsays, fun hheeded => (hentries root).mem_iff.2 ?_⟩
      exact List.mem_map.2 ⟨x, List.mem_filter.2 ⟨hx, by rw [hheeded]; rfl⟩, rfl⟩
    · intro hignored
      rw [heeded_eq_zip, heeded_eq_zip, hignored, said_respelled h]

/-! ## A report in two spellings -/

/-- A checkstyle report with two entries of the given severities. -/
def report (first second : String) : String :=
  "<checkstyle><file name='A'><error severity='" ++ first ++ "'/><error severity='" ++ second ++
    "'/></file></checkstyle>"

/-- The tokens of this report. -/
def reportTokens (first second : String) : List Token :=
  [.startTag ⟨"", "checkstyle"⟩ [] false, .startTag ⟨"", "file"⟩ [⟨⟨"", "name"⟩, "A"⟩] false,
    .startTag ⟨"", "error"⟩ [⟨⟨"", "severity"⟩, first⟩] true,
    .startTag ⟨"", "error"⟩ [⟨⟨"", "severity"⟩, second⟩] true,
    .endTag ⟨"", "file"⟩, .endTag ⟨"", "checkstyle"⟩]

/-- The root element of this report. -/
def reportRoot (first second : String) : Element where
  name := "checkstyle"
  attributes := []
  children := [.element "file" [("name", "A")]
    [.element "error" [("severity", first)] [], .element "error" [("severity", second)] []]]

theorem parse_report {first second : String}
    (h : documentTokens (report first second).toList = .ok (reportTokens first second)) :
    Element.parse (report first second) = .ok (reportRoot first second) := by
  rw [Element.parse, h]
  rfl

theorem run_report {first second : String}
    (h : Element.parse (report first second) = .ok (reportRoot first second)) :
    ((transformReport .checkstyle ⟨"lint.xml"⟩ (report first second)).run "main" sources).1 =
      .ok (.ofEntries (heeded (reportRoot first second))) := by
  rw [run_transformReport, findings, h]
  simp only [if_pos (show (reportRoot first second).name = Tool.checkstyle.rootName from rfl),
    Except.map, located, map_place_findingsBelow]

theorem parse_plain :
    Element.parse (report "warning" "ignore") = .ok (reportRoot "warning" "ignore") :=
  parse_report (eq_ok_of_toOption (by decide +kernel))

theorem parse_shouted :
    Element.parse (report " WARNING" "IGNORE") = .ok (reportRoot " WARNING" "IGNORE") :=
  parse_report (eq_ok_of_toOption (by decide +kernel))

theorem respelled_shouted :
    (reportRoot "warning" "ignore").Respelled (reportRoot " WARNING" "IGNORE") := by
  decide +kernel

theorem transform_respelled_shouted :
    ∃ root root' d d', Element.parse (report "warning" "ignore") = .ok root ∧
      Element.parse (report " WARNING" "IGNORE") = .ok root' ∧ root.Respelled root' ∧
      ((transformReport .checkstyle ⟨"lint.xml"⟩ (report "warning" "ignore")).run "main"
        sources).1 = .ok d ∧
      ((transformReport .checkstyle ⟨"lint.xml"⟩ (report " WARNING" "IGNORE")).run "main"
        sources).1 = .ok d' ∧
      (d'.entries ++ silenced root').Perm (d.entries ++ silenced root) := by
  obtain ⟨d, d', hd, hd', hperm, -⟩ := (transform_respelled ⟨"lint.xml"⟩ "main" sources
    parse_plain parse_shouted respelled_shouted).2 rfl
  exact ⟨_, _, d, d', parse_plain, parse_shouted, respelled_shouted, hd, hd', hperm⟩

/-- In capital letters the word `ignore` makes an error. -/
theorem shouted_entry_counts :
    ∃ root root' d d', Element.parse (report "warning" "ignore") = .ok root ∧
      Element.parse (report " WARNING" "IGNORE") = .ok root' ∧ root.Respelled root' ∧
      ((transformReport .checkstyle ⟨"lint.xml"⟩ (report "warning" "ignore")).run "main"
        sources).1 = .ok d ∧
      ((transformReport .checkstyle ⟨"lint.xml"⟩ (report " WARNING" "IGNORE")).run "main"
        sources).1 = .ok d' ∧
      d.count .error = 0 ∧ d'.count .error = 1 :=
  ⟨_, _, _, _, parse_plain, parse_shouted, respelled_shouted, run_report parse_plain,
    run_report parse_shouted, by decide +kernel, by decide +kernel⟩

end Report

end LintDigest
