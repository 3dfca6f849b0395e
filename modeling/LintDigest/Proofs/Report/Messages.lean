import LintDigest.Proofs.Report.Entries
import LintDigest.Proofs.Text.Squash

/-!
# The messages of a report

The readers squash every message that they take from a report, with one exception: a SpotBugs entry
whose message elements do not start with text is given its type as it stands. All messages of a
document are on one line just if these types are (`messages_squashed_iff`), as they are in every
report of the other tools.
-/

namespace LintDigest

open Xml Script Storage

namespace Report

/-- The element that holds the message of a SpotBugs entry: its first long message, and without
long messages its first short one. -/
inductive MessageElement (e : Element) : Element → Prop
  | long {m : Element} (h : e.First "LongMessage" m) : MessageElement e m
  | short {m : Element} (hnone : ∀ n, ¬ e.First "LongMessage" n) (h : e.First "ShortMessage" m) :
      MessageElement e m

/-- A SpotBugs entry that names its file and whose message is its type, since its message element,
if it has one, does not start with text. -/
structure OnlyType (e : Element) (type : String) : Prop where
  file : ∃ line path, e.First "SourceLine" line ∧ line.attribute? "sourcepath" = some path
  silent : ∀ m, MessageElement e m → m.leadingText? = none
  type : e.attribute? "type" = some type

section

variable {root e m : Element} {s : String} {f : Finding} {tool : Tool}

theorem head?_messageElements :
    (e.childrenNamed "LongMessage" ++ e.childrenNamed "ShortMessage").head? = some m ↔
      MessageElement e m := by
  rw [List.head?_append, Option.or_eq_some_iff, Element.head?_childrenNamed,
    Element.head?_childrenNamed, Option.eq_none_iff_forall_ne_some]
  simp only [ne_eq, Element.head?_childrenNamed]
  constructor
  · rintro (h | ⟨hnone, h⟩)
    · exact .long h
    · exact .short hnone h
  · intro h
    cases h with
    | long h => exact .inl h
    | short hnone h => exact .inr ⟨hnone, h⟩

theorem spotbugsMessage_of_text (h : MessageElement e m) (hs : m.leadingText? = some s) :
    spotbugsMessage e = Text.squash s := by
  simp [spotbugsMessage, head?_messageElements.2 h, hs]

theorem spotbugsMessage_of_silent (h : ∀ m, MessageElement e m → m.leadingText? = none) :
    spotbugsMessage e = (e.attribute? "type").getD "" := by
  unfold spotbugsMessage
  cases hm : (e.childrenNamed "LongMessage" ++ e.childrenNamed "ShortMessage").head? with
  | none => rfl
  | some m => simp [h m (head?_messageElements.1 hm)]

/-- The message of a SpotBugs entry is squashed, or it is the type of the entry. -/
theorem spotbugsMessage_cases (e : Element) :
    Text.squash (spotbugsMessage e) = spotbugsMessage e ∨
      (∀ m, MessageElement e m → m.leadingText? = none) ∧
        e.attribute? "type" = some (spotbugsMessage e) := by
  by_cases h : ∀ m, MessageElement e m → m.leadingText? = none
  · rw [spotbugsMessage_of_silent h]
    cases htype : e.attribute? "type" with
    | none => exact .inl rfl
    | some type => exact .inr ⟨h, rfl⟩
  · obtain ⟨m, hm⟩ := not_forall.1 h
    obtain ⟨hm, htext⟩ := Classical.not_imp.1 hm
    obtain ⟨s, hs⟩ := Option.ne_none_iff_exists'.1 htext
    rw [spotbugsMessage_of_text hm hs]
    exact .inl (Text.squash_squash s)

/-- A message that squashing would change is the type of a SpotBugs entry. -/
theorem message_of_mem_findingsBelow (hf : f ∈ findingsBelow tool root) :
    Text.squash f.diagnostic.message = f.diagnostic.message ∨
      tool = .spotbugs ∧
        ∃ e ∈ root.childrenNamed "BugInstance", OnlyType e f.diagnostic.message := by
  cases tool with
  | checkstyle =>
    obtain ⟨⟨path, e⟩, -, hf⟩ := List.mem_filterMap.1 hf
    obtain ⟨-, rfl⟩ := checkstyleFinding?_eq_some.1 hf
    exact .inl (Text.squash_squash _)
  | pmd =>
    obtain ⟨⟨path, e⟩, -, rfl⟩ := List.mem_map.1 hf
    exact .inl (Text.squash_squash _)
  | spotbugs =>
    obtain ⟨e, he, hf⟩ := List.mem_filterMap.1 hf
    obtain ⟨line, path, hline, hpath, rfl⟩ := spotbugsFinding?_eq_some.1 hf
    rcases spotbugsMessage_cases e with h | ⟨hsilent, htype⟩
    · exact .inl h
    · exact .inr ⟨rfl, e, he, ⟨line, path, hline, hpath⟩, hsilent, htype⟩

theorem exists_mem_findingsBelow (he : e ∈ root.childrenNamed "BugInstance") (h : OnlyType e s) :
    ∃ f ∈ findingsBelow .spotbugs root, f.diagnostic.message = s := by
  obtain ⟨line, path, hline, hpath⟩ := h.file
  refine ⟨_, List.mem_filterMap.2
    ⟨e, he, spotbugsFinding?_eq_some.2 ⟨line, path, hline, hpath, rfl⟩⟩, ?_⟩
  change spotbugsMessage e = s
  rw [spotbugsMessage_of_silent h.silent, h.type]
  rfl

/-- The diagnostics of a document are those of the findings that it was made of. -/
theorem exists_entry_located {t : Tree} {cwd : Place} {fs : List Finding} {x : Diagnostic} :
    (∃ e ∈ (located t cwd fs).entries, e.2 = x) ↔ ∃ f ∈ fs, f.diagnostic = x := by
  simp only [located, (Document.perm_entries_ofEntries _).mem_iff, List.mem_map]
  constructor
  · rintro ⟨_, ⟨f, hf, rfl⟩, hx⟩
    exact ⟨f, hf, hx⟩
  · rintro ⟨f, hf, hx⟩
    exact ⟨_, ⟨f, hf, rfl⟩, hx⟩

end

/-- All messages of a document are as squashing leaves them, just if the report is of another tool
than SpotBugs or every type that stands for a message is on one line. A message that squashing
would change is such a type. -/
theorem messages_squashed_iff (tool : Tool) (origin : Path) (text : String) (th : Thread)
    (w : Workspace) {d : Document}
    (hrun : ((transformReport tool origin text).run th w).1 = .ok d) :
    ∃ root, Element.parse text = .ok root ∧
      ((∀ e ∈ d.entries, Text.squash e.2.message = e.2.message) ↔
        (tool = .spotbugs → ∀ b ∈ root.childrenNamed "BugInstance", ∀ type, OnlyType b type →
          Text.OneLine type.toList)) ∧
      ∀ e ∈ d.entries, Text.squash e.2.message ≠ e.2.message →
        tool = .spotbugs ∧ ∃ b ∈ root.childrenNamed "BugInstance", OnlyType b e.2.message := by
  rw [run_transformReport, findings] at hrun
  cases hparse : Element.parse text with
  | error fault => simp [hparse, Except.map] at hrun
  | ok root =>
    have hd : located w.tree w.home (findingsBelow tool root) = d := by
      by_cases hname : root.name = tool.rootName
      · simpa [hparse, hname, Except.map] using hrun
      · simp [hparse, hname, Except.map] at hrun
    have hcases : ∀ e ∈ d.entries, Text.squash e.2.message = e.2.message ∨ tool = .spotbugs ∧
        ∃ b ∈ root.childrenNamed "BugInstance", OnlyType b e.2.message := by
      intro e he
      obtain ⟨f, hf, hfe⟩ := exists_entry_located.1 ⟨e, hd ▸ he, rfl⟩
      exact hfe ▸ message_of_mem_findingsBelow hf
    refine ⟨root, rfl, ⟨?_, ?_⟩, fun e he h => (hcases e he).resolve_left h⟩
    · rintro h rfl b hb type htype
      obtain ⟨f, hf, rfl⟩ := exists_mem_findingsBelow hb htype
      obtain ⟨e, he, hfe⟩ := exists_entry_located.2 ⟨f, hf, rfl⟩
      exact Text.squash_eq_self_iff.1 (hfe ▸ h e (hd ▸ he))
    · intro h e he
      rcases hcases e he with hsquashed | ⟨htool, b, hb, htype⟩
      · exact hsquashed
      · exact Text.squash_eq_self_iff.2 (h htool b hb _ htype)

/-- A report with a message and with an entry that has an empty one. -/
def spoken : String :=
  "<BugCollection><BugInstance><SourceLine sourcepath='A'/><LongMessage> a\tb</LongMessage>" ++
    "</BugInstance><BugInstance type='U V'><SourceLine sourcepath='B'/><LongMessage/>" ++
    "</BugInstance></BugCollection>"

/-- The document of this report. -/
def spokenDocument : Document :=
  ⟨[⟨"A", [⟨0, .info, "a b", none⟩]⟩, ⟨"B", [⟨0, .info, "U V", some "spotbugs:U V"⟩]⟩]⟩

theorem messages_squashed_iff_spoken :
    ((transformReport .spotbugs ⟨"bugs.xml"⟩ spoken).run "main" sources).1 = .ok spokenDocument ∧
      ∃ root, Element.parse spoken = .ok root ∧
        ∀ b ∈ root.childrenNamed "BugInstance", ∀ type, OnlyType b type →
          Text.OneLine type.toList := by
  have hrun : ((transformReport .spotbugs ⟨"bugs.xml"⟩ spoken).run "main" sources).1 =
      .ok spokenDocument := by
    refine eq_ok_of_toOption ?_
    decide +kernel
  have hsquashed : ∀ e ∈ spokenDocument.entries, Text.squash e.2.message = e.2.message := by
    decide +kernel
  obtain ⟨root, hparse, hiff, -⟩ :=
    messages_squashed_iff .spotbugs ⟨"bugs.xml"⟩ spoken "main" sources hrun
  exact ⟨hrun, root, hparse, hiff.1 hsquashed rfl⟩

/-- A report with an entry that has a type of two lines and no message. -/
def twoLines : String :=
  "<BugCollection><BugInstance type='A&#10;B'><SourceLine sourcepath='A.java'/></BugInstance>" ++
    "</BugCollection>"

theorem type_stands_as_written :
    ∃ d e, ((transformReport .spotbugs ⟨"bugs.xml"⟩ twoLines).run "main" sources).1 = .ok d ∧
      e ∈ d.entries ∧ e.2.message = "A\nB" ∧ Text.squash e.2.message = "A B" := by
  refine ⟨⟨[⟨"A.java", [⟨0, .info, "A\nB", some "spotbugs:A\nB"⟩]⟩]⟩, ("A.java", _),
    eq_ok_of_toOption ?_, List.mem_singleton_self _, rfl, ?_⟩
  · decide +kernel
  · decide +kernel

end Report

end LintDigest
