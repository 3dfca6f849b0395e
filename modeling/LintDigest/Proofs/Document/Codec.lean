import LintDigest.Document.Codec
import LintDigest.Proofs.Document.Paths
import LintDigest.Proofs.Text.Decimal
import LintDigest.Proofs.Xml.Tree

/-!
# Documents read back

What `toXml` writes, `ofXml` reads: `ofXml_toXml` says that it is refused exactly when some path,
message or source has a character that XML does not allow, and that it is else the document with
the groups of one path joined. Both directions come from `tokens_toXml`, which gives the tokens of
a written document in front of any text, errors included.
-/

namespace LintDigest

open Xml

/-- The texts of a diagnostic are made of characters that XML allows. -/
def Diagnostic.Allowed (x : Diagnostic) : Prop :=
  Xml.Allowed x.message ∧ ∀ s ∈ x.source, Xml.Allowed s

/-- The texts of a group are made of characters that XML allows. -/
def FileGroup.Allowed (g : FileGroup) : Prop :=
  Xml.Allowed g.path ∧ ∀ x ∈ g.diagnostics, x.Allowed

/-- Every path, message and source is made of characters that XML allows. -/
def Document.Allowed (d : Document) : Prop :=
  ∀ g ∈ d.groups, g.Allowed

instance (x : Diagnostic) : Decidable x.Allowed := inferInstanceAs (Decidable (_ ∧ _))

instance (g : FileGroup) : Decidable g.Allowed := inferInstanceAs (Decidable (_ ∧ _))

instance (d : Document) : Decidable d.Allowed := inferInstanceAs (Decidable (∀ _ ∈ _, _))

namespace Document

/-! ## Written elements -/

/-- The attributes of a diagnostic's element. -/
def diagnosticAttributes (x : Diagnostic) : List (String × String) :=
  ("line", toString x.line.toNat) :: ("severity", x.severity.name) ::
    (x.source.toList.map fun s => ("source", s)) ++ [("message", x.message)]

/-- Two tokens for a diagnostic: the line break with the indentation, and the element. -/
def diagnosticTokens (x : Diagnostic) : List Token :=
  [.blank "\n    ",
    .startTag ⟨"", "diagnostic"⟩ ((diagnosticAttributes x).map plainAttribute) true]

/-- The tokens of a group. -/
def groupTokens (g : FileGroup) : List Token :=
  .blank "\n  " :: .startTag ⟨"", "file"⟩ ([("name", g.path)].map plainAttribute) false ::
    g.diagnostics.flatMap diagnosticTokens ++ [.blank "\n  ", .endTag ⟨"", "file"⟩]

/-- The tokens of a document. -/
def documentTokens (d : Document) : List Token :=
  .blank "\n" :: .startTag ⟨"", "lintfold"⟩ ([("version", "1")].map plainAttribute) false ::
    d.groups.flatMap groupTokens ++ [.blank "\n", .endTag ⟨"", "lintfold"⟩, .blank "\n"]

theorem escape_toString (n : Nat) : Markup.escape (toString n) = toString n := by
  refine Markup.escape_eq_self fun c hc hs => ?_
  have all : ∀ r ∈ Markup.references, r.1.isDigit = false := by decide
  obtain ⟨r, hr, rfl⟩ := List.mem_map.1 hs
  simpa [all r hr] using Text.isDigit_of_mem_toString hc

theorem escape_severity (s : Severity) : Markup.escape s.name = s.name := by
  cases s <;> decide

theorem toList_diagnosticXml (x : Diagnostic) :
    (diagnosticXml x).toList =
      "    ".toList ++ startTagText "diagnostic" (diagnosticAttributes x) true ++ ['\n'] := by
  have hline := escape_toString x.line.toNat
  unfold diagnosticXml diagnosticAttributes startTagText
  generalize toString x.line.toNat = line at hline ⊢
  cases x.source <;> simp [attributeText, tagEnd, escape_severity, hline]

theorem toList_groupXml (g : FileGroup) :
    (groupXml g).toList = "  ".toList ++ startTagText "file" [("name", g.path)] false ++
      ('\n' :: g.diagnostics.flatMap (fun x => (diagnosticXml x).toList) ++
        ("  ".toList ++ endTagText "file" ++ ['\n'])) := by
  unfold groupXml startTagText endTagText
  simp [attributeText, tagEnd, List.flatMap_map]

theorem toList_toXml (d : Document) :
    (toXml d).toList = "<?xml version=\"1.0\" encoding=\"UTF-8\"?>".toList ++
      ('\n' :: startTagText "lintfold" [("version", "1")] false ++
        ('\n' :: d.groups.flatMap (fun g => (groupXml g).toList) ++
          (endTagText "lintfold" ++ ['\n']))) := by
  have hversion : Markup.escape "1" = "1" := by decide
  unfold toXml startTagText endTagText
  simp [attributeText, tagEnd, List.flatMap_map, rootName, hversion]

/-! ## Tokens of a written document

Each element ends its own line, so the line break in front of an element was written by the one
before it: the statements carry a line break in front of the text and leave one behind. -/

/-- A line break and the indentation of a line. -/
def lineStart (indent : Nat) : List Char :=
  '\n' :: List.replicate indent ' '

theorem map_map (x : Except Fault (List Token)) (f g : List Token → List Token) :
    (x.map f).map g = x.map (g ∘ f) := by
  cases x <;> rfl

theorem tokens_lineStart (indent : Nat) (rest : List Char) :
    tokens (lineStart indent ++ '<' :: rest) =
      (tokens ('<' :: rest)).map (.blank (plainData (lineStart indent)) :: ·) := by
  refine tokens_blank (List.cons_ne_nil _ _) (fun c hc => ?_) rest
  rcases List.mem_cons.1 hc with rfl | hc
  · rfl
  · rw [List.eq_of_mem_replicate hc]
    rfl

theorem tokens_line_startTag (indent : Nat) {name : String} (h : IsPlain name)
    (attributes : List (String × String)) (hn : ∀ a ∈ attributes, IsPlain a.1) (closed : Bool)
    (rest : List Char) :
    tokens (lineStart indent ++ startTagText name attributes closed ++ rest) =
      if ∀ a ∈ attributes, Xml.Allowed a.2 then
        (tokens rest).map ([.blank (plainData (lineStart indent)),
          .startTag ⟨"", name⟩ (attributes.map plainAttribute) closed] ++ ·)
      else .error .character := by
  have htag := tokens_startTag h attributes hn closed rest
  rw [List.append_assoc, startTagText, List.cons_append, List.cons_append, List.cons_append] at *
  rw [tokens_lineStart, htag]
  split
  · rw [map_map]
    rfl
  · rfl

theorem tokens_line_endTag (indent : Nat) {name : String} (h : IsPlain name) (rest : List Char) :
    tokens (lineStart indent ++ endTagText name ++ rest) =
      (tokens rest).map
        ([.blank (plainData (lineStart indent)), .endTag ⟨"", name⟩] ++ ·) := by
  have htag := tokens_endTag h rest
  rw [List.append_assoc, endTagText, List.cons_append, List.cons_append] at *
  rw [tokens_lineStart, htag, map_map]
  rfl

theorem isPlain_diagnosticAttributes (x : Diagnostic) :
    ∀ a ∈ diagnosticAttributes x, IsPlain a.1 := by
  cases hs : x.source <;> simp only [diagnosticAttributes, hs] <;> simp <;> decide

theorem allowed_diagnosticAttributes (x : Diagnostic) :
    (∀ a ∈ diagnosticAttributes x, Xml.Allowed a.2) ↔ x.Allowed := by
  have hline : Xml.Allowed (toString x.line.toNat) := by
    intro c hc
    have := Text.toNat_of_isDigit (Text.isDigit_of_mem_toString hc)
    simp only [isChar, Bool.or_eq_true, Bool.and_eq_true, decide_eq_true_eq, bne_iff_ne]
    omega
  have hsev : Xml.Allowed x.severity.name := by cases x.severity <;> decide
  generalize hl : toString x.line.toNat = line at hline
  cases hs : x.source <;>
    simp [diagnosticAttributes, hl, hs, hline, hsev, Diagnostic.Allowed, and_comm]

/-- Lines one after another: the first that has a character which is not allowed stops the
reader. -/
theorem tokens_lines {α : Type} {text : α → List Char} {ts : α → List Token} {ok : α → Prop}
    [DecidablePred ok]
    (h : ∀ x rest, tokens ('\n' :: (text x ++ rest)) =
      if ok x then (tokens ('\n' :: rest)).map (ts x ++ ·) else .error .character)
    (xs : List α) (rest : List Char) :
    tokens ('\n' :: (xs.flatMap text ++ rest)) =
      if ∀ x ∈ xs, ok x then (tokens ('\n' :: rest)).map (xs.flatMap ts ++ ·)
      else .error .character := by
  induction xs with
  | nil => cases h : tokens ('\n' :: rest) <;> simp [h, Except.map]
  | cons x xs ih =>
    rw [List.flatMap_cons, List.append_assoc, h, ih]
    by_cases hx : ok x
    · by_cases hxs : ∀ x ∈ xs, ok x
      · rw [if_pos hx, if_pos hxs, if_pos (List.forall_mem_cons.2 ⟨hx, hxs⟩), map_map]
        simp only [List.flatMap_cons, List.append_assoc, Function.comp_def]
      · rw [if_pos hx, if_neg hxs, if_neg fun h => hxs (List.forall_mem_cons.1 h).2]
        rfl
    · rw [if_neg hx, if_neg fun h => hx (List.forall_mem_cons.1 h).1]

theorem tokens_diagnosticXml (x : Diagnostic) (rest : List Char) :
    tokens ('\n' :: ((diagnosticXml x).toList ++ rest)) =
      if x.Allowed then (tokens ('\n' :: rest)).map (diagnosticTokens x ++ ·)
      else .error .character := by
  have hplain : IsPlain "diagnostic" := by decide
  have htag := tokens_line_startTag 4 hplain (diagnosticAttributes x)
    (isPlain_diagnosticAttributes x) true ('\n' :: rest)
  have hblank : plainData (lineStart 4) = "\n    " := by decide
  simp only [allowed_diagnosticAttributes, hblank] at htag
  rw [toList_diagnosticXml]
  simpa [lineStart, diagnosticTokens] using htag

theorem tokens_groupXml (g : FileGroup) (rest : List Char) :
    tokens ('\n' :: ((groupXml g).toList ++ rest)) =
      if g.Allowed then (tokens ('\n' :: rest)).map (groupTokens g ++ ·)
      else .error .character := by
  have hplain : IsPlain "file" := by decide
  have hname : ∀ a ∈ [("name", g.path)], IsPlain a.1 := by
    have : IsPlain "name" := by decide
    simpa using this
  have hblank : plainData (lineStart 2) = "\n  " := by decide
  have hopen := tokens_line_startTag 2 hplain [("name", g.path)] hname false
    ('\n' :: (g.diagnostics.flatMap (fun x => (diagnosticXml x).toList) ++
      ("  ".toList ++ endTagText "file" ++ ('\n' :: rest))))
  have hclose := tokens_line_endTag 2 hplain ('\n' :: rest)
  have htext : '\n' :: ((groupXml g).toList ++ rest) =
      lineStart 2 ++ startTagText "file" [("name", g.path)] false ++
        ('\n' :: (g.diagnostics.flatMap (fun x => (diagnosticXml x).toList) ++
          ("  ".toList ++ endTagText "file" ++ ('\n' :: rest)))) := by
    rw [toList_groupXml]
    simp [lineStart]
  have hend : '\n' :: ("  ".toList ++ endTagText "file" ++ '\n' :: rest) =
      lineStart 2 ++ endTagText "file" ++ '\n' :: rest := rfl
  rw [htext, hopen, tokens_lines tokens_diagnosticXml, hend, hclose, hblank]
  -- The path is read before the diagnostics.
  by_cases hp : Xml.Allowed g.path
  · by_cases hxs : ∀ x ∈ g.diagnostics, x.Allowed
    · have hg : g.Allowed := ⟨hp, hxs⟩
      rw [if_pos (by simpa using hp), if_pos hxs, if_pos hg, map_map, map_map]
      congr 1
      funext ts
      simp [groupTokens]
    · rw [if_pos (by simpa using hp), if_neg hxs, if_neg fun h : g.Allowed => hxs h.2]
      rfl
  · rw [if_neg (by simpa using hp), if_neg fun h : g.Allowed => hp h.1]

theorem readDeclaration_written (rest : List Char) :
    readDeclaration (" version=\"1.0\" encoding=\"UTF-8\"?>".toList ++ rest) = .ok rest := by
  rfl

theorem documentTokens_declared (rest : List Char) :
    Xml.documentTokens ("<?xml version=\"1.0\" encoding=\"UTF-8\"?>".toList ++ rest) =
      tokens rest := by
  show (readDeclaration (" version=\"1.0\" encoding=\"UTF-8\"?>".toList ++ rest) >>= tokens) = _
  rw [readDeclaration_written]
  rfl

theorem tokens_lastLine : tokens ['\n'] = .ok [.blank "\n"] := by
  rw [tokens.eq_3 _ _ (by decide)]
  rw [show List.dropWhile (fun x => x != '<') [] = [] from rfl, tokens]
  rfl

/-- The tokens of a written document, or the complaint about the first character in it that XML
does not allow. -/
theorem tokens_toXml (d : Document) :
    Xml.documentTokens d.toXml.toList =
      if d.Allowed then .ok (documentTokens d) else .error .character := by
  have hplain : IsPlain "lintfold" := by decide
  have hversion : ∀ a ∈ [("version", "1")], IsPlain a.1 := by decide
  have hvalue : ∀ a ∈ [("version", "1")], Xml.Allowed a.2 := by decide
  have hblank : plainData (lineStart 0) = "\n" := by decide
  have hopen := tokens_line_startTag 0 hplain [("version", "1")] hversion false
    ('\n' :: (d.groups.flatMap (fun g => (groupXml g).toList) ++
      (endTagText "lintfold" ++ ['\n'])))
  have hend : '\n' :: (endTagText "lintfold" ++ ['\n']) =
      lineStart 0 ++ endTagText "lintfold" ++ ['\n'] := rfl
  rw [toList_toXml, documentTokens_declared]
  refine hopen.trans ?_
  rw [if_pos hvalue, tokens_lines tokens_groupXml, hend, tokens_line_endTag 0 hplain,
    tokens_lastLine, hblank]
  by_cases hd : ∀ g ∈ d.groups, g.Allowed
  · rw [if_pos hd, if_pos (show d.Allowed from hd)]
    simp [documentTokens, Except.map]
  · rw [if_neg hd, if_neg (show ¬ d.Allowed from hd)]
    rfl

/-! ## The tree of a written document -/

/-- The element of a diagnostic. -/
def diagnosticElement (x : Diagnostic) : Element :=
  ⟨"diagnostic", diagnosticAttributes x, []⟩

/-- Children, in reverse order, with the elements of diagnostics added. -/
def addDiagnostics (xs : List Diagnostic) (nodes : List Node) : List Node :=
  xs.foldl (fun nodes x => (diagnosticElement x).node :: addText "\n    " nodes) nodes

/-- The element of a group. -/
def groupElement (g : FileGroup) : Element :=
  ⟨"file", [("name", g.path)], (addText "\n  " (addDiagnostics g.diagnostics [])).reverse⟩

/-- Children, in reverse order, with the elements of groups added. -/
def addGroups (gs : List FileGroup) (nodes : List Node) : List Node :=
  gs.foldl (fun nodes g => (groupElement g).node :: addText "\n  " nodes) nodes

/-- The root element of a document. -/
def rootElement (d : Document) : Element :=
  ⟨"lintfold", [("version", "1")], (addText "\n" (addGroups d.groups [])).reverse⟩

theorem diagnosticAttributes_names (x : Diagnostic) :
    (∀ a ∈ diagnosticAttributes x, a.1 ≠ "xmlns") ∧
      ((diagnosticAttributes x).map (·.1)).Nodup := by
  cases hs : x.source <;> simp [diagnosticAttributes, hs]

/-- An open element takes in the elements of diagnostics. -/
theorem foldlM_diagnosticTokens (xs : List Diagnostic) (f : Frame) (fs : List Frame)
    (root : Option Element) :
    (xs.flatMap diagnosticTokens).foldlM Builder.step ⟨f :: fs, root⟩ =
      .ok ⟨{ f with children := addDiagnostics xs f.children } :: fs, root⟩ := by
  induction xs generalizing f with
  | nil => rfl
  | cons x xs ih =>
    obtain ⟨hx, hn⟩ := diagnosticAttributes_names x
    rw [List.flatMap_cons, diagnosticTokens, List.cons_append, List.cons_append, List.nil_append,
      Builder.foldlM_step (Builder.step_blank f fs root _),
      Builder.foldlM_step (Builder.step_closedTag _ fs root _ hx hn)]
    exact ih _

/-- An open element takes in the elements of groups. -/
theorem foldlM_groupTokens (gs : List FileGroup) (f : Frame) (fs : List Frame)
    (root : Option Element) :
    (gs.flatMap groupTokens).foldlM Builder.step ⟨f :: fs, root⟩ =
      .ok ⟨{ f with children := addGroups gs f.children } :: fs, root⟩ := by
  induction gs generalizing f with
  | nil => rfl
  | cons g gs ih =>
    have hx : ∀ a ∈ [("name", g.path)], a.1 ≠ "xmlns" := by simp
    have hn : ([("name", g.path)].map (·.1)).Nodup := by simp
    rw [List.flatMap_cons, groupTokens, List.cons_append, List.cons_append, List.cons_append,
      List.cons_append, Builder.foldlM_step (Builder.step_blank f fs root _),
      Builder.foldlM_step (Builder.step_startTag (.inl (List.cons_ne_nil _ _)) _ hx hn),
      List.append_assoc, List.foldlM_append, foldlM_diagnosticTokens]
    exact ih _

theorem ofTokens_documentTokens (d : Document) :
    Element.ofTokens (documentTokens d) = .ok (rootElement d) := by
  have hx : ∀ a ∈ [("version", "1")], a.1 ≠ "xmlns" := by simp
  have hn : ([("version", "1")].map (·.1)).Nodup := by simp
  have hblank : Builder.step {} (.blank "\n") = .ok {} := rfl
  rw [Element.ofTokens, documentTokens, List.cons_append, List.cons_append,
    Builder.foldlM_step hblank, Builder.foldlM_step (Builder.step_startTag (.inr rfl) _ hx hn),
    List.foldlM_append, foldlM_groupTokens]
  rfl

/-! ## What the reader takes from the tree -/

theorem filterMap_addDiagnostics (xs : List Diagnostic) (nodes : List Node) :
    (addDiagnostics xs nodes).filterMap (Node.named? "diagnostic") =
      (xs.map diagnosticElement).reverse ++ nodes.filterMap (Node.named? "diagnostic") := by
  induction xs generalizing nodes with
  | nil => rfl
  | cons x xs ih =>
    rw [addDiagnostics, List.foldl_cons]
    refine (ih _).trans ?_
    rw [List.filterMap_cons, filterMap_addText]
    simp [diagnosticElement, Element.node, Node.named?]

theorem filterMap_addGroups (gs : List FileGroup) (nodes : List Node) :
    (addGroups gs nodes).filterMap (Node.named? "file") =
      (gs.map groupElement).reverse ++ nodes.filterMap (Node.named? "file") := by
  induction gs generalizing nodes with
  | nil => rfl
  | cons g gs ih =>
    rw [addGroups, List.foldl_cons]
    refine (ih _).trans ?_
    rw [List.filterMap_cons, filterMap_addText]
    simp [groupElement, Element.node, Node.named?]

theorem lineOf_toString (n : UInt32) : lineOf (some (toString n.toNat)) = n := by
  have hn : n.toNat ≤ Text.maxWord := Nat.le_of_lt_succ n.toNat_lt
  rw [lineOf, Option.bind_some, Text.decimal?_trim_toString hn]
  exact UInt32.ofNat_toNat

theorem parse_name (s : Severity) : Severity.parse s.name = .ok s := by
  cases s <;> decide

theorem readDiagnostic_element (x : Diagnostic) :
    readDiagnostic (diagnosticElement x) = .ok x := by
  have hline := lineOf_toString x.line
  have hsev := parse_name x.severity
  obtain ⟨line, severity, message, source⟩ := x
  generalize hl : toString line.toNat = text at hline
  cases source <;>
    simp [readDiagnostic, diagnosticElement, diagnosticAttributes, Element.attribute?, hl,
      List.lookup_cons, hline, hsev]

theorem readGroup_element (g : FileGroup) : readGroup (groupElement g) = .ok g := by
  have hname : (groupElement g).attribute? "name" = some g.path := by
    simp [groupElement, Element.attribute?]
  have hchildren : (groupElement g).childrenNamed "diagnostic" =
      g.diagnostics.map diagnosticElement := by
    rw [Element.childrenNamed, groupElement, List.filterMap_reverse, filterMap_addText,
      filterMap_addDiagnostics]
    simp
  rw [readGroup, hname, hchildren]
  have hread := mapM_map_ok (k := id) g.diagnostics fun x _ => readDiagnostic_element x
  simp [hread, bind, Except.bind, pure, Except.pure]

theorem ofElement_rootElement (d : Document) : ofElement (rootElement d) = .ok d.regroup := by
  have hchildren : (rootElement d).childrenNamed "file" = d.groups.map groupElement := by
    rw [Element.childrenNamed, rootElement, List.filterMap_reverse, filterMap_addText,
      filterMap_addGroups]
    simp
  have hread := mapM_map_ok (k := id) d.groups fun g _ => readGroup_element g
  have hname : (rootElement d).name = rootName := rfl
  rw [ofElement, if_pos hname, hchildren, hread]
  simp [bind, Except.bind, pure, Except.pure, regroup]

theorem ofXml_toXml_eq (origin : Path) (d : Document) :
    ofXml origin d.toXml =
      if d.Allowed then .ok d.regroup else .error (.xml .character) := by
  rw [ofXml, Element.parse, tokens_toXml]
  by_cases hd : d.Allowed
  · simp only [if_pos hd, bind, Except.bind, ofTokens_documentTokens, ofElement_rootElement,
      Except.mapError]
  · simp only [if_neg hd, bind, Except.bind]

/-! ## Main theorem -/

/-- A written document is read back exactly when all its texts are made of characters that XML
allows. What comes back is then the document that its groups make when they are pushed in order
into an empty one, which is the document itself exactly when no path occurs twice. -/
theorem ofXml_toXml (origin : Path) (d : Document) :
    ((∃ r, ofXml origin d.toXml = .ok r) ↔ d.Allowed) ∧
      (∀ r, ofXml origin d.toXml = .ok r → r = d.groups.foldl pushGroup {}) ∧
      (d.Allowed → (ofXml origin d.toXml = .ok d ↔ d.paths.Nodup)) := by
  rw [ofXml_toXml_eq]
  by_cases hd : d.Allowed
  · simp only [hd, if_true, Except.ok.injEq]
    refine ⟨⟨fun _ => trivial, fun _ => ⟨_, rfl⟩⟩, fun r hr => hr.symm, fun _ => ?_⟩
    exact regroup_eq_self_iff d
  · simp [hd]

/-- Markup, blanks and an entity in the texts, an empty group, and a path that occurs twice. -/
def entangled : Document :=
  ⟨[⟨"<A>\t&amp;", [⟨4294967295, .info, "it's\r\n\"😀\"", none⟩]⟩, ⟨"", []⟩,
    ⟨"<A>\t&amp;", [⟨0, .error, "]]>", some "pmd: &#0; "⟩]⟩]⟩

theorem ofXml_toXml_entangled :
    entangled.Allowed ∧ (∃ r, ofXml ⟨"r.xml"⟩ entangled.toXml = .ok r) ∧
      (∀ r, ofXml ⟨"r.xml"⟩ entangled.toXml = .ok r →
        r = ⟨[⟨"<A>\t&amp;", [⟨4294967295, .info, "it's\r\n\"😀\"", none⟩,
          ⟨0, .error, "]]>", some "pmd: &#0; "⟩]⟩, ⟨"", []⟩]⟩) ∧
      ofXml ⟨"r.xml"⟩ entangled.toXml ≠ .ok entangled := by
  have hd : entangled.Allowed := by decide
  obtain ⟨hread, hresult, hsame⟩ := ofXml_toXml ⟨"r.xml"⟩ entangled
  refine ⟨hd, hread.2 hd, fun r hr => (hresult r hr).trans (by decide), fun h => ?_⟩
  exact absurd ((hsame hd).1 h) (by decide)

end Document

end LintDigest
