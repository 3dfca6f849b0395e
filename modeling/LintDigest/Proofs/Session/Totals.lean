import LintDigest.Proofs.Document.Counts
import LintDigest.Proofs.Session.Passage
import LintDigest.Proofs.Summary.Aggregate

/-!
# Rows and totals

The bundle page and the document of the rule summary are written by different hands, but they tell
of the same modules. `Books` is what every module keeps: either neither has told of anything, or the
page has one row for each document that was merged. A directory in the place of the page is the one
thing that keeps rows out for good.
-/

namespace LintDigest

open Script Storage LintDigest.Tree

/-! ## The document of the rule summary -/

namespace RuleSummary

/-- The document at `place` holds the merge of `ds`; without documents there is no file. -/
def Merged (place : Place) (t : Tree) (ds : List Document) : Prop :=
  (ds = [] ∧ ∀ c, t.get? (documentName :: place) ≠ some (.file c)) ∨
    ds ≠ [] ∧ Holds place t (Document.mergeAll ds)

section

variable {r : RuleSummary} {th : Thread} {w w' : Workspace} {place : Place} {t : Tree}
  {d : Document} {html : String} {ds : List Document}

/-- A document that was merged before can be read. -/
theorem Holds.loaded_copy (h : Holds place t d) (hd : d.Canonical) {cwd : Place}
    (hlead : LeadsTo t cwd r.dir place) {t₁ : Tree}
    (hcopy : t.copy cwd r.document r.snapshot = .ok t₁) : loaded t₁ cwd r.snapshot = .ok d := by
  obtain ⟨hwd, hws, place', c, hlead', hdoc, hsnap, rfl⟩ :=
    (copy_div isName_documentName isName_snapshotName).1 hcopy
  obtain rfl := hlead.unique hlead'
  rw [h.2] at hdoc
  cases hdoc
  have hview := get?_put t snapshotName place (.file (.text d.toXml))
  have hresolve : (t.put (snapshotName :: place) (.file (.text d.toXml))).resolve cwd r.snapshot =
      .ok (snapshotName :: place, .file (.text d.toXml)) := by
    refine (resolve_div isName_snapshotName).2 ⟨hws, place, ?_, rfl, ?_⟩
    · exact hlead.mono (dirsKept_of_update hview hsnap)
    · rw [hview, Function.update_self]
  rw [loaded_of_resolve hresolve, decoded, hd.ofXml_eq]

/-- The first document is there once it is saved. -/
theorem holds_of_save {t' : Tree} {cwd : Place} (hlead : LeadsTo t cwd r.dir place)
    (save : Replaced t cwd r.document d.toXml (.ok ()) t') : Holds place t' d := by
  obtain ⟨-, -, hview⟩ := save.written_of_leadsTo isName_documentName hlead
  refine ⟨(hlead.mono save.dirsKept).2, ?_⟩
  rw [hview, Function.update_self]

/-- An update that takes something in saves it. -/
theorem walkable_of_effect {u : RuleUpdate} {p : Progress} (hne : d.isEmpty = false)
    (h : Effect r d html w (.ok u) t p) : Walkable r.document ∧ accepted d (.ok u) = [d] := by
  cases h with
  | skipped empty =>
    rw [empty] at hne
    cases hne
  | founded new save => exact ⟨(save.toWritten isName_documentName).walkable, rfl⟩
  | foundedLater new save => exact ⟨(save.toWritten isName_documentName).walkable, rfl⟩
  | refreshed old read save => exact ⟨(save.toWritten isName_documentName).walkable, rfl⟩
  | extended old read save => exact ⟨(save.toWritten isName_documentName).walkable, rfl⟩

/-- An update that is granted every write is merged. -/
theorem Merged.update (h : Merged place w.tree ds) (hds : ∀ x ∈ ds, x.Canonical)
    (hd : d.Canonical) (hne : d.isEmpty = false) (hlead : LeadsTo w.tree w.home r.dir place)
    {res : Except Error RuleUpdate}
    (hc : Course th Request.granted (r.update d html) w (.done res) w') :
    Merged place w'.tree (ds ++ [d]) ∧ Walkable r.document := by
  obtain ⟨m, heffect, -⟩ := effect_of_course hc
  have hmerge := Document.mergeAll_concat hds hd
  have hheld : (Document.mergeAll ds).Canonical := Document.canonical_mergeAll hds
  -- The document can be read if there is one, so nothing goes wrong.
  obtain ⟨u, rfl⟩ : ∃ u, res = .ok u := by
    rcases update_of_granted hc with hok | ⟨e, t₁, -, hcopy, hload⟩
    · exact hok
    · rcases h with ⟨-, hnone⟩ | ⟨-, hholds⟩
      · obtain ⟨-, -, place', c, hlead', hdoc, -⟩ :=
          (copy_div isName_documentName isName_snapshotName).1 hcopy
        obtain rfl := hlead.unique hlead'
        exact absurd hdoc (hnone c)
      · rw [hholds.loaded_copy hheld hlead hcopy] at hload
        cases hload
  generalize w'.tree = t, w'.progress = p at heffect
  obtain ⟨hwalkable, htaken⟩ := walkable_of_effect hne heffect
  refine ⟨.inr ⟨by simp, ?_⟩, hwalkable⟩
  rw [hmerge]
  rcases h with ⟨rfl, hnone⟩ | ⟨hsome, hholds⟩
  · -- Without a document to extend, what is saved is `d`.
    have hprior : ∀ {prior t₁}, r.Prior w.tree w.home (.ok prior) t₁ →
        prior.merge d = d ∧ t₁ = w.tree := by
      intro prior t₁ read
      rcases prior_cases hlead read with ⟨-, hok, rfl⟩ | ⟨-, ⟨e, he⟩, -⟩ | ⟨c, -, -, hdoc, -⟩
      · cases hok
        exact ⟨Document.empty_merge d, rfl⟩
      · cases he
      · exact absurd hdoc (hnone c)
    rw [Document.mergeAll, Document.empty_merge]
    cases heffect with
    | skipped empty =>
      rw [empty] at hne
      cases hne
    | founded new save due page => exact (holds_of_save hlead save).replaced_page page
    | foundedLater new save due => exact holds_of_save hlead save
    | refreshed old read save due page =>
      obtain ⟨hd', rfl⟩ := hprior read
      rw [hd'] at save
      exact ((holds_of_save hlead save).replaced_page page).discarded
    | extended old read save due =>
      obtain ⟨hd', rfl⟩ := hprior read
      rw [hd'] at save
      exact (holds_of_save hlead save).discarded
  · have hnext := Holds.effect (w := w.setNow m) hholds hheld hlead heffect
    rw [htaken] at hnext
    exact hnext

end

/-- Writing a file of another name changes nothing about the document. -/
theorem Merged.written {t' : Tree} {cwd : Place} {dir : Path} {n text : String}
    (h : Merged place t ds) (hw : Written t t' cwd dir n text) (hn : n ≠ documentName) :
    Merged place t' ds := by
  have hne : documentName :: place ≠ n :: aim cwd dir := fun e => hn (List.cons.inj e).1.symm
  rcases h with ⟨hds, hnone⟩ | ⟨hds, hholds⟩
  · exact .inl ⟨hds, hw.no_file hnone hne⟩
  · exact .inr ⟨hds, hw.dirsKept _ hholds.1, hw.file_kept hholds.2 hne⟩

end RuleSummary

namespace BundleSummary

theorem Appending.dirsKept {b : BundleSummary} {report : Path} {d : Document} {w : Workspace}
    {res : Except Error Appended} {t : Tree} (h : Appending b report d w res t) :
    DirsKept w.tree t := by
  cases h with
  | skipped | refused => exact fun _ hq => hq
  | unwritten nonempty read insert save => exact save.dirsKept
  | added nonempty read insert save => exact save.dirsKept

end BundleSummary

/-! ## Both summaries -/

namespace Session

/-- The rows of modules, given by their pages and documents. -/
def rows (s : Session) (cwd : Place) (calls : List (Path × Document)) : List String :=
  calls.map fun c => s.bundle.rowOf cwd c.1 c.2

/-- What the summaries of a session hold when the modules `calls` have been taken in. -/
inductive Books (s : Session) (cwd : Place) (t : Tree) (calls : List (Path × Document)) : Prop
  | blocked (page : t.get? (BundleSummary.pageName :: aim cwd s.summaryDir) = some .dir)
  | blank (none : calls = [])
      (page : ∀ c, t.get? (BundleSummary.pageName :: aim cwd s.summaryDir) ≠ some (.file c))
      (document : RuleSummary.Merged (aim cwd s.summaryDir) t [])
  | kept {stamp : String} (any : calls ≠ [])
      (leads : LeadsTo t cwd s.summaryDir (aim cwd s.summaryDir))
      (seen : Walkable s.bundle.page) (readable : Walkable s.rule.document)
      (plain : '<' ∉ stamp.toList)
      (page : t.get? (BundleSummary.pageName :: aim cwd s.summaryDir) =
        some (.file (.text (BundleSummary.pageText stamp (s.rows cwd calls)))))
      (document : RuleSummary.Merged (aim cwd s.summaryDir) t (calls.map (·.2)))

section

variable {s : Session} {th : Thread} {w w' : Workspace} {cwd : Place} {t t' : Tree}
  {calls : List (Path × Document)} {report : Path} {d : Document}

theorem unmarked_rows (s : Session) (cwd : Place) (calls : List (Path × Document)) :
    ∀ row ∈ s.rows cwd calls, BundleSummary.Unmarked row := by
  intro row hrow
  obtain ⟨c, -, rfl⟩ := List.mem_map.1 hrow
  exact BundleSummary.unmarked_rowText _ _ _

/-- Writing a file of another name leaves the books as they are. -/
theorem Books.written {dir : Path} {n text : String} (h : s.Books cwd t calls)
    (hw : Written t t' cwd dir n text) (hpage : n ≠ BundleSummary.pageName)
    (hdocument : n ≠ RuleSummary.documentName) : s.Books cwd t' calls := by
  have hne : BundleSummary.pageName :: aim cwd s.summaryDir ≠ n :: aim cwd dir :=
    fun e => hpage (List.cons.inj e).1.symm
  cases h with
  | blocked page => exact .blocked (hw.dirsKept _ page)
  | blank none page document => exact .blank none (hw.no_file page hne) (document.written hw hdocument)
  | kept any leads seen readable plain page document =>
    exact .kept any (leads.mono hw.dirsKept) seen readable plain (hw.file_kept page hne)
      (document.written hw hdocument)

/-- The row goes behind the others, unless a directory is in the place of the page. -/
theorem Books.append {row : Except Error Appended} (h : s.Books w.home w.tree calls)
    (hne : d.isEmpty = false)
    (hc : Course th Request.granted (s.bundle.append report d) w (.done row) w') :
    w'.tree.get? (BundleSummary.pageName :: aim w.home s.summaryDir) = some .dir ∨
      ∃ stamp, '<' ∉ stamp.toList ∧ Written w.tree w'.tree w.home s.summaryDir
        BundleSummary.pageName (BundleSummary.pageText stamp
          (s.rows w.home calls ++ [s.bundle.rowOf w.home report d])) := by
  obtain ⟨m, happending, -, hstamp, hgranted⟩ := s.bundle.append_of_granted report d hc
  -- A page that shows the rows so far is rewritten with one row more.
  have hadd : ∀ {stamp}, '<' ∉ stamp.toList →
      s.bundle.current (w.setNow m) = .ok (BundleSummary.pageText stamp (s.rows w.home calls)) →
      Written w.tree w'.tree w.home s.summaryDir BundleSummary.pageName
        (BundleSummary.pageText stamp (s.rows w.home calls ++ [s.bundle.rowOf w.home report d])) := by
    intro stamp hplain hread
    have hinsert := BundleSummary.insertRow?_pageText hplain (s.unmarked_rows w.home calls)
      (s.bundle.rowOf w.home report d)
    obtain ⟨u, rfl⟩ := hgranted hne _ _ hread hinsert
    generalize w'.tree = t at happending
    cases happending with
    | skipped empty =>
      rw [empty] at hne
      cases hne
    | added nonempty read insert save =>
      rw [hread] at read
      cases read
      rw [Workspace.home_setNow, hinsert] at insert
      cases insert
      exact save.toWritten BundleSummary.isName_pageName
  cases h with
  | blocked page => exact .inl (happending.dirsKept _ page)
  | blank none page document =>
    cases hs : (w.tree.stat w.home s.bundle.page).isSome with
    | true =>
      obtain ⟨-, place, hlead, hsome⟩ := (stat_div_isSome BundleSummary.isName_pageName).1 hs
      obtain rfl := hlead.eq_aim
      obtain ⟨e, he⟩ := Option.isSome_iff_exists.1 hsome
      cases e with
      | file c => exact absurd he (page c)
      | dir => exact .inl (happending.dirsKept _ he)
    | false =>
      refine .inr ⟨m, hstamp hne hs, hadd (hstamp hne hs) ?_⟩
      rw [BundleSummary.current, Workspace.tree_setNow, Workspace.home_setNow, hs]
      simp [BundleSummary.template, BundleSummary.pageText, rows, none]
  | @kept stamp any leads seen readable plain page document =>
    refine .inr ⟨stamp, plain, hadd plain (BundleSummary.current_of_read ?_)⟩
    exact (read_div BundleSummary.isName_pageName).2 ⟨seen, _, leads, page⟩

theorem rows_concat (s : Session) (cwd : Place) (calls : List (Path × Document)) :
    s.rows cwd (calls ++ [(report, d)]) = s.rows cwd calls ++ [s.bundle.rowOf cwd report d] := by
  simp [rows]

/-- A document without diagnostics is in neither summary. -/
theorem tree_of_taken_empty {html : String} (hd : d.isEmpty = true)
    (ht : s.Taken th Request.granted (some report) d html w w') : w'.tree = w.tree := by
  obtain ⟨w₁, w₂, w₃, update, w₄, ⟨htree₁, -⟩, ⟨row, happend⟩, ⟨htree₃, -⟩, hupdate, htree', -⟩ := ht
  have hrow : w₂.tree = w₁.tree := by
    obtain ⟨_, happending, -⟩ := s.bundle.append_of_granted report d happend
    generalize w₂.tree = t at happending
    cases happending with
    | skipped => rfl
    | refused nonempty | unwritten nonempty | added nonempty =>
      rw [hd] at nonempty
      cases nonempty
  have hsame : w₄.tree = w₃.tree := by
    rw [RuleSummary.update, if_pos hd] at hupdate
    obtain ⟨-, m, rfl⟩ := hupdate.of_done
    rfl
  rw [htree', hsame, htree₃, hrow, htree₁]

/-- Unless a directory is in the place of the page, the document is the merge of the calls. -/
theorem Books.merged (h : s.Books cwd t calls)
    (hfree : t.get? (BundleSummary.pageName :: aim cwd s.summaryDir) ≠ some .dir) :
    RuleSummary.Merged (aim cwd s.summaryDir) t (calls.map (·.2)) := by
  cases h with
  | blocked page => exact absurd page hfree
  | blank none page document =>
    rw [none]
    exact document
  | kept any leads seen readable plain page document => exact document

/-- A row and a document that are taken in together keep the books. -/
theorem Books.taken {html : String} (h : s.Books w.home w.tree calls)
    (hcalls : ∀ c ∈ calls, c.2.Canonical) (hd : d.Canonical)
    (ht : s.Taken th Request.granted (some report) d html w w') :
    s.Books w.home w'.tree (calls ++ if d.isEmpty then [] else [(report, d)]) := by
  cases hne : d.isEmpty with
  | true =>
    rw [tree_of_taken_empty hne ht]
    simpa using h
  | false =>
    obtain ⟨w₁, w₂, w₃, update, w₄, ⟨htree₁, hhome₁, -⟩, ⟨row, happend⟩, ⟨htree₃, hhome₃, -⟩,
      hupdate, htree', -⟩ := ht
    rw [happend.home_eq, hhome₁] at hhome₃
    rw [← htree₁] at h
    rw [htree']
    obtain ⟨m, heffect, -⟩ := RuleSummary.effect_of_course hupdate
    have hkeeps : Keeps BundleSummary.pageName w₃.tree w₄.tree :=
      (RuleSummary.spares_effect (w := w₃.setNow m) (by decide) heffect).keeps
    rw [htree₃] at hkeeps
    rw [← hhome₁] at h
    rcases h.append hne happend with hdir | ⟨stamp, hplain, hpage⟩
    · rw [hhome₁] at hdir
      exact .blocked (hkeeps.1 _ hdir)
    · rw [hhome₁] at h hpage
      have hbefore := (h.merged hpage.free).written hpage (by decide)
      have hlead : LeadsTo w₃.tree w₃.home s.rule.dir (aim w.home s.summaryDir) := by
        rw [htree₃, hhome₃]
        exact hpage.leads
      rw [← htree₃] at hbefore
      have hcanonical : ∀ x ∈ calls.map (·.2), x.Canonical := List.forall_mem_map.2 hcalls
      obtain ⟨hafter, hreadable⟩ := hbefore.update hcanonical hd hne hlead hupdate
      refine .kept (by simp) ?_ hpage.walkable hreadable hplain ?_ ?_
      · exact hpage.leads.mono hkeeps.1
      · rw [if_neg (by simp), rows_concat]
        exact hkeeps.2 _ _ hpage.file
      · simpa using hafter

/-- The modules among the outcomes that have a row: their pages were written, and their documents
have diagnostics. -/
def listed (os : List Outcome) : List (Path × Document) :=
  (os.filterMap fun o => o.report.map fun p => ((⟨p⟩ : Path), o.document)).filter (!·.2.isEmpty)

theorem listed_append (os os' : List Outcome) : listed (os ++ os') = listed os ++ listed os' := by
  simp only [listed, List.filterMap_append, List.filter_append]

theorem listed_cons (o : Outcome) (os : List Outcome) : listed (o :: os) = listed [o] ++ listed os :=
  listed_append [o] os

theorem listed_told {module : Path} {tools : List String} :
    listed [s.toldOutcome module d tools] = if d.isEmpty then [] else [(s.pageOf module, d)] := by
  cases hd : d.isEmpty <;> simp [listed, toldOutcome, hd]

theorem canonical_of_collect {module : Path} {tools : List String}
    (h : ((s.collect module).run th w).1 = (d, tools)) : d.Canonical := by
  have hproduced := s.produced_collect module th w
  rw [h] at hproduced
  exact hproduced.canonical

theorem Books.process {module : Path} {o : Outcome} (h : s.Books w.home w.tree calls)
    (hcalls : ∀ c ∈ calls, c.2.Canonical) (hp : Passage s module th w o w') :
    s.Books w.home w'.tree (calls ++ listed [o]) ∧ ∀ c ∈ calls ++ listed [o], c.2.Canonical := by
  cases hp with
  | silent found rest =>
    rw [rest.1]
    exact ⟨by simpa [listed, silentOutcome] using h, by simpa [listed, silentOutcome] using hcalls⟩
  | @told d tools m t₁ w₂ w₃ _ found any document page home progress taken rest =>
    have hd := canonical_of_collect found
    have hwritten := (h.written document (by decide) (by decide)).written page (by decide) (by decide)
    rw [← home] at hwritten
    rw [rest.1, ← home, listed_told]
    refine ⟨hwritten.taken hcalls hd taken, ?_⟩
    intro c hc
    rcases List.mem_append.1 hc with hc | hc
    · exact hcalls c hc
    · split at hc
      · cases hc
      · rw [List.mem_singleton.1 hc]
        exact hd

theorem course_processAll_cons {A : (r : Request) → r.Answer → Prop} {module : Path}
    {modules : List Path} {os : List Outcome}
    (h : Course th A (s.processAll (module :: modules)) w (.done os) w') :
    ∃ o rest w₁ w₂ m, os = o :: rest ∧ Course th A (s.process module) w (.done o) w₁ ∧
      Course th A (s.processAll modules) w₁ (.done rest) w₂ ∧ w' = w₂.setNow m := by
  rw [processAll] at h
  obtain ⟨o, w₁, hfirst, h⟩ := h.of_bind
  obtain ⟨rest, w₂, hrest, h⟩ := h.of_bind
  obtain ⟨rfl, m, rfl⟩ := h.of_done
  exact ⟨o, rest, w₁, w₂, m, rfl, hfirst, hrest, rfl⟩

theorem Books.processAll {modules : List Path} {os : List Outcome}
    (h : s.Books w.home w.tree calls) (hcalls : ∀ c ∈ calls, c.2.Canonical)
    (hc : Course th Request.granted (s.processAll modules) w (.done os) w') :
    s.Books w'.home w'.tree (calls ++ listed os) ∧ ∀ c ∈ calls ++ listed os, c.2.Canonical := by
  induction modules generalizing calls w w' os with
  | nil =>
    obtain ⟨rfl, m, rfl⟩ := hc.of_done
    exact ⟨by simpa [listed] using h, by simpa [listed] using hcalls⟩
  | cons module modules ih =>
    obtain ⟨o, rest, w₁, w₂, m, rfl, hfirst, hrest, rfl⟩ := course_processAll_cons hc
    obtain ⟨hnext, hnext'⟩ := h.process hcalls (passage_of_course hfirst)
    rw [← hfirst.home_eq] at hnext
    rw [listed_cons, ← List.append_assoc, Workspace.home_setNow, Workspace.tree_setNow]
    exact ih hnext hnext' hrest

/-- Where the books have a page, it has a row for every call, and the document counts what the calls
count together. -/
theorem Books.totals (h : s.Books cwd t calls) (hcalls : ∀ c ∈ calls, c.2.Canonical)
    (hpage : t.stat cwd s.bundle.page = some .file) :
    calls ≠ [] ∧
      (∃ stamp, t.read cwd s.bundle.page =
        .ok (BundleSummary.pageText stamp (s.rows cwd calls))) ∧
      ∃ merged, loaded t cwd s.rule.document = .ok merged ∧ ∀ severity,
        (calls.map fun c => c.2.counts.get severity).sum = merged.counts.get severity := by
  obtain ⟨e, hentry, hkind⟩ := get?_of_stat hpage
  rw [BundleSummary.page, aim_div _ _ BundleSummary.isName_pageName] at hentry
  cases h with
  | blocked page =>
    cases hentry.symm.trans page
    cases hkind
  | blank none page document =>
    cases e with
    | file c => exact absurd hentry (page c)
    | dir => cases hkind
  | @kept stamp any leads seen readable plain page document =>
    rcases document with ⟨hnil, -⟩ | ⟨-, hholds⟩
    · exact absurd (List.map_eq_nil_iff.1 hnil) any
    · have hdocuments : ∀ d ∈ calls.map (·.2), d.Canonical := List.forall_mem_map.2 hcalls
      refine ⟨any, ⟨stamp, (read_div BundleSummary.isName_pageName).2 ⟨seen, _, leads, page⟩⟩,
        Document.mergeAll (calls.map (·.2)), ?_, fun severity => ?_⟩
      · exact hholds.loaded_eq (Document.canonical_mergeAll hdocuments) leads readable
      · rw [Document.counts_mergeAll fun d hd => (hdocuments d hd).1, List.map_map]
        rfl

end

/-! ## Main theorem -/

/-- However many rows are added and whatever directories they name, the page is its opening, the rows
of the modules that have diagnostics, the marker, which is nowhere else, and its closing; a row links
to its report and shows the counts of its document. And if a session that starts without summary
files is granted every write, and has a page at the end, then each column of the page has the sum
that the document of the rule summary counts. -/
theorem rows_and_totals :
    (∀ (b : BundleSummary) (th : Thread) (w w' : Workspace) (calls : List (Path × Document))
        (results : List (Except Error Appended)),
      w.tree.stat w.home b.page = none →
      Course th Request.credible (b.appendAll calls) w (.done results) w' →
      (∀ res ∈ results, ∃ u, res = .ok u) →
        (calls.filter (!·.2.isEmpty) = [] → w'.tree.stat w'.home b.page = none) ∧
        (calls.filter (!·.2.isEmpty) ≠ [] → ∃ stamp text,
          w'.tree.read w'.home b.page = .ok text ∧
          text = BundleSummary.opening stamp ++
            String.join ((b.rowsFor w.home (calls.filter (!·.2.isEmpty))).map (·.text)) ++
            BundleSummary.marker ++ BundleSummary.closing ∧
          Text.occurrences BundleSummary.marker.toList text.toList = 1)) ∧
    ∀ (s : Session) (th : Thread) (w w' : Workspace) (modules : List Path) (os : List Outcome),
      (∀ n ∈ [BundleSummary.pageName, RuleSummary.documentName], ∀ c,
        w.tree.get? (n :: aim w.home s.summaryDir) ≠ some (.file c)) →
      Course th Request.granted (s.processAll modules) w (.done os) w' →
      w'.tree.stat w'.home s.bundle.page = some .file →
        ∃ stamp merged, listed os ≠ [] ∧
          w'.tree.read w'.home s.bundle.page = .ok (BundleSummary.opening stamp ++
            String.join ((s.bundle.rowsFor w.home (listed os)).map (·.text)) ++
            BundleSummary.marker ++ BundleSummary.closing) ∧
          ((loadDocument s.rule.document).run th w').1 = .ok merged ∧
          ((s.bundle.rowsFor w.home (listed os)).map (·.errors)).sum = merged.counts.errors ∧
          ((s.bundle.rowsFor w.home (listed os)).map (·.warnings)).sum = merged.counts.warnings ∧
          ((s.bundle.rowsFor w.home (listed os)).map (·.infos)).sum = merged.counts.infos := by
  constructor
  · intro b th w w' calls results hnone hc hok
    have hstart : b.Shows w.tree w.home (b.rowsOf w.home []) := .inl ⟨rfl, hnone⟩
    have hend := hstart.appendAll (fun _ _ h => h) hc hok
    rw [List.nil_append, hc.home_eq] at hend
    have hnil : b.rowsOf w.home calls = [] ↔ calls.filter (!·.2.isEmpty) = [] := List.map_eq_nil_iff
    rw [hc.home_eq, BundleSummary.map_text_rowsFor]
    rcases hend with ⟨hrows, hstat⟩ | ⟨hrows, stamp, hplain, hread⟩
    · exact ⟨fun _ => hstat, fun h => absurd (hnil.1 hrows) h⟩
    · refine ⟨fun h => absurd (hnil.2 h) hrows, fun _ => ⟨stamp, _, hread, rfl, ?_⟩⟩
      exact BundleSummary.occurrences_marker hplain (BundleSummary.unmarked_rowsOf b w.home calls)
  · intro s th w w' modules os hnew hc hpage
    have hstart : s.Books w.home w.tree [] :=
      .blank rfl (hnew _ (by simp)) (.inl ⟨rfl, hnew _ (by simp)⟩)
    obtain ⟨hend, hcanonical⟩ := hstart.processAll (by simp) hc
    rw [List.nil_append] at hend hcanonical
    obtain ⟨hany, ⟨stamp, hread⟩, merged, hload, hsum⟩ := hend.totals hcanonical hpage
    refine ⟨stamp, merged, hany, ?_, ?_, ?_, ?_, ?_⟩
    · rw [← hc.home_eq, BundleSummary.map_text_rowsFor]
      exact hread
    · rw [run_loadDocument]
      exact hload
    · rw [BundleSummary.rowsFor, List.map_map]
      exact hsum .error
    · rw [BundleSummary.rowsFor, List.map_map]
      exact hsum .warning
    · rw [BundleSummary.rowsFor, List.map_map]
      exact hsum .info

/-- The desk before any summary. -/
def freshDesk : Workspace := { desk with tree := ⟨desk.tree.entries.take 3⟩ }

/-- A report in a directory that is called like the marker. -/
def forgedReport : Path := ⟨"<!-- lintfold:next-row -->/target/lintfold-report.html"⟩

/-- The row of that report. -/
def forgedRow : BundleSummary.Row where
  link := "../<!-- lintfold:next-row -->/target/lintfold-report.html"
  name := "<!-- lintfold:next-row -->"
  errors := 1
  warnings := 0
  infos := 1

theorem rows_and_totals_desk :
    (∃ w' stamp text, ((plain.bundle.appendAll [(forgedReport, deskDocument)]).run "main"
        RuleSummary.bare).2 = w' ∧ w'.tree.read w'.home plain.bundle.page = .ok text ∧
      text = BundleSummary.opening stamp ++ String.join [forgedRow.text] ++ BundleSummary.marker ++
        BundleSummary.closing ∧
      Text.occurrences BundleSummary.marker.toList text.toList = 1) ∧
    ∃ os w' merged, (plain.processAll [⟨"app"⟩]).run "main" freshDesk = (os, w') ∧
      listed os = [(⟨"app/target/lintfold-report.html"⟩, deskDocument)] ∧
      ((loadDocument plain.rule.document).run "main" w').1 = .ok merged ∧
      merged.counts.errors = 1 ∧ merged.counts.warnings = 0 ∧ merged.counts.infos = 1 := by
  constructor
  · have hanswered : (plain.bundle.appendAll [(forgedReport, deskDocument)]).Answered "main"
        Request.credible RuleSummary.bare := answered_credible _ (by decide)
    have hcourse := hanswered.course
    generalize (plain.bundle.appendAll [(forgedReport, deskDocument)]).run "main"
      RuleSummary.bare = ended at hcourse ⊢
    obtain ⟨results, w'⟩ := ended
    have hwritable : Writable RuleSummary.bare.tree [] plain.bundle.page :=
      ⟨by decide +kernel, ⟨_, rfl⟩, _, _, rfl, by decide +kernel⟩
    have hok : ∀ res ∈ results, ∃ u, res = .ok u := by
      obtain ⟨res, rest, w₁, w₂, m, rfl, hfirst, hrest, -⟩ :=
        BundleSummary.course_appendAll_cons hcourse
      obtain ⟨rfl, -⟩ := hrest.of_done
      have hres := BundleSummary.ok_of_writable rfl hwritable (fun _ _ h => h) hfirst
      exact List.forall_mem_cons.2 ⟨hres, by simp⟩
    obtain ⟨-, hpage⟩ := rows_and_totals.1 plain.bundle "main" RuleSummary.bare _ _ _ rfl hcourse hok
    obtain ⟨stamp, text, hread, htext, hone⟩ := hpage (List.cons_ne_nil _ _)
    have hrow : plain.bundle.rowFor [] forgedReport deskDocument = forgedRow := by decide +kernel
    refine ⟨w', stamp, text, rfl, hread, ?_, hone⟩
    rw [← hrow]
    exact htext
  · have hend : (plain.processAll [⟨"app"⟩]).Ends "main" Request.granted
        (fun os w' => w'.tree.stat w'.home plain.bundle.page = some .file ∧
          listed os = [(⟨"app/target/lintfold-report.html"⟩, deskDocument)]) freshDesk := by
      -- The characters of a new page are found faster piece by piece.
      simp only [processAll]
      unfold process updateSummaries BundleSummary.append
      simp only [BundleSummary.content_bind]
      unfold BundleSummary.insertRow? BundleSummary.template BundleSummary.opening
      simp only [String.toList_append]
      decide +kernel
    obtain ⟨os, w', hrun, hcourse, hpage, hlisted⟩ := hend.course
    have hnew : ∀ n ∈ [BundleSummary.pageName, RuleSummary.documentName],
        freshDesk.tree.get? (n :: aim freshDesk.home plain.summaryDir) = none := by decide
    obtain ⟨stamp, merged, -, -, hload, herrors, hwarnings, hinfos⟩ :=
      rows_and_totals.2 plain "main" freshDesk w' _ os (fun n hn c => by simp [hnew n hn]) hcourse hpage
    rw [hlisted] at herrors hwarnings hinfos
    exact ⟨os, w', merged, hrun, hlisted, hload, herrors.symm, hwarnings.symm, hinfos.symm⟩

end Session

end LintDigest
