import LintDigest.Proofs.Report.Produced
import LintDigest.Proofs.Summary.Frame
import LintDigest.Program

/-!
# What a session writes is what it judged

The document that a module's outcome holds was merged from documents that readers produce, so it is
canonical and its file is read back as it stands. Nothing that happens after the file was written
touches it.
-/

namespace LintDigest

open Script Storage LintDigest.Tree

namespace Session

theorem isName_moduleDocument : IsName moduleDocument := by decide

theorem isName_modulePage : IsName modulePage := by decide

/-! ## Reading the reports -/

theorem produced_of_loadReport {tool : Tool} {p : Path} {th : Thread} {w : Workspace}
    {d : Document} (h : ((loadReport tool p).run th w).1 = .ok d) : Produced d := by
  rw [loadReport, run_bind] at h
  split at h
  · cases h
  · rw [run_bind] at h
    exact .transformed h

theorem produced_of_collectOne {outDir : Path} {tool : Tool} {file : String} {th : Thread}
    {w : Workspace} {d : Document} (h : ((collectOne outDir tool file).run th w).1 = some d) :
    Produced d := by
  rw [collectOne, run_bind] at h
  split at h
  · rw [run_bind] at h
    split at h
    · next d' hd' =>
      cases h
      exact produced_of_loadReport hd'
    · cases h
  · cases h

theorem produced_of_collectFrom {outDir : Path} {th : Thread} (inputs : List (Tool × String))
    (w : Workspace) : ∀ x ∈ ((collectFrom outDir inputs).run th w).1, Produced x.2 := by
  induction inputs generalizing w with
  | nil => exact fun x hx => by cases hx
  | cons input inputs ih =>
    obtain ⟨tool, file⟩ := input
    rw [collectFrom, run_bind]
    split
    · next d hd =>
      rw [run_bind]
      exact List.forall_mem_cons.2 ⟨produced_of_collectOne hd, ih _⟩
    · exact ih _

theorem produced_collect (s : Session) (module : Path) (th : Thread) (w : Workspace) :
    Produced ((s.collect module).run th w).1.1 := by
  rw [collect, run_bind]
  refine .mergedAll fun d hd => ?_
  obtain ⟨x, hx, rfl⟩ := List.mem_map.1 hd
  exact produced_of_collectFrom s.inputs w x hx

/-! ## After the reports are read -/

/-- The file of a module's document holds `d`. -/
def Persists (s : Session) (module : Path) (d : Document) (t : Tree) (cwd : Place) : Prop :=
  Walkable (s.outDir module / moduleDocument) ∧ ∃ place, LeadsTo t cwd (s.outDir module) place ∧
    t.get? (moduleDocument :: place) = some (.file (.text d.toXml))

section

variable {s : Session} {module : Path} {d : Document} {t t' : Tree} {cwd : Place}

theorem Persists.keeps (h : s.Persists module d t cwd) (hk : Keeps moduleDocument t t') :
    s.Persists module d t' cwd := by
  obtain ⟨hw, place, hlead, hfile⟩ := h
  exact ⟨hw, place, hlead.mono hk.1, hk.2 _ _ hfile⟩

theorem Persists.loaded_eq (h : s.Persists module d t cwd) (hd : d.Canonical) :
    loaded t cwd (s.outDir module / moduleDocument) = .ok d := by
  obtain ⟨hw, place, hlead, hfile⟩ := h
  have hresolve := (resolve_div isName_moduleDocument).2 ⟨hw, place, hlead, rfl, hfile⟩
  rw [loaded_of_resolve hresolve, decoded, hd.ofXml_eq]

end

variable (s : Session) (module : Path) (d : Document) (th : Thread)

theorem persists_of_writeModule (page : String) (w : Workspace)
    (h : ((s.writeModule module d page).run th w).1 = .ok ()) :
    s.Persists module d ((s.writeModule module d page).run th w).2.tree w.home := by
  obtain ⟨saved, t₁, hrun, hsave⟩ :=
    run_replaceFile th w (s.outDir module / moduleDocument) d.toXml
  rw [writeModule, saveDocument, run_bind, hrun] at h ⊢
  cases saved with
  | error e => cases h
  | ok u =>
    obtain ⟨paged, t₂, hrun₂, hpage⟩ :=
      run_replaceFile th { w with tree := t₁ } (s.outDir module / modulePage) page
    simp only [hrun₂]
    have hwritten : s.Persists module d t₁ w.home := hsave.written_div isName_moduleDocument
    exact hwritten.keeps (hpage.keeps isName_modulePage (by decide))

theorem still_noteRow (row : Option (Except Error Appended)) : (noteRow row).Still := by
  unfold noteRow
  split
  · exact ⟨rfl, fun _ => trivial⟩
  · trivial
  · exact ⟨rfl, fun _ => trivial⟩
  · exact ⟨rfl, fun _ => trivial⟩

theorem still_noteUpdate (update : Except Error RuleUpdate) : (noteUpdate update).Still := by
  unfold noteUpdate
  split
  · trivial
  · exact ⟨rfl, fun _ => trivial⟩
  · exact ⟨rfl, fun _ => trivial⟩

theorem still_report (entries : List (String × Diagnostic)) : (report entries).Still := by
  induction entries with
  | nil => trivial
  | cons e entries ih => exact ⟨rfl, fun _ => ih⟩

theorem keeps_updateRule (page : String) (w : Workspace) :
    Keeps moduleDocument w.tree ((s.rule.update d page >>= noteUpdate).run th w).2.tree := by
  rw [run_bind, (still_noteUpdate _).tree_run]
  exact RuleSummary.keeps_update (by decide) d page th w

theorem keeps_updateSummaries (report : Option Path) (page : String) (w : Workspace) :
    Keeps moduleDocument w.tree ((s.updateSummaries report d page).run th w).2.tree := by
  rw [updateSummaries, run_locked, Workspace.tree_left]
  cases report with
  | none =>
    have hrow := (still_noteRow none).tree_run th (w.entered th)
    rw [run_bind]
    exact (keeps_of_get? (by rw [hrow]; rfl)).trans (s.keeps_updateRule d th page _)
  | some p =>
    have happend := s.bundle.keeps_append th (n := moduleDocument) (by decide) p d (w.entered th)
    rw [run_bind, run_bind]
    refine Keeps.trans ?_ (s.keeps_updateRule d th page _)
    rw [(still_noteRow _).tree_run]
    exact happend

/-! ## Whole modules -/

/-- Logging the diagnostics changes neither the outcome nor the files. -/
theorem run_logged (console : Bool) (entries : List (String × Diagnostic)) (o : Outcome)
    (w : Workspace) :
    ∃ w', (if console then do report entries; pure o else pure o : Script Outcome).run th w =
      (o, w') ∧ w'.tree = w.tree ∧ w'.home = w.home := by
  cases console with
  | false => exact ⟨w, rfl, rfl, rfl⟩
  | true =>
    refine ⟨((report entries).run th w).2, ?_, (still_report entries).tree_run th w, home_run ..⟩
    rw [if_pos rfl, run_bind]
    rfl

theorem persists_of_process {w w' : Workspace} {o : Outcome}
    (h : (s.process module).run th w = (o, w')) (hreport : o.report.isSome) :
    Produced o.document ∧ s.Persists module o.document w'.tree w'.home ∧
      s.thresholds.judge o.document = o.gate ∧ o.document.counts = o.counts := by
  have hproduced := s.produced_collect module th w
  rw [process, run_bind] at h
  generalize (s.collect module).run th w = found at h hproduced
  obtain ⟨⟨document, tools⟩, w₁⟩ := found
  simp only at h hproduced
  split at h
  · cases h
    cases hreport
  · simp only [run_bind] at h
    -- Neither the title nor the page matters here.
    generalize (run th (request .now) _).2 = w₂ at h
    generalize Page.render _ _ document = page at h
    have hpersists := s.persists_of_writeModule module document th page w₂
    have hhome := home_run th (s.writeModule module document page) w₂
    generalize (s.writeModule module document page).run th w₂ = written at h hpersists hhome
    obtain ⟨res, w₃⟩ := written
    cases res with
    | error e =>
      -- What could not be written is no report.
      simp only [run_bind] at h
      obtain ⟨w₄, hrun, -⟩ := run_logged th s.console document.entries _ _
      rw [hrun] at h
      cases h
      cases hreport
    | ok u =>
      have hheld := (hpersists rfl).keeps (s.keeps_updateSummaries document th
        (some (s.outDir module / modulePage)) page w₃)
      have hhome₃ := home_run th (s.updateSummaries (some (s.outDir module / modulePage)) document
        page) w₃
      simp only [run_bind] at h
      obtain ⟨w₄, hrun, htree, hhome₄⟩ := run_logged th s.console document.entries _ _
      rw [hrun] at h
      cases h
      rw [htree, hhome₄, hhome₃, hhome]
      exact ⟨hproduced, hheld, rfl, rfl⟩

end Session

/-! ## The gate on a file -/

namespace Config

theorem still_hasAny (dir : Path) (names : List String) : (hasAny dir names).Still := by
  induction names with
  | nil => trivial
  | cons name names ih =>
    refine (still_isPresent _).bind fun present => ?_
    split
    · trivial
    · exact ih

theorem still_firstMarked (ps : List Path) : (firstMarked ps).Still := by
  induction ps with
  | nil => trivial
  | cons p ps ih =>
    refine (still_hasAny _ _).bind fun marked => ?_
    split
    · trivial
    · exact ih

theorem still_loadFile (p : Path) (read : String → Except String ConfigFile) :
    (loadFile p read).Still := by
  refine (still_readText p).bind fun found => ?_
  split
  · trivial
  · split <;> trivial

theorem still_loadYaml (root : Path) (names : List String) : (loadYaml root names).Still := by
  induction names with
  | nil => trivial
  | cons name names ih =>
    refine (still_isPresent _).bind fun present => ?_
    split
    · exact (still_loadFile _ _).bind fun _ => trivial
    · exact ih

theorem still_load (root : Path) : (load root).Still := by
  refine (still_isPresent _).bind fun present => ?_
  split
  · exact (still_loadFile _ _).bind fun _ => trivial
  · exact still_loadYaml root yamlNames

theorem still_detectRoot (start : Path) : (detectRoot start).Still :=
  (still_firstMarked _).bind fun _ => trivial

theorem still_discover (overrides : Overrides) (order : MapOrder) :
    (discover overrides order).Still := by
  refine (still_absolute _).bind fun start => ?_
  refine (still_detectRoot start).bind fun root => ?_
  refine (still_load root).bind fun file => ?_
  cases file <;> trivial

end Config

namespace Program

/-- A document that was read goes before the gate. -/
theorem run_judged (colour : Bool) (input : String) (c : Config) {th : Thread} {w : Workspace}
    {d : Document} (hload : loaded w.tree w.home ⟨input⟩ = .ok d) :
    ∃ w', (orFail colour (loadDocument ⟨input⟩) fun d => do
        let _ : Unit ← request (.print (d.countsOutput c.output))
        match c.thresholds.judge d with
        | none => return .success
        | some failure =>
          complain colour failure.message
          return .rejected).run th w =
        (if (c.thresholds.judge d).isNone then .success else .rejected, w') ∧
      .printed (d.countsOutput c.output) ∈ w'.events := by
  rw [orFail, run_bind, run_loadDocument, hload]
  simp only [run_bind]
  cases c.thresholds.judge d with
  | none => exact ⟨_, rfl, List.mem_append_right _ List.mem_cons_self⟩
  | some failure =>
    refine ⟨_, rfl, List.mem_append_left _ ?_⟩
    exact List.mem_append_right _ List.mem_cons_self

theorem run_gate (colour : Bool) {input : String} {overrides : Overrides} {order : MapOrder}
    {th : Thread} {w : Workspace} {c : Config} {d : Document}
    (hconfig : ((Config.discover overrides order).run th w).1 = .ok c)
    (hload : loaded w.tree w.home ⟨input⟩ = .ok d) :
    ∃ w', (gate colour input overrides order).run th w =
        (if (c.thresholds.judge d).isNone then .success else .rejected, w') ∧
      .printed (d.countsOutput c.output) ∈ w'.events := by
  rw [gate, configured, orFail]
  obtain ⟨w₁, hrun, htree, hhome⟩ := (Config.still_discover overrides order).run_bind _ th w
  rw [hrun, hconfig]
  rw [← htree, ← hhome] at hload
  simp only
  split
  · rw [run_bind]
    exact run_judged colour input c hload
  · exact run_judged colour input c hload

end Program

/-! ## Main theorem -/

namespace Session

/-- Every document that readers produce or that is merged from such names each path once and is read
back as it is written. So the file of a module whose report was written holds the document of its
outcome, and whoever puts that file before the gate, with the thresholds of the session, comes to
the verdict and the counts of the outcome. -/
theorem persisted_eq_judged :
    (∀ d, Produced d → d.paths.Nodup ∧ ∀ origin, Document.ofXml origin d.toXml = .ok d) ∧
    ∀ (s : Session) (module : Path) (th : Thread) (w w' : Workspace) (o : Outcome),
      (s.process module).run th w = (o, w') → o.report.isSome →
        Produced o.document ∧
        (∀ th', (loadDocument (s.outDir module / moduleDocument)).run th' w' =
          (.ok o.document, w')) ∧
        s.thresholds.judge o.document = o.gate ∧ o.document.counts = o.counts ∧
        ∀ colour overrides order c th', ((Config.discover overrides order).run th' w').1 = .ok c →
          c.thresholds = s.thresholds →
            ∃ w'', (Program.gate colour (s.outDir module / moduleDocument).text overrides order).run
                th' w' = (if o.passed then .success else .rejected, w'') ∧
              .printed (o.document.countsOutput c.output) ∈ w''.events := by
  constructor
  · intro d hd
    exact ⟨hd.canonical.1, hd.canonical.ofXml_eq⟩
  · intro s module th w w' o h hreport
    obtain ⟨hproduced, hpersists, hgate, hcounts⟩ := s.persists_of_process module th h hreport
    have hloaded := hpersists.loaded_eq hproduced.canonical
    refine ⟨hproduced, fun th' => ?_, hgate, hcounts, fun colour overrides order c th' hc hsame => ?_⟩
    · rw [run_loadDocument, hloaded]
    · have hrun := Program.run_gate colour hc hloaded
      rw [hsame, hgate] at hrun
      exact hrun

/-- A session that reads checkstyle's reports. -/
def plain : Session where
  outputDir := "target"
  inputs := [(.checkstyle, "lint.xml")]
  console := true
  thresholds := {}
  summaryDir := ⟨"site"⟩
  regenerate := .continuous
  period := 5
  nameDepth := 2

/-- A workspace with one report, which names a file twice, and with the page of an earlier module. -/
def desk : Workspace where
  tree := ⟨[(["lint.xml", "target", "app"], .file (.text
      ("<checkstyle><file name='A&#9;'><error message='a &lt;\nb'/></file>" ++
        "<file name='A&#x9;'><error severity='info' source='x.y'/></file></checkstyle>"))),
    (["target", "app"], .dir), (["app"], .dir),
    (["summary-by-bundle.html", "site"], .file (.text BundleSummary.marker)), (["site"], .dir)]⟩
  lock := ⟨"summary", none, 0⟩

/-- The document of that report. -/
def deskDocument : Document :=
  ⟨[⟨"A\t", [⟨0, .error, "a < b", none⟩, ⟨0, .info, "", some "checkstyle:y"⟩]⟩]⟩

theorem persisted_eq_judged_desk :
    ∃ o w', (plain.process ⟨"app"⟩).run "main" desk = (o, w') ∧ o.report.isSome ∧
      o.document = deskDocument ∧ deskDocument.paths.Nodup ∧
      ((loadDocument ⟨"app/target/lintfold-result.xml"⟩).run "main" w').1 = .ok deskDocument ∧
      plain.thresholds.judge deskDocument = o.gate ∧
      ((Program.gate true "app/target/lintfold-result.xml" {} .written).run "main" w').1 =
        .rejected := by
  have hrun : ((plain.process ⟨"app"⟩).run "main" desk).1.report.isSome ∧
      ((plain.process ⟨"app"⟩).run "main" desk).1.document = deskDocument ∧
      ((Config.discover {}).run "main"
        ((plain.process ⟨"app"⟩).run "main" desk).2).1.toOption.map Config.thresholds =
          some plain.thresholds := by decide +kernel
  obtain ⟨hreport, hdocument, hconfig⟩ := hrun
  obtain ⟨c, hc, hsame⟩ := Option.map_eq_some_iff.1 hconfig
  obtain ⟨hproduced, hload, hjudge, -, hgate⟩ :=
    persisted_eq_judged.2 plain ⟨"app"⟩ "main" desk _ _ (Prod.eta _).symm hreport
  obtain ⟨w'', hverdict, -⟩ := hgate true {} .written c "main" (eq_ok_of_toOption hc) hsame
  rw [hdocument] at hproduced hload hjudge
  rw [Outcome.passed, ← hjudge] at hverdict
  refine ⟨_, _, (Prod.eta _).symm, hreport, hdocument, (persisted_eq_judged.1 _ hproduced).1, ?_,
    hjudge, ?_⟩
  · exact congrArg Prod.fst (hload "main")
  · exact congrArg Prod.fst hverdict

end Session

end LintDigest
