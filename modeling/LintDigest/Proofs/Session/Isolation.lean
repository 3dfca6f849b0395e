import LintDigest.Proofs.Session.SideBySide

/-!
# What cannot be written

A module is judged by its reports alone: no file that cannot be written, and nothing that stands in
the way of one, changes the verdict. And the two summaries do not disturb each other: whatever stands
where the bundle page goes, the rule summary takes the module in alike.

The second needs a path that does not lead through the bundle page. Where the output directory of a
module does, the bundle page decides whether the directory can be created, and with it what else is
in the summary directory (`rule_document_depends_on_bundle_page`).
-/

namespace LintDigest

open Script Storage LintDigest.Tree

namespace Session

/-- The reports of a module are the same in two workspaces, and of the paths that they name the same
exist. -/
structure SameReports (s : Session) (module : Path) (w v : Workspace) : Prop where
  files : ∀ i ∈ s.inputs, v.tree.stat v.home (s.outDir module / i.2) = some .file ↔
    w.tree.stat w.home (s.outDir module / i.2) = some .file
  texts : ∀ i ∈ s.inputs, w.tree.stat w.home (s.outDir module / i.2) = some .file →
    (v.tree.read v.home (s.outDir module / i.2)).toOption =
      (w.tree.read w.home (s.outDir module / i.2)).toOption
  candidates : ∀ i ∈ s.inputs, ∀ fs ∈ reported w.tree w.home i.1 (s.outDir module / i.2),
    ∀ f ∈ fs, ∀ p ∈ f.candidates, (v.tree.stat v.home p).isSome = (w.tree.stat w.home p).isSome

/-- The place of the bundle page, and those below it. -/
def AtBundlePage (s : Session) (cwd q : Place) : Prop :=
  BundleSummary.pageName :: aim cwd s.summaryDir <:+ q

instance (s : Session) (cwd : Place) : DecidablePred (s.AtBundlePage cwd) :=
  fun q => inferInstanceAs (Decidable (_ <:+ q))

/-- Two workspaces differ at the bundle page only. -/
structure SameBesides (s : Session) (w v : Workspace) : Prop where
  home : v.home = w.home
  progress : v.progress = w.progress
  tree : ∀ q, ¬ s.AtBundlePage w.home q → v.tree.get? q = w.tree.get? q

section

variable {s : Session} {module : Path} {A A' : (r : Request) → r.Answer → Prop} {th th' : Thread}
  {w w' v v' : Workspace} {o o' : Outcome} {cwd : Place}

/-! ## The verdict -/

theorem SameReports.collect_eq (h : s.SameReports module w v) :
    ((s.collect module).run th' v).1 = ((s.collect module).run th w).1 := by
  refine collect_congr (fun i hi => ?_) fun i hi fs hfs => h.candidates i hi fs hfs
  unfold reported
  by_cases hfile : w.tree.stat w.home (s.outDir module / i.2) = some .file
  · rw [if_pos hfile, if_pos ((h.files i hi).2 hfile), h.texts i hi hfile]
  · rw [if_neg hfile, if_neg (mt (h.files i hi).1 hfile)]

/-- What was found decides everything but whether the page was written. -/
theorem Turn.same_verdict
    (hfound : ((s.collect module).run th' v).1 = ((s.collect module).run th w).1)
    (hw : Turn s module th A w o w') (hv : Turn s module th' A' v o' v') :
    o'.tools = o.tools ∧ o'.counts = o.counts ∧ o'.document = o.document ∧ o'.gate = o.gate := by
  cases hw with
  | silent found =>
    rw [found] at hfound
    cases hv with
    | silent found' =>
      cases hfound.symm.trans found'
      exact ⟨rfl, rfl, rfl, rfl⟩
    | told found' any =>
      cases hfound.symm.trans found'
      exact absurd rfl any
  | told found any =>
    rw [found] at hfound
    cases hv with
    | silent found' =>
      cases hfound.symm.trans found'
      exact absurd rfl any
    | told found' =>
      cases hfound.symm.trans found'
      exact ⟨rfl, rfl, rfl, rfl⟩

/-! ## The rule summary -/

theorem tidy_atBundlePage (s : Session) (cwd : Place) : Tidy (s.AtBundlePage cwd) := by
  intro k place hplace hscratch
  rcases List.suffix_cons_iff.1 hscratch with heq | hsuffix
  · exact ne_scratchName (by decide) k (List.cons.inj heq).1
  · exact hplace hsuffix

/-- No other name than its own is at the bundle page, unless the directory is. -/
theorem clear_atBundlePage {dir : Path} {n : String} (hn : IsName n)
    (hne : BundleSummary.pageName ≠ n) (hdir : Clear (s.AtBundlePage cwd) cwd dir) :
    Clear (s.AtBundlePage cwd) cwd (dir / n) := by
  refine clear_div hn hdir fun hfile => ?_
  rcases List.suffix_cons_iff.1 hfile with heq | hsuffix
  · exact hne (List.cons.inj heq).1
  · exact hdir.not_aim hsuffix

theorem sheltered_atBundlePage (hdir : Clear (s.AtBundlePage cwd) cwd s.summaryDir) :
    s.rule.Sheltered (s.AtBundlePage cwd) cwd := by
  refine ⟨s.tidy_atBundlePage cwd, fun p hp => ?_⟩
  simp only [RuleSummary.files, List.mem_cons, List.not_mem_nil, or_false] at hp
  rcases hp with rfl | rfl | rfl
  · exact clear_atBundlePage RuleSummary.isName_documentName (by decide) hdir
  · exact clear_atBundlePage RuleSummary.isName_pageName (by decide) hdir
  · exact clear_atBundlePage RuleSummary.isName_snapshotName (by decide) hdir

theorem SameBesides.turn (h : s.SameBesides w v) (hreports : s.SameReports module w v)
    (hout : Clear (s.AtBundlePage w.home) w.home (s.outDir module))
    (hdir : Clear (s.AtBundlePage w.home) w.home s.summaryDir)
    (hw : Turn s module th Request.credible w o w')
    (hv : Turn s module th Request.credible v o' v') :
    Parallel (s.AtBundlePage w.home) w'.tree v'.tree := by
  have hparallel : Parallel (s.AtBundlePage w.home) w.tree v.tree := by
    intro n place hn
    rw [h.tree _ hn]
    exact .same _
  have hclear : ∀ n ∈ [moduleDocument, modulePage],
      Clear (s.AtBundlePage w.home) w.home (s.outDir module / n) := by
    intro n hn
    simp only [List.mem_cons, List.not_mem_nil, or_false] at hn
    rcases hn with rfl | rfl
    · exact clear_atBundlePage isName_moduleDocument (by decide) hout
    · exact clear_atBundlePage isName_modulePage (by decide) hout
  have hstep : s.rule.InStep w.progress v.progress := by
    rw [h.progress]
    exact ⟨rfl, fun _ => rfl⟩
  exact (Turn.parallel hparallel (sheltered_atBundlePage hdir) hclear h.home hstep
    hreports.collect_eq hw hv).2.1

/-! ## The gate -/

/-- Only the gate makes an error of an outcome. -/
theorem strict_of_course {res : Except Error Outcome}
    (h : Course th A (s.processStrictly module) w (.done res) w') :
    ∃ o, Course th A (s.process module) w (.done o) w' ∧
      res = match o.gate with
        | some failure => .error (.gate failure)
        | none => .ok o := by
  unfold processStrictly at h
  obtain ⟨o, w₁, hprocess, h⟩ := h.of_bind
  refine ⟨o, ?_⟩
  cases hgate : o.gate with
  | some failure =>
    rw [hgate] at h
    obtain ⟨rfl, m, rfl⟩ := h.of_done
    exact ⟨hprocess.trans (.wait m .stop), rfl⟩
  | none =>
    rw [hgate] at h
    obtain ⟨rfl, m, rfl⟩ := h.of_done
    exact ⟨hprocess.trans (.wait m .stop), rfl⟩

end

/-- Where the reports of a module are the same, so is the verdict, whatever can or cannot be written.
If nothing differs but what stands at the bundle page, and neither the output directory of the module
nor the summary directory is reached through it, then the module leaves the same document of the rule
summary, and the same page but for the moment it shows. And only the gate turns an outcome into an
error. -/
theorem process_isolated (s : Session) (module : Path) (th : Thread) :
    (∀ (th' : Thread) (w w' v v' : Workspace) (o o' : Outcome), s.SameReports module w v →
      Course th (fun _ _ => True) (s.process module) w (.done o) w' →
      Course th' (fun _ _ => True) (s.process module) v (.done o') v' →
        o'.tools = o.tools ∧ o'.counts = o.counts ∧ o'.document = o.document ∧ o'.gate = o.gate) ∧
    (∀ (w w' v v' : Workspace) (o o' : Outcome), s.SameReports module w v → s.SameBesides w v →
      Clear (s.AtBundlePage w.home) w.home (s.outDir module) →
      Clear (s.AtBundlePage w.home) w.home s.summaryDir →
      Course th Request.credible (s.process module) w (.done o) w' →
      Course th Request.credible (s.process module) v (.done o') v' →
        v'.tree.entry v'.home s.rule.document = w'.tree.entry w'.home s.rule.document ∧
        Alike RuleSummary.pageName (w'.tree.entry w'.home s.rule.page)
          (v'.tree.entry v'.home s.rule.page)) ∧
    ∀ (A : (r : Request) → r.Answer → Prop) (w w' : Workspace) (res : Except Error Outcome),
      Course th A (s.processStrictly module) w (.done res) w' →
        ∃ o, Course th A (s.process module) w (.done o) w' ∧
          res = match o.gate with
            | some failure => .error (.gate failure)
            | none => .ok o := by
  refine ⟨?_, ?_, fun A w w' res h => strict_of_course h⟩
  · intro th' w w' v v' o o' hreports hw hv
    exact Turn.same_verdict hreports.collect_eq (turn_of_course hw) (turn_of_course hv)
  · intro w w' v v' o o' hreports hsame hout hdir hw hv
    have hparallel := hsame.turn hreports hout hdir (turn_of_course hw) (turn_of_course hv)
    have hsheltered := sheltered_atBundlePage hdir
    rw [hw.home_eq, hv.home_eq, hsame.home]
    have hdocument := hparallel.entry_div RuleSummary.isName_documentName hsheltered.document
    exact ⟨(hdocument.eq_of_notMem (by decide)).symm,
      hparallel.entry_div RuleSummary.isName_pageName hsheltered.page⟩

instance (s : Session) (module : Path) (w v : Workspace) : Decidable (s.SameReports module w v) :=
  decidable_of_iff (_ ∧ _ ∧ _) ⟨fun ⟨h, h', h''⟩ => ⟨h, h', h''⟩, fun ⟨h, h', h''⟩ => ⟨h, h', h''⟩⟩

/-- A workspace with one report and something at the bundle page. -/
def obstructed (e : Entry) : Workspace where
  tree := ⟨[(["summary-by-bundle.html", "site"], e), (["site"], .dir),
    (["lint.xml"], .file (.text
      "<checkstyle><file name='A.java'><error message='boom'/></file></checkstyle>"))]⟩
  lock := ⟨"summary", none, 0⟩

theorem sameBesides_obstructed {s : Session} (e e' : Entry) (hdir : aim [] s.summaryDir = ["site"]) :
    s.SameBesides (obstructed e) (obstructed e') := by
  refine ⟨rfl, rfl, fun q hq => ?_⟩
  have hne : q ≠ ["summary-by-bundle.html", "site"] := by
    rintro rfl
    exact hq (by rw [AtBundlePage, obstructed, hdir]; exact List.suffix_refl _)
  simp only [obstructed, get?, List.lookup_cons, beq_false_of_ne hne]

/-- The output directory of this session is in the module's own. -/
def apart : Session where
  outputDir := "target"
  inputs := [(.checkstyle, "/lint.xml")]
  console := false
  thresholds := {}
  summaryDir := ⟨"site"⟩
  regenerate := .never
  period := 5
  nameDepth := 2

theorem process_isolated_obstructed :
    ∃ o o' w' v', (apart.process ⟨"app"⟩).run "main" (obstructed .dir) = (o, w') ∧
      (apart.process ⟨"app"⟩).run "main" (obstructed (.file (.text ""))) = (o', v') ∧
      o'.tools = ["checkstyle"] ∧ o'.document = o.document ∧ o'.gate = o.gate ∧
      (∃ failure, o.gate = some failure ∧
        ((apart.processStrictly ⟨"app"⟩).run "main" (obstructed .dir)).1.toOption = none) ∧
      v'.tree.entry v'.home apart.rule.document = w'.tree.entry w'.home apart.rule.document ∧
      w'.tree.stat w'.home apart.rule.document = some .file := by
  have hreports : apart.SameReports ⟨"app"⟩ (obstructed .dir) (obstructed (.file (.text ""))) := by
    decide +kernel
  have hrun : ((apart.process ⟨"app"⟩).run "main" (obstructed .dir)).1.tools = ["checkstyle"] ∧
      ((apart.process ⟨"app"⟩).run "main" (obstructed .dir)).1.gate.isSome ∧
      ((apart.process ⟨"app"⟩).run "main" (obstructed .dir)).2.tree.stat [] apart.rule.document =
        some .file := by decide +kernel
  have hcourse : ∀ e, Course "main" Request.credible (apart.process ⟨"app"⟩) (obstructed e)
      (.done ((apart.process ⟨"app"⟩).run "main" (obstructed e)).1)
      ((apart.process ⟨"app"⟩).run "main" (obstructed e)).2 :=
    fun e => (answered_credible _ (show '<' ∉ "".toList by decide)).course
  have hany : ∀ e, Course "main" (fun _ _ => True) (apart.process ⟨"app"⟩) (obstructed e)
      (.done ((apart.process ⟨"app"⟩).run "main" (obstructed e)).1)
      ((apart.process ⟨"app"⟩).run "main" (obstructed e)).2 :=
    fun e => (hcourse e).imp fun _ _ _ => trivial
  obtain ⟨hverdict, hrule, hstrict⟩ := process_isolated apart ⟨"app"⟩ "main"
  obtain ⟨htools, -, hdocument, hgate⟩ :=
    hverdict "main" _ _ _ _ _ _ hreports (hany _) (hany _)
  obtain ⟨hentry, -⟩ := hrule _ _ _ _ _ _ hreports (sameBesides_obstructed _ _ (by decide))
    (by decide) (by decide) (hcourse _) (hcourse _)
  obtain ⟨o, hprocess, hres⟩ := hstrict _ _ _ _ (course_of_run (Prod.eta _).symm)
  obtain ⟨-, -, -, hsame⟩ := hverdict "main" _ _ _ _ _ _ hreports hprocess (hany _)
  obtain ⟨failure, hfailure⟩ := Option.isSome_iff_exists.1 hrun.2.1
  refine ⟨_, _, _, _, (Prod.eta _).symm, (Prod.eta _).symm, htools.trans hrun.1, hdocument, hgate,
    ⟨failure, hfailure, ?_⟩, hentry, ?_⟩
  · rw [hres, ← hsame, hgate, hfailure]
    rfl
  · rw [home_run]
    exact hrun.2.2

/-! ## A path through the bundle page -/

/-- The output directory of this session is a step up and down from the bundle page. -/
def tangled : Session where
  outputDir := "/site/summary-by-bundle.html/../summary-by-rule.xml"
  inputs := [(.checkstyle, "/lint.xml")]
  console := false
  thresholds := {}
  summaryDir := ⟨"site"⟩
  regenerate := .never
  period := 5
  nameDepth := 2

/-- If the bundle page is a directory, the module's files go through it to where the document of the
rule summary should be; if it is a file, they go nowhere, and the document does. -/
theorem rule_document_depends_on_bundle_page :
    tangled.SameReports ⟨"app"⟩ (obstructed .dir) (obstructed (.file (.text ""))) ∧
    tangled.SameBesides (obstructed .dir) (obstructed (.file (.text ""))) ∧
    ((tangled.process ⟨"app"⟩).run "main" (obstructed .dir)).2.tree.stat [] tangled.rule.document =
      some .dir ∧
    ((tangled.process ⟨"app"⟩).run "main" (obstructed (.file (.text "")))).2.tree.stat []
      tangled.rule.document = some .file := by
  refine ⟨by decide +kernel, sameBesides_obstructed _ _ (by decide), by decide +kernel,
    by decide +kernel⟩

end Session

end LintDigest
