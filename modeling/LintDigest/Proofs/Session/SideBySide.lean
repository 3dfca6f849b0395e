import Mathlib.Data.List.Find
import LintDigest.Proofs.Session.Reports
import LintDigest.Proofs.Summary.ParallelUpdate

/-!
# Modules side by side

What a module finds depends on its reports, and on which of the paths that they name exist. Two runs
that find the same take the module in alike: if their trees are parallel and neither the module's
files nor the summaries are where the trees may differ, the outcomes are equal and the trees stay
parallel (`Turn.parallel`).
-/

namespace LintDigest

open Script Storage LintDigest.Tree

/-! ## What a module finds -/

namespace Storage

/-- The findings of a report, if the report is a file and can be read. -/
def reported (t : Tree) (cwd : Place) (tool : Tool) (p : Path) : Option (List Finding) :=
  if t.stat cwd p = some .file then
    (t.read cwd p).toOption.bind fun text => (Report.findings tool p text).toOption
  else none

/-- The document of findings, where the paths that exist are those in the tree. -/
def located (t : Tree) (cwd : Place) (fs : List Finding) : Document :=
  Document.ofEntries (fs.map (Finding.place fun p => (t.stat cwd p).isSome))

section

variable {t u : Tree} {cwd cwd' : Place} {th : Thread} {w : Workspace} {tool : Tool} {p : Path}

theorem run_firstPresent (ps : List Path) (th : Thread) (w : Workspace) :
    (firstPresent ps).run th w = (ps.find? fun p => (w.tree.stat w.home p).isSome, w) := by
  induction ps with
  | nil => rfl
  | cons p ps ih =>
    rw [firstPresent, run_isPresent_bind, List.find?_cons]
    cases (w.tree.stat w.home p).isSome with
    | true => rfl
    | false => exact ih

theorem run_placeFinding (f : Finding) (th : Thread) (w : Workspace) :
    (placeFinding f).run th w = (f.place fun p => (w.tree.stat w.home p).isSome, w) := by
  rw [placeFinding, run_bind, run_firstPresent, Finding.place]
  cases f.candidates.find? fun p => (w.tree.stat w.home p).isSome <;> rfl

theorem run_mapM_placeFinding (fs : List Finding) (th : Thread) (w : Workspace) :
    (fs.mapM placeFinding).run th w =
      (fs.map (Finding.place fun p => (w.tree.stat w.home p).isSome), w) := by
  induction fs with
  | nil => rfl
  | cons f fs ih =>
    rw [List.mapM_cons, run_bind, run_placeFinding, run_bind, ih]
    rfl

theorem run_transformReport (tool : Tool) (p : Path) (text : String) (th : Thread) (w : Workspace) :
    (transformReport tool p text).run th w =
      ((Report.findings tool p text).map (located w.tree w.home), w) := by
  unfold transformReport
  cases Report.findings tool p text with
  | error e => rfl
  | ok fs =>
    simp only [run_bind, run_mapM_placeFinding]
    rfl

theorem toOption_loadReport (tool : Tool) (p : Path) (th : Thread) (w : Workspace) :
    ((loadReport tool p).run th w).1.toOption =
      ((w.tree.read w.home p).toOption.bind fun text => (Report.findings tool p text).toOption).map
        (located w.tree w.home) := by
  rw [loadReport, run_bind, run_readText]
  cases w.tree.read w.home p with
  | error fault => rfl
  | ok text =>
    have htext : ((Except.ok text : Except FileFault String).toOption.bind fun text =>
        (Report.findings tool p text).toOption) = (Report.findings tool p text).toOption := rfl
    simp only [Except.mapError, run_bind, run_transformReport, htext]
    cases Report.findings tool p text <;> rfl

/-- Findings are located alike where the same candidates exist. -/
theorem located_congr {fs : List Finding}
    (h : ∀ f ∈ fs, ∀ p ∈ f.candidates, (u.stat cwd' p).isSome = (t.stat cwd p).isSome) :
    located u cwd' fs = located t cwd fs := by
  unfold located
  congr 1
  refine List.map_congr_left fun f hf => ?_
  rw [Finding.place, Finding.place, List.find?_congr fun p hp => h f hf p hp]

end

end Storage

namespace Session

section

variable {s : Session} {module : Path} {th th' : Thread} {w v : Workspace}

theorem run_collectFrom (outDir : Path) (inputs : List (Tool × String)) (th : Thread)
    (w : Workspace) :
    ((collectFrom outDir inputs).run th w).1 = inputs.filterMap fun i =>
      (reported w.tree w.home i.1 (outDir / i.2)).map fun fs =>
        (i.1, located w.tree w.home fs) := by
  induction inputs generalizing w with
  | nil => rfl
  | cons i inputs ih =>
    obtain ⟨tool, file⟩ := i
    obtain ⟨htree, hhome, -⟩ := (passive_collectOne outDir tool file).untouched th w
    rw [run_collectFrom_cons, ih, htree, hhome, List.filterMap_cons, run_collectOne,
      toOption_loadReport, reported]
    split
    · cases (w.tree.read w.home (outDir / file)).toOption.bind _ <;> rfl
    · rfl

/-- A module finds the same where its reports say the same and the same candidates exist. -/
theorem collect_congr
    (hreports : ∀ i ∈ s.inputs, reported v.tree v.home i.1 (s.outDir module / i.2) =
      reported w.tree w.home i.1 (s.outDir module / i.2))
    (hpresent : ∀ i ∈ s.inputs, ∀ fs,
      reported w.tree w.home i.1 (s.outDir module / i.2) = some fs →
      ∀ f ∈ fs, ∀ p ∈ f.candidates, (v.tree.stat v.home p).isSome = (w.tree.stat w.home p).isSome) :
    ((s.collect module).run th' v).1 = ((s.collect module).run th w).1 := by
  have hfound : ((collectFrom (s.outDir module) s.inputs).run th' v).1 =
      ((collectFrom (s.outDir module) s.inputs).run th w).1 := by
    rw [run_collectFrom, run_collectFrom]
    refine List.filterMap_congr fun i hi => ?_
    rw [hreports i hi]
    cases hfs : reported w.tree w.home i.1 (s.outDir module / i.2) with
    | none => rfl
    | some fs => simp only [Option.map_some, located_congr (hpresent i hi fs hfs)]
  rw [collect, run_bind, run_bind, hfound]
  rfl

end

end Session

/-- A page is no report, so the moment that it shows is not seen. -/
theorem Parallel.reported_eq {E : Place → Prop} {t u : Tree} {cwd : Place} {p : Path}
    (h : Parallel E t u) (hp : Clear E cwd p) (tool : Tool) :
    reported u cwd tool p = reported t cwd tool p := by
  have hread := h.read_alike hp
  unfold reported
  rw [h.stat_eq hp]
  split
  · generalize t.read cwd p = x, u.read cwd p = y at hread
    cases hread with
    | error fault => rfl
    | ok htext =>
      rcases htext.eq_or_pageHead with rfl | ⟨hhead, hhead'⟩
      · rfl
      · have hnone : ∀ {text : String}, pageHead <+: text.toList →
            (Report.findings tool p text).toOption = none := by
          intro text hhead
          rw [Report.findings, Xml.parse_of_pageHead hhead]
          rfl
        exact (hnone hhead').trans (hnone hhead).symm
  · rfl

/-! ## Taking a module in -/

namespace Session

section

variable {s : Session} {module : Path} {E : Place → Prop} {A : (r : Request) → r.Answer → Prop}
  {th : Thread} {d : Document} {html html' : String} {w w' v v' : Workspace} {o o' : Outcome}

/-- The document is written first, and the page only if that went well. -/
theorem stages_of_writeModule {res : Except Error Unit}
    (h : Course th A (s.writeModule module d html) w (.done res) w') :
    w'.progress = w.progress ∧ ∃ saved t₁,
      Replaced w.tree w.home (s.outDir module / moduleDocument) d.toXml saved t₁ ∧
        match saved with
        | .error e => res = .error e ∧ w'.tree = t₁
        | .ok () => Replaced t₁ w.home (s.outDir module / modulePage) html res w'.tree := by
  unfold writeModule at h
  obtain ⟨saved, w₁, hsave, h⟩ := h.of_bind
  obtain ⟨hdocument, hprogress₁⟩ := replaced_of_course hsave
  cases saved with
  | error e =>
    obtain ⟨rfl, m, rfl⟩ := h.of_done
    exact ⟨hprogress₁, _, _, hdocument, rfl, rfl⟩
  | ok _ =>
    obtain ⟨hpage, hprogress₂⟩ := replaced_of_course h
    rw [hsave.home_eq] at hpage
    exact ⟨hprogress₂.trans hprogress₁, _, _, hdocument, hpage⟩

theorem writeModule_parallel {res res' : Except Error Unit} (h : Parallel E w.tree v.tree)
    (hE : Tidy E) (hout : ∀ n ∈ [moduleDocument, modulePage], Clear E w.home (s.outDir module / n))
    (hhome : v.home = w.home) (hr : Restamped modulePage html html')
    (hw : Course th A (s.writeModule module d html) w (.done res) w')
    (hv : Course th A (s.writeModule module d html') v (.done res') v') :
    res'.toOption = res.toOption ∧ Parallel E w'.tree v'.tree := by
  obtain ⟨-, saved, t₁, hdocument, hw⟩ := stages_of_writeModule hw
  obtain ⟨-, saved', u₁, hdocument', hv⟩ := stages_of_writeModule hv
  rw [hhome] at hdocument' hv
  obtain ⟨hsaved, h₁⟩ := h.replaced hE isName_moduleDocument (hout _ (by simp)) hdocument hdocument'
    (.same _)
  cases saved with
  | error e =>
    cases saved' with
    | ok _ => cases hsaved
    | error e' =>
      rw [hw.1, hw.2, hv.1, hv.2]
      exact ⟨rfl, h₁⟩
  | ok _ =>
    cases saved' with
    | error e' => cases hsaved
    | ok _ => exact h₁.replaced hE isName_modulePage (hout _ (by simp)) hw hv hr

theorem Taken.parallel {report : Option Path} (h : Parallel E w.tree v.tree)
    (hs : s.rule.Sheltered E w.home) (hhome : v.home = w.home)
    (hstep : s.rule.InStep w.progress v.progress)
    (hr : Restamped RuleSummary.pageName html html')
    (hw : s.Taken th Request.credible report d html w w')
    (hv : s.Taken th Request.credible report d html' v v') :
    Parallel E w'.tree v'.tree ∧ s.rule.InStep w'.progress v'.progress := by
  obtain ⟨w₁, w₂, w₃, update, w₄, ⟨htree₁, hhome₁, hprogress₁, -⟩, hlisted,
    ⟨htree₃, hhome₃, hprogress₃, -⟩, hupdate, ⟨htree', -, hprogress', -⟩⟩ := hw
  obtain ⟨v₁, v₂, v₃, update', v₄, ⟨vtree₁, vhome₁, vprogress₁, -⟩, vlisted,
    ⟨vtree₃, vhome₃, vprogress₃, -⟩, vupdate, ⟨vtree', -, vprogress', -⟩⟩ := hv
  -- The bundle page first.
  have hbundle : Parallel E w₂.tree v₂.tree ∧ w₂.home = w.home ∧ v₂.home = w.home ∧
      w₂.progress = w.progress ∧ v₂.progress = v.progress := by
    rw [← htree₁, ← vtree₁] at h
    rw [← hhome₁] at hhome hs
    cases report with
    | none =>
      obtain ⟨htree₂, hhome₂, hprogress₂, -⟩ := hlisted
      obtain ⟨vtree₂, vhome₂, vprogress₂, -⟩ := vlisted
      refine ⟨?_, hhome₂.trans hhome₁, ?_, hprogress₂.trans hprogress₁, vprogress₂.trans vprogress₁⟩
      · rwa [htree₂, vtree₂]
      · rw [vhome₂, vhome₁, hhome, hhome₁]
    | some p =>
      obtain ⟨row, happend⟩ := hlisted
      obtain ⟨row', vappend⟩ := vlisted
      obtain ⟨-, -, hprogress₂, -⟩ := s.bundle.appending_of_course p d (fun _ _ => id) happend
      obtain ⟨-, -, vprogress₂, -⟩ := s.bundle.appending_of_course p d (fun _ _ => id) vappend
      have hdir : Clear E w₁.home s.bundle.dir :=
        hs.document.parent RuleSummary.isName_documentName
      refine ⟨BundleSummary.append_parallel h hs.tidy hdir (vhome₁.trans hhome) happend vappend,
        happend.home_eq.trans hhome₁, ?_, hprogress₂.trans hprogress₁, vprogress₂.trans vprogress₁⟩
      rw [vappend.home_eq, vhome₁, hhome, hhome₁]
  obtain ⟨htree₂, hhome₂, vhome₂, hprogress₂, vprogress₂⟩ := hbundle
  rw [← htree₃, ← vtree₃] at htree₂
  rw [← hhome₂, ← hhome₃] at hs
  have hhome₃ : v₃.home = w₃.home := by rw [vhome₃, vhome₂, hhome₃, hhome₂]
  have hstep₃ : s.rule.InStep w₃.progress v₃.progress := by
    rwa [hprogress₃, hprogress₂, vprogress₃, vprogress₂]
  obtain ⟨-, htree₄, hstep₄⟩ := hs.update htree₂ hhome₃ hstep₃ hr hupdate vupdate
  rw [htree', vtree', hprogress', vprogress']
  exact ⟨htree₄, hstep₄⟩

/-- If two runs find the same in a module, they take it in alike. -/
theorem Turn.parallel (h : Parallel E w.tree v.tree) (hs : s.rule.Sheltered E w.home)
    (hout : ∀ n ∈ [moduleDocument, modulePage], Clear E w.home (s.outDir module / n))
    (hhome : v.home = w.home) (hstep : s.rule.InStep w.progress v.progress)
    (hfound : ((s.collect module).run th v).1 = ((s.collect module).run th w).1)
    (hw : Turn s module th Request.credible w o w')
    (hv : Turn s module th Request.credible v o' v') :
    o' = o ∧ Parallel E w'.tree v'.tree ∧ s.rule.InStep w'.progress v'.progress := by
  cases hw with
  | silent found rest =>
    rw [found] at hfound
    cases hv with
    | silent found' rest' =>
      cases hfound.symm.trans found'
      rw [rest.1, rest.2.2.1, rest'.1, rest'.2.2.1]
      exact ⟨rfl, h, hstep⟩
    | told found' any =>
      cases hfound.symm.trans found'
      exact absurd rfl any
  | told found any start write taken rest =>
    rw [found] at hfound
    cases hv with
    | silent found' =>
      cases hfound.symm.trans found'
      exact absurd rfl any
    | told found' any' start' write' taken' rest' =>
      cases hfound.symm.trans found'
      obtain ⟨htree₁, hhome₁, hprogress₁, -⟩ := start
      obtain ⟨vtree₁, vhome₁, vprogress₁, -⟩ := start'
      have hhome₂ := write.home_eq.trans hhome₁
      have vhome₂ := write'.home_eq.trans vhome₁
      rw [← htree₁, ← vtree₁] at h
      rw [← hprogress₁, ← vprogress₁, ← (stages_of_writeModule write).1,
        ← (stages_of_writeModule write').1] at hstep
      rw [hhome] at write' taken' vhome₂
      obtain ⟨hwritten, h₂⟩ := writeModule_parallel h hs.tidy (by rwa [hhome₁])
        (by rw [vhome₁, hhome, hhome₁]) (.rendered _ _ _ _ (.inr rfl)) write write'
      rw [hwritten] at taken'
      obtain ⟨h₃, hstep₃⟩ := taken.parallel h₂ (by rwa [hhome₂]) (by rw [vhome₂, hhome₂]) hstep
        (.rendered _ _ _ _ (.inl rfl)) taken'
      rw [rest.1, rest.2.2.1, rest'.1, rest'.2.2.1]
      refine ⟨?_, h₃, hstep₃⟩
      rw [reportedOutcome, reportedOutcome, hwritten]

end

end Session

end LintDigest
