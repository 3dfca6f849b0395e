import LintDigest.Proofs.Session.Interleaving
import LintDigest.Proofs.Session.Reports
import LintDigest.Proofs.Session.Totals
import LintDigest.Proofs.Summary.Abreast

/-!
# One session or many

A session takes modules in one after another and ends. The same modules can be taken in by separate
runs, each of which ends before the next starts with nothing remembered.
`session_eq_separate_runs` says that the outcomes and the summaries are the same, up to the moments
that pages show.
-/

namespace LintDigest.Session

open Script Storage LintDigest.Tree

/-! ## Runs -/

/-- One session takes in modules, is granted every write, and no module reads what is in the summary
directory. -/
inductive Series (s : Session) (th : Thread) :
    List Path → Workspace → List Outcome → Workspace → Prop
  | nil {w : Workspace} : Series s th [] w [] w
  | cons {module : Path} {modules : List Path} {o : Outcome} {os : List Outcome}
      {w w₁ w' : Workspace}
      (reads : (s.collect module).Answered th (Request.outside w.home (aim w.home s.summaryDir)) w)
      (call : Course th Request.granted (s.process module) w (.done o) w₁)
      (rest : Series s th modules w₁ os w') : Series s th (module :: modules) w (o :: os) w'

/-- A new run finds the files of the last one, and remembers nothing. -/
structure Anew (w w' : Workspace) : Prop where
  tree : w'.tree = w.tree
  home : w'.home = w.home
  progress : w'.progress = {}

/-- Separate runs take in one module each. -/
inductive Apart (s : Session) (th : Thread) :
    List Path → Workspace → List Outcome → Workspace → Prop
  | nil {w : Workspace} : Apart s th [] w [] w
  | cons {module : Path} {modules : List Path} {o : Outcome} {os : List Outcome}
      {w w₁ w₂ w₃ w' : Workspace}
      (call : Course th Request.granted (s.process module) w (.done o) w₁)
      (ends : Course th Request.granted s.finish w₁ (.done ()) w₂) (anew : Anew w₂ w₃)
      (rest : Apart s th modules w₃ os w') : Apart s th (module :: modules) w (o :: os) w'

section

variable {s : Session} {th : Thread} {module : Path} {w w' v v₁ v' : Workspace} {o o' : Outcome}

/-! ## The start -/

theorem timeless_removeAll (dir : Path) (names : List String) : (removeAll dir names).Timeless := by
  induction names with
  | nil => trivial
  | cons name names ih =>
    apply (passive_isPresent _).timeless.bind
    intro present
    split
    · apply (timeless_request rfl).bind
      intro removed
      cases removed with
      | error fault => trivial
      | ok _ => exact ih
    · exact ih

theorem timeless_begin (s : Session) : s.begin.Timeless := by
  apply (timeless_request rfl).bind
  intro _
  have hbody : (request Request.lockName >>= fun name => log .debug logTarget
      ("New session in " ++ s.summaryDir.text ++ " under lock '" ++ name ++ "'") >>= fun _ =>
        reset s.summaryDir).Timeless := by
    apply (timeless_request rfl).bind
    intro name
    exact (timeless_request rfl).bind fun _ => timeless_removeAll _ _
  apply hbody.bind
  intro _
  exact (timeless_request rfl).bind fun _ => trivial

theorem progress_removeAll (dir : Path) (names : List String) (th : Thread) (w : Workspace) :
    ((removeAll dir names).run th w).2.progress = w.progress := by
  induction names generalizing w with
  | nil => rfl
  | cons name names ih =>
    rw [removeAll, run_isPresent_bind]
    split
    · simp only [request, ask_bind, done_bind, run, Workspace.answer, Workspace.change]
      cases w.tree.remove w.home (dir / name) with
      | error fault => rfl
      | ok t => exact ih _
    · exact ih w

/-- Both runs start with the same files. -/
theorem begin_eq {res res' : Except Error Unit} {w₀ v₀ : Workspace}
    (hw : Course th Request.granted s.begin w (.done res) w₀)
    (hv : Course th Request.granted s.begin w (.done res') v₀) :
    v₀.tree = w₀.tree ∧ w₀.progress = w.progress ∧ v₀.progress = w.progress := by
  obtain ⟨hrun, -⟩ := hw.run_at s.timeless_begin w.now
  obtain ⟨hrun', -⟩ := hv.run_at s.timeless_begin w.now
  have hprogress : (s.begin.run th (w.setNow w.now)).2.progress = w.progress := by
    rw [Session.begin, run_locked, Workspace.progress_left]
    exact progress_removeAll _ _ th _
  rw [hrun] at hrun' hprogress
  obtain ⟨-, hsame⟩ := Prod.mk.inj hrun'
  refine ⟨(congrArg Workspace.tree hsame).symm, hprogress, ?_⟩
  exact (congrArg Workspace.progress hsame).symm.trans hprogress

theorem passive_noteEnd (s : Session) (res : Except Error Bool) : (s.noteEnd res).Passive := by
  unfold noteEnd
  split
  · exact passive_log _ _ _
  · trivial
  · exact passive_log _ _ _

theorem finish_course {A : (r : Request) → r.Answer → Prop} {u : Unit}
    (h : Course th A s.finish w (.done u) w') :
    ∃ out w₁, Course th A s.rule.finish w (.done out) w₁ ∧ Untouched w₁ w' := by
  unfold Session.finish at h
  obtain ⟨out, w₁, hfinish, h⟩ := h.of_bind
  exact ⟨out, w₁, hfinish, ((s.passive_noteEnd out).course (Untouched.refl w₁) h).2⟩

theorem tree_finish_of_idle {u : Unit} (hidle : w.progress.pending = false)
    (h : Course th Request.granted s.finish w (.done u) w') : w'.tree = w.tree := by
  obtain ⟨out, w₁, hfinish, htree, -⟩ := finish_course h
  have hfinished := RuleSummary.finished_of_granted hfinish
  rw [hidle] at hfinished
  rw [htree]
  generalize w₁.tree = t at hfinished
  cases hfinished with
  | idle => rfl

theorem Taken.trans {A : (r : Request) → r.Answer → Prop} {report : Option Path} {d : Document}
    {html : String} {w'' : Workspace} (h : s.Taken th A report d html w w')
    (hrest : Untouched w' w'') : s.Taken th A report d html w w'' := by
  obtain ⟨w₁, w₂, w₃, update, w₄, hw₁, hlisted, hw₃, hupdate, hw'⟩ := h
  exact ⟨w₁, w₂, w₃, update, w₄, hw₁, hlisted, hw₃, hupdate, hw'.trans hrest⟩

/-! ## One module -/

/-- When both runs take in the same module, and the second then ends, they stay abreast. -/
theorem abreast_of_taken {report : Path} {d : Document} {html html' : String}
    (h : s.rule.Abreast w.home w.tree w.progress v.tree) (hhome : v.home = w.home)
    (hfresh : v.progress = {}) (hd : d.Canonical)
    (hr : Restamped RuleSummary.pageName html html')
    (hw : s.Taken th Request.granted (some report) d html w w')
    (hv : s.Taken th Request.granted (some report) d html' v v₁)
    (hfinish : Course th Request.granted s.finish v₁ (.done ()) v') :
    s.rule.Abreast w.home w'.tree w'.progress v'.tree := by
  obtain ⟨w₁, w₂, w₃, update, w₄, ⟨htree₁, hhome₁, hprogress₁, -⟩, ⟨row, happend⟩,
    ⟨htree₃, hhome₃, hprogress₃, -⟩, hupdate, ⟨htree', -, hprogress', -⟩⟩ := hw
  obtain ⟨v₂, v₃, v₄, update', v₅, ⟨vtree₁, vhome₁, vprogress₁, -⟩, ⟨row', vappend⟩,
    ⟨vtree₃, vhome₃, vprogress₃, -⟩, vupdate, vrest⟩ := hv
  obtain ⟨out, v₆, hend, htree₆, -⟩ := finish_course hfinish
  obtain ⟨-, -, hprogress₂, -⟩ := s.bundle.append_of_granted report d happend
  obtain ⟨-, -, vprogress₂, -⟩ := s.bundle.append_of_granted report d vappend
  have hhome₃ : w₃.home = w.home := by rw [hhome₃, happend.home_eq, hhome₁]
  have vhome₃ : v₄.home = w.home := by rw [vhome₃, vappend.home_eq, vhome₁, hhome]
  have hprogress₃ : w₃.progress = w.progress := by rw [hprogress₃, hprogress₂, hprogress₁]
  have vprogress₃ : v₄.progress = {} := by rw [vprogress₃, vprogress₂, vprogress₁, hfresh]
  -- The bundle page first, then the rule summary.
  have hlisted : s.rule.Abreast w.home w₂.tree w.progress v₃.tree := by
    rw [← htree₁, ← vtree₁] at h
    have hpage : ¬ (w.progress.pending = true ∧
        BundleSummary.pageName :: aim w₁.home s.bundle.dir =
          RuleSummary.pageName :: aim w.home s.rule.dir) := by
      simp [BundleSummary.pageName, RuleSummary.pageName]
    rcases BundleSummary.append_alike h.agree hpage (by rw [vhome₁, hhome, hhome₁]) happend vappend
      with ⟨hsame, vsame⟩ | ⟨page, page', hwritten, vwritten, hpages⟩
    · rwa [hsame, vsame]
    · rw [hhome₁] at hwritten vwritten
      exact h.written (by decide) (by decide) hwritten vwritten hpages
  rw [← htree₃, ← vtree₃, ← hhome₃, ← hprogress₃] at hlisted
  have hnext := hlisted.update (by rw [vhome₃, hhome₃]) vprogress₃ hd hr hupdate vupdate vrest hend
  rwa [htree', hprogress', htree₆, ← hhome₃]

theorem abreast_of_process (h : s.rule.Abreast w.home w.tree w.progress v.tree)
    (hhome : v.home = w.home) (hfresh : v.progress = {})
    (hreads : (s.collect module).Answered th
      (Request.outside w.home (aim w.home s.summaryDir)) w)
    (hw : Course th Request.granted (s.process module) w (.done o) w')
    (hv : Course th Request.granted (s.process module) v (.done o') v₁)
    (hfinish : Course th Request.granted s.finish v₁ (.done ()) v') :
    o' = o ∧ s.rule.Abreast w.home w'.tree w'.progress v'.tree := by
  -- The page, where the trees may differ, is in the summary directory.
  have hbelow : ∀ q, w.progress.pending = true ∧ q = RuleSummary.pageName :: aim w.home s.rule.dir →
      aim w.home s.summaryDir <:+ q ∧ q ≠ aim w.home s.summaryDir := by
    rintro q ⟨-, rfl⟩
    refine ⟨List.suffix_cons _ _, fun heq => ?_⟩
    simpa [rule] using congrArg List.length heq
  have hcollect := collect_eq h.agree hbelow hhome hreads
  have hpassage := passage_of_course hw
  have hpassage' := passage_of_course hv
  cases hpassage with
  | silent found rest =>
    rw [found] at hcollect
    cases hpassage' with
    | silent found' rest' =>
      rw [hcollect] at found'
      cases found'
      refine ⟨rfl, ?_⟩
      have hidle : v₁.progress.pending = false := by rw [rest'.2.2.1, hfresh]
      rw [rest.1, rest.2.2.1, tree_finish_of_idle hidle hfinish, rest'.1]
      exact h
    | told found' any =>
      rw [hcollect] at found'
      cases found'
      exact absurd rfl any
  | told found any document page home progress taken rest =>
    rw [found] at hcollect
    cases hpassage' with
    | silent found' =>
      rw [hcollect] at found'
      cases found'
      exact absurd rfl any
    | told found' any' document' page' home' progress' taken' rest' =>
      rw [hcollect] at found'
      cases found'
      refine ⟨rfl, ?_⟩
      rw [hhome] at document' page' home' taken'
      have hwritten := (h.written (by decide) (by decide) document document' (.same _)).written
        (by decide) (by decide) page page' (.rendered _ _ _ _ (.inr rfl))
      rw [← home, ← progress] at hwritten
      have htaken := abreast_of_taken hwritten (by rw [home', home]) (progress'.trans hfresh)
        (canonical_of_collect found) (.rendered _ _ _ _ (.inl rfl)) (taken.trans rest)
        (taken'.trans rest') hfinish
      rwa [home] at htaken

/-! ## All modules -/

theorem abreast_of_series {modules : List Path} {os os' : List Outcome}
    (h : s.rule.Abreast w.home w.tree w.progress v.tree) (hhome : v.home = w.home)
    (hfresh : v.progress = {}) (hw : s.Series th modules w os w')
    (hv : s.Apart th modules v os' v') :
    os' = os ∧ s.rule.Abreast w'.home w'.tree w'.progress v'.tree ∧ v'.home = w'.home := by
  induction hw generalizing v os' v' with
  | nil =>
    cases hv with
    | nil => exact ⟨rfl, h, hhome⟩
  | cons reads call rest ih =>
    cases hv with
    | cons call' ends anew rest' =>
      obtain ⟨rfl, hnext⟩ := abreast_of_process h hhome hfresh reads call call' ends
      have hhome₁ := call.home_eq
      rw [← anew.tree, ← hhome₁] at hnext
      have hhome₃ := anew.home.trans (ends.home_eq.trans call'.home_eq)
      obtain ⟨rfl, hend⟩ := ih hnext (by rw [hhome₃, hhome, hhome₁]) anew.progress rest'
      exact ⟨rfl, hend⟩

end

/-! ## Main theorem -/

/-- Nothing is remembered when a session starts that takes in `modules`, one after another, and ends.
Starting from the same files, separate runs do the same: the first starts the session and takes in
the first module, each of the others takes in the next, and all end. If every write is granted, and
no module looks into the summary directory, then the outcomes are the same, so is the document of the
rule summary, and the pages of both summaries are the same up to the moments they show. -/
theorem session_eq_separate_runs {s : Session} {th : Thread} {w w₀ w₁ w₂ v₀ v₁ : Workspace}
    {modules : List Path} {os os' : List Outcome} {started started' : Except Error Unit}
    (hfresh : w.progress = {})
    (hbegin : Course th Request.granted s.begin w (.done started) w₀)
    (hseries : s.Series th modules w₀ os w₁)
    (hfinish : Course th Request.granted s.finish w₁ (.done ()) w₂)
    (hbegin' : Course th Request.granted s.begin w (.done started') v₀)
    (hapart : s.Apart th modules v₀ os' v₁) :
    os' = os ∧ s.SameSummaries w₂ v₁ := by
  obtain ⟨htree, hprogress, hprogress'⟩ := begin_eq hbegin hbegin'
  have hhome : v₀.home = w₀.home := hbegin'.home_eq.trans hbegin.home_eq.symm
  have hstart : s.rule.Abreast w₀.home w₀.tree w₀.progress v₀.tree := by
    rw [htree, hprogress, hfresh]
    exact ⟨.refl _ _, nofun, nofun⟩
  obtain ⟨rfl, habreast, hhome₁⟩ :=
    abreast_of_series hstart hhome (hprogress'.trans hfresh) hseries hapart
  refine ⟨rfl, ?_⟩
  obtain ⟨out, w₃, hend, htree₃, hhome₃, -⟩ := finish_course hfinish
  have hagree : Agree (fun _ => False) w₂.tree v₁.tree := by
    rw [htree₃]
    exact habreast.finished (RuleSummary.finished_of_granted hend)
  have hhome₂ : v₁.home = w₂.home := hhome₁.trans hfinish.home_eq.symm
  have hentry : ∀ {n : String}, IsName n →
      Alike n (w₂.tree.entry w₂.home (s.summaryDir / n)) (v₁.tree.entry v₁.home (s.summaryDir / n)) := by
    intro n hn
    have halike : Alike ((aim w₂.home (s.summaryDir / n)).headD "")
        (w₂.tree.entry w₂.home (s.summaryDir / n)) (v₁.tree.entry w₂.home (s.summaryDir / n)) :=
      hagree.entry_alike id
    rw [aim_div _ _ hn] at halike
    rwa [hhome₂]
  exact ⟨(hentry RuleSummary.isName_documentName).eq_of_notMem (by decide),
    hentry RuleSummary.isName_pageName, hentry BundleSummary.isName_pageName⟩

/-- Two modules, of which the second has no reports. -/
def twoModules : List Path := [⟨"app"⟩, ⟨"lib"⟩]

set_option synthInstance.maxSize 1000 in
theorem session_eq_separate_runs_two :
    ∃ started w₀ w₁ w₂ v₁ os,
      Course "main" Request.granted unhurried.begin desk (.done started) w₀ ∧
      unhurried.Series "main" twoModules w₀ os w₁ ∧
      Course "main" Request.granted unhurried.finish w₁ (.done ()) w₂ ∧
      unhurried.Apart "main" twoModules w₀ os v₁ ∧
      os.map Outcome.document = [deskDocument, {}] ∧
      w₂.tree.stat w₂.home unhurried.rule.page = some .file ∧ unhurried.SameSummaries w₂ v₁ := by
  -- From the first module on the session goes on, and the first of the separate runs ends.
  have hrun : unhurried.begin.Ends "main" Request.granted (fun _ w₀ =>
      (unhurried.collect ⟨"app"⟩).Answered "main"
        (Request.outside w₀.home (aim w₀.home unhurried.summaryDir)) w₀ ∧
      (unhurried.process ⟨"app"⟩).Ends "main" Request.granted (fun o w₁ =>
        o.document = deskDocument ∧
        ((unhurried.collect ⟨"lib"⟩).Answered "main"
          (Request.outside w₁.home (aim w₁.home unhurried.summaryDir)) w₁ ∧
        (unhurried.process ⟨"lib"⟩).Ends "main" Request.granted (fun o w₂ =>
          o.document = {} ∧ unhurried.finish.Ends "main" Request.granted (fun _ w₃ =>
            w₃.tree.stat w₃.home unhurried.rule.page = some .file) w₂) w₁) ∧
        unhurried.finish.Ends "main" Request.granted (fun _ v₂ =>
          (unhurried.process ⟨"lib"⟩).Ends "main" Request.granted (fun _ v₃ =>
            unhurried.finish.Ends "main" Request.granted (fun _ _ => True) v₃)
            { v₂ with progress := {} }) w₁) w₀) desk := by
    -- The characters of a new page are found faster piece by piece.
    unfold process updateSummaries BundleSummary.append
    simp only [BundleSummary.content_bind]
    unfold BundleSummary.insertRow? BundleSummary.template BundleSummary.opening
    simp only [String.toList_append]
    decide +kernel
  obtain ⟨started, w₀, -, hbegin, hreads, happ⟩ := hrun.course
  obtain ⟨o, w₁, -, hcall, hdocument, ⟨hreads', hlib⟩, hends⟩ := happ.course
  obtain ⟨o', w₂, -, hcall', hdocument', hfinish⟩ := hlib.course
  obtain ⟨_, w₃, -, hfinish, hpage⟩ := hfinish.course
  obtain ⟨_, v₂, -, hends, hlib'⟩ := hends.course
  obtain ⟨o'', v₃, -, hcall'', hends'⟩ := hlib'.course
  obtain ⟨_, v₄, -, hends', -⟩ := hends'.course
  have hseries : unhurried.Series "main" twoModules w₀ [o, o'] w₂ :=
    .cons hreads hcall (.cons hreads' hcall' .nil)
  have hanew : ∀ v : Workspace, Anew v { v with progress := {} } := fun _ => ⟨rfl, rfl, rfl⟩
  have hapart : unhurried.Apart "main" twoModules w₀ [o, o''] { v₄ with progress := {} } :=
    .cons hcall hends (hanew v₂) (.cons hcall'' hends' (hanew v₄) .nil)
  obtain ⟨hsame, hsummaries⟩ :=
    session_eq_separate_runs rfl hbegin hseries hfinish hbegin hapart
  rw [hsame] at hapart
  exact ⟨started, w₀, w₂, w₃, _, [o, o'], hbegin, hseries, hfinish, hapart,
    by simp [hdocument, hdocument'], hpage, hsummaries⟩

end LintDigest.Session
