import LintDigest.Proofs.Session.Calls
import LintDigest.Proofs.Session.SideBySide

/-!
# Starting over

Starting over removes the files of the summaries, but the session still remembers what it did before:
the number of its updates, and whether a page is still to be rendered. `restart_like_fresh` says when
that cannot be told from a fresh session on the same files, and `restart_out_of_phase` shows that it
can be told otherwise.
-/

namespace LintDigest

open Script Storage LintDigest.Tree

namespace RuleSummary

/-- What is remembered makes no difference if no page is still to be rendered and the next periodic
page is a whole period away. -/
theorem inStep_fresh_iff {r : RuleSummary} {p : Progress} :
    r.InStep p {} ↔ p.pending = false ∧
      (r.regenerate = .periodic → max r.period 1 ∣ p.updates) := by
  constructor
  · intro h
    refine ⟨h.pending.symm, fun hmode => ?_⟩
    have hdue := h.due 0
    simp only [due, hmode, Nat.add_zero, Nat.zero_mod, decide_true] at hdue
    exact Nat.dvd_of_mod_eq_zero (of_decide_eq_true hdue.symm)
  · rintro ⟨hpending, hphase⟩
    refine ⟨hpending.symm, fun k => ?_⟩
    unfold due
    cases hmode : r.regenerate with
    | periodic =>
      obtain ⟨q, hq⟩ := hphase hmode
      simp only [hq, Nat.mul_add_mod_self_left, Nat.zero_add]
    | continuous | once | never => rfl

/-- A page that is rendered at once or not at all is never still to be rendered. -/
theorem Effect.pending {r : RuleSummary} {d : Document} {html : String} {w : Workspace}
    {res : Except Error RuleUpdate} {t : Tree} {p : Progress} (h : Effect r d html w res t p)
    (hmode : r.regenerate = .continuous ∨ r.regenerate = .never)
    (hidle : w.progress.pending = false) : p.pending = false := by
  cases h with
  | foundedLater new save due =>
    rcases hmode with hmode | hmode
    · simp [RuleSummary.due, hmode] at due
    · simp [hmode]
  | extended old read save due =>
    rcases hmode with hmode | hmode
    · simp [RuleSummary.due, hmode] at due
    · rw [postponed, if_neg (not_not_intro hmode)]
      exact hidle
  | refreshed => rfl
  | skipped | unsaved | unpaged | founded | unread | unextended | unrefreshed => exact hidle

end RuleSummary

namespace Session

/-! ## Two sessions side by side -/

/-- Two sessions cannot be told apart: their files differ in moments only, and pages are due at the
same updates. -/
structure Alongside (s : Session) (w v : Workspace) : Prop where
  tree : Parallel (fun _ => False) w.tree v.tree
  home : v.home = w.home
  step : s.rule.InStep w.progress v.progress

section

variable {s : Session} {th : Thread} {w w' v v' : Workspace} {c : Call} {reply reply' : Reply}

theorem Removed.parallel {dir : Path} {cwd : Place} {names : List String} {t t' u u' : Tree}
    {res res' : Except Error Unit} (h : Parallel (fun _ => False) t u)
    (ht : Removed dir cwd names t res t') (hu : Removed dir cwd names u res' u') :
    res'.toOption = res.toOption ∧ Parallel (fun _ => False) t' u' := by
  induction ht generalizing u with
  | nil =>
    cases hu with
    | nil => exact ⟨rfl, h⟩
  | absent none rest ih =>
    rw [← h.stat_eq (clear_of_false _ _)] at none
    cases hu with
    | absent _ rest' => exact ih h rest'
    | gone kind | stuck kind => cases none.symm.trans kind
  | gone file rest ih =>
    rw [← h.stat_eq (clear_of_false _ _)] at file
    cases hu with
    | gone _ rest' => exact ih (h.update (get?_erase ..) (get?_erase ..) (.same _)) rest'
    | absent kind | stuck kind => cases file.symm.trans kind
  | stuck blocked =>
    rw [← h.stat_eq (clear_of_false _ _)] at blocked
    cases hu with
    | stuck => exact ⟨rfl, h⟩
    | absent kind | gone kind => cases blocked.symm.trans kind

theorem Alongside.collect_eq (h : s.Alongside w v) (module : Path) :
    ((s.collect module).run th v).1 = ((s.collect module).run th w).1 := by
  refine collect_congr (fun i _ => ?_) fun i _ fs _ f _ p _ => ?_
  · rw [h.home]
    exact h.tree.reported_eq (clear_of_false _ _) i.1
  · rw [h.home, h.tree.stat_eq (clear_of_false _ _)]

/-- The same call gets the same reply in both. -/
theorem Alongside.call (h : s.Alongside w v)
    (hw : Course th Request.credible (s.call c) w (.done reply) w')
    (hv : Course th Request.credible (s.call c) v (.done reply') v') :
    reply' = reply ∧ s.Alongside w' v' := by
  have hsheltered := s.rule.sheltered_of_false w.home
  have hhome : v'.home = w'.home := by rw [hv.home_eq, hw.home_eq, h.home]
  have hanswer := answer_of_course hw
  have hanswer' := answer_of_course hv
  cases hanswer with
  | begun removed progress =>
    cases hanswer' with
    | begun removed' progress' =>
      rw [h.home] at removed'
      obtain ⟨hres, htree⟩ := Removed.parallel h.tree removed removed'
      refine ⟨by rw [hres], htree, hhome, ?_⟩
      rw [progress, progress']
      exact h.step
  | outcome turn =>
    cases hanswer' with
    | outcome turn' =>
      obtain ⟨ho, htree, hstep⟩ := Turn.parallel h.tree hsheltered (fun n _ => clear_of_false _ _)
        h.home h.step (h.collect_eq _) turn turn'
      exact ⟨by rw [ho], htree, hhome, hstep⟩
  | finished finish rest =>
    cases hanswer' with
    | finished finish' rest' =>
      obtain ⟨hres, htree, hstep⟩ := hsheltered.finish h.tree h.home h.step finish finish'
      rw [← rest.1, ← rest'.1] at htree
      rw [← rest.2.2.1, ← rest'.2.2.1] at hstep
      exact ⟨by rw [hres], htree, hhome, hstep⟩

theorem Alongside.calls {cs : List Call} {replies replies' : List Reply} (h : s.Alongside w v)
    (hw : s.Calls th Request.credible cs w replies w')
    (hv : s.Calls th Request.credible cs v replies' v') :
    replies' = replies ∧ s.Alongside w' v' := by
  induction hw generalizing v replies' v' with
  | nil =>
    cases hv with
    | nil => exact ⟨rfl, h⟩
  | cons first rest ih =>
    cases hv with
    | cons first' rest' =>
      obtain ⟨rfl, hnext⟩ := h.call first first'
      obtain ⟨rfl, hend⟩ := ih hnext rest'
      exact ⟨rfl, hend⟩

theorem Alongside.sameSummaries (h : s.Alongside w v) : s.SameSummaries w v := by
  have hentry : ∀ {n : String}, IsName n →
      Alike n (w.tree.entry w.home (s.summaryDir / n)) (v.tree.entry v.home (s.summaryDir / n)) := by
    intro n hn
    rw [h.home]
    exact h.tree.entry_div hn (clear_of_false _ _)
  exact ⟨(hentry RuleSummary.isName_documentName).eq_of_notMem (by decide),
    hentry RuleSummary.isName_pageName, hentry BundleSummary.isName_pageName⟩

/-! ## What is remembered -/

theorem Listed.progress_eq {A : (r : Request) → r.Answer → Prop} {report : Option Path}
    {d : Document} (h : s.Listed th A report d w w') : w'.progress = w.progress := by
  cases report with
  | none => exact h.2.2.1
  | some p =>
    obtain ⟨row, happend⟩ := h
    obtain ⟨m, hrun, -⟩ := happend.run_eq (s.bundle.dated_append p d)
    exact (s.bundle.appending_append p d hrun).2

/-- In a mode that renders pages at once or not at all, no call leaves one to be rendered. -/
theorem Answer.pending {A : (r : Request) → r.Answer → Prop} (h : s.Answer th A w c reply w')
    (hmode : s.regenerate = .continuous ∨ s.regenerate = .never)
    (hidle : w.progress.pending = false) : w'.progress.pending = false := by
  cases h with
  | begun removed progress => rwa [progress]
  | outcome turn =>
    cases turn with
    | silent found rest => rwa [rest.2.2.1]
    | told found any start write taken rest =>
      obtain ⟨w₁, w₂, w₃, update, w₄, hw₁, hlisted, hw₃, hupdate, hw₄⟩ := taken
      obtain ⟨m, heffect, -⟩ := RuleSummary.effect_of_course hupdate
      rw [rest.2.2.1, hw₄.2.2.1]
      refine heffect.pending hmode ?_
      rwa [Workspace.progress_setNow, hw₃.2.2.1, hlisted.progress_eq, hw₁.2.2.1,
        (stages_of_writeModule write).1, start.2.2.1]
  | finished finish rest =>
    obtain ⟨m, -, hprogress, -⟩ := RuleSummary.ending_of_course finish
    rw [rest.2.2.1, hprogress]

theorem Calls.pending {A : (r : Request) → r.Answer → Prop} {cs : List Call} {replies : List Reply}
    (h : s.Calls th A cs w replies w')
    (hmode : s.regenerate = .continuous ∨ s.regenerate = .never)
    (hidle : w.progress.pending = false) : w'.progress.pending = false := by
  induction h with
  | nil => exact hidle
  | cons first rest ih => exact ih ((answer_of_course first).pending hmode hidle)

/-- Where there is no document, a page that is still to be rendered cannot be. -/
theorem finished_of_pending {A : (r : Request) → r.Answer → Prop}
    (h : s.Answer th A w .finish reply w') (hnone : w.tree.stat w.home s.rule.document = none) :
    reply = .finished (if w.progress.pending then none else some false) := by
  cases h with
  | finished finish rest =>
    obtain ⟨m, hending, -⟩ := RuleSummary.ending_of_course finish
    have hstages := hending.stages
    have hunread : ∃ e, loaded w.tree w.home s.rule.document = .error e := by
      cases hread : loaded w.tree w.home s.rule.document with
      | error e => exact ⟨e, rfl⟩
      | ok d =>
        obtain ⟨place, text, hresolve, -⟩ := loaded_eq_ok.1 hread
        have hsome := stat_isSome.2 ⟨place, _, hresolve⟩
        rw [hnone] at hsome
        cases hsome
    obtain ⟨e, hunread⟩ := hunread
    simp only [Workspace.tree_setNow, Workspace.home_setNow, Workspace.progress_setNow,
      hunread] at hstages
    cases hpending : w.progress.pending with
    | false =>
      rw [hpending] at hstages
      rw [hstages.1]
      rfl
    | true =>
      rw [hpending] at hstages
      rw [hstages.1]
      rfl

end

/-! ## Main theorem -/

/-- After any calls, a session starts over and all files are removed. It remembers what it did before.
If no page is still to be rendered and pages are not out of phase, or if the mode renders pages at
once or not at all, then all further calls get the replies that a fresh session on the same files
would give, and leave the same summaries but for the moments on the pages. But if a page is still to
be rendered, the next end fails where that of a fresh session has nothing to do. -/
theorem restart_like_fresh {s : Session} {th : Thread} {w₀ w₁ w₂ w₃ v₂ v₃ : Workspace}
    {past calls : List Call} {said replies replies' : List Reply} (hfresh : w₀.progress = {})
    (hpast : s.Calls th Request.credible past w₀ said w₁)
    (hbegin : Course th Request.credible s.begin w₁ (.done (.ok ())) w₂) (hanew : Anew w₂ v₂)
    (hcalls : s.Calls th Request.credible calls w₂ replies w₃)
    (hcalls' : s.Calls th Request.credible calls v₂ replies' v₃) :
    w₂.progress = w₁.progress ∧
    ((w₁.progress.pending = false ∧
        (s.regenerate = .periodic → max s.period 1 ∣ w₁.progress.updates)) ∨
      s.regenerate = .continuous ∨ s.regenerate = .never →
        replies' = replies ∧ s.SameSummaries w₃ v₃) ∧
    (w₁.progress.pending = true → calls = [.finish] →
      replies = [.finished none] ∧ replies' = [.finished (some false)]) := by
  obtain ⟨hremoved, hprogress⟩ := removed_of_course hbegin
  refine ⟨hprogress, fun hsafe => ?_, fun hpending hfinish => ?_⟩
  · have hstep : s.rule.InStep w₂.progress v₂.progress := by
      rw [hanew.progress, hprogress, RuleSummary.inStep_fresh_iff]
      rcases hsafe with hsafe | hmode
      · exact hsafe
      · refine ⟨hpast.pending hmode (by rw [hfresh]), fun hperiodic => ?_⟩
        rcases hmode with hmode | hmode <;> cases hmode.symm.trans hperiodic
    have hstart : s.Alongside w₂ v₂ := by
      refine ⟨?_, hanew.home, hstep⟩
      rw [hanew.tree]
      exact .refl _ _
    obtain ⟨hsame, hend⟩ := hstart.calls hcalls hcalls'
    exact ⟨hsame, hend.sameSummaries⟩
  · subst hfinish
    have hnone : w₂.tree.stat w₂.home s.rule.document = none := by
      rw [hbegin.home_eq]
      exact hremoved.stat_of_ok isName_of_mem_artifacts (by decide) _ (by decide)
    cases hcalls with
    | cons first rest =>
      cases rest
      cases hcalls' with
      | cons first' rest' =>
        cases rest'
        rw [finished_of_pending (answer_of_course first) hnone,
          finished_of_pending (answer_of_course first') (by rw [hanew.tree, hanew.home, hnone]),
          hprogress, hpending, hanew.progress]
        exact ⟨rfl, rfl⟩

/-- A workspace with one report, where the document of the module cannot be written. -/
def tightDesk : Workspace where
  tree := ⟨[(["lint.xml", "target", "app"], .file (.text
      "<checkstyle><file name='A.java'><error message='boom'/></file></checkstyle>")),
    (["lintfold-result.xml", "target", "app"], .dir), (["target", "app"], .dir), (["app"], .dir)]⟩
  lock := ⟨"summary", none, 0⟩

/-- What a session that starts there leaves after some calls. -/
def used (s : Session) (past : List Call) : Workspace :=
  ((past.mapM s.call).run "main" tightDesk).2

/-- The session has started over. -/
def restarted (s : Session) (past : List Call) : Workspace :=
  (s.begin.run "main" (s.used past)).2

/-- Nothing is remembered. -/
def forgotten (w : Workspace) : Workspace := { w with progress := {} }

/-- The calls of one module. -/
def oneModule : List Call := [.process ⟨"app"⟩, .finish]

theorem restart_like_fresh_unhurried :
    (∃ replies w₃ v₃, unhurried.Calls "main" Request.credible oneModule
        (unhurried.restarted oneModule) replies w₃ ∧
      unhurried.Calls "main" Request.credible oneModule (forgotten (unhurried.restarted oneModule))
        replies v₃ ∧
      (unhurried.restarted oneModule).progress = ⟨1, false⟩ ∧ unhurried.SameSummaries w₃ v₃) ∧
    ∃ w₃ v₃, unhurried.Calls "main" Request.credible [.finish]
        (unhurried.restarted [.process ⟨"app"⟩]) [.finished none] w₃ ∧
      unhurried.Calls "main" Request.credible [.finish]
        (forgotten (unhurried.restarted [.process ⟨"app"⟩])) [.finished (some false)] v₃ := by
  have hnow : ∀ past, '<' ∉ (unhurried.restarted past).now.toList := by
    intro past
    rw [restarted, now_run, used, now_run]
    decide
  have hpast : ∀ past, ∃ said, unhurried.Calls "main" Request.credible past tightDesk said
      (unhurried.used past) := fun past => ⟨_, calls_of_run _ _ _ _ (by decide)⟩
  have hbegin : ∀ past, (unhurried.begin.run "main" (unhurried.used past)).1.toOption = some () →
      Course "main" Request.credible unhurried.begin (unhurried.used past) (.done (.ok ()))
        (unhurried.restarted past) := by
    intro past hok
    rw [← eq_ok_of_toOption hok]
    refine (answered_credible _ ?_).course
    rw [used, now_run]
    decide
  have hcalls : ∀ cs past, ∃ replies w₃, unhurried.Calls "main" Request.credible cs
      (unhurried.restarted past) replies w₃ :=
    fun cs past => ⟨_, _, calls_of_run _ _ _ _ (hnow past)⟩
  have hcalls' : ∀ cs past, ∃ replies v₃, unhurried.Calls "main" Request.credible cs
      (forgotten (unhurried.restarted past)) replies v₃ :=
    fun cs past => ⟨_, _, calls_of_run _ _ _ (forgotten (unhurried.restarted past)) (hnow past)⟩
  have hfresh : tightDesk.progress = {} := rfl
  have hanew : ∀ w, Anew w (forgotten w) := fun _ => ⟨rfl, rfl, rfl⟩
  constructor
  · have hused : (unhurried.used oneModule).progress = ⟨1, false⟩ ∧
        (unhurried.begin.run "main" (unhurried.used oneModule)).1.toOption = some () := by
      decide +kernel
    obtain ⟨said, hsaid⟩ := hpast oneModule
    obtain ⟨replies, w₃, hcalls⟩ := hcalls oneModule oneModule
    obtain ⟨replies', v₃, hcalls'⟩ := hcalls' oneModule oneModule
    obtain ⟨hprogress, hsame, -⟩ := restart_like_fresh hfresh hsaid (hbegin _ hused.2) (hanew _)
      hcalls hcalls'
    obtain ⟨rfl, hsummaries⟩ := hsame (.inl ⟨by rw [hused.1], by nofun⟩)
    exact ⟨_, w₃, v₃, hcalls, hcalls', hprogress.trans hused.1, hsummaries⟩
  · have hused : (unhurried.used [.process ⟨"app"⟩]).progress.pending = true ∧
        (unhurried.begin.run "main" (unhurried.used [.process ⟨"app"⟩])).1.toOption = some () := by
      decide +kernel
    obtain ⟨said, hsaid⟩ := hpast [.process ⟨"app"⟩]
    obtain ⟨replies, w₃, hcalls⟩ := hcalls [.finish] [.process ⟨"app"⟩]
    obtain ⟨replies', v₃, hcalls'⟩ := hcalls' [.finish] [.process ⟨"app"⟩]
    obtain ⟨-, -, hfinish⟩ := restart_like_fresh hfresh hsaid (hbegin _ hused.2) (hanew _) hcalls
      hcalls'
    obtain ⟨rfl, rfl⟩ := hfinish hused.1 rfl
    exact ⟨w₃, v₃, hcalls, hcalls'⟩

/-- The page of this session is due with every second update. -/
def paced : Session := { plain with regenerate := .periodic, period := 2 }

/-- One module before starting over and one after it make two updates, so a page is due that in a
fresh session is rendered at the end. -/
theorem restart_out_of_phase :
    (paced.begin.run "main" (paced.used oneModule)).1.toOption = some () ∧
    ((oneModule.mapM paced.call).run "main" (paced.restarted oneModule)).1.getLast? =
      some (.finished (some false)) ∧
    ((oneModule.mapM paced.call).run "main" (forgotten (paced.restarted oneModule))).1.getLast? =
      some (.finished (some true)) := by
  decide +kernel

end Session

end LintDigest
