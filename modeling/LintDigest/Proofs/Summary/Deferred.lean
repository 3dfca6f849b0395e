import LintDigest.Proofs.Summary.Aggregate
import LintDigest.Proofs.Summary.Course

/-!
# Pages that are left to the end of a session

Whether a page is still to be rendered is told by what was done to its summary
(`Life.pending_eq`). The end of a session counts as rendering the page even if it fails, so a page
that it could not render is forgotten until an update leaves it anew (`failed_render_forgotten`).
-/

namespace LintDigest.RuleSummary

open Script Storage LintDigest.Tree

/-- Something done to a summary: an update, with its number and its result, or the end of a
session. -/
inductive Step
  | updated (n : Nat) (res : Except Error RuleUpdate)
  | ended (res : Except Error Bool)

/-- Whether a step leaves the page to the end of the session. -/
def Step.leaves (r : RuleSummary) : Step → Bool
  | updated n (.ok .initial) => !r.due n
  | updated _ (.ok (.merged rendered)) => !rendered
  | _ => false

/-- Whether a step takes the page for rendered, whatever was left before it. -/
def Step.settles : Step → Bool
  | updated _ (.ok (.merged rendered)) => rendered
  | ended _ => true
  | _ => false

/-- Whether the page is still to be rendered after some steps; `pending` tells whether it was before
them. -/
def pendingAfter (r : RuleSummary) (pending : Bool) (steps : List Step) : Bool :=
  steps.foldl (fun pending s => s.leaves r || pending && !s.settles) pending

/-- What can be done to a summary from `w` on. Between two steps anything may change but what the
summary remembers. -/
inductive Life (r : RuleSummary) (w : Workspace) : List Step → Workspace → Prop
  | start : Life r w [] w
  | update {steps : List Step} {w₁ w₂ : Workspace} {d : Document} {modulePage : String}
      {th : Thread} {res : Except Error RuleUpdate} (before : Life r w steps w₁)
      (call : (r.update d modulePage).run th w₁ = (res, w₂)) :
      Life r w (steps ++ [.updated (w₁.progress.updates + 1) res]) w₂
  | finish {steps : List Step} {w₁ w₂ : Workspace} {th : Thread} {res : Except Error Bool}
      (before : Life r w steps w₁) (call : r.finish.run th w₁ = (res, w₂)) :
      Life r w (steps ++ [.ended res]) w₂
  | disturb {steps : List Step} {w₁ w₂ : Workspace} (before : Life r w steps w₁)
      (same : w₂.progress = w₁.progress) : Life r w steps w₂

section

variable {r : RuleSummary} {th : Thread} {w w' : Workspace} {t : Tree} {steps : List Step}

/-! ## What a summary remembers -/

theorem pendingAfter_concat (r : RuleSummary) (pending : Bool) (steps : List Step) (s : Step) :
    r.pendingAfter pending (steps ++ [s]) =
      (s.leaves r || r.pendingAfter pending steps && !s.settles) := by
  simp [pendingAfter]

theorem pendingAfter_of_not_leaves (h : ∀ s ∈ steps, s.leaves r = false) :
    r.pendingAfter false steps = false := by
  induction steps with
  | nil => rfl
  | cons s steps ih =>
    obtain ⟨hs, hsteps⟩ := List.forall_mem_cons.1 h
    rw [pendingAfter, List.foldl_cons, hs, Bool.false_or, Bool.false_and]
    exact ih hsteps

theorem pending_of_effect (hmode : r.regenerate ≠ .never) {d : Document} {modulePage : String}
    {res : Except Error RuleUpdate} {p : Progress} (h : Effect r d modulePage w res t p) :
    p.pending = ((Step.updated (w.progress.updates + 1) res).leaves r ||
      w.progress.pending && !(Step.updated (w.progress.updates + 1) res).settles) := by
  cases h with
  | skipped | unsaved | unpaged | unread | unextended | unrefreshed =>
    simp [Step.leaves, Step.settles, counted]
  | founded new save due | foundedLater new save due =>
    simp [Step.leaves, Step.settles, counted, due, hmode]
  | refreshed => simp [Step.leaves, Step.settles]
  | extended => simp [Step.leaves, postponed, hmode]

theorem Life.pending_eq (hmode : r.regenerate ≠ .never) (h : Life r w steps w') :
    w'.progress.pending = r.pendingAfter w.progress.pending steps := by
  induction h with
  | start => rfl
  | update before call ih =>
    rw [pendingAfter_concat, ← ih]
    exact pending_of_effect hmode (effect_update r _ _ _ call)
  | finish before call ih =>
    rw [pendingAfter_concat, (ending_finish call).2]
    simp [Step.leaves, Step.settles]
  | disturb before same ih => rw [same, ih]

/-! ## The end of a session -/

theorem leadsTo_of_loaded {cwd : Place} {dir : Path} {n : String} {d : Document} (hn : IsName n)
    (h : loaded t cwd (dir / n) = .ok d) : ∃ place, LeadsTo t cwd dir place := by
  obtain ⟨place, text, hresolve, -⟩ := loaded_eq_ok.1 h
  obtain ⟨-, parent, hlead, -⟩ := (resolve_div hn).1 hresolve
  exact ⟨parent, hlead⟩

theorem Ending.failed {e : Error} (h : Ending r w (.error e) t) :
    w.progress.pending = true ∧ t.get? = w.tree.get? := by
  cases h with
  | unread some read => exact ⟨some, rfl⟩
  | unwritten some read page =>
    -- The document was read, so the directory of the page is there.
    obtain ⟨place, hlead⟩ := leadsTo_of_loaded isName_documentName read
    exact ⟨some, page.failed_of_leadsTo isName_pageName hlead⟩

theorem Ending.idle_of {res : Except Error Bool} (h : Ending r w res t)
    (hnone : w.progress.pending = false) : res = .ok false ∧ t = w.tree := by
  cases h with
  | idle => exact ⟨rfl, rfl⟩
  | unread some | unwritten some | rendered some =>
    rw [hnone] at some
    cases some

theorem Ending.rendered_of {res : Except Error Bool} {merged : Document} (h : Ending r w res t)
    (hsome : w.progress.pending = true) (hread : loaded w.tree w.home r.document = .ok merged)
    (hable : Writable w.tree w.home r.page) :
    res = .ok true ∧ t.read w.home r.page = .ok (frame.render w.now merged) := by
  cases h with
  | idle none =>
    rw [hsome] at none
    cases none
  | unread some read =>
    rw [hread] at read
    cases read
  | unwritten some read page => cases page.isOk_iff.2 hable
  | rendered some read page =>
    rw [hread] at read
    cases read
    exact ⟨rfl, page.read_eq⟩

/-- As long as no update leaves the page to it, the end of a session finds nothing to be done. -/
theorem Life.idle (hmode : r.regenerate ≠ .never) (h : Life r w steps w')
    (hnone : w.progress.pending = false) (hsteps : ∀ s ∈ steps, s.leaves r = false)
    {reply : Except Error Bool} (hreply : .ended reply ∈ steps) : reply = .ok false := by
  induction h with
  | start => cases hreply
  | update before call ih =>
    obtain ⟨hbefore, -⟩ := List.forall_mem_append.1 hsteps
    exact ih hbefore (by simpa using hreply)
  | finish before call ih =>
    obtain ⟨hbefore, -⟩ := List.forall_mem_append.1 hsteps
    rcases List.mem_append.1 hreply with hearlier | hlast
    · exact ih hbefore hearlier
    · cases List.mem_singleton.1 hlast
      have hpending := before.pending_eq hmode
      rw [hnone, pendingAfter_of_not_leaves hbefore] at hpending
      exact ((ending_finish call).1.idle_of hpending).1
  | disturb before same ih => exact ih hsteps hreply

end

/-- The end of a session can fail only if the page is still to be rendered. That leaves the files as
they were, and the page is taken for rendered. So a later end renders it if updates in between have
left it anew, as soon as the document can be read and the page be written. Otherwise the later end
does nothing and reports no error, and neither do the ends in between. -/
theorem failed_render_forgotten {r : RuleSummary} {th : Thread} {w w₁ : Workspace} {e : Error}
    (hmode : r.regenerate ≠ .never) (hfail : r.finish.run th w = (.error e, w₁)) :
    w.progress.pending = true ∧ w₁.tree.get? = w.tree.get? ∧
      ∀ {since : List Step} {w₂ w₃ : Workspace} {th' : Thread} {res : Except Error Bool},
        Life r w₁ since w₂ → r.finish.run th' w₂ = (res, w₃) →
          (r.pendingAfter false since = false → res = .ok false ∧ w₃.tree = w₂.tree) ∧
          (r.pendingAfter false since = true → ∀ merged,
            loaded w₂.tree w₂.home r.document = .ok merged → Writable w₂.tree w₂.home r.page →
              res = .ok true ∧
                w₃.tree.read w₃.home r.page = .ok (frame.render w₂.now merged)) ∧
          ((∀ s ∈ since, s.leaves r = false) →
            ∀ reply, .ended reply ∈ since ++ [.ended res] → reply = .ok false) := by
  obtain ⟨hending, hprogress⟩ := ending_finish hfail
  obtain ⟨hpending, hsame⟩ := hending.failed
  have hforgotten : w₁.progress.pending = false := by rw [hprogress]
  refine ⟨hpending, hsame, ?_⟩
  intro since w₂ w₃ th' res hsince hagain
  have hnext := (ending_finish hagain).1
  have hleft := hsince.pending_eq hmode
  rw [hforgotten] at hleft
  refine ⟨?_, ?_, ?_⟩
  · intro hnone
    exact hnext.idle_of (hleft.trans hnone)
  · intro hsome merged hread hable
    rw [home_eq_of_run hagain]
    exact hnext.rendered_of (hleft.trans hsome) hread hable
  · intro hsteps reply hreply
    have hall : ∀ s ∈ since ++ [Step.ended res], s.leaves r = false :=
      List.forall_mem_append.2 ⟨hsteps, by simp [Step.leaves]⟩
    exact (hsince.finish hagain).idle hmode hforgotten hall hreply

/-- A summary that renders its page at the end of a session. -/
def late : RuleSummary := ⟨⟨"site"⟩, .once, 0⟩

/-- The files of `late` were removed before its page was rendered. -/
def emptied : Workspace := { bare with progress := ⟨1, true⟩ }

/-- Without its document the session cannot end. It ends after that, but with a page only once the
summary is founded again. -/
theorem failed_render_forgotten_late :
    ∃ e w₁ w₂ w₃ w₄, late.finish.run "main" emptied = (.error e, w₁) ∧
      late.finish.run "main" w₁ = (.ok false, w₂) ∧
      (late.update oneFinding "<p>").run "main" w₂ = (.ok .initial, w₃) ∧
      late.finish.run "main" w₃ = (.ok true, w₄) ∧
      w₄.tree.read w₄.home late.page = .ok (frame.render w₃.now oneFinding) := by
  have hfails : (late.finish.run "main" emptied).1.toOption = none := by decide +kernel
  have hlater : ∀ w₂ ∈ [(late.finish.run "main" (late.finish.run "main" emptied).2).2],
      ((late.update oneFinding "<p>").run "main" w₂).1.toOption = some .initial ∧
      ∀ w₃ ∈ [((late.update oneFinding "<p>").run "main" w₂).2],
        (loaded w₃.tree w₃.home late.document).toOption = some oneFinding ∧
          ((replaceFile late.page "").run "main" w₃).1.toOption = some () := by
    decide +kernel
  generalize hrun₁ : late.finish.run "main" emptied = outcome₁ at hfails hlater
  obtain ⟨res₁, w₁⟩ := outcome₁
  cases res₁ with
  | ok b => simp [Except.toOption] at hfails
  | error e =>
    rcases hrun₂ : late.finish.run "main" w₁ with ⟨res₂, w₂⟩
    rcases hrun₃ : (late.update oneFinding "<p>").run "main" w₂ with ⟨res₃, w₃⟩
    rcases hrun₄ : late.finish.run "main" w₃ with ⟨res₄, w₄⟩
    simp only [hrun₂, hrun₃, List.mem_singleton, forall_eq] at hlater
    obtain ⟨hfounded, hread, hable⟩ := hlater
    obtain rfl := eq_ok_of_toOption hfounded
    obtain ⟨-, -, hnext⟩ := failed_render_forgotten (by decide) hrun₁
    obtain ⟨rfl, -⟩ := (hnext .start hrun₂).1 rfl
    have hsince := (Life.start.finish hrun₂).update hrun₃
    obtain ⟨rfl, hpage⟩ := (hnext hsince hrun₄).2.1 rfl _ (eq_ok_of_toOption hread)
      (writable_of_run hable)
    exact ⟨e, w₁, w₂, w₃, w₄, rfl, hrun₂, hrun₃, hrun₄, hpage⟩

/-- After the first update of `late`, with a directory where the page is to be. -/
def obstructed : Workspace :=
  let w := ((late.update oneFinding "<p>").run "main" bare).2
  { w with tree := w.tree.put [pageName, "site"] .dir }

/-- An update leaves the page to the end of the session, which fails. Once the directory is removed
the page could be rendered, but ending the session again does not render it. -/
theorem no_page_after_recovery :
    obstructed.progress.pending = true ∧
      (late.finish.run "main" obstructed).1.toOption = none ∧
      let w := (late.finish.run "main" obstructed).2
      let cleared := { w with tree := w.tree.erase [pageName, "site"] }
      (loaded cleared.tree cleared.home late.document).toOption = some oneFinding ∧
        ((replaceFile late.page "").run "main" cleared).1.toOption = some () ∧
        (late.finish.run "main" cleared).1.toOption = some false ∧
        (late.finish.run "main" cleared).2.tree.stat cleared.home late.page = none := by
  decide +kernel

end LintDigest.RuleSummary
