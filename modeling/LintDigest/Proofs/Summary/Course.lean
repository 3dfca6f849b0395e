import LintDigest.Proofs.Script.Course
import LintDigest.Proofs.Summary.Frame

/-!
# Summaries while time passes

No operation on a summary asks for the moment more than once, so a course of one is a run of it at
some moment. `effect_of_course` and `ending_of_course` say how updates and the end of a session can
go, whatever the clock does.
-/

namespace LintDigest

open Script Storage LintDigest.Tree

namespace Script

variable {α : Type}

theorem timeless_request {r : Request} (hr : r.isNow = false) : (request r).Timeless :=
  ⟨hr, fun _ => trivial⟩

theorem passive_isPresent (p : Path) : (isPresent p).Passive :=
  ⟨rfl, fun _ => trivial⟩

theorem passive_absolute (p : Path) : (absolute p).Passive := by
  unfold absolute
  split
  · trivial
  · exact ⟨rfl, fun _ => trivial⟩

theorem dated_locked {body : Script α} (h : body.Dated) : (locked body).Dated := by
  unfold locked
  apply (timeless_request rfl).bind_dated
  intro _
  apply h.bind
  intro a
  exact (timeless_request rfl).bind fun _ => trivial

end Script

namespace Storage

theorem passive_readText (p : Path) : (readText p).Passive := by
  apply (passive_request rfl).bind
  intro found
  cases found <;> trivial

theorem passive_loadDocument (p : Path) : (loadDocument p).Passive := by
  apply (passive_readText p).bind
  intro found
  cases found <;> trivial

theorem timeless_replaceFile (p : Path) (text : String) : (replaceFile p text).Timeless := by
  apply (timeless_request rfl).bind
  intro made
  cases made with
  | error fault => trivial
  | ok _ =>
    apply (timeless_request rfl).bind
    intro scratch
    cases scratch with
    | error fault => trivial
    | ok scratch =>
      apply (timeless_request rfl).bind
      intro filled
      cases filled with
      | error fault => exact (timeless_request rfl).bind fun _ => trivial
      | ok _ =>
        apply (timeless_request rfl).bind
        intro renamed
        cases renamed with
        | error fault => exact (timeless_request rfl).bind fun _ => trivial
        | ok _ => trivial

end Storage

/-! ## The rule summary -/

namespace RuleSummary

variable (r : RuleSummary)

theorem timeless_discard : r.discard.Timeless := by
  apply (passive_isPresent _).timeless.bind
  intro present
  split
  · apply (timeless_request rfl).bind
    intro removed
    cases removed with
    | error fault => exact timeless_request rfl
    | ok _ => trivial
  · trivial

theorem timeless_restore : r.restore.Timeless := by
  apply (passive_isPresent _).timeless.bind
  intro present
  split
  · apply (timeless_request rfl).bind
    intro renamed
    cases renamed with
    | error fault => exact timeless_request rfl
    | ok _ => trivial
  · trivial

theorem timeless_prior : r.prior.Timeless := by
  apply (passive_isPresent _).timeless.bind
  intro present
  split
  · apply (timeless_request rfl).bind
    intro copied
    cases copied with
    | error fault => trivial
    | ok _ => exact (passive_loadDocument _).timeless
  · trivial

theorem timeless_found (n : Nat) (d : Document) (page : String) : (r.found n d page).Timeless := by
  apply (timeless_replaceFile _ _).bind
  intro saved
  cases saved with
  | error e => trivial
  | ok _ =>
    have hpage : (r.foundPage n page).Timeless := by
      unfold foundPage
      split
      · exact timeless_replaceFile _ _
      · exact (timeless_request rfl).bind fun _ => trivial
    apply hpage.bind
    intro paged
    cases paged with
    | error e => trivial
    | ok _ => exact (timeless_request rfl).bind fun _ => trivial

/-- The page is rendered at the moment that is asked for, and nothing is asked afterwards. -/
theorem dated_refresh (n : Nat) (merged : Document) : (r.refresh n merged).Dated := by
  unfold refresh
  split
  · refine .inr fun moment => ?_
    apply (timeless_replaceFile _ _).bind
    intro saved
    cases saved with
    | error e => trivial
    | ok _ => exact (timeless_request rfl).bind fun _ => trivial
  · apply Timeless.dated
    split
    · exact (timeless_request rfl).bind fun _ => trivial
    · trivial

theorem dated_extend (n : Nat) (d : Document) : (r.extend n d).Dated := by
  apply r.timeless_prior.bind_dated
  intro read
  cases read with
  | error e => trivial
  | ok prior =>
    apply (timeless_replaceFile _ _).bind_dated
    intro saved
    cases saved with
    | error e =>
      apply r.timeless_discard.bind_dated
      intro _
      trivial
    | ok _ =>
      apply (r.dated_refresh n _).bind
      intro refreshed
      cases refreshed with
      | error e => exact r.timeless_restore.bind fun _ => trivial
      | ok rendered =>
        exact r.timeless_discard.bind fun _ => (timeless_request rfl).bind fun _ => trivial

theorem dated_update (d : Document) (page : String) : (r.update d page).Dated := by
  unfold update
  split
  · trivial
  · apply dated_locked
    apply (timeless_request rfl).bind_dated
    intro n
    have hfounded : r.isFounded.Timeless := by
      apply (passive_isPresent _).timeless.bind
      intro present
      split
      · trivial
      · exact (passive_isPresent _).timeless
    apply hfounded.bind_dated
    intro founded
    split
    · exact r.dated_extend n d
    · exact (r.timeless_found n d page).dated

theorem dated_finish : r.finish.Dated := by
  apply (timeless_request rfl).bind_dated
  intro pending
  split
  · apply dated_locked
    apply (passive_loadDocument _).timeless.bind_dated
    intro read
    cases read with
    | error e => trivial
    | ok merged =>
      refine .inr fun moment => ?_
      apply (timeless_replaceFile _ _).bind
      intro saved
      cases saved <;> trivial
  · trivial

/-- How the end of a session can go, and the tree it leaves. -/
inductive Ending (r : RuleSummary) (w : Workspace) : Except Error Bool → Tree → Prop
  | idle (none : w.progress.pending = false) : Ending r w (.ok false) w.tree
  | unread {e : Error} (some : w.progress.pending = true)
      (read : loaded w.tree w.home r.document = .error e) : Ending r w (.error e) w.tree
  | unwritten {e : Error} {merged : Document} {t : Tree} (some : w.progress.pending = true)
      (read : loaded w.tree w.home r.document = .ok merged)
      (page : Replaced w.tree w.home r.page (frame.render w.now merged) (.error e) t) :
      Ending r w (.error e) t
  | rendered {merged : Document} {t : Tree} (some : w.progress.pending = true)
      (read : loaded w.tree w.home r.document = .ok merged)
      (page : Replaced w.tree w.home r.page (frame.render w.now merged) (.ok ()) t) :
      Ending r w (.ok true) t

variable {r} {th : Thread} {A : (r : Request) → r.Answer → Prop} {w w' : Workspace}

theorem ending_finish {res : Except Error Bool} (h : r.finish.run th w = (res, w')) :
    Ending r w res w'.tree ∧ w'.progress = { w.progress with pending := false } := by
  rw [finish, run_takePending_bind] at h
  cases hpending : w.progress.pending with
  | false =>
    rw [hpending] at h
    cases h
    exact ⟨.idle hpending, rfl⟩
  | true =>
    rw [hpending, if_pos rfl, run_locked] at h
    obtain ⟨rfl, rfl⟩ := Prod.mk.inj h
    rw [Workspace.tree_left, Workspace.progress_left, run_bind, run_loadDocument]
    simp only [Workspace.tree_entered, Workspace.home_entered]
    cases hread : loaded w.tree w.home r.document with
    | error e => exact ⟨.unread hpending hread, rfl⟩
    | ok merged =>
      obtain ⟨saved, t', hrun, hreplaced⟩ := run_replaceFile th
        ({ w with progress := { w.progress with pending := false } }.entered th) r.page
        (frame.render w.now merged)
      have hnow : (({ w with progress := { w.progress with pending := false } } :
        Workspace).entered th).now = w.now := rfl
      simp only [request, ask_bind, done_bind, run, Workspace.answer, run_bind]
      rw [hnow, hrun]
      cases saved with
      | error e => exact ⟨.unwritten hpending hread hreplaced, rfl⟩
      | ok _ => exact ⟨.rendered hpending hread hreplaced, rfl⟩

theorem effect_of_course {d : Document} {page : String} {res : Except Error RuleUpdate}
    (h : Course th A (r.update d page) w (.done res) w') :
    ∃ m, Effect r d page (w.setNow m) res w'.tree w'.progress ∧
      (r.update d page).Answered th A (w.setNow m) := by
  obtain ⟨m, hrun, hanswered⟩ := h.run_eq (r.dated_update d page)
  have heffect := effect_update r d page th hrun
  exact ⟨m, heffect, hanswered⟩

theorem ending_of_course {res : Except Error Bool} (h : Course th A r.finish w (.done res) w') :
    ∃ m, Ending r (w.setNow m) res w'.tree ∧
      w'.progress = { w.progress with pending := false } ∧ r.finish.Answered th A (w.setNow m) := by
  obtain ⟨m, hrun, hanswered⟩ := h.run_eq r.dated_finish
  obtain ⟨hending, hprogress⟩ := ending_finish hrun
  exact ⟨m, hending, hprogress, hanswered⟩

end RuleSummary

end LintDigest
