import LintDigest.Proofs.Summary.Update
import LintDigest.Summary.Bundle

/-!
# What the summaries leave alone

Whatever becomes of an update, directories stay, and so does everything whose name is not one of
the summaries' own.
-/

namespace LintDigest

open Script Storage LintDigest.Tree

/-! ## The rule summary -/

namespace RuleSummary

/-- A name that the rule summary does not use. -/
def Foreign (n : String) : Prop :=
  n ≠ documentName ∧ n ≠ pageName ∧ n ≠ snapshotName

instance (n : String) : Decidable (Foreign n) := inferInstanceAs (Decidable (_ ∧ _))

variable {r : RuleSummary} {n : String} {t t₁ : Tree} {cwd : Place}

theorem spares_prior (hn : Foreign n) {res : Except Error Document} (h : r.Prior t cwd res t₁) :
    Spares n t t₁ := by
  cases h with
  | absent | uncopied => exact spares_of_get? rfl
  | copied found copy =>
    obtain ⟨-, -, place, c, -, -, hsnap, rfl⟩ :=
      (copy_div isName_documentName isName_snapshotName).1 copy
    exact spares_of_update hn.2.2 (get?_put ..) hsnap

/-- A snapshot takes the place of a document that was just saved, which is a file. -/
theorem spares_restored (hn : Foreign n) {text page : String} {e : Error} {t₂ t₃ : Tree}
    (save : Replaced t₁ cwd r.document text (.ok ()) t₂)
    (failed : Replaced t₂ cwd r.page page (.error e) t₃) : Spares n t₃ (r.restored t₃ cwd) := by
  obtain ⟨hw, place, hlead, hdoc⟩ := save.written_div isName_documentName
  have hpage : Keeps documentName t₂ t₃ := failed.keeps isName_pageName (by decide)
  have hlead₃ := hlead.mono hpage.1
  have hdoc₃ := hpage.2 _ _ hdoc
  rcases restored_cases hlead₃ hw hdoc₃ with ⟨c, -, hsnap, hrestored⟩ | ⟨-, hsame⟩
  · -- Taking the snapshot away and putting it in place are two changes.
    have herased : Spares n t₃ (t₃.erase (snapshotName :: place)) :=
      spares_of_update hn.2.2 (get?_erase ..) (by simp [hsnap])
    refine herased.trans (spares_of_update hn.1 (by rw [hrestored, get?_erase]) ?_)
    rw [get?_erase, Function.update_of_ne (by simp [documentName, snapshotName]), hdoc₃]
    simp
  · rw [hsame]
    exact spares_of_get? rfl

theorem spares_effect (hn : Foreign n) {d : Document} {page : String} {w : Workspace}
    {res : Except Error RuleUpdate} {p : Progress} (h : Effect r d page w res t p) :
    Spares n w.tree t := by
  have document : ∀ {t t' : Tree} {text res}, Replaced t w.home r.document text res t' →
      Spares n t t' := fun h => h.spares isName_documentName hn.1
  have page : ∀ {t t' : Tree} {text res}, Replaced t w.home r.page text res t' →
      Spares n t t' := fun h => h.spares isName_pageName hn.2.1
  cases h with
  | skipped => exact spares_of_get? rfl
  | unsaved new save => exact document save
  | unpaged new save due paged => exact (document save).trans (page paged)
  | founded new save due paged => exact (document save).trans (page paged)
  | foundedLater new save => exact document save
  | unread old read => exact spares_prior hn read
  | unextended old read save =>
    exact ((spares_prior hn read).trans (document save)).trans (spares_discarded hn.2.2)
  | unrefreshed old read save due paged =>
    have hsaved := (spares_prior hn read).trans (document save)
    exact (hsaved.trans (page paged)).trans (spares_restored hn save paged)
  | refreshed old read save due paged =>
    have hsaved := (spares_prior hn read).trans (document save)
    exact (hsaved.trans (page paged)).trans (spares_discarded hn.2.2)
  | extended old read save =>
    exact ((spares_prior hn read).trans (document save)).trans (spares_discarded hn.2.2)

theorem keeps_update (hn : Foreign n) (d : Document) (page : String) (th : Thread)
    (w : Workspace) : Keeps n w.tree ((r.update d page).run th w).2.tree :=
  (spares_effect hn (effect_update r d page th (Prod.eta _).symm)).keeps

end RuleSummary

/-! ## The bundle summary -/

namespace BundleSummary

theorem isName_pageName : IsName pageName := by decide

variable (b : BundleSummary) (th : Thread)

theorem still_content : b.content.Still := by
  refine (still_isPresent b.page).bind fun present => ?_
  split
  · exact still_readText b.page
  · exact ⟨rfl, fun _ => ⟨rfl, fun _ => trivial⟩⟩

/-- Adding a row writes the page or nothing. -/
theorem tree_append (report : Path) (d : Document) (w : Workspace) :
    ((b.append report d).run th w).2.tree = w.tree ∨
      ∃ text res, Replaced w.tree w.home b.page text res
        ((b.append report d).run th w).2.tree := by
  unfold append
  split
  · exact .inl rfl
  · rw [run_locked, Workspace.tree_left]
    obtain ⟨w₁, hrun₁, htree₁, hhome₁⟩ := b.still_content.run_bind _ th (w.entered th)
    rw [hrun₁]
    cases (b.content.run th (w.entered th)).1 with
    | error e => exact .inl htree₁
    | ok text =>
      simp only
      split
      · exact .inl htree₁
      · obtain ⟨w₂, hrun₂, htree₂, hhome₂⟩ := (still_absolute report).run_bind _ th w₁
        rw [hrun₂]
        obtain ⟨w₃, hrun₃, htree₃, hhome₃⟩ := (still_absolute b.dir).run_bind _ th w₂
        rw [hrun₃]
        have htree := (htree₃.trans htree₂).trans htree₁
        have hhome := (hhome₃.trans hhome₂).trans hhome₁
        split
        · exact .inl htree
        · next page _ =>
          obtain ⟨saved, t', hrun, hreplaced⟩ := run_replaceFile th w₃ b.page page
          rw [run_bind, hrun]
          rw [htree, hhome] at hreplaced
          refine .inr ⟨page, saved, ?_⟩
          cases saved <;> exact hreplaced

theorem keeps_append {n : String} (hn : n ≠ pageName) (report : Path) (d : Document)
    (w : Workspace) : Keeps n w.tree ((b.append report d).run th w).2.tree := by
  rcases b.tree_append th report d w with hsame | ⟨text, res, hreplaced⟩
  · exact keeps_of_get? (by rw [hsame])
  · exact hreplaced.keeps isName_pageName hn

end BundleSummary

end LintDigest
