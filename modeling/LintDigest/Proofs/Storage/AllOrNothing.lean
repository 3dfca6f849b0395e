import LintDigest.Proofs.Tree.Aim

/-!
# All or nothing

A file that is written as a whole can be read back at once, and a write that fails has touched no
file (`replaceFile_all_or_nothing`). Either way the only entries that are new besides the file itself
are directories to which the lexical parents of its path lead.
-/

namespace LintDigest.Storage

open Script LintDigest.Tree

/-- `q` was free and has become a directory, to which the parent of `p` or one of its own lexical
parents leads. -/
def Opened (t t' : Tree) (cwd : Place) (p : Path) (q : Place) : Prop :=
  t.get? q = none ∧ t'.get? q = some .dir ∧
    ∃ parent, p.parent? = some parent ∧ ∃ a ∈ parent.ancestors, LeadsTo t' cwd a q

section

variable {t t' : Tree} {cwd q : Place} {p : Path} {text : String}

/-- Preparing to write opens directories and changes nothing else. -/
theorem prepared_or_opened (t : Tree) (cwd : Place) (p : Path) (q : Place) :
    (prepared t cwd p).get? q = t.get? q ∨ Opened t (prepared t cwd p) cwd p q := by
  rcases makeDirs_grown t cwd (directoryOf p) q with hsame | ⟨hnone, hdir⟩
  · exact .inl hsame
  · have hnew : (t.makeDirs cwd (directoryOf p)).2.get? q ≠ t.get? q := by
      rw [hnone, hdir]
      simp
    obtain ⟨a, ha, hsteps, hlead⟩ := makeDirsAlong_changes hnew
    refine .inr ⟨hnone, hdir, ?_⟩
    -- Where `.` stands in for a parent, there is nothing to be opened.
    have hhere : ∀ a ∈ (⟨"."⟩ : Path).ancestors, steps a = [] := by decide
    unfold directoryOf at ha
    split at ha
    · next parent hparent =>
      split at ha
      · exact absurd (hhere a ha) hsteps
      · exact ⟨parent, hparent, a, ha, hlead⟩
    · exact absurd (hhere a ha) hsteps

theorem Opened.of_dirsKept {t₁ : Tree} (h : Opened t t₁ cwd p q) (hkept : DirsKept t₁ t') :
    Opened t t' cwd p q := by
  obtain ⟨hnone, hdir, parent, hparent, a, ha, hlead⟩ := h
  exact ⟨hnone, hkept q hdir, parent, hparent, a, ha, hlead.mono hkept⟩

theorem Replaced.written_or_opened (h : Replaced t cwd p text (.ok ()) t') (hq : q ≠ aim cwd p) :
    t'.get? q = t.get? q ∨ Opened t t' cwd p q := by
  cases h with
  | @written _ place n able spot free result =>
    rw [← eq_aim_of_spot spot] at hq
    have hview : t'.get? q = (prepared t cwd p).get? q := by rw [result, Function.update_of_ne hq]
    rcases prepared_or_opened t cwd p q with hsame | hopened
    · exact .inl (hview.trans hsame)
    · exact .inr (hopened.of_dirsKept (dirsKept_of_update result free))

theorem Replaced.failed_or_opened {e : Error} (h : Replaced t cwd p text (.error e) t') (q : Place) :
    t'.get? q = t.get? q ∨ Opened t t' cwd p q := by
  cases h with
  | failed unable result =>
    rcases prepared_or_opened t cwd p q with hsame | hopened
    · exact .inl ((congrFun result q).trans hsame)
    · exact .inr (hopened.of_dirsKept (dirsKept_of_get? result))

end

/-- Writing a file succeeds exactly when its path can be written. Then the path reads as the text, and
every other entry is what it was or a directory opened on the way to the path. If it fails, every
entry is what it was, but for such directories. -/
theorem replaceFile_all_or_nothing {th : Thread} {w w' : Workspace} {p : Path} {text : String}
    {res : Except Error Unit} (h : (replaceFile p text).run th w = (res, w')) :
    w' = { w with tree := w'.tree } ∧
      (res = .ok () ↔ Writable w.tree w.home p) ∧
      (res = .ok () → (readText p).run th w' = (.ok text, w') ∧
        ∀ q ≠ aim w.home p, w'.tree.get? q = w.tree.get? q ∨
          Opened w.tree w'.tree w.home p q) ∧
      ∀ e, res = .error e → ∀ q, w'.tree.get? q = w.tree.get? q ∨
        Opened w.tree w'.tree w.home p q := by
  obtain ⟨res', t', hrun, hreplaced⟩ := run_replaceFile th w p text
  obtain ⟨rfl, rfl⟩ := Prod.mk.inj (hrun.symm.trans h)
  refine ⟨rfl, hreplaced.isOk_iff, ?_, ?_⟩
  · rintro rfl
    refine ⟨?_, fun q hq => hreplaced.written_or_opened hq⟩
    simp only [readText, request, ask_bind, done_bind, run, Workspace.answer, hreplaced.read_eq]
    rfl
  · rintro e rfl
    exact hreplaced.failed_or_opened

/-- A workspace with one file, `old`. -/
def oneFile : Workspace where
  tree := ⟨[(["old"], .file (.text "one"))]⟩
  lock := ⟨"summary", none, 0⟩

/-- A file behind directories that are missing, and one below a file. -/
theorem replaceFile_all_or_nothing_nested :
    (∃ w', (replaceFile ⟨"new/../deep/x"⟩ "two").run "main" oneFile = (.ok (), w') ∧
      (readText ⟨"new/../deep/x"⟩).run "main" w' = (.ok "two", w') ∧
      w'.tree.get? ["old"] = some (.file (.text "one"))) ∧
    ∃ e w', (replaceFile ⟨"new/../old/x"⟩ "two").run "main" oneFile = (.error e, w') ∧
      w'.tree.get? ["old"] = some (.file (.text "one")) ∧ w'.tree.get? ["new"] = some .dir ∧
      Opened oneFile.tree w'.tree [] ⟨"new/../old/x"⟩ ["new"] := by
  have hold : oneFile.tree.get? ["old"] = some (.file (.text "one")) := by decide +kernel
  have hunopened : ∀ {t' : Tree} {p : Path}, ¬ Opened oneFile.tree t' oneFile.home p ["old"] := by
    intro t' p hopened
    have hfree := hopened.1
    simp [hold] at hfree
  constructor
  · have hok : ((replaceFile ⟨"new/../deep/x"⟩ "two").run "main" oneFile).1.toOption = some () := by
      decide +kernel
    have haim : ["old"] ≠ aim oneFile.home ⟨"new/../deep/x"⟩ := by decide +kernel
    generalize hrun : (replaceFile ⟨"new/../deep/x"⟩ "two").run "main" oneFile = outcome at hok
    obtain ⟨res, w'⟩ := outcome
    obtain rfl := eq_ok_of_toOption hok
    obtain ⟨-, -, hdone, -⟩ := replaceFile_all_or_nothing hrun
    obtain ⟨hread, hothers⟩ := hdone rfl
    exact ⟨w', rfl, hread, ((hothers _ haim).resolve_right hunopened).trans hold⟩
  · have hfails : ((replaceFile ⟨"new/../old/x"⟩ "two").run "main" oneFile).1.toOption = none := by
      decide +kernel
    have hnew : ((replaceFile ⟨"new/../old/x"⟩ "two").run "main" oneFile).2.tree.get? ["new"] =
        some .dir := by decide +kernel
    have hfree : oneFile.tree.get? ["new"] ≠ some .dir := by decide +kernel
    generalize hrun : (replaceFile ⟨"new/../old/x"⟩ "two").run "main" oneFile = outcome
      at hfails hnew
    obtain ⟨res, w'⟩ := outcome
    cases res with
    | ok u => simp [Except.toOption] at hfails
    | error e =>
      obtain ⟨-, -, -, hfailed⟩ := replaceFile_all_or_nothing hrun
      have hothers := hfailed e rfl
      refine ⟨e, w', rfl, ((hothers _).resolve_right hunopened).trans hold, hnew, ?_⟩
      exact (hothers _).resolve_left fun hsame => hfree (hsame.symm.trans hnew)

end LintDigest.Storage
