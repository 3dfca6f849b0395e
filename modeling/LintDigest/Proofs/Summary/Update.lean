import LintDigest.Proofs.Storage.Replace
import LintDigest.Summary.Rule

/-!
# What an update of the rule summary does

`Effect` lists the ways in which an update can end, with the trees it goes through, and
`effect_update` says that there is no other. What an invariant or a frame needs is read off the
list, never off the script.
-/

namespace LintDigest.RuleSummary

open Script Storage LintDigest.Tree

theorem isName_documentName : IsName documentName := by decide

theorem isName_pageName : IsName pageName := by decide

theorem isName_snapshotName : IsName snapshotName := by decide

/-! ## The parts of an update -/

/-- The tree without the snapshot, if that can be removed. -/
def discarded (r : RuleSummary) (t : Tree) (cwd : Place) : Tree :=
  (t.remove cwd r.snapshot).toOption.getD t

/-- The tree with the snapshot in the document's place, if it can be put there. -/
def restored (r : RuleSummary) (t : Tree) (cwd : Place) : Tree :=
  (t.rename cwd r.snapshot r.document).toOption.getD t

/-- How the document so far can be read, and the tree that leaves behind. -/
inductive Prior (r : RuleSummary) (t : Tree) (cwd : Place) : Except Error Document → Tree → Prop
  | absent (missing : t.stat cwd r.document = none) : Prior r t cwd (.ok {}) t
  | uncopied {e : Error} {fault : FileFault} (found : (t.stat cwd r.document).isSome)
      (copy : t.copy cwd r.document r.snapshot = .error fault) : Prior r t cwd (.error e) t
  | copied {t' : Tree} (found : (t.stat cwd r.document).isSome)
      (copy : t.copy cwd r.document r.snapshot = .ok t') :
      Prior r t cwd (loaded t' cwd r.snapshot) t'

/-- Whether the summary has a document or a page, as the program sees it. -/
def Founded (r : RuleSummary) (t : Tree) (cwd : Place) : Prop :=
  (t.stat cwd r.document).isSome ∨ (t.stat cwd r.page).isSome

/-- What an update remembers if the page is not rendered. -/
def postponed (r : RuleSummary) (p : Progress) : Progress :=
  if r.regenerate ≠ .never then { p with pending := true } else p

@[simp] theorem updates_postponed (r : RuleSummary) (p : Progress) :
    (r.postponed p).updates = p.updates := by
  unfold postponed
  split <;> rfl

@[simp] theorem pending_postponed (r : RuleSummary) (p : Progress) :
    (r.postponed p).pending = (p.pending || decide (r.regenerate ≠ .never)) := by
  unfold postponed
  split <;> simp [*]

/-- The number of an update is counted before anything else. -/
def counted (w : Workspace) : Progress :=
  { w.progress with updates := w.progress.updates + 1 }

theorem run_discard (r : RuleSummary) (th : Thread) (w : Workspace) :
    ∃ events, r.discard.run th w =
      ((), { w with tree := r.discarded w.tree w.home, events }) := by
  rw [discard, discarded, run_isPresent_bind]
  cases hs : (w.tree.stat w.home r.snapshot).isSome with
  | true =>
    simp only [if_true, request, ask_bind, done_bind, run, Workspace.answer]
    cases w.tree.remove w.home r.snapshot with
    | error e => exact ⟨_, rfl⟩
    | ok t' => exact ⟨w.events, rfl⟩
  | false =>
    obtain ⟨e, he⟩ := remove_of_stat_none isName_snapshotName
      (Option.isNone_iff_eq_none.1 (Option.isSome_eq_false_iff.1 hs))
    rw [snapshot, he]
    exact ⟨w.events, rfl⟩

theorem run_restore (r : RuleSummary) (th : Thread) (w : Workspace) :
    ∃ events, r.restore.run th w =
      ((), { w with tree := r.restored w.tree w.home, events }) := by
  rw [restore, restored, run_isPresent_bind]
  cases hs : (w.tree.stat w.home r.snapshot).isSome with
  | true =>
    simp only [if_true, request, ask_bind, done_bind, run, Workspace.answer]
    cases w.tree.rename w.home r.snapshot r.document with
    | error e => exact ⟨_, rfl⟩
    | ok t' => exact ⟨w.events, rfl⟩
  | false =>
    obtain ⟨e, he⟩ := rename_of_stat_none (q := r.document) isName_snapshotName
      (Option.isNone_iff_eq_none.1 (Option.isSome_eq_false_iff.1 hs))
    rw [snapshot, he]
    exact ⟨w.events, rfl⟩

theorem run_prior (r : RuleSummary) (th : Thread) (w : Workspace) :
    ∃ res t', r.prior.run th w = (res, { w with tree := t' }) ∧
      Prior r w.tree w.home res t' := by
  rw [prior, run_isPresent_bind]
  cases hs : (w.tree.stat w.home r.document).isSome with
  | true =>
    simp only [if_true, request, ask_bind, done_bind, run, Workspace.answer]
    cases hcopy : w.tree.copy w.home r.document r.snapshot with
    | error e => exact ⟨_, w.tree, rfl, .uncopied hs hcopy⟩
    | ok t' =>
      simp only [Workspace.change, run_loadDocument]
      exact ⟨_, t', rfl, .copied hs hcopy⟩
  | false => exact ⟨_, w.tree, rfl, .absent (by simpa using hs)⟩

/-- The page of a first module: written if it is due, else noted. -/
theorem run_foundPage (r : RuleSummary) (n : Nat) (modulePage : String) (th : Thread)
    (w : Workspace) :
    (r.due n = true ∧ ∃ res t', (r.foundPage n modulePage).run th w = (res, { w with tree := t' }) ∧
      Replaced w.tree w.home r.page modulePage res t') ∨
    (r.due n = false ∧ (r.foundPage n modulePage).run th w =
      (.ok (), { w with progress := { w.progress with pending := r.regenerate ≠ .never } })) := by
  unfold foundPage
  cases r.due n with
  | true => exact .inl ⟨rfl, run_replaceFile ..⟩
  | false => exact .inr ⟨rfl, rfl⟩

theorem run_refresh (r : RuleSummary) (n : Nat) (merged : Document) (th : Thread)
    (w : Workspace) :
    (r.due n = true ∧ ∃ res t', Replaced w.tree w.home r.page (frame.render w.now merged) res t' ∧
      (r.refresh n merged).run th w =
        match res with
        | .error e => (.error e, { w with tree := t' })
        | .ok () => (.ok true, { w with
            tree := t'
            progress := { w.progress with pending := false } })) ∨
    (r.due n = false ∧ (r.refresh n merged).run th w =
      (.ok false, { w with progress := r.postponed w.progress })) := by
  unfold refresh
  cases r.due n with
  | true =>
    refine .inl ⟨rfl, ?_⟩
    obtain ⟨res, t', hrun, hreplaced⟩ :=
      run_replaceFile th w r.page (frame.render w.now merged)
    refine ⟨res, t', hreplaced, ?_⟩
    simp only [if_true, request, ask_bind, done_bind, run, Workspace.answer, run_bind, hrun]
    cases res <;> rfl
  | false =>
    refine .inr ⟨rfl, ?_⟩
    unfold postponed
    by_cases hnever : r.regenerate = .never
    · simp [hnever]
    · simp [hnever, request, run, Workspace.answer]

/-! ## The whole update -/

/-- The ways in which an update can end: its result, its tree and what it remembers. -/
inductive Effect (r : RuleSummary) (d : Document) (modulePage : String) (w : Workspace) :
    Except Error RuleUpdate → Tree → Progress → Prop
  | skipped (empty : d.isEmpty = true) : Effect r d modulePage w (.ok .skipped) w.tree w.progress
  | unsaved {e : Error} {t₁ : Tree} (new : ¬ r.Founded w.tree w.home)
      (save : Replaced w.tree w.home r.document d.toXml (.error e) t₁) :
      Effect r d modulePage w (.error e) t₁ (counted w)
  | unpaged {e : Error} {t₁ t₂ : Tree} (new : ¬ r.Founded w.tree w.home)
      (save : Replaced w.tree w.home r.document d.toXml (.ok ()) t₁)
      (due : r.due (w.progress.updates + 1) = true)
      (page : Replaced t₁ w.home r.page modulePage (.error e) t₂) :
      Effect r d modulePage w (.error e) t₂ (counted w)
  | founded {t₁ t₂ : Tree} (new : ¬ r.Founded w.tree w.home)
      (save : Replaced w.tree w.home r.document d.toXml (.ok ()) t₁)
      (due : r.due (w.progress.updates + 1) = true)
      (page : Replaced t₁ w.home r.page modulePage (.ok ()) t₂) :
      Effect r d modulePage w (.ok .initial) t₂ (counted w)
  | foundedLater {t₁ : Tree} (new : ¬ r.Founded w.tree w.home)
      (save : Replaced w.tree w.home r.document d.toXml (.ok ()) t₁)
      (due : r.due (w.progress.updates + 1) = false) :
      Effect r d modulePage w (.ok .initial) t₁
        { counted w with pending := r.regenerate ≠ .never }
  | unread {e : Error} {t₁ : Tree} (old : r.Founded w.tree w.home)
      (read : r.Prior w.tree w.home (.error e) t₁) :
      Effect r d modulePage w (.error e) t₁ (counted w)
  | unextended {e : Error} {prior : Document} {t₁ t₂ : Tree} (old : r.Founded w.tree w.home)
      (read : r.Prior w.tree w.home (.ok prior) t₁)
      (save : Replaced t₁ w.home r.document (prior.merge d).toXml (.error e) t₂) :
      Effect r d modulePage w (.error e) (r.discarded t₂ w.home) (counted w)
  | unrefreshed {e : Error} {prior : Document} {t₁ t₂ t₃ : Tree} (old : r.Founded w.tree w.home)
      (read : r.Prior w.tree w.home (.ok prior) t₁)
      (save : Replaced t₁ w.home r.document (prior.merge d).toXml (.ok ()) t₂)
      (due : r.due (w.progress.updates + 1) = true)
      (page : Replaced t₂ w.home r.page (frame.render w.now (prior.merge d)) (.error e) t₃) :
      Effect r d modulePage w (.error e) (r.restored t₃ w.home) (counted w)
  | refreshed {prior : Document} {t₁ t₂ t₃ : Tree} (old : r.Founded w.tree w.home)
      (read : r.Prior w.tree w.home (.ok prior) t₁)
      (save : Replaced t₁ w.home r.document (prior.merge d).toXml (.ok ()) t₂)
      (due : r.due (w.progress.updates + 1) = true)
      (page : Replaced t₂ w.home r.page (frame.render w.now (prior.merge d)) (.ok ()) t₃) :
      Effect r d modulePage w (.ok (.merged true)) (r.discarded t₃ w.home)
        { counted w with pending := false }
  | extended {prior : Document} {t₁ t₂ : Tree} (old : r.Founded w.tree w.home)
      (read : r.Prior w.tree w.home (.ok prior) t₁)
      (save : Replaced t₁ w.home r.document (prior.merge d).toXml (.ok ()) t₂)
      (due : r.due (w.progress.updates + 1) = false) :
      Effect r d modulePage w (.ok (.merged false)) (r.discarded t₂ w.home)
        (r.postponed (counted w))

variable (r : RuleSummary) (d : Document) (modulePage : String) (th : Thread)

theorem run_isFounded (w : Workspace) :
    ∃ b : Bool, (b = true ↔ r.Founded w.tree w.home) ∧ r.isFounded.run th w = (b, w) := by
  rw [isFounded, run_isPresent_bind]
  cases hs : (w.tree.stat w.home r.document).isSome with
  | true => exact ⟨true, by simp [Founded, hs], rfl⟩
  | false =>
    refine ⟨(w.tree.stat w.home r.page).isSome, by simp [Founded, hs], rfl⟩

/-- The workspace of an update that has the lock and has been counted. -/
def begun (w : Workspace) (th : Thread) : Workspace :=
  { w.entered th with progress := counted w }

variable {w : Workspace} {res : Except Error RuleUpdate} {w' : Workspace}

/-- Founding a summary. -/
theorem effect_found (new : ¬ r.Founded w.tree w.home)
    (h : (r.found (w.progress.updates + 1) d modulePage).run th (begun w th) = (res, w')) :
    Effect r d modulePage w res w'.tree w'.progress := by
  unfold found saveDocument at h
  obtain ⟨saved, t₁, hrun, hsave⟩ := run_replaceFile th (begun w th) r.document d.toXml
  rw [run_bind, hrun] at h
  cases saved with
  | error e =>
    cases h
    exact .unsaved new hsave
  | ok u =>
    simp only [run_bind] at h
    rcases run_foundPage r (w.progress.updates + 1) modulePage th { begun w th with tree := t₁ } with
      ⟨hdue, paged, t₂, hpaged, hpage⟩ | ⟨hdue, hpaged⟩
    · rw [hpaged] at h
      cases paged with
      | error e =>
        cases h
        exact .unpaged new hsave hdue hpage
      | ok u =>
        cases h
        exact .founded new hsave hdue hpage
    · rw [hpaged] at h
      cases h
      exact .foundedLater new hsave hdue

/-- Extending a summary. -/
theorem effect_extend (old : r.Founded w.tree w.home)
    (h : (r.extend (w.progress.updates + 1) d).run th (begun w th) = (res, w')) :
    Effect r d modulePage w res w'.tree w'.progress := by
  unfold extend saveDocument at h
  obtain ⟨read, t₁, hrun, hread⟩ := run_prior r th (begun w th)
  rw [run_bind, hrun] at h
  cases read with
  | error e =>
    cases h
    exact .unread old hread
  | ok prior =>
    obtain ⟨saved, t₂, hsaved, hsave⟩ :=
      run_replaceFile th { begun w th with tree := t₁ } r.document (prior.merge d).toXml
    simp only [run_bind, hsaved] at h
    cases saved with
    | error e =>
      obtain ⟨events, hdiscard⟩ := run_discard r th { begun w th with tree := t₂ }
      simp only [run_bind, hdiscard] at h
      cases h
      exact .unextended old hread hsave
    | ok u =>
      simp only [run_bind] at h
      rcases run_refresh r (w.progress.updates + 1) (prior.merge d) th { begun w th with tree := t₂ } with
        ⟨hdue, paged, t₃, hpage, hpaged⟩ | ⟨hdue, hpaged⟩
      · rw [hpaged] at h
        cases paged with
        | error e =>
          obtain ⟨events, hrestore⟩ := run_restore r th { begun w th with tree := t₃ }
          simp only [run_bind, hrestore] at h
          cases h
          exact .unrefreshed old hread hsave hdue hpage
        | ok u =>
          obtain ⟨events, hdiscard⟩ := run_discard r th
            { begun w th with tree := t₃, progress := { (begun w th).progress with pending := false } }
          simp only [run_bind, hdiscard] at h
          cases h
          exact .refreshed old hread hsave hdue hpage
      · obtain ⟨events, hdiscard⟩ := run_discard r th
          { begun w th with tree := t₂, progress := r.postponed (begun w th).progress }
        rw [hpaged] at h
        simp only [run_bind, hdiscard] at h
        cases h
        exact .extended old hread hsave hdue

/-- Every update ends in one of the listed ways. -/
theorem effect_update (h : (r.update d modulePage).run th w = (res, w')) :
    Effect r d modulePage w res w'.tree w'.progress := by
  unfold update at h
  split at h
  · next hempty =>
    cases h
    exact .skipped hempty
  · -- The update is counted under the lock, before it looks at the files.
    obtain ⟨b, hb, hfounded⟩ := r.run_isFounded th (begun w th)
    have hbody : ((do
        let n ← request .countUpdate
        if ← r.isFounded then r.extend n d else r.found n d modulePage :
          Script (Except Error RuleUpdate)).run th (w.entered th)) =
        (if b then r.extend (w.progress.updates + 1) d
          else r.found (w.progress.updates + 1) d modulePage).run th (begun w th) := by
      rw [run_bind]
      show (r.isFounded >>= _).run th (begun w th) = _
      rw [run_bind, hfounded]
      rfl
    rw [run_locked, hbody] at h
    obtain ⟨rfl, rfl⟩ := Prod.mk.inj h
    rw [Workspace.tree_left, Workspace.progress_left]
    cases b with
    | true =>
      rw [if_pos rfl]
      exact effect_extend r d modulePage th (hb.1 rfl) (Prod.eta _).symm
    | false =>
      rw [if_neg Bool.false_ne_true]
      have hnew : ¬ r.Founded w.tree w.home := fun h => Bool.false_ne_true (hb.2 h)
      exact effect_found r d modulePage th hnew (Prod.eta _).symm

/-! ## Rendering at the end -/

/-- The end of a session writes the page or nothing. -/
theorem tree_finish {r : RuleSummary} {th : Thread} {w w' : Workspace} {res : Except Error Bool}
    (h : r.finish.run th w = (res, w')) :
    w'.tree = w.tree ∨
      ∃ merged saved, loaded w.tree w.home r.document = .ok merged ∧
        Replaced w.tree w.home r.page (frame.render w.now merged) saved w'.tree := by
  rw [finish, run_takePending_bind] at h
  cases hpending : w.progress.pending with
  | false =>
    rw [hpending] at h
    cases h
    exact .inl rfl
  | true =>
    rw [hpending, if_pos rfl, run_locked] at h
    obtain ⟨-, rfl⟩ := Prod.mk.inj h
    rw [Workspace.tree_left, run_bind, run_loadDocument]
    simp only [Workspace.tree_entered, Workspace.home_entered]
    cases hread : loaded w.tree w.home r.document with
    | error e => exact .inl rfl
    | ok merged =>
      obtain ⟨saved, t', hrun, hreplaced⟩ := run_replaceFile th
        ({ w with progress := { w.progress with pending := false } }.entered th) r.page
        (frame.render w.now merged)
      refine .inr ⟨merged, saved, rfl, ?_⟩
      simp only [request, ask_bind, done_bind, run, Workspace.answer, run_bind]
      have hnow : (({ w with progress := { w.progress with pending := false } } :
        Workspace).entered th).now = w.now := rfl
      rw [hnow, hrun]
      cases saved <;> exact hreplaced

/-! ## Where the files are

From here on the directory of the summary leads to a place, and the three files are names there. -/

section

variable {r : RuleSummary} {t : Tree} {cwd place : Place}

/-- A snapshot that is a file can be removed, and nothing else can. -/
theorem discarded_cases (hlead : LeadsTo t cwd r.dir place) :
    (Walkable r.snapshot ∧ (∃ c, t.get? (snapshotName :: place) = some (.file c)) ∧
      (r.discarded t cwd).get? = Function.update t.get? (snapshotName :: place) none) ∨
    (¬ (Walkable r.snapshot ∧ ∃ c, t.get? (snapshotName :: place) = some (.file c)) ∧
      r.discarded t cwd = t) := by
  by_cases h : Walkable r.snapshot ∧ ∃ c, t.get? (snapshotName :: place) = some (.file c)
  · obtain ⟨hw, c, hc⟩ := h
    have hremove : t.remove cwd r.snapshot = .ok (t.erase (snapshotName :: place)) :=
      (remove_div isName_snapshotName).2 ⟨hw, place, c, hlead, hc, rfl⟩
    refine .inl ⟨hw, ⟨c, hc⟩, ?_⟩
    rw [discarded, hremove]
    exact get?_erase ..
  · refine .inr ⟨h, ?_⟩
    rw [discarded]
    cases hremove : t.remove cwd r.snapshot with
    | error e => rfl
    | ok t' =>
      obtain ⟨hw, place', c, hlead', hc, -⟩ := (remove_div isName_snapshotName).1 hremove
      obtain rfl := hlead.unique hlead'
      exact absurd ⟨hw, c, hc⟩ h

theorem spares_discarded {n : String} (hn : n ≠ snapshotName) :
    Spares n t (r.discarded t cwd) := by
  rw [discarded]
  cases hremove : t.remove cwd r.snapshot with
  | error e => exact spares_of_get? rfl
  | ok t' =>
    obtain ⟨-, place, c, -, hc, rfl⟩ := (remove_div isName_snapshotName).1 hremove
    exact spares_of_update hn (get?_erase ..) (by simp [hc])

/-- A snapshot that is a file can be put in the place of a document that is one. -/
theorem restored_cases (hlead : LeadsTo t cwd r.dir place) (hw : Walkable r.document)
    {c' : Content} (hdoc : t.get? (documentName :: place) = some (.file c')) :
    (∃ c, Walkable r.snapshot ∧ t.get? (snapshotName :: place) = some (.file c) ∧
      (r.restored t cwd).get? =
        Function.update (Function.update t.get? (snapshotName :: place) none)
          (documentName :: place) (some (.file c))) ∨
    (¬ (Walkable r.snapshot ∧ ∃ c, t.get? (snapshotName :: place) = some (.file c)) ∧
      r.restored t cwd = t) := by
  have hne : snapshotName :: place ≠ documentName :: place := by
    intro h
    exact absurd (List.cons.inj h).1 (by decide)
  have hdocument : t.spot cwd r.document = .ok (.child place documentName false) :=
    (spot_div isName_documentName).2 ⟨hw, place, hlead, rfl⟩
  by_cases h : Walkable r.snapshot ∧ ∃ c, t.get? (snapshotName :: place) = some (.file c)
  · obtain ⟨hws, c, hc⟩ := h
    have hsnapshot : t.spot cwd r.snapshot = .ok (.child place snapshotName false) :=
      (spot_div isName_snapshotName).2 ⟨hws, place, hlead, rfl⟩
    have hrename := (rename_file (q := r.document) hsnapshot hc).2
      ⟨place, documentName, hdocument, by simp [hdoc], rfl⟩
    refine .inl ⟨c, hws, hc, ?_⟩
    rw [restored, hrename, if_neg hne]
    show ((t.erase _).put _ _).get? = _
    rw [get?_put, get?_erase]
  · refine .inr ⟨h, ?_⟩
    rw [restored]
    cases hrename : t.rename cwd r.snapshot r.document with
    | error e => rfl
    | ok t' =>
      exfalso
      rw [rename] at hrename
      simp only [bind_eq_ok] at hrename
      obtain ⟨_, -, _, -, source, hsource, target, htarget, hrename⟩ := hrename
      obtain ⟨hws, place', hlead', rfl⟩ := (spot_div isName_snapshotName).1 hsource
      obtain rfl := hlead.unique hlead'
      rw [hdocument] at htarget
      cases htarget
      simp only [hdoc] at hrename
      -- Neither nothing nor a directory takes the place of a file.
      cases hs : t.get? (snapshotName :: place) with
      | none => simp [hs] at hrename
      | some e =>
        cases e with
        | file c => exact h ⟨hws, c, hs⟩
        | dir =>
          simp only [hs, if_neg hne] at hrename
          split at hrename
          · cases hrename
          · split at hrename
            · cases hrename
            · cases hrename

/-- A document that is a file stays one, whatever snapshot is put in its place. -/
theorem restored_document (hlead : LeadsTo t cwd r.dir place) (hw : Walkable r.document)
    {c' : Content} (hdoc : t.get? (documentName :: place) = some (.file c')) :
    LeadsTo (r.restored t cwd) cwd r.dir place ∧
      ∃ c, (r.restored t cwd).get? (documentName :: place) = some (.file c) := by
  rcases restored_cases hlead hw hdoc with ⟨c, -, hsnap, hview⟩ | ⟨-, hsame⟩
  · refine ⟨hlead.mono fun q hq => ?_, c, by rw [hview, Function.update_self]⟩
    have hqd : q ≠ documentName :: place := by
      rintro rfl
      rw [hdoc] at hq
      cases hq
    have hqs : q ≠ snapshotName :: place := by
      rintro rfl
      rw [hsnap] at hq
      cases hq
    rw [hview, Function.update_of_ne hqd, Function.update_of_ne hqs]
    exact hq
  · rw [hsame]
    exact ⟨hlead, c', hdoc⟩

/-- The document so far is missing, cannot be copied, or is in the snapshot now. -/
theorem prior_cases (hlead : LeadsTo t cwd r.dir place) {res : Except Error Document} {t₁ : Tree}
    (h : r.Prior t cwd res t₁) :
    (t.stat cwd r.document = none ∧ res = .ok {} ∧ t₁ = t) ∨
    (t.stat cwd r.document ≠ none ∧ (∃ e, res = .error e) ∧ t₁ = t ∧
      ∃ fault, t.copy cwd r.document r.snapshot = .error fault) ∨
    (∃ c, Walkable r.document ∧ Walkable r.snapshot ∧
      t.get? (documentName :: place) = some (.file c) ∧
      t.get? (snapshotName :: place) ≠ some .dir ∧
      t₁.get? = Function.update t.get? (snapshotName :: place) (some (.file c)) ∧
      res = decoded r.snapshot c) := by
  cases h with
  | absent missing => exact .inl ⟨missing, rfl, rfl⟩
  | uncopied found copy =>
    refine .inr (.inl ⟨?_, ⟨_, rfl⟩, rfl, _, copy⟩)
    rintro hnone
    rw [hnone] at found
    cases found
  | copied found copy =>
    obtain ⟨hwd, hws, place', c, hlead', hdoc, hsnap, rfl⟩ :=
      (copy_div isName_documentName isName_snapshotName).1 copy
    obtain rfl := hlead.unique hlead'
    have hview := get?_put t snapshotName place (.file c)
    have hresolve : (t.put (snapshotName :: place) (.file c)).resolve cwd r.snapshot =
        .ok (snapshotName :: place, .file c) := by
      refine (resolve_div isName_snapshotName).2 ⟨hws, place, ?_, rfl, ?_⟩
      · exact hlead.mono (dirsKept_of_update hview hsnap)
      · rw [hview, Function.update_self]
    exact .inr (.inr ⟨c, hwd, hws, hdoc, hsnap, hview, loaded_of_resolve hresolve⟩)

end

end LintDigest.RuleSummary
