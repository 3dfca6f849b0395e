import LintDigest.Proofs.Summary.Update

/-!
# What a failed update leaves behind

A failed update should leave the three files of the summary as they were, and does not always:
`failed_update_undone_iff` says exactly when it does. It does not when the document cannot be read,
since the snapshot stays; when there was a snapshot before, since it is overwritten and then removed;
and when the document was new and only the page fails, since the document stays.
-/

namespace LintDigest

/-- What stands at a path. -/
def Tree.entry (t : Tree) (cwd : Place) (p : Path) : Option Entry :=
  (t.resolve cwd p).toOption.map (·.2)

namespace RuleSummary

open Script Storage LintDigest.Tree

/-- The files of the summary. -/
def files (r : RuleSummary) : List Path := [r.document, r.page, r.snapshot]

/-- The files of the summary are in `t'` what they are in `t`. -/
def SameFiles (r : RuleSummary) (cwd : Place) (t t' : Tree) : Prop :=
  ∀ p ∈ r.files, t'.entry cwd p = t.entry cwd p

/-- The document can be read. -/
def Readable (r : RuleSummary) (t : Tree) (cwd : Place) : Prop :=
  ∃ d, loaded t cwd r.document = .ok d

/-- The states from which a failed update leaves the files of the summary as they were. With a
document, no snapshot could be taken, or there was none and the document could be read, or it could
not and the snapshot was the same already. Without one, the document could not be written, no
directory created for it is one of the files, and there was no old snapshot to be removed. -/
def Undoes (r : RuleSummary) (t : Tree) (cwd : Place) : Prop :=
  if t.entry cwd r.document = none then
    ¬ Writable t cwd r.document ∧ r.SameFiles cwd t (prepared t cwd r.document) ∧
      (t.entry cwd r.page ≠ none → ∀ c, t.entry cwd r.snapshot ≠ some (.file c))
  else
    (∃ fault, t.copy cwd r.document r.snapshot = .error fault) ∨
      (r.Readable t cwd ∧ t.entry cwd r.snapshot = none) ∨
      (¬ r.Readable t cwd ∧ t.entry cwd r.snapshot = t.entry cwd r.document)

section

variable {r : RuleSummary} {t t' : Tree} {cwd place : Place} {dir : Path} {n : String}

/-! ## Entries by path -/

theorem entry_congr (h : t'.get? = t.get?) (p : Path) : t'.entry cwd p = t.entry cwd p := by
  rw [Tree.entry, Tree.entry, resolve_congr h]

theorem entry_eq_none_iff {p : Path} : t.entry cwd p = none ↔ t.stat cwd p = none := by
  unfold Tree.entry stat
  cases t.resolve cwd p <;> simp [Except.toOption]

theorem entry_of_leadsTo (hn : IsName n) (hlead : LeadsTo t cwd dir place)
    (hw : Walkable (dir / n)) : t.entry cwd (dir / n) = t.get? (n :: place) := by
  cases he : t.get? (n :: place) with
  | some e =>
    have hresolve := (resolve_div hn).2 ⟨hw, place, hlead, rfl, he⟩
    rw [Tree.entry, hresolve]
    rfl
  | none =>
    rw [entry_eq_none_iff, ← Option.not_isSome_iff_eq_none, stat_div_isSome hn]
    rintro ⟨-, place', hlead', hsome⟩
    rw [← hlead.unique hlead', he] at hsome
    cases hsome

theorem entry_of_not_walkable (hn : IsName n) (hw : ¬ Walkable (dir / n)) :
    t.entry cwd (dir / n) = none := by
  rw [entry_eq_none_iff, ← Option.not_isSome_iff_eq_none, stat_div_isSome hn]
  exact fun h => hw h.1

/-- Where the entry of a name did not change, neither did the entry of its path. -/
theorem entry_same (hn : IsName n) (hlead : LeadsTo t cwd dir place)
    (hlead' : LeadsTo t' cwd dir place) (h : t'.get? (n :: place) = t.get? (n :: place)) :
    t'.entry cwd (dir / n) = t.entry cwd (dir / n) := by
  by_cases hw : Walkable (dir / n)
  · rw [entry_of_leadsTo hn hlead hw, entry_of_leadsTo hn hlead' hw, h]
  · rw [entry_of_not_walkable hn hw, entry_of_not_walkable hn hw]

theorem SameFiles.of_get? (h : t'.get? = t.get?) : r.SameFiles cwd t t' :=
  fun p _ => entry_congr h p

/-- When only the snapshot changed, the files are the same if the snapshot is. -/
theorem sameFiles_of_snapshot {x : Option Entry} (hlead : LeadsTo t cwd r.dir place)
    (hw : Walkable r.snapshot) (hdir : t.get? (snapshotName :: place) ≠ some .dir)
    (h : t'.get? = Function.update t.get? (snapshotName :: place) x) :
    r.SameFiles cwd t t' ↔ t.get? (snapshotName :: place) = x := by
  have hlead' := hlead.mono (dirsKept_of_update h hdir)
  have hother : ∀ n, n ≠ snapshotName → t'.get? (n :: place) = t.get? (n :: place) := by
    intro n hn
    rw [h, Function.update_of_ne fun e => hn (List.cons.inj e).1]
  have hsnapshot : t.entry cwd r.snapshot = t.get? (snapshotName :: place) :=
    entry_of_leadsTo isName_snapshotName hlead hw
  have hsnapshot' : t'.entry cwd r.snapshot = x := by
    rw [snapshot, entry_of_leadsTo isName_snapshotName hlead' hw, h, Function.update_self]
  constructor
  · intro hsame
    have := hsame r.snapshot (by simp [files])
    rw [hsnapshot, hsnapshot'] at this
    exact this.symm
  · intro hx p hp
    simp only [files, List.mem_cons, List.not_mem_nil, or_false] at hp
    rcases hp with rfl | rfl | rfl
    · exact entry_same isName_documentName hlead hlead' (hother _ (by decide))
    · exact entry_same isName_pageName hlead hlead' (hother _ (by decide))
    · rw [hsnapshot, hsnapshot', hx]

/-! ## Once a snapshot has been taken -/

theorem undoes_copied {c : Content} (hlead : LeadsTo t cwd r.dir place)
    (hwd : Walkable r.document) (hws : Walkable r.snapshot)
    (hdoc : t.get? (documentName :: place) = some (.file c))
    (hdir : t.get? (snapshotName :: place) ≠ some .dir) :
    r.Undoes t cwd ↔ t.get? (snapshotName :: place) =
      match decoded r.snapshot c with
      | .ok _ => none
      | .error _ => some (.file c) := by
  have hdocument : t.entry cwd r.document = some (.file c) :=
    (entry_of_leadsTo isName_documentName hlead hwd).trans hdoc
  have hsnapshot : t.entry cwd r.snapshot = t.get? (snapshotName :: place) :=
    entry_of_leadsTo isName_snapshotName hlead hws
  have hcopy : ¬ ∃ fault, t.copy cwd r.document r.snapshot = .error fault := by
    rintro ⟨fault, hfault⟩
    have hok := (copy_div isName_documentName isName_snapshotName).2
      ⟨hwd, hws, place, c, hlead, hdoc, hdir, rfl⟩
    exact absurd (hfault.symm.trans hok) (by simp)
  have hloaded : loaded t cwd r.document = decoded r.document c :=
    loaded_of_resolve ((resolve_div isName_documentName).2 ⟨hwd, place, hlead, rfl, hdoc⟩)
  rw [Undoes, if_neg (by simp [hdocument]), hdocument, hsnapshot, Readable, hloaded]
  cases hdecoded : decoded r.snapshot c with
  | ok d =>
    have hreadable : ∃ d, decoded r.document c = .ok d := ⟨d, decoded_eq_ok hdecoded⟩
    simp [hcopy, hreadable]
  | error e =>
    have hunreadable : ¬ ∃ d, decoded r.document c = .ok d := by
      rintro ⟨d, hd⟩
      have hok := decoded_eq_ok (q := r.snapshot) hd
      rw [hdecoded] at hok
      cases hok
    simp [hcopy, hunreadable]

/-! ## Without a document -/

theorem leadsTo_of_founded (h : r.Founded t cwd) : ∃ place, LeadsTo t cwd r.dir place := by
  rcases h with h | h
  · obtain ⟨-, place, hlead, -⟩ := (stat_div_isSome isName_documentName).1 h
    exact ⟨place, hlead⟩
  · obtain ⟨-, place, hlead, -⟩ := (stat_div_isSome isName_pageName).1 h
    exact ⟨place, hlead⟩

/-- A document that was not there and could be written is not undone by anything. -/
theorem not_undoes_of_writable (hnone : t.entry cwd r.document = none)
    (hw : Writable t cwd r.document) : ¬ r.Undoes t cwd := by
  rw [Undoes, if_pos hnone]
  exact fun h => h.1 hw

theorem not_sameFiles_of_document {c : Content} (hnone : t.entry cwd r.document = none)
    (hlead : LeadsTo t' cwd r.dir place) (hw : Walkable r.document)
    (hdoc : t'.get? (documentName :: place) = some (.file c)) : ¬ r.SameFiles cwd t t' := by
  intro hsame
  have hentry : t'.entry cwd r.document = some (.file c) :=
    (entry_of_leadsTo isName_documentName hlead hw).trans hdoc
  rw [hsame r.document (by simp [files]), hnone] at hentry
  cases hentry

/-- Beside a page, a document that cannot be written costs an old snapshot. -/
theorem sameFiles_discarded_iff (hlead : LeadsTo t cwd r.dir place)
    (hnone : t.entry cwd r.document = none) (hpage : t.entry cwd r.page ≠ none)
    (hw : ¬ Writable t cwd r.document) (h : t'.get? = t.get?) :
    r.SameFiles cwd t (r.discarded t' cwd) ↔ r.Undoes t cwd := by
  have hprepared : prepared t cwd r.document = t :=
    prepared_of_leadsTo isName_documentName hlead
  have hundoes : r.Undoes t cwd ↔ ∀ c, t.entry cwd r.snapshot ≠ some (.file c) := by
    rw [Undoes, if_pos hnone, hprepared]
    exact ⟨fun h => h.2.2 hpage, fun h => ⟨hw, fun _ _ => rfl, fun _ => h⟩⟩
  have hlead' := hlead.mono (dirsKept_of_get? h)
  rcases discarded_cases hlead' with ⟨hws, ⟨c, hc⟩, hview⟩ | ⟨hnot, hsame⟩
  · rw [h] at hc hview
    have hentry : t.entry cwd r.snapshot = some (.file c) :=
      (entry_of_leadsTo isName_snapshotName hlead hws).trans hc
    rw [hundoes, sameFiles_of_snapshot hlead hws (by simp [hc]) hview, hc]
    simp [hentry]
  · rw [hundoes, hsame]
    refine iff_of_true (SameFiles.of_get? h) fun c hc => hnot ?_
    rw [h]
    by_cases hws : Walkable r.snapshot
    · have hentry := entry_of_leadsTo isName_snapshotName hlead hws
      exact ⟨hws, c, hentry ▸ hc⟩
    · rw [snapshot, entry_of_not_walkable isName_snapshotName hws] at hc
      cases hc

end

/-! ## Failed updates -/

section

variable {r : RuleSummary} {d : Document} {modulePage : String} {w : Workspace} {e : Error}
  {t : Tree} {p : Progress}

/-- Once there is a snapshot, a failed update ends without it, or with it when it could not be
read. -/
theorem sameFiles_copied_iff {place : Place} {c : Content}
    (hlead : LeadsTo w.tree w.home r.dir place) (hwd : Walkable r.document)
    (hws : Walkable r.snapshot) (hdoc : w.tree.get? (documentName :: place) = some (.file c))
    (hdir : w.tree.get? (snapshotName :: place) ≠ some .dir)
    (hview : t.get? = Function.update w.tree.get? (snapshotName :: place)
      (match decoded r.snapshot c with
        | .ok _ => none
        | .error _ => some (.file c))) :
    r.SameFiles w.home w.tree t ↔ r.Undoes w.tree w.home := by
  rw [undoes_copied hlead hwd hws hdoc hdir, sameFiles_of_snapshot hlead hws hdir hview]

theorem sameFiles_unextended_iff {prior : Document} {t₁ t₂ : Tree} {text : String}
    (old : r.Founded w.tree w.home) (read : r.Prior w.tree w.home (.ok prior) t₁)
    (save : Replaced t₁ w.home r.document text (.error e) t₂) :
    r.SameFiles w.home w.tree (r.discarded t₂ w.home) ↔ r.Undoes w.tree w.home := by
  obtain ⟨place, hlead⟩ := leadsTo_of_founded old
  rcases prior_cases hlead read with ⟨hmissing, -, rfl⟩ | ⟨-, ⟨e, he⟩, -⟩ | ⟨c, hcopied⟩
  · have hpage : w.tree.entry w.home r.page ≠ none := by
      intro h
      rw [Founded, hmissing, entry_eq_none_iff.1 h] at old
      simp at old
    have hsame := save.failed_of_leadsTo isName_documentName hlead
    cases save with
    | failed unable result =>
      exact sameFiles_discarded_iff hlead (entry_eq_none_iff.2 hmissing) hpage unable hsame
  · cases he
  · obtain ⟨hwd, hws, hdoc, hdir, hview, hres⟩ := hcopied
    refine sameFiles_copied_iff hlead hwd hws hdoc hdir ?_
    have hlead₁ := hlead.mono (dirsKept_of_update hview hdir)
    have hsame := save.failed_of_leadsTo isName_documentName hlead₁
    have hsnap : t₂.get? (snapshotName :: place) = some (.file c) := by
      rw [hsame, hview, Function.update_self]
    obtain ⟨-, -, hgone⟩ | ⟨hnot, -⟩ := discarded_cases (hlead₁.mono save.dirsKept)
    · rw [hgone, hsame, hview, Function.update_idem, ← hres]
    · exact absurd ⟨hws, c, hsnap⟩ hnot

theorem sameFiles_unrefreshed_iff {prior : Document} {t₁ t₂ t₃ : Tree} {text page : String}
    (old : r.Founded w.tree w.home) (read : r.Prior w.tree w.home (.ok prior) t₁)
    (save : Replaced t₁ w.home r.document text (.ok ()) t₂)
    (hpage : Replaced t₂ w.home r.page page (.error e) t₃) :
    r.SameFiles w.home w.tree (r.restored t₃ w.home) ↔ r.Undoes w.tree w.home := by
  obtain ⟨place, hlead⟩ := leadsTo_of_founded old
  -- In both remaining cases the page changed nothing, and the document is the new one.
  have hwritten : ∀ {place}, LeadsTo t₁ w.home r.dir place → Walkable r.document ∧
      LeadsTo t₃ w.home r.dir place ∧ t₃.get? = Function.update t₁.get? (documentName :: place)
        (some (.file (.text text))) := by
    intro place hlead₁
    obtain ⟨hw, -, hview⟩ := save.written_of_leadsTo isName_documentName hlead₁
    have hlead₂ := hlead₁.mono save.dirsKept
    have hsame := hpage.failed_of_leadsTo isName_pageName hlead₂
    exact ⟨hw, hlead₂.mono hpage.dirsKept, hsame.trans hview⟩
  rcases prior_cases hlead read with ⟨hmissing, -, rfl⟩ | ⟨-, ⟨e, he⟩, -⟩ | ⟨c, hcopied⟩
  · have hnone : w.tree.entry w.home r.document = none := entry_eq_none_iff.2 hmissing
    obtain ⟨hw, hlead₃, hview⟩ := hwritten hlead
    obtain ⟨hlead₄, c, hdoc⟩ := restored_document hlead₃ hw
      (by rw [hview, Function.update_self])
    refine iff_of_false (not_sameFiles_of_document hnone hlead₄ hw hdoc) ?_
    cases save with
    | written able => exact not_undoes_of_writable hnone able
  · cases he
  · obtain ⟨hwd, hws, hdoc, hdir, hview, hres⟩ := hcopied
    refine sameFiles_copied_iff hlead hwd hws hdoc hdir ?_
    have hne : documentName :: place ≠ snapshotName :: place :=
      fun e => absurd (List.cons.inj e).1 (by decide)
    obtain ⟨-, hlead₃, hview₃⟩ := hwritten (hlead.mono (dirsKept_of_update hview hdir))
    have hsnap : t₃.get? (snapshotName :: place) = some (.file c) := by
      rw [hview₃, Function.update_of_ne hne.symm, hview, Function.update_self]
    obtain ⟨c', -, hc', hrestored⟩ | ⟨hnot, -⟩ := restored_cases hlead₃ hwd
      (by rw [hview₃, Function.update_self])
    · rw [hsnap] at hc'
      cases hc'
      have hold : w.tree.get? (documentName :: place) =
          Function.update w.tree.get? (snapshotName :: place) none (documentName :: place) := by
        rw [Function.update_of_ne hne]
      rw [← hres, hrestored, hview₃, hview, Function.update_comm hne.symm, Function.update_idem,
        Function.update_comm hne, Function.update_idem, ← hdoc, hold]
      exact Function.update_eq_self ..
    · exact absurd ⟨hws, c, hsnap⟩ hnot

theorem sameFiles_effect_iff (h : Effect r d modulePage w (.error e) t p) :
    r.SameFiles w.home w.tree t ↔ r.Undoes w.tree w.home := by
  cases h with
  | unsaved new save =>
    obtain ⟨hdoc, hpage⟩ := not_or.1 new
    have hnone : w.tree.entry w.home r.document = none :=
      entry_eq_none_iff.2 (Option.not_isSome_iff_eq_none.1 hdoc)
    have hnone' : w.tree.entry w.home r.page = none :=
      entry_eq_none_iff.2 (Option.not_isSome_iff_eq_none.1 hpage)
    cases save with
    | failed unable result =>
      rw [Undoes, if_pos hnone]
      constructor
      · intro hsame
        refine ⟨unable, fun p hp => ?_, fun h => absurd hnone' h⟩
        rw [← entry_congr result p]
        exact hsame p hp
      · intro hundoes p hp
        rw [entry_congr result p]
        exact hundoes.2.1 p hp
  | unpaged new save due page =>
    have hnone : w.tree.entry w.home r.document = none :=
      entry_eq_none_iff.2 (Option.not_isSome_iff_eq_none.1 (not_or.1 new).1)
    obtain ⟨hw, place, hlead, hdoc⟩ := save.written_div isName_documentName
    have hsame := page.failed_of_leadsTo isName_pageName hlead
    refine iff_of_false ?_ ?_
    · refine not_sameFiles_of_document (c := .text d.toXml) hnone (hlead.mono page.dirsKept) hw ?_
      rw [hsame, hdoc]
    · cases save with
      | written able => exact not_undoes_of_writable hnone able
  | unread old read =>
    obtain ⟨place, hlead⟩ := leadsTo_of_founded old
    rcases prior_cases hlead read with ⟨-, he, -⟩ | ⟨hfound, -, rfl, hcopy⟩ | ⟨c, hcopied⟩
    · cases he
    · refine iff_of_true (fun _ _ => rfl) ?_
      rw [Undoes, if_neg (fun h => hfound (entry_eq_none_iff.1 h))]
      exact .inl hcopy
    · obtain ⟨hwd, hws, hdoc, hdir, hview, hres⟩ := hcopied
      refine sameFiles_copied_iff hlead hwd hws hdoc hdir ?_
      rw [← hres]
      exact hview
  | unextended old read save => exact sameFiles_unextended_iff old read save
  | unrefreshed old read save due page => exact sameFiles_unrefreshed_iff old read save page

end

/-- A failed update leaves the document, the page and the snapshot as they were exactly in the
states that `Undoes` describes. -/
theorem failed_update_undone_iff {r : RuleSummary} {d : Document} {modulePage : String}
    {th : Thread} {w w' : Workspace} {e : Error}
    (h : (r.update d modulePage).run th w = (.error e, w')) :
    (∀ p ∈ [r.document, r.page, r.snapshot],
      w'.tree.entry w'.home p = w.tree.entry w.home p) ↔ r.Undoes w.tree w.home := by
  have hhome : w'.home = w.home := by
    have := home_run th (r.update d modulePage) w
    rwa [h] at this
  rw [hhome]
  exact sameFiles_effect_iff (effect_update r d modulePage th h)

/-- The summary of a site, rendered with every update. -/
def site : RuleSummary := ⟨⟨"site"⟩, .continuous, 0⟩

/-- A document with one diagnostic. -/
def finding : Document := ⟨[⟨"A.java", [⟨1, .error, "boom", none⟩]⟩]⟩

/-- A workspace in which the document of the site has a text and the page is a directory. -/
def blocked (text : String) : Workspace where
  tree := ⟨[(["summary-by-rule.html", "site"], .dir),
    (["summary-by-rule.xml", "site"], .file (.text text)), (["site"], .dir)]⟩
  lock := ⟨"summary", none, 0⟩

theorem failed_update_undone_iff_blocked :
    ∃ e w', (site.update finding "<p>").run "main" (blocked finding.toXml) = (.error e, w') ∧
      site.Undoes (blocked finding.toXml).tree (blocked finding.toXml).home ∧
      ∀ p ∈ [site.document, site.page, site.snapshot],
        w'.tree.entry w'.home p =
          (blocked finding.toXml).tree.entry (blocked finding.toXml).home p := by
  have hfails : ((site.update finding "<p>").run "main" (blocked finding.toXml)).1.toOption =
      none := by decide +kernel
  have hread : (loaded (blocked finding.toXml).tree (blocked finding.toXml).home
      site.document).toOption = some finding := by decide +kernel
  have hsnapshot : (blocked finding.toXml).tree.entry (blocked finding.toXml).home
      site.snapshot = none := by decide +kernel
  have hdocument : (blocked finding.toXml).tree.entry (blocked finding.toXml).home
      site.document ≠ none := by decide +kernel
  have hundoes : site.Undoes (blocked finding.toXml).tree (blocked finding.toXml).home := by
    rw [Undoes, if_neg hdocument]
    exact .inr (.inl ⟨⟨finding, eq_ok_of_toOption hread⟩, hsnapshot⟩)
  rcases hrun : (site.update finding "<p>").run "main" (blocked finding.toXml) with ⟨res, w'⟩
  rw [hrun] at hfails
  cases res with
  | ok u => cases hfails
  | error e => exact ⟨e, w', rfl, hundoes, (failed_update_undone_iff hrun).2 hundoes⟩

/-- A document that cannot be read makes the update fail and leaves a snapshot behind. -/
theorem failed_update_leaves_snapshot :
    ((site.update finding "<p>").run "main" (blocked "<broken")).1.toOption = none ∧
      (blocked "<broken").tree.entry (blocked "<broken").home site.snapshot = none ∧
      ((site.update finding "<p>").run "main" (blocked "<broken")).2.tree.entry
        ((site.update finding "<p>").run "main" (blocked "<broken")).2.home site.snapshot =
          some (.file (.text "<broken")) := by
  decide +kernel

end RuleSummary

end LintDigest
