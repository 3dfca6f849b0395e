import LintDigest.Proofs.Summary.Course
import LintDigest.Proofs.Tree.Aim

/-!
# When every write is granted

On a disk that refuses no write, files are written, and an update of the rule summary fails only
over a document that cannot be read.
-/

namespace LintDigest

open Script Storage LintDigest.Tree

namespace Storage

variable {th : Thread} {w w' : Workspace} {p dir : Path} {n text : String}

theorem ok_of_granted {res : Except Error Unit}
    (h : Course th Request.granted (replaceFile p text) w (.done res) w') : res = .ok () := by
  unfold replaceFile at h
  obtain ⟨_, made, w₁, -, hmade, h⟩ := h.of_request_bind
  obtain rfl : made = .ok () := hmade
  obtain ⟨_, found, w₂, -, ⟨scratch, hscratch⟩, h⟩ := h.of_request_bind
  obtain rfl : found = .ok scratch := hscratch
  obtain ⟨_, filled, w₃, -, hfilled, h⟩ := h.of_request_bind
  obtain rfl : filled = .ok () := hfilled
  obtain ⟨_, renamed, w₄, -, hrenamed, h⟩ := h.of_request_bind
  obtain rfl : renamed = .ok () := hrenamed
  exact h.of_done.1

/-- However the clock moves, a file is written as in a run. -/
theorem replaced_of_course {A : (r : Request) → r.Answer → Prop} {res : Except Error Unit}
    (h : Course th A (replaceFile p text) w (.done res) w') :
    Replaced w.tree w.home p text res w'.tree ∧ w'.progress = w.progress := by
  obtain ⟨hrun, -⟩ := h.run_at (timeless_replaceFile _ _) w.now
  obtain ⟨saved, t', hsaved, hreplaced⟩ := run_replaceFile th (w.setNow w.now) p text
  rw [hsaved] at hrun
  obtain ⟨rfl, hw⟩ := Prod.mk.inj hrun
  have htree : w'.tree = t' := (congrArg Workspace.tree hw).symm
  rw [htree]
  exact ⟨hreplaced, (congrArg Workspace.progress hw).symm⟩

/-- A write that is granted puts the text where the path points. -/
theorem written_of_course (hn : IsName n) {res : Except Error Unit}
    (h : Course th Request.granted (replaceFile (dir / n) text) w (.done res) w') :
    res = .ok () ∧ Written w.tree w'.tree w.home dir n text ∧ w'.progress = w.progress := by
  obtain rfl := ok_of_granted h
  obtain ⟨hreplaced, hprogress⟩ := replaced_of_course h
  exact ⟨rfl, hreplaced.toWritten hn, hprogress⟩

end Storage

namespace RuleSummary

variable {r : RuleSummary} {th : Thread} {w w' : Workspace} {n : Nat} {d : Document} {html : String}

theorem found_of_granted {res : Except Error RuleUpdate}
    (h : Course th Request.granted (r.found n d html) w (.done res) w') : ∃ u, res = .ok u := by
  unfold found at h
  obtain ⟨saved, w₁, hsaved, h⟩ := h.of_bind
  obtain rfl := ok_of_granted hsaved
  obtain ⟨paged, w₂, hpaged, h⟩ := h.of_bind
  have hok : paged = .ok () := by
    unfold foundPage at hpaged
    split at hpaged
    · exact ok_of_granted hpaged
    · obtain ⟨_, w₃, -, hpaged⟩ := hpaged.of_bind
      exact hpaged.of_done.1
  subst hok
  obtain ⟨_, w₃, -, h⟩ := h.of_bind
  exact ⟨_, h.of_done.1⟩

theorem refresh_of_granted {merged : Document} {res : Except Error Bool}
    (h : Course th Request.granted (r.refresh n merged) w (.done res) w') : ∃ b, res = .ok b := by
  unfold refresh at h
  split at h
  · obtain ⟨moment, w₁, -, h⟩ := h.of_bind
    obtain ⟨saved, w₂, hsaved, h⟩ := h.of_bind
    obtain rfl := ok_of_granted hsaved
    obtain ⟨_, w₃, -, h⟩ := h.of_bind
    exact ⟨_, h.of_done.1⟩
  · simp only at h
    split at h
    · obtain ⟨_, w₁, -, h⟩ := h.of_bind
      exact ⟨_, h.of_done.1⟩
    · exact ⟨_, h.of_done.1⟩

theorem extend_of_granted {res : Except Error RuleUpdate}
    (h : Course th Request.granted (r.extend n d) w (.done res) w') :
    (∃ u, res = .ok u) ∨
      ∃ e w₁, res = .error e ∧ Course th Request.granted r.prior w (.done (.error e)) w₁ := by
  unfold extend at h
  obtain ⟨read, w₁, hread, h⟩ := h.of_bind
  cases read with
  | error e =>
    obtain ⟨rfl, -⟩ := h.of_done
    exact .inr ⟨e, w₁, rfl, hread⟩
  | ok prior =>
    obtain ⟨saved, w₂, hsaved, h⟩ := h.of_bind
    obtain rfl := ok_of_granted hsaved
    obtain ⟨refreshed, w₃, hrefreshed, h⟩ := h.of_bind
    obtain ⟨rendered, rfl⟩ := refresh_of_granted hrefreshed
    obtain ⟨_, w₄, -, h⟩ := h.of_bind
    obtain ⟨_, w₅, -, h⟩ := h.of_bind
    exact .inl ⟨_, h.of_done.1⟩

/-- A document that was there could be copied, so it is the copy that cannot be read. -/
theorem prior_of_granted {e : Error}
    (h : Course th Request.granted r.prior w (.done (.error e)) w') :
    ∃ t₁, w.tree.copy w.home r.document r.snapshot = .ok t₁ ∧
      loaded t₁ w.home r.snapshot = .error e := by
  unfold prior at h
  obtain ⟨present, w₁, hpresent, h⟩ := h.of_bind
  obtain ⟨-, htree, hhome, -⟩ := (passive_isPresent _).course (Untouched.refl w) hpresent
  split at h
  · obtain ⟨m, copied, w₂, hanswer, hcopied, h⟩ := h.of_request_bind
    obtain rfl : copied = .ok () := hcopied
    simp only [Workspace.answer, Workspace.tree_setNow, Workspace.home_setNow, htree, hhome]
      at hanswer
    cases hcopy : w.tree.copy w.home r.document r.snapshot with
    | error fault =>
      rw [hcopy] at hanswer
      cases hanswer
    | ok t₁ =>
      rw [hcopy] at hanswer
      cases hanswer
      obtain ⟨hload, -⟩ := (passive_loadDocument _).course (Untouched.refl _) h
      rw [run_loadDocument] at hload
      exact ⟨t₁, rfl, by rw [hload, ← hhome]; rfl⟩
  · cases h.of_done.1

/-- An update fails only over a document that cannot be read. -/
theorem update_of_granted {res : Except Error RuleUpdate}
    (h : Course th Request.granted (r.update d html) w (.done res) w') :
    (∃ u, res = .ok u) ∨
      ∃ e t₁, res = .error e ∧ w.tree.copy w.home r.document r.snapshot = .ok t₁ ∧
        loaded t₁ w.home r.snapshot = .error e := by
  unfold update at h
  split at h
  · exact .inl ⟨_, h.of_done.1⟩
  · obtain ⟨w₁, _, ⟨htree₁, hhome₁, -⟩, h, -⟩ := h.of_locked
    obtain ⟨m, n, w₂, hcount, -, h⟩ := h.of_request_bind
    obtain ⟨rfl, rfl⟩ := Prod.mk.inj hcount
    obtain ⟨founded, w₃, hfounded, h⟩ := h.of_bind
    have hlook : r.isFounded.Passive := by
      apply (passive_isPresent _).bind
      intro present
      split
      · trivial
      · exact passive_isPresent _
    obtain ⟨-, htree₃, hhome₃, -⟩ := hlook.course (Untouched.refl _) hfounded
    split at h
    · rcases extend_of_granted h with hok | ⟨e, w₄, rfl, hprior⟩
      · exact .inl hok
      · obtain ⟨t₁, hcopy, hload⟩ := prior_of_granted hprior
        have htree : w₃.tree = w.tree := htree₃.trans htree₁
        have hhome : w₃.home = w.home := hhome₃.trans hhome₁
        rw [htree, hhome] at hcopy
        rw [hhome] at hload
        exact .inr ⟨e, t₁, rfl, hcopy, hload⟩
    · exact .inl (found_of_granted h)

/-! ## The way of an update -/

/-- The document so far, which is missing or in the snapshot now, and the tree that leaves behind. -/
inductive Drawn (r : RuleSummary) (t : Tree) (cwd : Place) : Except Error Document → Tree → Prop
  | absent (missing : t.stat cwd r.document = none) : Drawn r t cwd (.ok {}) t
  | copied {c : Content} {t₁ : Tree} (seen : Walkable r.document)
      (leads : LeadsTo t cwd r.dir (aim cwd r.dir))
      (document : t.get? (documentName :: aim cwd r.dir) = some (.file c))
      (free : t.get? (snapshotName :: aim cwd r.dir) ≠ some .dir)
      (result : t₁.get? =
        Function.update t.get? (snapshotName :: aim cwd r.dir) (some (.file c))) :
      Drawn r t cwd (decoded r.snapshot c) t₁

/-- The page is written by the `n`-th update, or that is left to be done. -/
inductive Paged (r : RuleSummary) (cwd : Place) (n : Nat) (text : String) (t : Tree) :
    Tree → Bool → Prop
  | written {t' : Tree} (due : r.due n = true)
      (page : Written t t' cwd r.dir pageName text) : Paged r cwd n text t t' false
  | left (due : r.due n = false) : Paged r cwd n text t t (r.regenerate ≠ .never)

/-- How an update with diagnostics goes when every write is granted: the tree that it leaves, and
whether the page is still to be rendered. -/
inductive Smooth (r : RuleSummary) (d : Document) (html : String) (cwd : Place) (t : Tree)
    (p : Progress) : Tree → Bool → Prop
  | founded {t₁ t₂ : Tree} {pending : Bool} (new : ¬ r.Founded t cwd)
      (save : Written t t₁ cwd r.dir documentName d.toXml)
      (page : r.Paged cwd (p.updates + 1) html t₁ t₂ pending) : Smooth r d html cwd t p t₂ pending
  | extended {prior : Document} {t₁ t₂ t₃ : Tree} {m : String} {pending : Bool}
      (old : r.Founded t cwd) (read : r.Drawn t cwd (.ok prior) t₁)
      (save : Written t₁ t₂ cwd r.dir documentName (prior.merge d).toXml)
      (page : r.Paged cwd (p.updates + 1) (frame.render m (prior.merge d)) t₂ t₃ pending) :
      Smooth r d html cwd t p (r.discarded t₃ cwd) pending
  | unread {e : Error} {t₁ : Tree} (old : r.Founded t cwd)
      (read : r.Drawn t cwd (.error e) t₁) : Smooth r d html cwd t p t₁ p.pending

/-- A document that was read, or could be copied, is missing or in the snapshot now. -/
theorem Prior.drawn {t t₁ : Tree} {cwd : Place} {res : Except Error Document}
    (h : r.Prior t cwd res t₁)
    (hcopy : ∀ fault, t.copy cwd r.document r.snapshot = .error fault → ∃ prior, res = .ok prior) :
    r.Drawn t cwd res t₁ := by
  cases h with
  | absent missing => exact .absent missing
  | uncopied found copy =>
    obtain ⟨prior, hok⟩ := hcopy _ copy
    cases hok
  | copied found copy =>
    obtain ⟨hwd, -, place, c, hlead, hdoc, hsnap, -⟩ :=
      (copy_div isName_documentName isName_snapshotName).1 copy
    obtain rfl := hlead.eq_aim
    rcases prior_cases hlead (.copied found copy) with
      ⟨hnone, -⟩ | ⟨-, -, -, fault, hfault⟩ | ⟨c', -, -, hdoc', -, hview, hdecoded⟩
    · rw [hnone] at found
      cases found
    · rw [hfault] at copy
      cases copy
    · rw [hdecoded]
      exact .copied hwd hlead hdoc' hsnap hview

/-- Where the document could be copied but not read, something is founded and no update can draw on
the document. -/
theorem founded_of_unread {t t₁ : Tree} {cwd : Place} {e : Error}
    (hcopy : t.copy cwd r.document r.snapshot = .ok t₁)
    (hload : loaded t₁ cwd r.snapshot = .error e) :
    r.Founded t cwd ∧ ∀ prior t', ¬ r.Prior t cwd (.ok prior) t' := by
  have hfound : (t.stat cwd r.document).isSome := by
    obtain ⟨hw, -, place, c, hlead, hdoc, -⟩ :=
      (copy_div isName_documentName isName_snapshotName).1 hcopy
    exact (stat_div_isSome isName_documentName).2 ⟨hw, place, hlead, by simp [hdoc]⟩
  refine ⟨.inl hfound, fun prior t' read => ?_⟩
  generalize hres : (Except.ok prior : Except Error Document) = found at read
  cases read with
  | absent missing =>
    rw [missing] at hfound
    cases hfound
  | uncopied => cases hres
  | copied _ copy =>
    rw [hcopy] at copy
    cases copy
    rw [hload] at hres
    cases hres

theorem smooth_of_granted {res : Except Error RuleUpdate} (hd : d.isEmpty = false)
    (hpending : w.progress.pending = true → r.Founded w.tree w.home ∧ r.regenerate ≠ .never)
    (h : Course th Request.granted (r.update d html) w (.done res) w') :
    Smooth r d html w.home w.tree w.progress w'.tree w'.progress.pending ∧
      w'.progress.updates = w.progress.updates + 1 := by
  obtain ⟨m, heffect, -⟩ := effect_of_course h
  have hgranted := update_of_granted h
  generalize w'.tree = t, w'.progress = p at heffect ⊢
  have hread : ∀ {prior t₁}, r.Prior w.tree w.home (.ok prior) t₁ →
      r.Drawn w.tree w.home (.ok prior) t₁ :=
    fun read => read.drawn fun _ _ => ⟨_, rfl⟩
  -- An update that fails has found a document, and could not read it.
  have hfailed : ∀ {e}, res = .error e → r.Founded w.tree w.home ∧
      ∀ prior t₁, ¬ r.Prior w.tree w.home (.ok prior) t₁ := by
    rintro e rfl
    rcases hgranted with ⟨u, hu⟩ | ⟨e', t₁, -, hcopy, hload⟩
    · cases hu
    · exact founded_of_unread hcopy hload
  cases heffect with
  | skipped empty =>
    rw [hd] at empty
    cases empty
  | founded new save due page =>
    -- Where nothing is founded, nothing was left to be done.
    have hidle : (counted (w.setNow m)).pending = false := by
      cases hp : w.progress.pending with
      | false => exact hp
      | true => exact absurd (hpending hp).1 new
    refine ⟨?_, rfl⟩
    rw [hidle]
    exact .founded new (save.toWritten isName_documentName)
      (.written due (page.toWritten isName_pageName))
  | foundedLater new save due =>
    exact ⟨.founded new (save.toWritten isName_documentName) (.left due), rfl⟩
  | refreshed old read save due page =>
    exact ⟨.extended old (hread read) (save.toWritten isName_documentName)
      (.written due (page.toWritten isName_pageName)), rfl⟩
  | @extended prior t₁ t₂ old read save due =>
    -- In mode `never` nothing was left to be done either.
    have hleft : (r.postponed (counted (w.setNow m))).pending = decide (r.regenerate ≠ .never) := by
      cases hp : w.progress.pending with
      | false => simp [counted, hp]
      | true => simp [(hpending hp).2]
    have hpage : r.Paged w.home (w.progress.updates + 1) (frame.render m (prior.merge d)) t₂ t₂
        (decide (r.regenerate ≠ .never)) := .left due
    rw [hleft]
    exact ⟨.extended old (hread read) (save.toWritten isName_documentName) hpage,
      updates_postponed r _⟩
  | unread old read =>
    refine ⟨.unread old (read.drawn fun fault hfault => ?_), rfl⟩
    rcases hgranted with ⟨u, hu⟩ | ⟨-, t₁, -, hcopy, -⟩
    · cases hu
    · rw [Workspace.tree_setNow, Workspace.home_setNow, hcopy] at hfault
      cases hfault
  | unsaved new => exact absurd (hfailed rfl).1 new
  | unpaged new => exact absurd (hfailed rfl).1 new
  | unextended old read => exact absurd read ((hfailed rfl).2 _ _)
  | unrefreshed old read => exact absurd read ((hfailed rfl).2 _ _)

/-- How a session ends when every write is granted: the page that is still to be rendered is written,
unless the document cannot be read. -/
inductive Finished (r : RuleSummary) (cwd : Place) (t : Tree) : Bool → Tree → Prop
  | idle : Finished r cwd t false t
  | unread {e : Error} (read : loaded t cwd r.document = .error e) : Finished r cwd t true t
  | rendered {merged : Document} {m : String} {t' : Tree}
      (read : loaded t cwd r.document = .ok merged)
      (page : Written t t' cwd r.dir pageName (frame.render m merged)) : Finished r cwd t true t'

theorem finished_of_granted {res : Except Error Bool}
    (h : Course th Request.granted r.finish w (.done res) w') :
    r.Finished w.home w.tree w.progress.pending w'.tree := by
  unfold finish at h
  obtain ⟨m, pending, w₁, hanswer, -, h⟩ := h.of_request_bind
  obtain ⟨rfl, rfl⟩ := Prod.mk.inj hanswer
  rw [Workspace.progress_setNow] at h
  cases hpending : w.progress.pending with
  | false =>
    rw [hpending] at h
    obtain ⟨-, m', rfl⟩ := h.of_done
    exact .idle
  | true =>
    rw [hpending, if_pos rfl] at h
    obtain ⟨w₂, w₃, hw₂, h, htree₃, -⟩ := h.of_locked
    obtain ⟨read, w₄, hread, h⟩ := h.of_bind
    obtain ⟨rfl, htree₄, hhome₄, -⟩ := (passive_loadDocument _).course hw₂ hread
    simp only [run_loadDocument, Workspace.tree_setNow, Workspace.home_setNow] at h
    rw [htree₃]
    cases hload : loaded w.tree w.home r.document with
    | error e =>
      rw [hload] at h
      obtain ⟨-, m', rfl⟩ := h.of_done
      rw [Workspace.tree_setNow, htree₄]
      exact .unread hload
    | ok merged =>
      rw [hload] at h
      obtain ⟨m₁, moment, w₅, hanswer, -, h⟩ := h.of_request_bind
      obtain ⟨rfl, rfl⟩ := Prod.mk.inj hanswer
      obtain ⟨saved, w₆, hsaved, h⟩ := h.of_bind
      obtain ⟨rfl, hpage, -⟩ := written_of_course isName_pageName hsaved
      obtain ⟨-, m₂, rfl⟩ := h.of_done
      simp only [Workspace.tree_setNow, Workspace.home_setNow, htree₄, hhome₄] at hpage
      exact .rendered hload hpage

end RuleSummary

end LintDigest
