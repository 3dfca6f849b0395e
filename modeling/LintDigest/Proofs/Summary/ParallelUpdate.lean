import LintDigest.Proofs.Summary.Parallel

/-!
# Updates of parallel trees

Two runs update the rule summary with the same document. If their trees are parallel and nothing of
the summary is where the trees may differ, both updates succeed or neither does, and the trees stay
parallel. The runs need not have counted the same number of updates, as long as pages are due at the
same ones (`InStep`).
-/

namespace LintDigest

open Script Storage LintDigest.Tree

namespace RuleSummary

/-- Two runs remember the same, except that pages which are due together may have different
numbers. -/
structure InStep (r : RuleSummary) (p q : Progress) : Prop where
  pending : q.pending = p.pending
  due : ∀ k, r.due (q.updates + k) = r.due (p.updates + k)

/-! ## Updates by stages -/

/-- The page of a first module is written or noted. -/
inductive FirstPage (r : RuleSummary) (cwd : Place) (n : Nat) (html : String) (t : Tree)
    (p : Progress) : Except Error Unit → Tree → Progress → Prop
  | shown {res : Except Error Unit} {t' : Tree} (due : r.due n = true)
      (page : Replaced t cwd r.page html res t') : FirstPage r cwd n html t p res t' p
  | noted (due : r.due n = false) :
      FirstPage r cwd n html t p (.ok ()) t { p with pending := r.regenerate ≠ .never }

/-- The page of a later module is rendered or noted. -/
inductive NextPage (r : RuleSummary) (cwd : Place) (n : Nat) (html : String) (t : Tree)
    (p : Progress) : Except Error Bool → Tree → Progress → Prop
  | shown {t' : Tree} (due : r.due n = true) (page : Replaced t cwd r.page html (.ok ()) t') :
      NextPage r cwd n html t p (.ok true) t' { p with pending := false }
  | failed {e : Error} {t' : Tree} (due : r.due n = true)
      (page : Replaced t cwd r.page html (.error e) t') : NextPage r cwd n html t p (.error e) t' p
  | noted (due : r.due n = false) : NextPage r cwd n html t p (.ok false) t (r.postponed p)

/-- What an update ends with once its page has been seen to: the snapshot is put back if the page
failed, and removed otherwise. -/
def settled (r : RuleSummary) (cwd : Place) (t : Tree) : Except Error Bool →
    Except Error RuleUpdate × Tree
  | .error e => (.error e, r.restored t cwd)
  | .ok shown => (.ok (.merged shown), r.discarded t cwd)

section

variable {r : RuleSummary} {d : Document} {html : String} {w : Workspace}
  {res : Except Error RuleUpdate} {t : Tree} {p : Progress}

theorem Effect.first_stages (h : Effect r d html w res t p) (hd : d.isEmpty = false)
    (hnew : ¬ r.Founded w.tree w.home) :
    ∃ saved t₁, Replaced w.tree w.home r.document d.toXml saved t₁ ∧
      match saved with
      | .error e => res = .error e ∧ t = t₁ ∧ p = counted w
      | .ok () => ∃ paged,
          FirstPage r w.home (w.progress.updates + 1) html t₁ (counted w) paged t p ∧
            res = paged.map fun _ => .initial := by
  cases h with
  | skipped empty =>
    rw [hd] at empty
    cases empty
  | unsaved new save => exact ⟨_, _, save, rfl, rfl, rfl⟩
  | unpaged new save due page => exact ⟨_, _, save, _, .shown due page, rfl⟩
  | founded new save due page => exact ⟨_, _, save, _, .shown due page, rfl⟩
  | foundedLater new save due => exact ⟨_, _, save, _, .noted due, rfl⟩
  | unread old | unextended old | unrefreshed old | refreshed old | extended old =>
    exact absurd old hnew

theorem Effect.next_stages (h : Effect r d html w res t p) (hd : d.isEmpty = false)
    (hold : r.Founded w.tree w.home) :
    ∃ read t₁, r.Prior w.tree w.home read t₁ ∧
      match read with
      | .error e => res = .error e ∧ t = t₁ ∧ p = counted w
      | .ok prior => ∃ saved t₂, Replaced t₁ w.home r.document (prior.merge d).toXml saved t₂ ∧
          match saved with
          | .error e => res = .error e ∧ t = r.discarded t₂ w.home ∧ p = counted w
          | .ok () => ∃ paged t₃, NextPage r w.home (w.progress.updates + 1)
                (frame.render w.now (prior.merge d)) t₂ (counted w) paged t₃ p ∧
              r.settled w.home t₃ paged = (res, t) := by
  cases h with
  | skipped empty =>
    rw [hd] at empty
    cases empty
  | unsaved new | unpaged new | founded new | foundedLater new => exact absurd hold new
  | unread old read => exact ⟨_, _, read, rfl, rfl, rfl⟩
  | unextended old read save => exact ⟨_, _, read, _, _, save, rfl, rfl, rfl⟩
  | unrefreshed old read save due page =>
    exact ⟨_, _, read, _, _, save, _, _, .failed due page, rfl⟩
  | refreshed old read save due page =>
    exact ⟨_, _, read, _, _, save, _, _, .shown due page, rfl⟩
  | extended old read save due => exact ⟨_, _, read, _, _, save, _, _, .noted due, rfl⟩

theorem Ending.stages {res : Except Error Bool} (h : Ending r w res t) :
    match w.progress.pending, loaded w.tree w.home r.document with
    | false, _ => res = .ok false ∧ t = w.tree
    | true, .error e => res = .error e ∧ t = w.tree
    | true, .ok merged => ∃ saved,
        Replaced w.tree w.home r.page (frame.render w.now merged) saved t ∧
          res = saved.map fun _ => true := by
  cases h with
  | idle none => simp only [none, and_self]
  | unread some read => simp only [some, read, and_self]
  | unwritten some read page =>
    simp only [some, read]
    exact ⟨_, page, rfl⟩
  | rendered some read page =>
    simp only [some, read]
    exact ⟨_, page, rfl⟩

end

/-! ## Stages side by side -/

/-- Neither the directory of the summary nor its files are where two trees may differ. -/
structure Sheltered (r : RuleSummary) (E : Place → Prop) (cwd : Place) : Prop where
  tidy : Tidy E
  clear : ∀ p ∈ r.files, Clear E cwd p

section

variable {r : RuleSummary} {E : Place → Prop} {cwd place : Place} {t t' t₁ u u' u₁ : Tree}
  {p p' q q' : Progress} {html html' : String}

theorem sheltered_of_false (r : RuleSummary) (cwd : Place) : r.Sheltered (fun _ => False) cwd :=
  ⟨fun _ _ _ => id, fun p _ => clear_of_false cwd p⟩

theorem Sheltered.document (h : r.Sheltered E cwd) : Clear E cwd r.document :=
  h.clear _ (by simp [files])

theorem Sheltered.page (h : r.Sheltered E cwd) : Clear E cwd r.page :=
  h.clear _ (by simp [files])

theorem Sheltered.snapshot (h : r.Sheltered E cwd) : Clear E cwd r.snapshot :=
  h.clear _ (by simp [files])

theorem Sheltered.get?_document (hs : r.Sheltered E cwd) (h : Parallel E t u) :
    u.get? (documentName :: aim cwd r.dir) = t.get? (documentName :: aim cwd r.dir) := by
  have hdocument := hs.document.not_aim
  rw [RuleSummary.document, aim_div _ _ isName_documentName] at hdocument
  exact h.get?_eq hdocument (by decide)

theorem Sheltered.get?_snapshot (hs : r.Sheltered E cwd) (h : Parallel E t u) :
    u.get? (snapshotName :: aim cwd r.dir) = t.get? (snapshotName :: aim cwd r.dir) := by
  have hsnapshot := hs.snapshot.not_aim
  rw [RuleSummary.snapshot, aim_div _ _ isName_snapshotName] at hsnapshot
  exact h.get?_eq hsnapshot (by decide)

theorem Sheltered.leadsTo_iff (hs : r.Sheltered E cwd) (h : Parallel E t u) :
    LeadsTo u cwd r.dir place ↔ LeadsTo t cwd r.dir place :=
  h.leadsTo_iff (hs.document.parent isName_documentName)

theorem Sheltered.founded_iff (hs : r.Sheltered E cwd) (h : Parallel E t u) :
    r.Founded u cwd ↔ r.Founded t cwd := by
  rw [Founded, Founded, h.stat_eq hs.document, h.stat_eq hs.page]

theorem Sheltered.prior {res res' : Except Error Document} (hs : r.Sheltered E cwd)
    (h : Parallel E t u) (hlead : LeadsTo t cwd r.dir place) (ht : r.Prior t cwd res t₁)
    (hu : r.Prior u cwd res' u₁) : res'.toOption = res.toOption ∧ Parallel E t₁ u₁ := by
  obtain rfl := hlead.eq_aim
  have hlead' := (hs.leadsTo_iff h).2 hlead
  have hstat := h.stat_eq hs.document
  have hdocument := hs.get?_document h
  have hsnapshot := hs.get?_snapshot h
  rcases prior_cases hlead ht with ⟨hnone, rfl, rfl⟩ | ⟨hsome, ⟨e, rfl⟩, rfl, fault, hcopy⟩ |
    ⟨c, hwd, hws, hdoc, hsnap, hview, rfl⟩
  · rcases prior_cases hlead' hu with ⟨-, rfl, rfl⟩ | ⟨hsome', -⟩ | ⟨c, hwd, -, hdoc, -⟩
    · exact ⟨rfl, h⟩
    · exact absurd (hstat.trans hnone) hsome'
    · have hpresent := (stat_div_isSome (t := u) isName_documentName).2
        ⟨hwd, _, hlead', by simp [hdoc]⟩
      rw [← RuleSummary.document, hstat, hnone] at hpresent
      cases hpresent
  · rcases prior_cases hlead' hu with ⟨hnone, -⟩ | ⟨-, ⟨e', rfl⟩, rfl, -⟩ |
      ⟨c, hwd, hws, hdoc, hsnap, -⟩
    · exact absurd (hstat.symm.trans hnone) hsome
    · exact ⟨rfl, h⟩
    · rw [hdocument] at hdoc
      rw [hsnapshot] at hsnap
      have hok := (copy_div isName_documentName isName_snapshotName).2
        ⟨hwd, hws, _, c, hlead, hdoc, hsnap, rfl⟩
      cases hcopy.symm.trans hok
  · rcases prior_cases hlead' hu with ⟨hnone, -⟩ | ⟨-, -, -, fault, hcopy⟩ |
      ⟨c', -, -, hdoc', -, hview', rfl⟩
    · have hpresent := (stat_div_isSome (t := t) isName_documentName).2
        ⟨hwd, _, hlead, by simp [hdoc]⟩
      rw [← RuleSummary.document, ← hstat, hnone] at hpresent
      cases hpresent
    · rw [← hdocument] at hdoc
      rw [← hsnapshot] at hsnap
      have hok := (copy_div isName_documentName isName_snapshotName).2
        ⟨hwd, hws, _, c, hlead', hdoc, hsnap, rfl⟩
      cases hcopy.symm.trans hok
    · rw [hdocument, hdoc] at hdoc'
      cases hdoc'
      exact ⟨rfl, h.update hview hview' (.same _)⟩

theorem Sheltered.discarded (hs : r.Sheltered E cwd) (h : Parallel E t u)
    (hlead : LeadsTo t cwd r.dir place) :
    Parallel E (r.discarded t cwd) (r.discarded u cwd) := by
  obtain rfl := hlead.eq_aim
  have hlead' := (hs.leadsTo_iff h).2 hlead
  have hsnapshot := hs.get?_snapshot h
  rcases discarded_cases hlead with ⟨hw, hfile, hview⟩ | ⟨hnot, hsame⟩
  · rcases discarded_cases hlead' with ⟨-, -, hview'⟩ | ⟨hnot', -⟩
    · exact h.update hview hview' (.same _)
    · exact absurd ⟨hw, hsnapshot ▸ hfile⟩ hnot'
  · rcases discarded_cases hlead' with ⟨hw', hfile', -⟩ | ⟨-, hsame'⟩
    · exact absurd ⟨hw', hsnapshot ▸ hfile'⟩ hnot
    · rwa [hsame, hsame']

theorem Sheltered.restored {c : Content} (hs : r.Sheltered E cwd) (h : Parallel E t u)
    (hlead : LeadsTo t cwd r.dir place) (hw : Walkable r.document)
    (hdoc : t.get? (documentName :: place) = some (.file c)) :
    Parallel E (r.restored t cwd) (r.restored u cwd) := by
  obtain rfl := hlead.eq_aim
  have hlead' := (hs.leadsTo_iff h).2 hlead
  have hsnapshot := hs.get?_snapshot h
  have hdoc' := (hs.get?_document h).trans hdoc
  rcases restored_cases hlead hw hdoc with ⟨c, hws, hfile, hview⟩ | ⟨hnot, hsame⟩
  · rcases restored_cases hlead' hw hdoc' with ⟨c', -, hfile', hview'⟩ | ⟨hnot', -⟩
    · rw [hsnapshot, hfile] at hfile'
      cases hfile'
      have herased : Parallel E (t.erase (snapshotName :: aim cwd r.dir))
          (u.erase (snapshotName :: aim cwd r.dir)) :=
        h.update (get?_erase ..) (get?_erase ..) (.same _)
      rw [← get?_erase] at hview hview'
      exact herased.update hview hview' (.same _)
    · exact absurd ⟨hws, c, hsnapshot.trans hfile⟩ hnot'
  · rcases restored_cases hlead' hw hdoc' with ⟨c', hws', hfile', -⟩ | ⟨-, hsame'⟩
    · exact absurd ⟨hws', c', hsnapshot.symm.trans hfile'⟩ hnot
    · rwa [hsame, hsame']

/-- A document that was saved is still there when the page has been seen to. -/
theorem NextPage.filed {n : Nat} {text : String} {res : Except Error Bool}
    (h : NextPage r cwd n html t p res t' p')
    (hsave : Replaced t₁ cwd r.document text (.ok ()) t) :
    Walkable r.document ∧ ∃ place, LeadsTo t' cwd r.dir place ∧
      t'.get? (documentName :: place) = some (.file (.text text)) := by
  have hkeeps : Keeps documentName t t' := by
    cases h with
    | shown due page => exact page.keeps isName_pageName (by decide)
    | failed due page => exact page.keeps isName_pageName (by decide)
    | noted due => exact keeps_of_get? rfl
  obtain ⟨hw, place, hlead, hfile⟩ := hsave.written_div isName_documentName
  exact ⟨hw, place, hlead.mono hkeeps.1, hkeeps.2 _ _ hfile⟩

theorem Sheltered.settled {paged paged' : Except Error Bool} {res res' : Except Error RuleUpdate}
    {text : String} (hs : r.Sheltered E cwd) (h : Parallel E t u)
    (hpaged : paged'.toOption = paged.toOption)
    (hfiled : Walkable r.document ∧ ∃ place, LeadsTo t cwd r.dir place ∧
      t.get? (documentName :: place) = some (.file (.text text)))
    (ht : r.settled cwd t paged = (res, t')) (hu : r.settled cwd u paged' = (res', u')) :
    res'.toOption = res.toOption ∧ Parallel E t' u' := by
  obtain ⟨hw, place, hlead, hdoc⟩ := hfiled
  cases paged with
  | error e =>
    cases paged' with
    | ok _ => cases hpaged
    | error e' =>
      cases ht
      cases hu
      exact ⟨rfl, hs.restored h hlead hw hdoc⟩
  | ok shown =>
    cases paged' with
    | error e' => cases hpaged
    | ok shown' =>
      obtain rfl : shown' = shown := Option.some.inj hpaged
      cases ht
      cases hu
      exact ⟨rfl, hs.discarded h hlead⟩

theorem InStep.counted {w v : Workspace} (h : r.InStep w.progress v.progress) :
    r.InStep (counted w) (counted v) := by
  refine ⟨h.pending, fun k => ?_⟩
  have hdue := h.due (1 + k)
  rwa [← Nat.add_assoc, ← Nat.add_assoc] at hdue

theorem InStep.setPending (h : r.InStep p q) (pending : Bool) :
    r.InStep { p with pending } { q with pending } :=
  ⟨rfl, h.due⟩

theorem InStep.postponed (h : r.InStep p q) : r.InStep (r.postponed p) (r.postponed q) := by
  unfold RuleSummary.postponed
  split
  · exact h.setPending true
  · exact h

theorem Sheltered.firstPage {n n' : Nat} {res res' : Except Error Unit} (hs : r.Sheltered E cwd)
    (h : Parallel E t u) (hstep : r.InStep p q) (hdue : r.due n' = r.due n)
    (hr : Restamped pageName html html') (ht : FirstPage r cwd n html t p res t' p')
    (hu : FirstPage r cwd n' html' u q res' u' q') :
    res'.toOption = res.toOption ∧ Parallel E t' u' ∧ r.InStep p' q' := by
  cases ht with
  | shown due page =>
    cases hu with
    | shown due' page' =>
      obtain ⟨hres, htree⟩ := h.replaced hs.tidy isName_pageName hs.page page page' hr
      exact ⟨hres, htree, hstep⟩
    | noted due' =>
      rw [hdue, due] at due'
      cases due'
  | noted due =>
    cases hu with
    | shown due' =>
      rw [hdue, due] at due'
      cases due'
    | noted => exact ⟨rfl, h, hstep.setPending _⟩

theorem Sheltered.nextPage {n n' : Nat} {res res' : Except Error Bool} (hs : r.Sheltered E cwd)
    (h : Parallel E t u) (hstep : r.InStep p q) (hdue : r.due n' = r.due n)
    (hr : Restamped pageName html html') (ht : NextPage r cwd n html t p res t' p')
    (hu : NextPage r cwd n' html' u q res' u' q') :
    res'.toOption = res.toOption ∧ Parallel E t' u' ∧ r.InStep p' q' := by
  cases ht with
  | shown due page =>
    cases hu with
    | shown due' page' =>
      obtain ⟨-, htree⟩ := h.replaced hs.tidy isName_pageName hs.page page page' hr
      exact ⟨rfl, htree, hstep.setPending _⟩
    | failed due' page' => cases (h.replaced hs.tidy isName_pageName hs.page page page' hr).1
    | noted due' =>
      rw [hdue, due] at due'
      cases due'
  | failed due page =>
    cases hu with
    | shown due' page' => cases (h.replaced hs.tidy isName_pageName hs.page page page' hr).1
    | failed due' page' =>
      obtain ⟨-, htree⟩ := h.replaced hs.tidy isName_pageName hs.page page page' hr
      exact ⟨rfl, htree, hstep⟩
    | noted due' =>
      rw [hdue, due] at due'
      cases due'
  | noted due =>
    cases hu with
    | shown due' | failed due' =>
      rw [hdue, due] at due'
      cases due'
    | noted => exact ⟨rfl, h, hstep.postponed⟩

end

/-! ## Whole updates -/

section

variable {r : RuleSummary} {E : Place → Prop} {d : Document} {html html' : String}
  {w w' v v' : Workspace} {t u : Tree} {p q : Progress} {th : Thread}

theorem Sheltered.first {res res' : Except Error RuleUpdate} (hs : r.Sheltered E w.home)
    (h : Parallel E w.tree v.tree) (hhome : v.home = w.home)
    (hstep : r.InStep w.progress v.progress) (hr : Restamped pageName html html')
    (hd : d.isEmpty = false) (hnew : ¬ r.Founded w.tree w.home)
    (hw : Effect r d html w res t p) (hv : Effect r d html' v res' u q) :
    res'.toOption = res.toOption ∧ Parallel E t u ∧ r.InStep p q := by
  have hnew' : ¬ r.Founded v.tree v.home := by rwa [hhome, hs.founded_iff h]
  obtain ⟨saved, t₁, hsave, hw⟩ := hw.first_stages hd hnew
  obtain ⟨saved', u₁, hsave', hv⟩ := hv.first_stages hd hnew'
  rw [hhome] at hsave' hv
  obtain ⟨hsaved, h₁⟩ :=
    h.replaced hs.tidy isName_documentName hs.document hsave hsave' (.same _)
  cases saved with
  | error e =>
    cases saved' with
    | ok _ => cases hsaved
    | error e' =>
      obtain ⟨rfl, rfl, rfl⟩ := hw
      obtain ⟨rfl, rfl, rfl⟩ := hv
      exact ⟨rfl, h₁, hstep.counted⟩
  | ok _ =>
    cases saved' with
    | error e' => cases hsaved
    | ok _ =>
      obtain ⟨paged, hpage, rfl⟩ := hw
      obtain ⟨paged', hpage', rfl⟩ := hv
      obtain ⟨hpaged, h₂, hstep₂⟩ :=
        hs.firstPage h₁ hstep.counted (hstep.due 1) hr hpage hpage'
      refine ⟨?_, h₂, hstep₂⟩
      cases paged <;> cases paged' <;> first | rfl | cases hpaged

theorem Sheltered.next {res res' : Except Error RuleUpdate} (hs : r.Sheltered E w.home)
    (h : Parallel E w.tree v.tree) (hhome : v.home = w.home)
    (hstep : r.InStep w.progress v.progress) (hd : d.isEmpty = false)
    (hold : r.Founded w.tree w.home) (hw : Effect r d html w res t p)
    (hv : Effect r d html' v res' u q) :
    res'.toOption = res.toOption ∧ Parallel E t u ∧ r.InStep p q := by
  have hold' : r.Founded v.tree v.home := by rwa [hhome, hs.founded_iff h]
  obtain ⟨place, hlead⟩ := leadsTo_of_founded hold
  obtain ⟨read, t₁, hprior, hw⟩ := hw.next_stages hd hold
  obtain ⟨read', u₁, hprior', hv⟩ := hv.next_stages hd hold'
  rw [hhome] at hprior' hv
  obtain ⟨hread, h₁⟩ := hs.prior h hlead hprior hprior'
  have hlead₁ := hlead.mono (spares_prior (n := "") (by decide) hprior).1
  cases read with
  | error e =>
    cases read' with
    | ok _ => cases hread
    | error e' =>
      obtain ⟨rfl, rfl, rfl⟩ := hw
      obtain ⟨rfl, rfl, rfl⟩ := hv
      exact ⟨rfl, h₁, hstep.counted⟩
  | ok prior =>
    cases read' with
    | error e' => cases hread
    | ok prior' =>
      obtain rfl : prior' = prior := Option.some.inj hread
      obtain ⟨saved, t₂, hsave, hw⟩ := hw
      obtain ⟨saved', u₂, hsave', hv⟩ := hv
      obtain ⟨hsaved, h₂⟩ :=
        h₁.replaced hs.tidy isName_documentName hs.document hsave hsave' (.same _)
      have hlead₂ := hlead₁.mono hsave.dirsKept
      cases saved with
      | error e =>
        cases saved' with
        | ok _ => cases hsaved
        | error e' =>
          obtain ⟨rfl, rfl, rfl⟩ := hw
          obtain ⟨rfl, rfl, rfl⟩ := hv
          exact ⟨rfl, hs.discarded h₂ hlead₂, hstep.counted⟩
      | ok _ =>
        cases saved' with
        | error e' => cases hsaved
        | ok _ =>
          obtain ⟨paged, t₃, hpage, hw⟩ := hw
          obtain ⟨paged', u₃, hpage', hv⟩ := hv
          obtain ⟨hpaged, h₃, hstep₃⟩ := hs.nextPage h₂ hstep.counted (hstep.due 1)
            (.rendered frame w.now v.now _ (.inl rfl)) hpage hpage'
          obtain ⟨hres, h₄⟩ := hs.settled h₃ hpaged (hpage.filed hsave) hw hv
          exact ⟨hres, h₄, hstep₃⟩

theorem Sheltered.update {res res' : Except Error RuleUpdate} (hs : r.Sheltered E w.home)
    (h : Parallel E w.tree v.tree) (hhome : v.home = w.home)
    (hstep : r.InStep w.progress v.progress) (hr : Restamped pageName html html')
    (hw : Course th Request.credible (r.update d html) w (.done res) w')
    (hv : Course th Request.credible (r.update d html') v (.done res') v') :
    res'.toOption = res.toOption ∧ Parallel E w'.tree v'.tree ∧
      r.InStep w'.progress v'.progress := by
  cases hd : d.isEmpty with
  | true =>
    rw [RuleSummary.update, if_pos hd] at hw hv
    obtain ⟨rfl, m, rfl⟩ := hw.of_done
    obtain ⟨rfl, m', rfl⟩ := hv.of_done
    exact ⟨rfl, h, hstep⟩
  | false =>
    obtain ⟨m, hw, -⟩ := effect_of_course hw
    obtain ⟨m', hv, -⟩ := effect_of_course hv
    by_cases hfounded : r.Founded w.tree w.home
    · exact hs.next (w := w.setNow m) (v := v.setNow m') h hhome hstep hd hfounded hw hv
    · exact hs.first (w := w.setNow m) (v := v.setNow m') h hhome hstep hr hd hfounded hw hv

theorem Sheltered.finish {res res' : Except Error Bool} (hs : r.Sheltered E w.home)
    (h : Parallel E w.tree v.tree) (hhome : v.home = w.home)
    (hstep : r.InStep w.progress v.progress)
    (hw : Course th Request.credible r.finish w (.done res) w')
    (hv : Course th Request.credible r.finish v (.done res') v') :
    res'.toOption = res.toOption ∧ Parallel E w'.tree v'.tree ∧
      r.InStep w'.progress v'.progress := by
  obtain ⟨m, hending, hprogress, -⟩ := ending_of_course hw
  obtain ⟨m', hending', hprogress', -⟩ := ending_of_course hv
  rw [hprogress, hprogress']
  suffices res'.toOption = res.toOption ∧ Parallel E w'.tree v'.tree from
    ⟨this.1, this.2, hstep.setPending false⟩
  have hloaded : loaded v.tree v.home r.document = loaded w.tree w.home r.document := by
    rw [hhome]
    refine h.loaded_eq hs.document ?_
    rw [RuleSummary.document, aim_div _ _ isName_documentName]
    show documentName ∉ pageNames
    decide
  have hw := hending.stages
  have hv := hending'.stages
  simp only [Workspace.tree_setNow, Workspace.home_setNow, Workspace.progress_setNow, hloaded,
    hstep.pending] at hw hv
  cases hpending : w.progress.pending with
  | false =>
    simp only [hpending] at hw hv
    rw [hw.1, hw.2, hv.1, hv.2]
    exact ⟨rfl, h⟩
  | true =>
    cases hread : loaded w.tree w.home r.document with
    | error e =>
      simp only [hpending, hread] at hw hv
      rw [hw.1, hw.2, hv.1, hv.2]
      exact ⟨rfl, h⟩
    | ok merged =>
      simp only [hpending, hread] at hw hv
      obtain ⟨saved, hpage, rfl⟩ := hw
      obtain ⟨saved', hpage', rfl⟩ := hv
      rw [hhome] at hpage'
      obtain ⟨hsaved, htree⟩ := h.replaced hs.tidy isName_pageName hs.page hpage hpage'
        (.rendered frame m m' _ (.inl rfl))
      refine ⟨?_, htree⟩
      cases saved <;> cases saved' <;> first | rfl | cases hsaved

end

end RuleSummary

/-! ## The bundle page -/

namespace BundleSummary

variable {b : BundleSummary} {report : Path} {d : Document} {th : Thread} {w w' v v' : Workspace}
  {E : Place → Prop}

/-- Whatever becomes of a row, nothing changes but the page and the directories it needs. -/
theorem Appending.elsewhere {res : Except Error Appended} {t : Tree} {q : Place}
    (h : Appending b report d w res t) (hd : d.isEmpty = false)
    (hstamp : (w.tree.stat w.home b.page).isSome = false → '<' ∉ w.now.toList)
    (hq : q ≠ pageName :: aim w.home b.dir) :
    t.get? q = (prepared w.tree w.home b.page).get? q := by
  have hstages := h.stages hd
  cases hpage : b.extended? report d w with
  | none =>
    simp only [hpage] at hstages
    -- A new page takes every row, so there is a page and its directory exists.
    have hpresent : (w.tree.stat w.home b.page).isSome := by
      by_contra habsent
      rw [Bool.not_eq_true] at habsent
      have hnew : template w.now = pageText w.now [] := by simp [template, pageText]
      rw [extended?, toOption_current, habsent, cond_false, hnew, Option.bind_some,
        insertRow?_pageText (hstamp habsent) (by simp)] at hpage
      cases hpage
    obtain ⟨-, place, hlead, -⟩ := (stat_div_isSome isName_pageName).1 hpresent
    rw [hstages, page, prepared_of_leadsTo isName_pageName hlead]
  | some text =>
    simp only [hpage] at hstages
    obtain ⟨saved, hsave, -⟩ := hstages
    cases hsave with
    | written able spot free result =>
      rw [result, Function.update_of_ne]
      rw [eq_aim_of_spot spot, page, aim_div _ _ isName_pageName]
      exact hq
    | failed unable result => rw [result]

/-- The same row in both runs keeps the trees parallel, also if the pages are where they differ. -/
theorem append_parallel {res res' : Except Error Appended} (h : Parallel E w.tree v.tree)
    (hE : Tidy E) (hdir : Clear E w.home b.dir) (hhome : v.home = w.home)
    (hw : Course th Request.credible (b.append report d) w (.done res) w')
    (hv : Course th Request.credible (b.append report d) v (.done res') v') :
    Parallel E w'.tree v'.tree := by
  obtain ⟨m, happending, -, hstamp⟩ := b.appending_of_course report d (fun _ _ => id) hw
  obtain ⟨m', happending', -, hstamp'⟩ := b.appending_of_course report d (fun _ _ => id) hv
  cases hd : d.isEmpty with
  | true =>
    rw [happending.tree_of_isEmpty hd, happending'.tree_of_isEmpty hd]
    exact h
  | false =>
    by_cases hpage : E (pageName :: aim w.home b.dir)
    · -- What is written to the page is written where the trees may differ.
      intro n place hn
      have hne : n :: place ≠ pageName :: aim w.home b.dir := fun heq => hn (heq ▸ hpage)
      rw [happending.elsewhere hd (hstamp hd) hne,
        happending'.elsewhere hd (hstamp' hd) (by rwa [Workspace.home_setNow, hhome])]
      simp only [Workspace.tree_setNow, Workspace.home_setNow, hhome]
      exact h.prepared isName_pageName hdir n place hn
    · have hclear : Clear E w.home b.page := clear_div isName_pageName hdir hpage
      have hread := h.read_alike hclear
      have hname : (aim w.home b.page).headD "" = pageName := by
        rw [page, aim_div _ _ isName_pageName]
        rfl
      rw [hname] at hread
      have hcurrent : Option.Rel (Restamped pageName) (b.current (w.setNow m)).toOption
          (b.current (v.setNow m')).toOption := by
        refine current_restamped hhome (h.stat_eq hclear) ?_ (hstamp hd) (hstamp' hd)
        generalize w.tree.read w.home b.page = x, v.tree.read w.home b.page = y at hread
        cases hread with
        | error fault => exact .none
        | ok htext => exact .some htext
      have hextended : Option.Rel (Restamped pageName) (b.extended? report d (w.setNow m))
          (b.extended? report d (v.setNow m')) := extended?_restamped hhome hcurrent
      have hstages := happending.stages hd
      have hstages' := happending'.stages hd
      generalize b.extended? report d (w.setNow m) = x,
        b.extended? report d (v.setNow m') = y at hextended hstages hstages'
      cases hextended with
      | none =>
        simp only [Workspace.tree_setNow] at hstages hstages'
        rwa [hstages, hstages']
      | some hr =>
        obtain ⟨saved, hsave, -⟩ := hstages
        obtain ⟨saved', hsave', -⟩ := hstages'
        rw [Workspace.home_setNow, hhome] at hsave'
        exact (h.replaced hE isName_pageName hclear hsave hsave' hr).2

end BundleSummary

end LintDigest
