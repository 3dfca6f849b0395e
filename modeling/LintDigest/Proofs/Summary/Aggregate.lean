import LintDigest.Proofs.Document.Canonical
import LintDigest.Proofs.Summary.Update

/-!
# No update is lost

Once a summary is founded, its document holds the merge of exactly the documents that updates have
taken in, in order, after every run of updates and renderings, whoever makes them and whatever
becomes of them, and whatever happens to the page and the snapshot in between.
-/

namespace LintDigest.RuleSummary

open Script Storage LintDigest.Tree

/-- What an update has taken in. -/
def accepted (d : Document) : Except Error RuleUpdate → List Document
  | .ok .initial | .ok (.merged _) => [d]
  | .ok .skipped | .error _ => []

/-- The summary at `place` holds the document `d`. -/
def Holds (place : Place) (t : Tree) (d : Document) : Prop :=
  t.get? place = some .dir ∧ t.get? (documentName :: place) = some (.file (.text d.toXml))

section

variable {r : RuleSummary} {t t' : Tree} {cwd place : Place} {d : Document}

/-! ## What does not touch the document -/

theorem Holds.congr (h : Holds place t d) (ht : t'.get? = t.get?) : Holds place t' d :=
  ⟨ht ▸ h.1, ht ▸ h.2⟩

theorem Holds.update_other {n : String} {x : Option Entry} (h : Holds place t d)
    (ht : t'.get? = Function.update t.get? (n :: place) x) (hn : n ≠ documentName) :
    Holds place t' d := by
  have hplace : place ≠ n :: place := fun e => by simpa using congrArg List.length e
  have hdoc : documentName :: place ≠ n :: place := fun e => hn (List.cons.inj e).1.symm
  rw [Holds, ht, Function.update_of_ne hplace, Function.update_of_ne hdoc]
  exact h

theorem Holds.update_document {d' : Document} (h : Holds place t d)
    (ht : t'.get? = Function.update t.get? (documentName :: place)
      (some (.file (.text d'.toXml)))) : Holds place t' d' := by
  have hplace : place ≠ documentName :: place := fun e => by simpa using congrArg List.length e
  rw [Holds, ht, Function.update_of_ne hplace, Function.update_self]
  exact ⟨h.1, rfl⟩

theorem Holds.keeps (h : Holds place t d) (hk : Keeps documentName t t') : Holds place t' d :=
  ⟨hk.1 _ h.1, hk.2 _ _ h.2⟩

theorem Holds.discarded (h : Holds place t d) : Holds place (r.discarded t cwd) d :=
  h.keeps (spares_discarded (by decide)).keeps

theorem Holds.replaced_page {text : String} {res : Except Error Unit} (h : Holds place t d)
    (hpage : Replaced t cwd r.page text res t') : Holds place t' d :=
  h.keeps (hpage.keeps isName_pageName (by decide))

/-! ## One update -/

theorem Holds.founded (h : Holds place t d) (hlead : LeadsTo t cwd r.dir place)
    (hw : Walkable r.document) : (t.stat cwd r.document).isSome :=
  (stat_div_isSome isName_documentName).2 ⟨hw, place, hlead, by rw [h.2]; rfl⟩

theorem Holds.loaded_eq (h : Holds place t d) (hd : d.Canonical)
    (hlead : LeadsTo t cwd r.dir place) (hw : Walkable r.document) :
    loaded t cwd r.document = .ok d := by
  have hresolve := (resolve_div isName_documentName).2 ⟨hw, place, hlead, rfl, h.2⟩
  rw [document, loaded_of_resolve hresolve, decoded, hd.ofXml_eq]

/-- What an update reads is the document, by way of the snapshot, unless it cannot see it. -/
theorem Holds.prior (h : Holds place t d) (hd : d.Canonical) (hlead : LeadsTo t cwd r.dir place)
    {p : Document} {t₁ : Tree} (hread : r.Prior t cwd (.ok p) t₁) :
    (¬ Walkable r.document ∧ t₁ = t) ∨
    (p = d ∧ Walkable r.document ∧ Walkable r.snapshot ∧ Holds place t₁ d ∧
      LeadsTo t₁ cwd r.dir place ∧
      t₁.get? (snapshotName :: place) = some (.file (.text d.toXml))) := by
  rcases prior_cases hlead hread with ⟨hnone, -, rfl⟩ | ⟨-, ⟨e, he⟩, -⟩ | ⟨c, hcopied⟩
  · refine .inl ⟨fun hw => ?_, rfl⟩
    have hsome := h.founded hlead hw
    rw [hnone] at hsome
    cases hsome
  · cases he
  · obtain ⟨hwd, hws, hdoc, hsnap, hview, hdecoded⟩ := hcopied
    rw [h.2] at hdoc
    cases hdoc
    rw [decoded, hd.ofXml_eq] at hdecoded
    cases hdecoded
    refine .inr ⟨rfl, hwd, hws, h.update_other hview (by decide), ?_, ?_⟩
    · exact hlead.mono (dirsKept_of_update hview hsnap)
    · rw [hview, Function.update_self]

/-- Once the merged document is saved, the snapshot has what was there before. -/
theorem Holds.saved (h : Holds place t d) (hd : d.Canonical) (hlead : LeadsTo t cwd r.dir place)
    {p x : Document} {t₁ t₂ : Tree} (hread : r.Prior t cwd (.ok p) t₁)
    (hsave : Replaced t₁ cwd r.document (p.merge x).toXml (.ok ()) t₂) :
    p = d ∧ Walkable r.document ∧ Walkable r.snapshot ∧ Holds place t₂ (d.merge x) ∧
      LeadsTo t₂ cwd r.dir place ∧
      t₂.get? (snapshotName :: place) = some (.file (.text d.toXml)) := by
  rcases h.prior hd hlead hread with ⟨hunseen, rfl⟩ | ⟨rfl, hwd, hws, hholds, hlead₁, hsnap⟩
  · exact absurd (hsave.written_of_leadsTo isName_documentName hlead).1 hunseen
  · obtain ⟨-, -, hview⟩ := hsave.written_of_leadsTo isName_documentName hlead₁
    refine ⟨rfl, hwd, hws, hholds.update_document hview, hlead₁.mono hsave.dirsKept, ?_⟩
    have hne : snapshotName :: place ≠ documentName :: place :=
      fun e => absurd (List.cons.inj e).1 (by decide)
    rw [hview, Function.update_of_ne hne, hsnap]

end

section

variable {r : RuleSummary} {d held : Document} {modulePage : String} {w : Workspace} {place : Place}
  {res : Except Error RuleUpdate} {t : Tree} {p : Progress}

/-- An update merges what it takes in into the document, and leaves the document as it was when it
fails. -/
theorem Holds.effect (h : Holds place w.tree held) (hheld : held.Canonical)
    (hlead : LeadsTo w.tree w.home r.dir place) (he : Effect r d modulePage w res t p) :
    Holds place t ((accepted d res).foldl Document.merge held) := by
  have hnew : ∀ {text t₁}, ¬ r.Founded w.tree w.home →
      ¬ Replaced w.tree w.home r.document text (.ok ()) t₁ := by
    intro text t₁ new save
    have hw := (save.written_of_leadsTo isName_documentName hlead).1
    exact new (.inl (h.founded hlead hw))
  cases he with
  | skipped empty => exact h
  | unsaved new save => exact h.congr (save.failed_of_leadsTo isName_documentName hlead)
  | unpaged new save => exact absurd save (hnew new)
  | founded new save => exact absurd save (hnew new)
  | foundedLater new save => exact absurd save (hnew new)
  | unread old read =>
    rcases prior_cases hlead read with ⟨-, he, -⟩ | ⟨-, -, rfl, -⟩ | ⟨c, -, -, -, -, hview, -⟩
    · cases he
    · exact h
    · exact h.update_other hview (by decide)
  | unextended old read save =>
    rcases h.prior hheld hlead read with ⟨-, rfl⟩ | ⟨-, -, -, hholds, hlead₁, -⟩
    · exact (h.congr (save.failed_of_leadsTo isName_documentName hlead)).discarded
    · exact (hholds.congr (save.failed_of_leadsTo isName_documentName hlead₁)).discarded
  | @unrefreshed e prior t₁ t₂ t₃ old read save due page =>
    obtain ⟨rfl, hwd, hws, hholds, hlead₂, hsnap⟩ := h.saved hheld hlead read save
    have hsame := page.failed_of_leadsTo isName_pageName hlead₂
    have hsnap₃ := congrFun hsame _ ▸ hsnap
    have hholds₃ := hholds.congr hsame
    -- The snapshot is a file, so it goes back to where it came from.
    obtain ⟨c, -, hc, hrestored⟩ | ⟨hnot, -⟩ :=
      restored_cases (hlead₂.mono page.dirsKept) hwd hholds₃.2
    · rw [hsnap₃] at hc
      cases hc
      have hgone := hholds₃.update_other (get?_erase t₃ snapshotName place) (by decide)
      exact hgone.update_document (hrestored.trans (by rw [get?_erase]; rfl))
    · exact absurd ⟨hws, _, hsnap₃⟩ hnot
  | refreshed old read save due page =>
    obtain ⟨rfl, -, -, hholds, hlead₂, -⟩ := h.saved hheld hlead read save
    exact (hholds.replaced_page page).discarded
  | extended old read save due =>
    obtain ⟨rfl, -, -, hholds, hlead₂, -⟩ := h.saved hheld hlead read save
    exact hholds.discarded

theorem Holds.finish {w' : Workspace} {th : Thread} {out : Except Error Bool}
    (h : Holds place w.tree held) (hrun : r.finish.run th w = (out, w')) :
    Holds place w'.tree held := by
  rcases tree_finish hrun with hsame | ⟨merged, saved, -, hpage⟩
  · rwa [hsame]
  · exact h.replaced_page hpage

end

/-! ## Runs -/

/-- What the surroundings may do to a summary: they put what they like at the page and at the
snapshot, and below them. -/
def Disturbed (place : Place) (t t' : Tree) : Prop :=
  ∀ q, ¬ (pageName :: place) <:+ q → ¬ (snapshotName :: place) <:+ q → t'.get? q = t.get? q

/-- Runs over the summary at `place`, with the documents that were taken in. Between two steps
anything may change but the files: the next step may be made by another summary of another process,
from another current directory and with a history of its own. -/
inductive Run (place : Place) (w : Workspace) : List Document → Workspace → Prop
  | start : Run place w [] w
  | update {taken : List Document} {w₁ w₂ : Workspace} {r : RuleSummary} {d : Document}
      {modulePage : String} {th : Thread} {res : Except Error RuleUpdate}
      (before : Run place w taken w₁) (leads : LeadsTo w₁.tree w₁.home r.dir place)
      (canonical : d.Canonical) (call : (r.update d modulePage).run th w₁ = (res, w₂)) :
      Run place w (taken ++ accepted d res) w₂
  | finish {taken : List Document} {w₁ w₂ : Workspace} {r : RuleSummary} {th : Thread}
      {res : Except Error Bool} (before : Run place w taken w₁)
      (leads : LeadsTo w₁.tree w₁.home r.dir place) (call : r.finish.run th w₁ = (res, w₂)) :
      Run place w taken w₂
  | disturb {taken : List Document} {w₁ w₂ : Workspace} (before : Run place w taken w₁)
      (change : Disturbed place w₁.tree w₂.tree) : Run place w taken w₂

theorem Holds.disturbed {place : Place} {t t' : Tree} {d : Document} (h : Holds place t d)
    (hd : Disturbed place t t') : Holds place t' d := by
  have hplace : ∀ n : String, ¬ (n :: place) <:+ place := by
    intro n hs
    exact absurd hs.length_le (by simp)
  have hdoc : ∀ n, n ≠ documentName → ¬ (n :: place) <:+ (documentName :: place) := by
    intro n hn hs
    exact hn (List.cons.inj (hs.eq_of_length rfl)).1
  refine ⟨?_, ?_⟩
  · rw [hd _ (hplace _) (hplace _)]
    exact h.1
  · rw [hd _ (hdoc _ (by decide)) (hdoc _ (by decide))]
    exact h.2

/-- Every step keeps the summary: what it holds is what it held, merged with what was taken in. -/
theorem Holds.run {place : Place} {w w' : Workspace} {held : Document} {taken : List Document}
    (h : Holds place w.tree held) (hheld : held.Canonical) (hrun : Run place w taken w') :
    Holds place w'.tree (taken.foldl Document.merge held) ∧ ∀ d ∈ taken, d.Canonical := by
  induction hrun with
  | start => exact ⟨h, by simp⟩
  | @update taken w₁ w₂ r d modulePage th res before leads canonical call ih =>
    obtain ⟨hholds, htaken⟩ := ih
    have hcanonical := Document.canonical_foldl_merge hheld htaken
    refine ⟨?_, ?_⟩
    · rw [List.foldl_append]
      exact hholds.effect hcanonical leads (effect_update r d modulePage th call)
    · refine List.forall_mem_append.2 ⟨htaken, ?_⟩
      rcases res with e | (_ | _ | _) <;> simp [accepted, canonical]
  | finish before leads call ih => exact ⟨ih.1.finish call, ih.2⟩
  | disturb before change ih => exact ⟨ih.1.disturbed change, ih.2⟩

/-- The update that founds a summary leaves its document there. -/
theorem holds_of_founded {r : RuleSummary} {d : Document} {modulePage : String} {th : Thread}
    {w w' : Workspace} {u : RuleUpdate} (hnew : ¬ r.Founded w.tree w.home)
    (hd : d.isEmpty = false) (h : (r.update d modulePage).run th w = (.ok u, w')) :
    ∃ place, LeadsTo w'.tree w'.home r.dir place ∧ Walkable r.document ∧ Holds place w'.tree d := by
  have hsaved : ∀ {t₁}, Replaced w.tree w.home r.document d.toXml (.ok ()) t₁ →
      ∃ place, LeadsTo t₁ w.home r.dir place ∧ Walkable r.document ∧ Holds place t₁ d := by
    intro t₁ save
    obtain ⟨hw, place, hlead, hdoc⟩ := save.written_div isName_documentName
    exact ⟨place, hlead, hw, hlead.2, hdoc⟩
  rw [home_eq_of_run h]
  have heffect := effect_update r d modulePage th h
  generalize w'.tree = t, w'.progress = p at heffect
  cases heffect with
  | skipped empty =>
    rw [empty] at hd
    cases hd
  | founded new save due page =>
    obtain ⟨place, hlead, hw, hholds⟩ := hsaved save
    exact ⟨place, hlead.mono page.dirsKept, hw, hholds.replaced_page page⟩
  | foundedLater new save due => exact hsaved save
  | refreshed old => exact absurd old hnew
  | extended old => exact absurd old hnew

/-- After the update that founds a summary, and after whatever run of updates, renderings and
disturbances, the document is there and reads as all the documents that were taken in, merged in
order. -/
theorem document_eq_mergeAll {r : RuleSummary} {d : Document} {modulePage : String} {th : Thread}
    {w w₁ : Workspace} {u : RuleUpdate} (hdocument : w.tree.stat w.home r.document = none)
    (hpage : w.tree.stat w.home r.page = none) (hd : d.Canonical) (hne : d.isEmpty = false)
    (hfirst : (r.update d modulePage).run th w = (.ok u, w₁)) :
    ∃ place, LeadsTo w₁.tree w₁.home r.dir place ∧ Walkable r.document ∧
      ∀ taken w₂, Run place w₁ taken w₂ →
        (∃ text, w₂.tree.get? (documentName :: place) = some (.file (.text text)) ∧
          ∀ origin, Document.ofXml origin text = .ok (Document.mergeAll (d :: taken))) ∧
        ∀ (r' : RuleSummary) (th' : Thread), LeadsTo w₂.tree w₂.home r'.dir place →
          Walkable r'.document →
            ((loadDocument r'.document).run th' w₂).1 =
              .ok (Document.mergeAll (d :: taken)) := by
  have hnew : ¬ r.Founded w.tree w.home := by
    rintro (h | h)
    · rw [hdocument] at h
      cases h
    · rw [hpage] at h
      cases h
  obtain ⟨place, hlead, hw, hholds⟩ := holds_of_founded hnew hne hfirst
  refine ⟨place, hlead, hw, fun taken w₂ hrun => ?_⟩
  obtain ⟨hheld, htaken⟩ := hholds.run hd hrun
  have hall : ∀ x ∈ d :: taken, x.Canonical := List.forall_mem_cons.2 ⟨hd, htaken⟩
  have hmerge : Document.mergeAll (d :: taken) = taken.foldl Document.merge d := by
    rw [Document.mergeAll_eq_foldl fun x hx => (hall x hx).1, List.foldl_cons,
      Document.empty_merge]
  have hread : ∀ origin, Document.ofXml origin (taken.foldl Document.merge d).toXml =
      .ok (Document.mergeAll (d :: taken)) := by
    intro origin
    rw [hmerge]
    exact (Document.canonical_foldl_merge hd htaken).ofXml_eq origin
  refine ⟨⟨_, hheld.2, hread⟩, fun r' th' hlead' hw' => ?_⟩
  have hresolve := (resolve_div isName_documentName).2 ⟨hw', place, hlead', rfl, hheld.2⟩
  rw [run_loadDocument]
  exact (loaded_of_resolve hresolve).trans (hread _)

/-- A summary that renders its page with every update. -/
def eager : RuleSummary := ⟨⟨"site"⟩, .continuous, 0⟩

/-- A workspace without files. -/
def bare : Workspace := { lock := ⟨"summary", none, 0⟩ }

/-- A document with one diagnostic. -/
def oneFinding : Document := ⟨[⟨"A.java", [⟨1, .error, "boom", none⟩]⟩]⟩

theorem document_eq_mergeAll_eager :
    ∃ w₁ w₂, (eager.update oneFinding "<p>").run "main" bare = (.ok .initial, w₁) ∧
      (eager.update oneFinding "<p>").run "main" w₁ = (.ok (.merged true), w₂) ∧
      ∃ place text, w₂.tree.get? (documentName :: place) = some (.file (.text text)) ∧
        ∀ origin, Document.ofXml origin text =
          .ok (Document.mergeAll [oneFinding, oneFinding]) := by
  have hfirst : ((eager.update oneFinding "<p>").run "main" bare).1.toOption =
      some .initial := by decide +kernel
  have hsecond : ((eager.update oneFinding "<p>").run "main"
      ((eager.update oneFinding "<p>").run "main" bare).2).1.toOption =
        some (.merged true) := by decide +kernel
  have hone : oneFinding.Canonical := by decide
  rcases hrun₁ : (eager.update oneFinding "<p>").run "main" bare with ⟨res₁, w₁⟩
  rw [hrun₁] at hfirst hsecond
  rcases hrun₂ : (eager.update oneFinding "<p>").run "main" w₁ with ⟨res₂, w₂⟩
  rw [hrun₂] at hsecond
  obtain rfl := eq_ok_of_toOption hfirst
  obtain rfl := eq_ok_of_toOption hsecond
  obtain ⟨place, hlead, -, hall⟩ := document_eq_mergeAll (r := eager) (w := bare) rfl rfl hone rfl
    hrun₁
  have hrun : Run place w₁ [oneFinding] w₂ := .update .start hlead hone hrun₂
  obtain ⟨text, htext, hread⟩ := (hall _ _ hrun).1
  exact ⟨w₁, w₂, rfl, hrun₂, place, text, htext, hread⟩

end LintDigest.RuleSummary
