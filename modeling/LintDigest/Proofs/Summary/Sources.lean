import LintDigest.Proofs.Document.Canonical
import LintDigest.Proofs.Summary.ParallelUpdate

/-!
# Where summaries come from

However updates end, whatever the files of a summary hold was put together from modules that it took
in: the document and the snapshot of the rule summary from their documents, in order, and the bundle
page from their rows. Nothing else is ever written there, so what a summary starts without, it never
shows.
-/

namespace LintDigest

open Script Storage LintDigest.Tree

/-! ## The rule summary -/

namespace RuleSummary

/-- The file holds a merge of some of the documents, in order. -/
def Stems (ds : List Document) (c : Content) : Prop :=
  ∃ taken : List Document, taken.Sublist ds ∧ c = .text (Document.mergeAll taken).toXml

/-- The document and the snapshot, if they are files, hold merges of some of the documents. -/
def Sourced (r : RuleSummary) (cwd : Place) (ds : List Document) (t : Tree) : Prop :=
  ∀ n ∈ [documentName, snapshotName], ∀ c, t.get? (n :: aim cwd r.dir) = some (.file c) → Stems ds c

section

variable {r : RuleSummary} {cwd place : Place} {t t' t₁ : Tree} {ds : List Document} {d : Document}
  {html text : String} {w : Workspace} {p : Progress}

theorem Stems.mono {ds' : List Document} {c : Content} (h : Stems ds c) (hds : ds.Sublist ds') :
    Stems ds' c := by
  obtain ⟨taken, htaken, hc⟩ := h
  exact ⟨taken, htaken.trans hds, hc⟩

theorem Sourced.mono {ds' : List Document} (h : r.Sourced cwd ds t) (hds : ds.Sublist ds') :
    r.Sourced cwd ds' t :=
  fun n hn c hc => (h n hn c hc).mono hds

theorem Sourced.inherits (h : r.Sourced cwd ds t)
    (hi : ∀ n ∈ [documentName, snapshotName], Inherits n t t') : r.Sourced cwd ds t' :=
  fun n hn c hc => h n hn c (hi n hn _ c hc)

theorem Sourced.congr (h : r.Sourced cwd ds t) (ht : t'.get? = t.get?) : r.Sourced cwd ds t' :=
  h.inherits fun _ _ => (spares_of_get? ht).inherits

/-- A change that leaves nothing, or a file that stems from the documents. -/
theorem Sourced.update {q : Place} {x : Option Entry} (h : r.Sourced cwd ds t)
    (hview : t'.get? = Function.update t.get? q x) (hx : ∀ c, x = some (.file c) → Stems ds c) :
    r.Sourced cwd ds t' := by
  intro n hn c hc
  rw [hview] at hc
  by_cases hq : n :: aim cwd r.dir = q
  · rw [hq, Function.update_self] at hc
    exact hx c hc
  · rw [Function.update_of_ne hq] at hc
    exact h n hn c hc

theorem Sourced.save {res : Except Error Unit} (h : r.Sourced cwd ds t)
    (htext : Stems ds (.text text)) (hsave : Replaced t cwd r.document text res t') : r.Sourced cwd ds t' := by
  have hgrown : Grown t (prepared t cwd r.document) := makeDirs_grown t cwd _
  have hprepared := h.inherits fun _ _ => hgrown.spares.inherits
  cases hsave with
  | written able spot free result =>
    refine hprepared.update result ?_
    rintro c ⟨⟩
    exact htext
  | failed unable result => exact hprepared.congr result

theorem ne_pageName_of_mem {n : String} (hn : n ∈ [documentName, snapshotName]) : n ≠ pageName := by
  simp only [List.mem_cons, List.not_mem_nil, or_false] at hn
  rcases hn with rfl | rfl <;> decide

theorem Sourced.page {res : Except Error Unit} (h : r.Sourced cwd ds t)
    (hpage : Replaced t cwd r.page text res t') : r.Sourced cwd ds t' := by
  exact h.inherits fun n hn => (hpage.spares isName_pageName (ne_pageName_of_mem hn)).inherits

/-- What was merged before can be read again. -/
theorem Stems.decoded {q : Path} {c : Content} (h : Stems ds c) (hds : ∀ x ∈ ds, x.Canonical)
    (hd : decoded q c = .ok d) :
    ∃ taken : List Document, taken.Sublist ds ∧ d = Document.mergeAll taken := by
  obtain ⟨taken, htaken, rfl⟩ := h
  have hcanonical : (Document.mergeAll taken).Canonical :=
    Document.canonical_mergeAll fun x hx => hds x (htaken.subset hx)
  rw [Storage.decoded, hcanonical.ofXml_eq] at hd
  cases hd
  exact ⟨taken, htaken, rfl⟩

theorem Sourced.prior {res : Except Error Document} (h : r.Sourced cwd ds t)
    (hds : ∀ x ∈ ds, x.Canonical) (hlead : LeadsTo t cwd r.dir place) (hp : r.Prior t cwd res t₁) :
    r.Sourced cwd ds t₁ ∧ ∀ d, res = .ok d →
      ∃ taken : List Document, taken.Sublist ds ∧ d = Document.mergeAll taken := by
  obtain rfl := hlead.eq_aim
  rcases prior_cases hlead hp with ⟨-, rfl, rfl⟩ | ⟨-, ⟨e, rfl⟩, rfl, -⟩ |
    ⟨c, -, -, hdoc, -, hview, rfl⟩
  · refine ⟨h, ?_⟩
    rintro d ⟨⟩
    exact ⟨[], List.nil_sublist _, by rw [Document.mergeAll]⟩
  · refine ⟨h, fun d hd => ?_⟩
    cases hd
  · have hstems := h documentName (by simp) c hdoc
    refine ⟨h.update hview ?_, fun d hd => hstems.decoded hds hd⟩
    rintro c' ⟨⟩
    exact hstems

theorem Sourced.discarded (h : r.Sourced cwd ds t) (hlead : LeadsTo t cwd r.dir place) :
    r.Sourced cwd ds (r.discarded t cwd) := by
  rcases discarded_cases hlead with ⟨-, -, hview⟩ | ⟨-, hsame⟩
  · exact h.update hview nofun
  · rwa [hsame]

theorem Sourced.settled {paged : Except Error Bool} {res : Except Error RuleUpdate}
    (h : r.Sourced cwd ds t)
    (hfiled : Walkable r.document ∧ ∃ place, LeadsTo t cwd r.dir place ∧
      t.get? (documentName :: place) = some (.file (.text text)))
    (hend : r.settled cwd t paged = (res, t')) : r.Sourced cwd ds t' := by
  obtain ⟨hw, place, hlead, hdoc⟩ := hfiled
  cases paged with
  | ok shown =>
    cases hend
    exact h.discarded hlead
  | error e =>
    cases hend
    rcases restored_cases hlead hw hdoc with ⟨c, -, hsnap, hview⟩ | ⟨-, hsame⟩
    · obtain rfl := hlead.eq_aim
      rw [← get?_erase] at hview
      refine (h.update (get?_erase ..) nofun).update hview ?_
      rintro c' ⟨⟩
      exact h snapshotName (by simp) c hsnap
    · rwa [hsame]

theorem Sourced.firstPage {n : Nat} {p' : Progress} {res : Except Error Unit}
    (h : r.Sourced cwd ds t) (hpage : FirstPage r cwd n html t p res t' p') : r.Sourced cwd ds t' := by
  cases hpage with
  | shown due page => exact h.page page
  | noted due => exact h

theorem Sourced.nextPage {n : Nat} {p' : Progress} {res : Except Error Bool}
    (h : r.Sourced cwd ds t) (hpage : NextPage r cwd n html t p res t' p') : r.Sourced cwd ds t' := by
  cases hpage with
  | shown due page => exact h.page page
  | failed due page => exact h.page page
  | noted due => exact h

theorem Sourced.effect {res : Except Error RuleUpdate} (h : r.Sourced w.home ds w.tree)
    (hds : ∀ x ∈ ds, x.Canonical) (hd : d.Canonical) (hne : d.isEmpty = false)
    (heffect : Effect r d html w res t p) : r.Sourced w.home (ds ++ [d]) t := by
  have hmore : ∀ {t}, r.Sourced w.home ds t → r.Sourced w.home (ds ++ [d]) t :=
    fun h => h.mono (List.sublist_append_left ds [d])
  by_cases hfounded : r.Founded w.tree w.home
  · obtain ⟨place, hlead⟩ := leadsTo_of_founded hfounded
    obtain ⟨read, t₁, hprior, hstages⟩ := heffect.next_stages hne hfounded
    obtain ⟨h₁, hread⟩ := h.prior hds hlead hprior
    have hlead₁ := hlead.mono (spares_prior (n := "") (by decide) hprior).1
    cases read with
    | error e =>
      rw [hstages.2.1]
      exact hmore h₁
    | ok prior =>
      obtain ⟨taken, htaken, rfl⟩ := hread prior rfl
      have hstems : Stems (ds ++ [d]) (.text ((Document.mergeAll taken).merge d).toXml) := by
        refine ⟨taken ++ [d], htaken.append (List.Sublist.refl _), ?_⟩
        rw [Document.mergeAll_concat (fun x hx => hds x (htaken.subset hx)) hd]
      obtain ⟨saved, t₂, hsave, hstages⟩ := hstages
      have h₂ := (hmore h₁).save hstems hsave
      cases saved with
      | error e =>
        rw [hstages.2.1]
        exact h₂.discarded (hlead₁.mono hsave.dirsKept)
      | ok _ =>
        obtain ⟨paged, t₃, hpage, hend⟩ := hstages
        exact (h₂.nextPage hpage).settled (hpage.filed hsave) hend
  · obtain ⟨saved, t₁, hsave, hstages⟩ := heffect.first_stages hne hfounded
    have hstems : Stems (ds ++ [d]) (.text d.toXml) :=
      ⟨[d], List.sublist_append_right ds [d], by rw [Document.mergeAll]⟩
    have h₁ := (hmore h).save hstems hsave
    cases saved with
    | error e =>
      rw [hstages.2.1]
      exact h₁
    | ok _ =>
      obtain ⟨paged, hpage, -⟩ := hstages
      exact h₁.firstPage hpage

/-- An update adds its document to what is there, or nothing. -/
theorem Sourced.updated {th : Thread} {A : (r : Request) → r.Answer → Prop} {w' : Workspace}
    {res : Except Error RuleUpdate} (h : r.Sourced w.home ds w.tree) (hds : ∀ x ∈ ds, x.Canonical)
    (hd : d.Canonical) (hc : Course th A (r.update d html) w (.done res) w') :
    r.Sourced w.home (ds ++ [d]) w'.tree := by
  cases hne : d.isEmpty with
  | true =>
    rw [RuleSummary.update, if_pos hne] at hc
    obtain ⟨-, m, rfl⟩ := hc.of_done
    exact h.mono (List.sublist_append_left ds [d])
  | false =>
    obtain ⟨m, heffect, -⟩ := effect_of_course hc
    exact Sourced.effect (w := w.setNow m) h hds hd hne heffect

/-- At the end of a session only the page changes. -/
theorem Ending.spares {n : String} {res : Except Error Bool} (h : r.Ending w res t)
    (hn : n ≠ pageName) : Spares n w.tree t := by
  cases h with
  | idle | unread => exact spares_of_get? rfl
  | unwritten some read page => exact page.spares isName_pageName hn
  | rendered some read page => exact page.spares isName_pageName hn

end

end RuleSummary

/-! ## The bundle page -/

namespace BundleSummary

/-- The page, if it is a file, shows some of the rows, in order, and nothing else. -/
def Sourced (b : BundleSummary) (cwd : Place) (rows : List String) (t : Tree) : Prop :=
  ∀ c, t.get? (pageName :: aim cwd b.dir) = some (.file c) →
    ∃ stamp shown, '<' ∉ stamp.toList ∧ shown.Sublist rows ∧ c = .text (pageText stamp shown)

section

variable {b : BundleSummary} {cwd : Place} {t t' : Tree} {rows : List String} {report : Path}
  {d : Document} {w w' : Workspace}

theorem Sourced.mono {rows' : List String} (h : b.Sourced cwd rows t) (hrows : rows.Sublist rows') :
    b.Sourced cwd rows' t := by
  intro c hc
  obtain ⟨stamp, shown, hplain, hshown, rfl⟩ := h c hc
  exact ⟨stamp, shown, hplain, hshown.trans hrows, rfl⟩

theorem Sourced.inherits (h : b.Sourced cwd rows t) (hi : Inherits pageName t t') :
    b.Sourced cwd rows t' :=
  fun c hc => h c (hi _ c hc)

/-- Whatever becomes of a row, only the page changes. -/
theorem Appending.spares {n : String} {res : Except Error Appended}
    (h : b.Appending report d w res t) (hn : n ≠ pageName) : Spares n w.tree t := by
  cases h with
  | skipped | refused => exact spares_of_get? rfl
  | unwritten nonempty read insert save => exact save.spares isName_pageName hn
  | added nonempty read insert save => exact save.spares isName_pageName hn

/-- Whether the page is new or not, it is a page of rows. -/
theorem Sourced.current {text : String} (h : b.Sourced w.home rows w.tree)
    (hstamp : (w.tree.stat w.home b.page).isSome = false → '<' ∉ w.now.toList)
    (htext : (b.current w).toOption = some text) :
    ∃ stamp shown, '<' ∉ stamp.toList ∧ shown.Sublist rows ∧ text = pageText stamp shown := by
  rw [toOption_current] at htext
  cases hpresent : (w.tree.stat w.home b.page).isSome with
  | false =>
    rw [hpresent, cond_false] at htext
    cases htext
    exact ⟨w.now, [], hstamp hpresent, List.nil_sublist _, by simp [template, pageText]⟩
  | true =>
    rw [hpresent, cond_true] at htext
    have hfile := get?_of_read (eq_ok_of_toOption htext)
    rw [page, aim_div _ _ isName_pageName] at hfile
    obtain ⟨stamp, shown, hplain, hshown, hcontent⟩ := h _ hfile
    exact ⟨stamp, shown, hplain, hshown, (Content.text.inj hcontent)⟩

theorem Sourced.save {stamp : String} {shown : List String} {res : Except Error Unit}
    (h : b.Sourced cwd rows t) (hplain : '<' ∉ stamp.toList) (hshown : shown.Sublist rows)
    (hsave : Replaced t cwd b.page (pageText stamp shown) res t') : b.Sourced cwd rows t' := by
  have hgrown : Grown t (prepared t cwd b.page) := makeDirs_grown t cwd _
  intro c hfile
  cases hsave with
  | written able spot free result =>
    have hplace := eq_aim_of_spot spot
    rw [page, aim_div _ _ isName_pageName] at hplace
    rw [result, hplace, Function.update_self] at hfile
    cases hfile
    exact ⟨stamp, shown, hplain, hshown, rfl⟩
  | failed unable result =>
    rw [result] at hfile
    exact h c (hgrown.spares.inherits _ c hfile)

/-- A row that is added is added to rows that were there, or to a new page. -/
theorem Sourced.appended {th : Thread} {res : Except Error Appended}
    (h : b.Sourced w.home rows w.tree) (hrows : ∀ row ∈ rows, Unmarked row)
    (hc : Course th Request.credible (b.append report d) w (.done res) w') :
    b.Sourced w.home (rows ++ b.rowsOf w.home [(report, d)]) w'.tree := by
  obtain ⟨m, happending, -, hstamp⟩ := b.appending_of_course report d (fun _ _ => id) hc
  have hmore := h.mono (List.sublist_append_left rows (b.rowsOf w.home [(report, d)]))
  cases hd : d.isEmpty with
  | true =>
    rw [happending.tree_of_isEmpty hd]
    exact hmore
  | false =>
    have hrow : b.rowsOf w.home [(report, d)] = [b.rowOf w.home report d] := by simp [rowsOf, hd]
    rw [hrow] at hmore ⊢
    have hstages := happending.stages hd
    cases hpage : b.extended? report d (w.setNow m) with
    | none =>
      simp only [hpage, Workspace.tree_setNow] at hstages
      rwa [hstages]
    | some page =>
      simp only [hpage] at hstages
      obtain ⟨saved, hsave, -⟩ := hstages
      obtain ⟨text, hcurrent, hinsert⟩ := Option.bind_eq_some_iff.1 hpage
      obtain ⟨stamp, shown, hplain, hshown, rfl⟩ :=
        Sourced.current (w := w.setNow m) h (hstamp hd) hcurrent
      rw [insertRow?_pageText hplain fun row hrow => hrows row (hshown.subset hrow)] at hinsert
      cases hinsert
      exact hmore.save hplain (hshown.append (List.Sublist.refl _)) hsave

end

end BundleSummary

end LintDigest
