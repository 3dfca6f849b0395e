import LintDigest.Proofs.Summary.Aggregate
import LintDigest.Proofs.Summary.Course
import LintDigest.Proofs.Tree.Aim

/-!
# The page at the end of a session

What a summary remembers tells how old its page is: as long as nothing is left to be rendered the
page shows every update so far, and otherwise the end of the session renders it. `Kept` is what
every successful update keeps.
-/

namespace LintDigest.RuleSummary

open Script Storage LintDigest.Tree

/-- The page is left to the end of the session by the `n`-th update. -/
def awaits (r : RuleSummary) (n : Nat) : Bool :=
  r.regenerate ≠ .never && !r.due n

/-- What the page of a summary of the documents `ds` shows: the page of the first module if that was
put there, else all documents. -/
def Shown (r : RuleSummary) (first : String) (ds : List Document) (text : String) : Prop :=
  if ds.length = 1 ∧ r.due 1 = true then text = first
  else ∃ moment, text = frame.render moment (Document.mergeAll ds)

/-- The directory of the summary, which need not be there yet, holds neither a document nor a page,
and the way to it goes through neither. -/
def Vacant (r : RuleSummary) (t : Tree) (cwd : Place) : Prop :=
  ∀ n ∈ [documentName, pageName],
    t.get? (n :: aim cwd r.dir) = none ∧ ¬ OnWay cwd r.dir (n :: aim cwd r.dir)

instance (r : RuleSummary) (t : Tree) (cwd : Place) : Decidable (r.Vacant t cwd) :=
  inferInstanceAs (Decidable (∀ _ ∈ _, _ ∧ _))

/-- The state of a summary that has taken in the documents `ds`. -/
structure Kept (r : RuleSummary) (first : String) (ds : List Document) (w : Workspace) : Prop where
  leads : LeadsTo w.tree w.home r.dir (aim w.home r.dir)
  walkable : Walkable r.document
  canonical : ∀ d ∈ ds, d.Canonical
  holds : Holds (aim w.home r.dir) w.tree (Document.mergeAll ds)
  progress : w.progress = ⟨ds.length, r.awaits ds.length⟩
  absent : r.regenerate = .never → w.tree.get? (pageName :: aim w.home r.dir) = none
  shown : r.due ds.length = true → Walkable r.page ∧ ∃ text,
    w.tree.get? (pageName :: aim w.home r.dir) = some (.file (.text text)) ∧ r.Shown first ds text

section

variable {r : RuleSummary} {th : Thread} {A : (r : Request) → r.Answer → Prop} {w w' : Workspace}
  {t t₁ : Tree} {cwd place : Place} {d : Document} {html first : String} {ds : List Document}

theorem due_iff (r : RuleSummary) (n : Nat) :
    r.due n = true ↔
      r.regenerate = .continuous ∨ r.regenerate = .periodic ∧ max r.period 1 ∣ n := by
  unfold due
  cases r.regenerate <;> simp [Nat.dvd_iff_mod_eq_zero]

theorem due_one_iff (r : RuleSummary) :
    r.due 1 = true ↔ r.regenerate = .continuous ∨ r.regenerate = .periodic ∧ r.period ≤ 1 := by
  rw [due_iff, Nat.dvd_one]
  have hmax : max r.period 1 = 1 ↔ r.period ≤ 1 := by omega
  rw [hmax]

theorem due_of_never (h : r.regenerate = .never) (n : Nat) : r.due n = false := by
  rw [due, h]

theorem awaits_of_never (h : r.regenerate = .never) (n : Nat) : r.awaits n = false := by
  simp [awaits, h]

theorem awaits_of_due {n : Nat} (h : r.due n = true) : r.awaits n = false := by
  simp [awaits, h]

/-! ## What an update leaves alone -/

theorem get?_prior (hlead : LeadsTo t cwd r.dir place) {res : Except Error Document}
    (h : r.Prior t cwd res t₁) {n : String} (hn : n ≠ snapshotName) :
    t₁.get? (n :: place) = t.get? (n :: place) := by
  rcases prior_cases hlead h with ⟨-, -, rfl⟩ | ⟨-, -, rfl, -⟩ | ⟨c, -, -, -, -, hview, -⟩
  · rfl
  · rfl
  · rw [hview, Function.update_of_ne (by simpa using hn)]

theorem get?_discarded (hlead : LeadsTo t cwd r.dir place) {n : String} (hn : n ≠ snapshotName) :
    (r.discarded t cwd).get? (n :: place) = t.get? (n :: place) := by
  rcases discarded_cases hlead with ⟨-, -, hview⟩ | ⟨-, hsame⟩
  · rw [hview, Function.update_of_ne (by simpa using hn)]
  · rw [hsame]

theorem leads_discarded (hlead : LeadsTo t cwd r.dir place) :
    LeadsTo (r.discarded t cwd) cwd r.dir place :=
  hlead.mono (spares_discarded (n := pageName) (by decide)).1

/-- Merging into the document leaves the page alone. -/
theorem Holds.page_kept (h : Holds place t d) (hd : d.Canonical)
    (hlead : LeadsTo t cwd r.dir place) {prior : Document} {text : String} {t₂ : Tree}
    (read : r.Prior t cwd (.ok prior) t₁) (save : Replaced t₁ cwd r.document text (.ok ()) t₂) :
    t₂.get? (pageName :: place) = t.get? (pageName :: place) := by
  have hlead₁ : LeadsTo t₁ cwd r.dir place := by
    rcases h.prior hd hlead read with ⟨-, rfl⟩ | ⟨-, -, -, -, hlead₁, -⟩
    · exact hlead
    · exact hlead₁
  obtain ⟨-, -, hview⟩ := save.written_of_leadsTo isName_documentName hlead₁
  rw [hview, Function.update_of_ne (by simp [documentName, pageName])]
  exact get?_prior hlead read (by decide)

/-! ## The first update -/

theorem Vacant.not_founded (h : r.Vacant t cwd) : ¬ r.Founded t cwd := by
  have hnone : ∀ n ∈ [documentName, pageName], IsName n → ¬ (t.stat cwd (r.dir / n)).isSome := by
    intro n hn hname hsome
    obtain ⟨-, place, hlead, he⟩ := (stat_div_isSome hname).1 hsome
    rw [hlead.eq_aim, (h n hn).1] at he
    cases he
  rintro (hdoc | hpage)
  · exact hnone documentName (by simp) isName_documentName hdoc
  · exact hnone pageName (by simp) isName_pageName hpage

theorem kept_of_first (hnew : r.Vacant w.tree w.home) (hfresh : w.progress = {})
    (hd : d.Canonical) (hne : d.isEmpty = false) {u : RuleUpdate}
    (h : Course th A (r.update d html) w (.done (.ok u)) w') :
    u = .initial ∧ Kept r html [d] w' := by
  obtain ⟨m, heffect, -⟩ := effect_of_course h
  have hhome := h.home_eq
  have hmerge : Document.mergeAll [d] = d := by simp [Document.mergeAll]
  generalize ht : w'.tree = t, hp : w'.progress = p at heffect
  cases heffect with
  | skipped empty =>
    rw [empty] at hne
    cases hne
  | refreshed old => exact absurd old hnew.not_founded
  | extended old => exact absurd old hnew.not_founded
  | @founded t₁ t₂ new save due page =>
    have hsave := save.toWritten isName_documentName
    have hpage := page.toWritten isName_pageName
    have hdoc := hpage.file_kept hsave.file (by simp [documentName, pageName])
    have hdue : r.due 1 = true := by simpa [hfresh] using due
    refine ⟨rfl, ⟨?_, hsave.walkable, by simpa using hd, ?_, ?_, ?_, ?_⟩⟩
    · rw [ht, hhome]
      exact hpage.leads
    · rw [ht, hhome, hmerge]
      exact ⟨hpage.leads.2, hdoc⟩
    · rw [hp, counted, Workspace.progress_setNow, hfresh]
      simp [awaits_of_due hdue]
    · intro hnever
      rw [due_of_never hnever] at hdue
      cases hdue
    · intro _
      refine ⟨hpage.walkable, html, ?_, ?_⟩
      · rw [ht, hhome]
        exact hpage.file
      · simp [Shown, hdue]
  | foundedLater new save due =>
    have hsave := save.toWritten isName_documentName
    have hdue : r.due 1 = false := by simpa [hfresh] using due
    refine ⟨rfl, ⟨?_, hsave.walkable, by simpa using hd, ?_, ?_, ?_, ?_⟩⟩
    · rw [ht, hhome]
      exact hsave.leads
    · rw [ht, hhome, hmerge]
      exact ⟨hsave.leads.2, hsave.file⟩
    · rw [hp, counted, Workspace.progress_setNow, hfresh]
      simp [awaits, hdue]
    · intro _
      obtain ⟨habsent, hway⟩ := hnew pageName (by simp)
      rw [ht, hhome, ← habsent]
      exact hsave.other _ (by simp [documentName, pageName]) hway
    · intro hdue'
      rw [List.length_singleton, hdue] at hdue'
      cases hdue'

/-! ## Later updates -/

theorem Kept.update (h : Kept r first ds w) (hds : ds ≠ []) (hd : d.Canonical)
    (hne : d.isEmpty = false) {u : RuleUpdate}
    (hc : Course th A (r.update d html) w (.done (.ok u)) w') :
    u = .merged (r.due (ds.length + 1)) ∧ Kept r first (ds ++ [d]) w' := by
  obtain ⟨m, heffect, -⟩ := effect_of_course hc
  have hhome := hc.home_eq
  have hmerge := Document.mergeAll_concat h.canonical hd
  have hmerged : (Document.mergeAll ds).Canonical := Document.canonical_mergeAll h.canonical
  have hcanonical : ∀ x ∈ ds ++ [d], x.Canonical :=
    List.forall_mem_append.2 ⟨h.canonical, by simpa using hd⟩
  have hlength : (ds ++ [d]).length = ds.length + 1 := by simp
  have hold : ∀ {r' : RuleSummary}, r' = r → r'.Founded w.tree w.home :=
    fun e => e ▸ .inl (h.holds.founded h.leads h.walkable)
  -- An update renders the page of two documents or more.
  have hseveral : ¬ ((ds ++ [d]).length = 1 ∧ r.due 1 = true) := by
    rintro ⟨hone, -⟩
    rw [hlength] at hone
    exact hds (List.length_eq_zero_iff.1 (by omega))
  generalize ht : w'.tree = t, hp : w'.progress = p at heffect
  cases heffect with
  | skipped empty =>
    rw [empty] at hne
    cases hne
  | founded new => exact absurd (hold rfl) new
  | foundedLater new => exact absurd (hold rfl) new
  | @refreshed prior t₁ t₂ t₃ old read save due page =>
    obtain ⟨rfl, hwd, hws, hholds, hlead₂, -⟩ := h.holds.saved hmerged h.leads read save
    have hdue : r.due (ds.length + 1) = true := by simpa [h.progress] using due
    have hpage := page.toWritten isName_pageName
    have hlead₃ : LeadsTo t₃ w.home r.dir (aim w.home r.dir) := hpage.leads
    have hfinal : Holds (aim w.home r.dir) (r.discarded t₃ w.home) ((Document.mergeAll ds).merge d) :=
      (hholds.replaced_page page).discarded
    refine ⟨by rw [hdue], ⟨?_, hwd, hcanonical, ?_, ?_, ?_, ?_⟩⟩
    · rw [ht, hhome]
      exact leads_discarded hlead₃
    · rw [ht, hhome, hmerge]
      exact hfinal
    · rw [hp, hlength, counted, Workspace.progress_setNow, h.progress]
      simp [awaits_of_due hdue]
    · intro hnever
      rw [due_of_never hnever] at hdue
      cases hdue
    · intro _
      refine ⟨hpage.walkable, frame.render m ((Document.mergeAll ds).merge d), ?_, ?_⟩
      · rw [ht, hhome]
        exact (get?_discarded hlead₃ (by decide)).trans hpage.file
      · rw [Shown, if_neg hseveral, hmerge]
        exact ⟨m, rfl⟩
  | @extended prior t₁ t₂ old read save due =>
    obtain ⟨rfl, hwd, hws, hholds, hlead₂, -⟩ := h.holds.saved hmerged h.leads read save
    have hdue : r.due (ds.length + 1) = false := by simpa [h.progress] using due
    refine ⟨by rw [hdue], ⟨?_, hwd, hcanonical, ?_, ?_, ?_, ?_⟩⟩
    · rw [ht, hhome]
      exact leads_discarded hlead₂
    · rw [ht, hhome, hmerge]
      exact hholds.discarded
    · rw [hp, hlength, postponed, counted, Workspace.progress_setNow, h.progress]
      by_cases hnever : r.regenerate = .never
      · simp [hnever, awaits_of_never hnever]
      · simp [hnever, awaits, hdue]
    · intro hnever
      rw [ht, hhome, ← h.absent hnever]
      exact (get?_discarded hlead₂ (by decide)).trans
        (h.holds.page_kept hmerged h.leads read save)
    · intro hdue'
      rw [hlength, hdue] at hdue'
      cases hdue'

/-- The calls of a session, one after another. -/
def updateAll (r : RuleSummary) (calls : List (Document × String)) :
    Script (List (Except Error RuleUpdate)) :=
  calls.mapM fun c => r.update c.1 c.2

theorem course_updateAll_cons {c : Document × String} {calls : List (Document × String)}
    {results : List (Except Error RuleUpdate)}
    (h : Course th A (r.updateAll (c :: calls)) w (.done results) w') :
    ∃ res rest w₁ w₂ m, results = res :: rest ∧ Course th A (r.update c.1 c.2) w (.done res) w₁ ∧
      Course th A (r.updateAll calls) w₁ (.done rest) w₂ ∧ w' = w₂.setNow m := by
  rw [updateAll, List.mapM_cons] at h
  obtain ⟨res, w₁, hc, h⟩ := h.of_bind
  obtain ⟨rest, w₂, hrest, h⟩ := h.of_bind
  obtain ⟨rfl, m, rfl⟩ := h.of_done
  exact ⟨res, rest, w₁, w₂, m, rfl, hc, hrest, rfl⟩

theorem Kept.setNow (h : Kept r first ds w) (m : String) : Kept r first ds (w.setNow m) :=
  ⟨h.leads, h.walkable, h.canonical, h.holds, h.progress, h.absent, h.shown⟩

theorem Kept.updateAll {calls : List (Document × String)} (h : Kept r first ds w) (hds : ds ≠ [])
    (hcalls : ∀ c ∈ calls, c.1.Canonical ∧ c.1.isEmpty = false)
    {results : List (Except Error RuleUpdate)}
    (hc : Course th A (r.updateAll calls) w (.done results) w')
    (hok : ∀ res ∈ results, ∃ u, res = .ok u) :
    results = (List.range' (ds.length + 1) calls.length).map (fun k => .ok (.merged (r.due k))) ∧
      Kept r first (ds ++ calls.map Prod.fst) w' := by
  induction calls generalizing ds w w' results with
  | nil =>
    obtain ⟨rfl, m, rfl⟩ := hc.of_done
    exact ⟨rfl, by simpa using h.setNow m⟩
  | cons c calls ih =>
    obtain ⟨res, rest, w₁, w₂, m, rfl, hfirst, hrest, rfl⟩ := course_updateAll_cons hc
    obtain ⟨⟨u, rfl⟩, hothers⟩ := List.forall_mem_cons.1 hok
    obtain ⟨⟨hd, hne⟩, hcalls⟩ := List.forall_mem_cons.1 hcalls
    obtain ⟨rfl, hkept⟩ := h.update hds hd hne hfirst
    obtain ⟨rfl, hkept⟩ := ih hkept (by simp) hcalls hrest hothers
    refine ⟨by simp [List.range'_succ], ?_⟩
    simpa using hkept.setNow m

/-! ## The end of the session -/

theorem Kept.read_page (h : Kept r first ds w) (hdue : r.due ds.length = true) :
    ∃ text, w.tree.read w.home r.page = .ok text ∧ r.Shown first ds text := by
  obtain ⟨hw, text, hfile, hshown⟩ := h.shown hdue
  exact ⟨text, (read_div isName_pageName).2 ⟨hw, _, h.leads, hfile⟩, hshown⟩

/-- At the end of a session the page is rendered exactly if an update has left that to be done, and
it shows all documents. -/
theorem Kept.finish (h : Kept r first ds w) {out : Except Error Bool}
    (hc : Course th A r.finish w (.done out) w') :
    (∀ e, out = .error e → r.awaits ds.length = true ∧ ¬ Writable w.tree w.home r.page) ∧
    (∀ b, out = .ok b → b = r.awaits ds.length ∧
      (b = false → w'.tree = w.tree) ∧
      (b = true → ∃ m, w'.tree.read w'.home r.page =
        .ok (frame.render m (Document.mergeAll ds)))) ∧
    w'.progress.pending = false := by
  obtain ⟨m, hending, hprogress, -⟩ := ending_of_course hc
  have hload := h.holds.loaded_eq (Document.canonical_mergeAll h.canonical) h.leads h.walkable
  have hpending : w.progress.pending = r.awaits ds.length := by rw [h.progress]
  have hhome := hc.home_eq
  rw [hprogress, hhome]
  generalize w'.tree = t at hending ⊢
  cases hending with
  | idle none =>
    refine ⟨by rintro e ⟨⟩, ?_, rfl⟩
    rintro b ⟨rfl⟩
    exact ⟨none.symm.trans hpending, fun _ => rfl, by rintro ⟨⟩⟩
  | unread some read =>
    rw [Workspace.tree_setNow, Workspace.home_setNow, hload] at read
    cases read
  | unwritten some read page =>
    refine ⟨?_, by rintro b ⟨⟩, rfl⟩
    rintro e -
    cases page with
    | failed unable => exact ⟨hpending ▸ some, unable⟩
  | rendered some read page =>
    rw [Workspace.tree_setNow, Workspace.home_setNow, hload] at read
    cases read
    refine ⟨by rintro e ⟨⟩, ?_, rfl⟩
    rintro b ⟨rfl⟩
    refine ⟨(hpending ▸ some).symm, by rintro ⟨⟩, fun _ => ⟨m, ?_⟩⟩
    exact (page.toWritten isName_pageName).read isName_pageName

end

/-! ## Main theorem -/

/-- A fresh summary in a directory without its files takes in documents, and then the session ends.
The first update founds the summary, and the `k`-th renders the page exactly if it is due. Whatever
the mode and the period, the page is not stale then: it shows all documents, unless it is that of
the first and only module; in mode `never` there is none. Ending the session fails only if the page
is left to it and cannot be written, and ending it again does nothing. -/
theorem page_fresh_at_end {r : RuleSummary} {th : Thread} {w w₁ w₂ w₃ : Workspace}
    {d : Document} {html : String} {calls : List (Document × String)}
    {results : List (Except Error RuleUpdate)} {out again : Except Error Bool}
    (hnew : r.Vacant w.tree w.home) (hfresh : w.progress = {})
    (hdocs : ∀ c ∈ (d, html) :: calls, c.1.Canonical ∧ c.1.isEmpty = false)
    (hcalls : Course th (fun _ _ => True) (r.updateAll ((d, html) :: calls)) w (.done results) w₁)
    (hok : ∀ res ∈ results, ∃ u, res = .ok u)
    (hfinish : Course th (fun _ _ => True) r.finish w₁ (.done out) w₂)
    (hagain : Course th (fun _ _ => True) r.finish w₂ (.done again) w₃) :
    results = .ok .initial ::
        (List.range' 2 calls.length).map (fun k => .ok (.merged (r.due k))) ∧
      (∀ k, r.due k = true ↔
        r.regenerate = .continuous ∨ r.regenerate = .periodic ∧ max r.period 1 ∣ k) ∧
      (r.regenerate = .never →
        w₁.tree.stat w₁.home r.page = none ∧ out = .ok false ∧
          w₂.tree.stat w₂.home r.page = none) ∧
      (r.regenerate ≠ .never →
        (∀ e, out = .error e →
          r.due (calls.length + 1) = false ∧ ¬ Writable w₁.tree w₁.home r.page) ∧
        ∀ b, out = .ok b → b = !r.due (calls.length + 1) ∧
          ∃ text, w₂.tree.read w₂.home r.page = .ok text ∧
            if calls = [] ∧
                (r.regenerate = .continuous ∨ r.regenerate = .periodic ∧ r.period ≤ 1)
            then text = html
            else ∃ moment, text =
              frame.render moment (Document.mergeAll (d :: calls.map Prod.fst))) ∧
      again = .ok false := by
  obtain ⟨res, rest, w', w'', m, rfl, hfirst, hrest, rfl⟩ := course_updateAll_cons hcalls
  obtain ⟨⟨u, rfl⟩, hothers⟩ := List.forall_mem_cons.1 hok
  obtain ⟨⟨hd, hne⟩, hcanonical⟩ := List.forall_mem_cons.1 hdocs
  obtain ⟨rfl, hkept⟩ := kept_of_first hnew hfresh hd hne hfirst
  obtain ⟨rfl, hkept⟩ := hkept.updateAll (by simp) hcanonical hrest hothers
  have hkept := hkept.setNow m
  have hlength : ([d] ++ calls.map Prod.fst).length = calls.length + 1 := by simp
  obtain ⟨herror, hdone, hpending⟩ := hkept.finish hfinish
  rw [hlength] at herror hdone
  refine ⟨rfl, r.due_iff, ?_, ?_, ?_⟩
  · intro hnever
    have hstat : ((w''.setNow m).tree.stat (w''.setNow m).home r.page) = none := by
      rw [← Option.not_isSome_iff_eq_none, page, stat_div_isSome isName_pageName]
      rintro ⟨-, place, hlead, hsome⟩
      rw [hlead.eq_aim, hkept.absent hnever] at hsome
      cases hsome
    cases out with
    | error e =>
      have hawaits := (herror e rfl).1
      rw [awaits_of_never hnever] at hawaits
      cases hawaits
    | ok b =>
      obtain ⟨rfl, hsame, -⟩ := hdone b rfl
      rw [awaits_of_never hnever] at hsame ⊢
      refine ⟨hstat, rfl, ?_⟩
      rw [hsame rfl, hfinish.home_eq]
      exact hstat
  · intro hmode
    have hawaits : r.awaits (calls.length + 1) = !r.due (calls.length + 1) := by
      simp [awaits, hmode]
    rw [hawaits] at herror hdone
    refine ⟨?_, ?_⟩
    · intro e he
      obtain ⟨hdue, hunable⟩ := herror e he
      exact ⟨by simpa using hdue, hunable⟩
    · intro b hb
      obtain ⟨rfl, hsame, hrendered⟩ := hdone b hb
      refine ⟨rfl, ?_⟩
      have hshown : ∃ text, w₂.tree.read w₂.home r.page = .ok text ∧
          r.Shown html ([d] ++ calls.map Prod.fst) text := by
        cases hdue : r.due (calls.length + 1) with
        | true =>
          rw [hsame (by simp [hdue]), hfinish.home_eq]
          exact hkept.read_page (by rwa [hlength])
        | false =>
          obtain ⟨m', hread⟩ := hrendered (by simp [hdue])
          refine ⟨_, hread, ?_⟩
          -- The page of a single module is left to the end only if it was not due.
          have hlast : ¬ (([d] ++ calls.map Prod.fst).length = 1 ∧ r.due 1 = true) := by
            rintro ⟨hone, hdue₁⟩
            rw [hlength] at hone
            rw [hone, hdue₁] at hdue
            cases hdue
          rw [Shown, if_neg hlast]
          exact ⟨m', rfl⟩
      obtain ⟨text, hread, hshown⟩ := hshown
      refine ⟨text, hread, ?_⟩
      have hcond : ((d :: calls.map Prod.fst).length = 1 ∧ r.due 1 = true) ↔
          (calls = [] ∧
            (r.regenerate = .continuous ∨ r.regenerate = .periodic ∧ r.period ≤ 1)) := by
        rw [due_one_iff]
        simp
      rw [List.singleton_append, Shown] at hshown
      simpa only [hcond] using hshown
  · obtain ⟨m', hending, -, -⟩ := ending_of_course hagain
    generalize w₃.tree = t at hending
    cases hending with
    | idle => rfl
    | unread some | unwritten some | rendered some =>
      rw [Workspace.progress_setNow, hpending] at some
      cases some

/-- A summary that renders its page with every third update. -/
def patient : RuleSummary := ⟨⟨"site"⟩, .periodic, 3⟩

/-- Two modules, each with its page. -/
def twoCalls : List (Document × String) := [(oneFinding, "<p>"), (oneFinding, "<q>")]

theorem page_fresh_at_end_patient :
    ∃ results w₁ w₂ w₃, (patient.updateAll twoCalls).run "main" bare = (results, w₁) ∧
      results = [.ok .initial, .ok (.merged false)] ∧
      patient.finish.run "main" w₁ = (.ok true, w₂) ∧
      patient.finish.run "main" w₂ = (.ok false, w₃) ∧
      ∃ moment, w₂.tree.read w₂.home patient.page =
        .ok (frame.render moment (Document.mergeAll [oneFinding, oneFinding])) := by
  have hnew : patient.Vacant bare.tree bare.home := by decide
  have hdocs : ∀ c ∈ twoCalls, c.1.Canonical ∧ c.1.isEmpty = false := by decide
  have hruns : (∀ res ∈ ((patient.updateAll twoCalls).run "main" bare).1, res.toOption.isSome) ∧
      (patient.finish.run "main" ((patient.updateAll twoCalls).run "main" bare).2).1.toOption =
        some true := by decide +kernel
  rcases hcalls : (patient.updateAll twoCalls).run "main" bare with ⟨results, w₁⟩
  rw [hcalls] at hruns
  obtain ⟨hok, hout⟩ := hruns
  rcases hfinish : patient.finish.run "main" w₁ with ⟨out, w₂⟩
  rw [hfinish] at hout
  obtain rfl := eq_ok_of_toOption hout
  rcases hagain : patient.finish.run "main" w₂ with ⟨again, w₃⟩
  obtain ⟨rfl, -, -, hpage, rfl⟩ := page_fresh_at_end hnew rfl hdocs (course_of_run hcalls)
    (fun res hres => by
      obtain ⟨u, hu⟩ := Option.isSome_iff_exists.1 (hok res hres)
      exact ⟨u, eq_ok_of_toOption hu⟩)
    (course_of_run hfinish) (course_of_run hagain)
  obtain ⟨-, text, hread, moment, rfl⟩ := (hpage (by decide)).2 _ rfl
  exact ⟨_, w₁, w₂, w₃, rfl, rfl, hfinish, hagain, moment, hread⟩

end LintDigest.RuleSummary
