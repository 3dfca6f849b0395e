import LintDigest.Proofs.Report.Produced
import LintDigest.Proofs.Summary.Alike
import LintDigest.Proofs.Summary.Freshness

/-!
# A summary that remembers and one that does not

One run keeps its summary from module to module, and renders the page when that is due or at the
end. Another forgets everything after each module: it counts every update as the first, and renders
at once what it has left to be done. `Abreast` compares the trees of the two. They differ in moments
only, and at the page as long as the first run has it still to render; what the first will show
there, the second shows already.
-/

namespace LintDigest.RuleSummary

open Script Storage LintDigest.Tree

/-- The document of the summary is a file that holds `c`. -/
def Filed (r : RuleSummary) (cwd : Place) (t : Tree) (c : Content) : Prop :=
  Walkable r.document ∧ LeadsTo t cwd r.dir (aim cwd r.dir) ∧
    t.get? (documentName :: aim cwd r.dir) = some (.file c)

/-- The page that is still to be rendered in `t` is there in `u`. -/
structure Late (r : RuleSummary) (cwd : Place) (t u : Tree) : Prop where
  due : r.due 1 = false
  mode : r.regenerate ≠ .never
  shown : ∃ d m, d.Canonical ∧ r.Filed cwd t (.text d.toXml) ∧
    u.get? (pageName :: aim cwd r.dir) = some (.file (.text (frame.render m d)))

/-- `t` is the tree of a run that remembers `p`, and `u` that of one that remembers nothing. -/
structure Abreast (r : RuleSummary) (cwd : Place) (t : Tree) (p : Progress) (u : Tree) : Prop where
  agree : Agree (fun q => p.pending = true ∧ q = pageName :: aim cwd r.dir) t u
  filed : 0 < p.updates → ∃ c, r.Filed cwd t c
  late : p.pending = true → r.Late cwd t u

section

variable {r : RuleSummary} {cwd : Place} {t t' t₁ u u' u₁ : Tree} {p : Progress} {c : Content}
  {d : Document} {E : Place → Prop}

/-! ## The document -/

theorem Filed.keeps (h : r.Filed cwd t c) (hk : Keeps documentName t t') : r.Filed cwd t' c :=
  ⟨h.1, h.2.1.mono hk.1, hk.2 _ _ h.2.2⟩

theorem Filed.present (h : r.Filed cwd t c) : (t.stat cwd r.document).isSome :=
  (stat_div_isSome isName_documentName).2 ⟨h.1, _, h.2.1, by simp [h.2.2]⟩

theorem Filed.loaded_eq (h : r.Filed cwd t (.text d.toXml)) (hd : d.Canonical) :
    loaded t cwd r.document = .ok d := by
  have hresolve := (resolve_div isName_documentName).2 ⟨h.1, _, h.2.1, rfl, h.2.2⟩
  rw [document, loaded_of_resolve hresolve, decoded, hd.ofXml_eq]

theorem filed_of_written {text : String} (h : Written t t' cwd r.dir documentName text) :
    r.Filed cwd t' (.text text) :=
  ⟨h.walkable, h.leads, h.file⟩

/-- Trees that differ at the page only have the same document. -/
theorem Filed.agree (h : r.Filed cwd t c) (ha : Agree E t u)
    (hE : ¬ E (documentName :: aim cwd r.dir)) : r.Filed cwd u c :=
  ⟨h.1, ha.leadsTo_iff.1 h.2.1, (ha.get?_eq hE (by decide)).symm.trans h.2.2⟩

/-! ## Writing something else -/

theorem Late.keeps (h : r.Late cwd t u) (ht : Keeps documentName t t') (hu : Keeps pageName u u') :
    r.Late cwd t' u' := by
  obtain ⟨d, m, hd, hfiled, hpage⟩ := h.shown
  exact ⟨h.due, h.mode, d, m, hd, hfiled.keeps ht, hu.2 _ _ hpage⟩

theorem Abreast.written {dir : Path} {n text text' : String} (h : r.Abreast cwd t p u)
    (hdocument : n ≠ documentName) (hpage : n ≠ pageName)
    (ht : Written t t' cwd dir n text) (hu : Written u u' cwd dir n text')
    (hr : Restamped n text text') : r.Abreast cwd t' p u' := by
  have hkeeps : Keeps documentName t t' := ht.keeps hdocument.symm
  refine ⟨h.agree.written ht hu hr, fun hp => ?_, fun hp => ?_⟩
  · obtain ⟨c, hc⟩ := h.filed hp
    exact ⟨c, hc.keeps hkeeps⟩
  · exact (h.late hp).keeps hkeeps (hu.keeps hpage.symm)

/-! ## The parts of an update -/

theorem due_of_due_one (h : r.due 1 = true) (n : Nat) : r.due n = true := by
  rw [due_iff] at h ⊢
  rcases h with h | ⟨h, hone⟩
  · exact .inl h
  · exact .inr ⟨h, Nat.dvd_trans hone (Nat.one_dvd n)⟩

theorem Abreast.stat_document (h : r.Abreast cwd t p u) :
    t.stat cwd r.document = u.stat cwd r.document := by
  apply h.agree.stat_eq
  rw [document, aim_div cwd r.dir isName_documentName]
  simp [documentName, pageName]

theorem Abreast.founded_iff (h : r.Abreast cwd t p u) : r.Founded t cwd ↔ r.Founded u cwd := by
  unfold Founded
  rw [h.stat_document]
  cases hp : p.pending with
  | true =>
    -- What is still to be rendered is a document that is there.
    obtain ⟨d, m, -, hfiled, -⟩ := (h.late hp).shown
    have hpresent := hfiled.present
    rw [h.stat_document] at hpresent
    simp [hpresent]
  | false =>
    have hpage : t.stat cwd r.page = u.stat cwd r.page := h.agree.stat_eq (by simp [hp])
    rw [hpage]

/-- Both runs find the same document so far. -/
theorem drawn_alike {res res' : Except Error Document} (h : Agree E t u)
    (hdocument : ¬ E (documentName :: aim cwd r.dir))
    (hstat : t.stat cwd r.document = u.stat cwd r.document)
    (ht : r.Drawn t cwd res t₁) (hu : r.Drawn u cwd res' u₁) : res = res' ∧ Agree E t₁ u₁ := by
  have hfile := h.get?_eq hdocument (by decide)
  have hpresent : ∀ {v : Tree} {c : Content}, Walkable r.document →
      LeadsTo v cwd r.dir (aim cwd r.dir) →
      v.get? (documentName :: aim cwd r.dir) = some (.file c) → v.stat cwd r.document ≠ none := by
    intro v c hw hlead hc hnone
    have hsome := Filed.present (r := r) ⟨hw, hlead, hc⟩
    rw [hnone] at hsome
    cases hsome
  cases ht with
  | absent missing =>
    cases hu with
    | absent => exact ⟨rfl, h⟩
    | copied seen leads document =>
      exact absurd (hstat.symm.trans missing) (hpresent seen leads document)
  | copied seen leads document free result =>
    cases hu with
    | absent missing => exact absurd (hstat.trans missing) (hpresent seen leads document)
    | copied seen' leads' document' free' result' =>
      rw [hfile, document'] at document
      cases document
      exact ⟨rfl, h.update result result' (.same _)⟩

theorem canonical_of_drawn {prior : Document} (h : r.Drawn t cwd (.ok prior) t₁) :
    prior.Canonical := by
  generalize hres : (Except.ok prior : Except Error Document) = res at h
  cases h with
  | absent missing =>
    cases hres
    exact Document.canonical_empty
  | @copied c =>
    cases c with
    | binary bytes => cases hres
    | text text => exact Document.canonical_of_ofXml hres.symm

theorem Drawn.keeps {n : String} {res : Except Error Document} (h : r.Drawn t cwd res t₁)
    (hn : n ≠ snapshotName) : Keeps n t t₁ := by
  cases h with
  | absent => exact keeps_of_get? rfl
  | copied seen leads document free result => exact (spares_of_update hn result free).keeps

/-- A document that cannot be read is there all the same. -/
theorem filed_of_unread {e : Error} (h : r.Drawn t cwd (.error e) t₁) : ∃ c, r.Filed cwd t₁ c := by
  have hkeeps : Keeps documentName t t₁ := h.keeps (by decide)
  generalize hres : (Except.error e : Except Error Document) = res at h
  cases h with
  | absent => cases hres
  | @copied c _ seen leads document => exact ⟨c, Filed.keeps ⟨seen, leads, document⟩ hkeeps⟩

theorem discarded_alike (h : Agree E t u) (hsnapshot : ¬ E (snapshotName :: aim cwd r.dir))
    (hlead : LeadsTo t cwd r.dir (aim cwd r.dir)) :
    Agree E (r.discarded t cwd) (r.discarded u cwd) := by
  have hfile := h.get?_eq hsnapshot (by decide)
  rcases discarded_cases hlead with ⟨hw, hc, hview⟩ | ⟨hnot, hsame⟩
  · rcases discarded_cases (h.leadsTo_iff.1 hlead) with ⟨-, -, hview'⟩ | ⟨hnot', -⟩
    · exact h.update hview hview' (.same _)
    · exact absurd ⟨hw, hfile ▸ hc⟩ hnot'
  · rcases discarded_cases (h.leadsTo_iff.1 hlead) with ⟨hw', hc', -⟩ | ⟨-, hsame'⟩
    · exact absurd ⟨hw', hfile ▸ hc'⟩ hnot
    · rw [hsame, hsame']
      exact h

/-! ## A whole update -/

/-- A page that both runs show keeps them abreast. -/
theorem abreast_of_shown {n : Nat} (h : Agree (· = pageName :: aim cwd r.dir) t u)
    (hpage : Alike pageName (t.get? (pageName :: aim cwd r.dir))
      (u.get? (pageName :: aim cwd r.dir))) (hfiled : r.Filed cwd t c) :
    r.Abreast cwd t ⟨n, false⟩ u :=
  ⟨h.closed hpage, fun _ => ⟨c, hfiled⟩, nofun⟩

/-- So does a page that both leave to be done, of which the second makes sure at once. -/
theorem abreast_of_left {n : Nat}
    (h : Agree (fun q => r.regenerate ≠ .never ∧ q = pageName :: aim cwd r.dir) t u)
    (hfiled : r.Filed cwd t (.text d.toXml)) (hd : d.Canonical) (hdue : r.due 1 = false)
    (hfinish : r.Finished cwd u (decide (r.regenerate ≠ .never)) u') :
    r.Abreast cwd t ⟨n, decide (r.regenerate ≠ .never)⟩ u' := by
  by_cases hmode : r.regenerate = .never
  · have hpending : decide (r.regenerate ≠ .never) = false := by simp [hmode]
    rw [hpending] at hfinish ⊢
    cases hfinish with
    | idle => exact ⟨h.mono fun q hq => absurd hmode hq.1, fun _ => ⟨_, hfiled⟩, nofun⟩
  · have hpending : decide (r.regenerate ≠ .never) = true := by simp [hmode]
    have hother := hfiled.agree h (by simp [documentName, pageName])
    have hload := hother.loaded_eq hd
    rw [hpending] at hfinish ⊢
    cases hfinish with
    | unread read =>
      rw [hload] at read
      cases read
    | rendered read page =>
      rw [hload] at read
      cases read
      refine ⟨(h.written_right page hother.2.1).mono ?_, fun _ => ⟨_, hfiled⟩, fun _ => ?_⟩
      · rintro q (hq | hq)
        · exact ⟨rfl, hq.2⟩
        · exact ⟨rfl, hq⟩
      · exact ⟨hdue, hmode, d, _, hd, hfiled, page.file⟩

variable {html html' : String} {t₂ u₂ : Tree} {b b' : Bool}

/-- The first document: nothing was counted before, so both runs count it as the first. -/
theorem Abreast.founded (h : r.Abreast cwd t p u) (hd : d.Canonical)
    (hr : Restamped pageName html html') (new : ¬ r.Founded t cwd)
    (ht : Written t t₁ cwd r.dir documentName d.toXml)
    (hu : Written u u₁ cwd r.dir documentName d.toXml)
    (hpage : r.Paged cwd (p.updates + 1) html t₁ t₂ b) (hpage' : r.Paged cwd 1 html' u₁ u₂ b')
    (hfinish : r.Finished cwd u₂ b' u') : r.Abreast cwd t₂ ⟨p.updates + 1, b⟩ u' := by
  have hnone : p.updates = 0 := by
    by_contra hne
    obtain ⟨c, hc⟩ := h.filed (Nat.pos_of_ne_zero hne)
    exact new (.inl hc.present)
  have hidle : p.pending = false := by
    cases hp : p.pending with
    | false => rfl
    | true =>
      obtain ⟨d', m, -, hfiled, -⟩ := (h.late hp).shown
      exact absurd (.inl hfiled.present) new
  have hagree : ∀ E, Agree E t₁ u₁ := by
    intro E
    exact (h.agree.written ht hu (.same _)).mono fun q hq => absurd hq.1 (by simp [hidle])
  have hfiled := filed_of_written ht
  rw [hnone] at hpage ⊢
  cases hpage with
  | written due page =>
    cases hpage' with
    | left due' =>
      rw [due] at due'
      cases due'
    | written due' page' =>
      cases hfinish with
      | idle =>
        refine abreast_of_shown ((hagree _).written page page' hr) ?_
          (hfiled.keeps (page.keeps (by decide)))
        rw [page.file, page'.file]
        exact .pages hr
  | left due =>
    cases hpage' with
    | written due' =>
      rw [due] at due'
      cases due'
    | left => exact abreast_of_left (hagree _) hfiled hd due hfinish

/-- A later document: the second run counts it as the first again. -/
theorem Abreast.extended {m m' : String} {t₃ u₃ : Tree} (h : r.Abreast cwd t p u)
    (hagree : Agree (fun q => p.pending = true ∧ q = pageName :: aim cwd r.dir) t₁ u₁)
    (hd : d.Canonical) (ht : Written t₁ t₂ cwd r.dir documentName d.toXml)
    (hu : Written u₁ u₂ cwd r.dir documentName d.toXml)
    (hpage : r.Paged cwd (p.updates + 1) (frame.render m d) t₂ t₃ b)
    (hpage' : r.Paged cwd 1 (frame.render m' d) u₂ u₃ b')
    (hfinish : r.Finished cwd (r.discarded u₃ cwd) b' u') :
    r.Abreast cwd (r.discarded t₃ cwd) ⟨p.updates + 1, b⟩ u' := by
  have hsaved := hagree.written ht hu (.same _)
  have hfiled := filed_of_written ht
  have hsnapshot : snapshotName :: aim cwd r.dir ≠ pageName :: aim cwd r.dir := by
    simp [snapshotName, pageName]
  have hshown : Agree (· = pageName :: aim cwd r.dir) t₂ u₂ := hsaved.mono fun q hq => hq.2
  have hrendered : ∀ m m', Restamped pageName (frame.render m d) (frame.render m' d) :=
    fun m m' => .rendered frame m m' d (.inl rfl)
  cases hpage with
  | written due page =>
    have hfiled₃ := hfiled.keeps (page.keeps (by decide))
    have hpage₃ := (get?_discarded hfiled₃.2.1 (by decide)).trans page.file
    cases hpage' with
    | written due' page' =>
      cases hfinish with
      | idle =>
        have hagree₃ := hshown.written page page' (hrendered m m')
        refine abreast_of_shown (discarded_alike hagree₃ hsnapshot hfiled₃.2.1) ?_
          (hfiled₃.keeps (spares_discarded (by decide)).keeps)
        rw [hpage₃, get?_discarded page'.leads (by decide), page'.file]
        exact .pages (hrendered m m')
    | left due' =>
      -- The second run renders when the session ends, which for it is now.
      have hpending : decide (r.regenerate ≠ .never) = true := by
        by_contra hnot
        have hnever : r.regenerate = .never := by simpa using hnot
        rw [due_of_never hnever] at due
        cases due
      have hagree₃ : Agree (· = pageName :: aim cwd r.dir) t₃ u₂ :=
        (hshown.symm.written_right page hfiled.2.1).symm.mono fun q hq => or_self_iff.1 hq
      have hdiscarded := discarded_alike hagree₃ hsnapshot hfiled₃.2.1
      have hother : r.Filed cwd (r.discarded u₂ cwd) (.text d.toXml) :=
        (filed_of_written hu).keeps (spares_discarded (by decide)).keeps
      have hload := hother.loaded_eq hd
      rw [hpending] at hfinish
      cases hfinish with
      | unread read =>
        rw [hload] at read
        cases read
      | rendered read page' =>
        rw [hload] at read
        cases read
        have hlast := (hdiscarded.written_right page' hother.2.1).mono fun q hq => or_self_iff.1 hq
        refine abreast_of_shown hlast ?_ (hfiled₃.keeps (spares_discarded (by decide)).keeps)
        rw [hpage₃, page'.file]
        exact .pages (hrendered _ _)
  | left due =>
    cases hpage' with
    | written due' =>
      rw [due_of_due_one due'] at due
      cases due
    | left due' =>
      have hleft : Agree (fun q => r.regenerate ≠ .never ∧ q = pageName :: aim cwd r.dir) t₂ u₂ :=
        hsaved.mono fun q hq => ⟨(h.late hq.1).mode, hq.2⟩
      refine abreast_of_left (discarded_alike hleft ?_ hfiled.2.1)
        (hfiled.keeps (spares_discarded (by decide)).keeps) hd due' hfinish
      exact fun hE => hsnapshot hE.2

/-- An update in both runs, after which the second run ends its session. -/
theorem Abreast.smooth (h : r.Abreast cwd t p u) (hd : d.Canonical)
    (hr : Restamped pageName html html') (ht : r.Smooth d html cwd t p t' b)
    (hu : r.Smooth d html' cwd u {} u₁ b') (hfinish : r.Finished cwd u₁ b' u') :
    r.Abreast cwd t' ⟨p.updates + 1, b⟩ u' := by
  have hfounded := h.founded_iff
  have hdocument : ¬ (p.pending = true ∧
      documentName :: aim cwd r.dir = pageName :: aim cwd r.dir) := by
    simp [documentName, pageName]
  cases ht with
  | founded new save page =>
    cases hu with
    | founded new' save' page' => exact h.founded hd hr new save save' page page' hfinish
    | extended old => exact absurd (hfounded.2 old) new
    | unread old => exact absurd (hfounded.2 old) new
  | extended old read save page =>
    cases hu with
    | founded new => exact absurd (hfounded.1 old) new
    | extended old' read' save' page' =>
      obtain ⟨hprior, hagree⟩ := drawn_alike h.agree hdocument h.stat_document read read'
      cases hprior
      exact h.extended hagree (Document.canonical_merge (canonical_of_drawn read) hd) save save'
        page page' hfinish
    | unread old' read' =>
      obtain ⟨hprior, -⟩ := drawn_alike h.agree hdocument h.stat_document read read'
      cases hprior
  | unread old read =>
    cases hu with
    | founded new => exact absurd (hfounded.1 old) new
    | extended old' read' =>
      obtain ⟨hprior, -⟩ := drawn_alike h.agree hdocument h.stat_document read read'
      cases hprior
    | unread old' read' =>
      obtain ⟨-, hagree⟩ := drawn_alike h.agree hdocument h.stat_document read read'
      cases hfinish with
      | idle =>
        refine ⟨hagree, fun _ => filed_of_unread read, fun hp => ?_⟩
        exact (h.late hp).keeps (read.keeps (by decide)) (read'.keeps (by decide))

theorem Abreast.update {th : Thread} {w w' v v₁ v₂ v' : Workspace} {html html' : String}
    {res res' : Except Error RuleUpdate} {out : Except Error Bool}
    (h : r.Abreast w.home w.tree w.progress v.tree) (hhome : v.home = w.home)
    (hfresh : v.progress = {}) (hd : d.Canonical) (hr : Restamped pageName html html')
    (hw : Course th Request.granted (r.update d html) w (.done res) w')
    (hv : Course th Request.granted (r.update d html') v (.done res') v₁)
    (hrest : Untouched v₁ v₂) (hfinish : Course th Request.granted r.finish v₂ (.done out) v') :
    r.Abreast w.home w'.tree w'.progress v'.tree := by
  have hfinished := finished_of_granted hfinish
  obtain ⟨htree₂, hhome₂, hprogress₂, -⟩ := hrest
  rw [htree₂, hhome₂, hprogress₂, hv.home_eq, hhome] at hfinished
  cases hne : d.isEmpty with
  | true =>
    rw [RuleSummary.update, if_pos hne] at hw hv
    obtain ⟨-, m, rfl⟩ := hw.of_done
    obtain ⟨-, m', rfl⟩ := hv.of_done
    rw [Workspace.tree_setNow, Workspace.progress_setNow, hfresh] at hfinished
    generalize v'.tree = u at hfinished
    cases hfinished with
    | idle => exact h
  | false =>
    have hpending : w.progress.pending = true →
        r.Founded w.tree w.home ∧ r.regenerate ≠ .never := by
      intro hp
      obtain ⟨d', m, -, hfiled, -⟩ := (h.late hp).shown
      exact ⟨.inl hfiled.present, (h.late hp).mode⟩
    obtain ⟨hsmooth, hupdates⟩ := smooth_of_granted hne hpending hw
    obtain ⟨hsmooth', -⟩ := smooth_of_granted hne (by simp [hfresh]) hv
    rw [hhome, hfresh] at hsmooth'
    have hnext := h.smooth hd hr hsmooth hsmooth' hfinished
    rwa [← hupdates] at hnext

/-- When the first run ends its session too, nothing is left in which the trees differ. -/
theorem Abreast.finished (h : r.Abreast cwd t p u) (hfinish : r.Finished cwd t p.pending t') :
    Agree E t' u := by
  have hagree := h.agree
  have hlate := h.late
  generalize p.pending = pending at hagree hlate hfinish
  cases hfinish with
  | idle => exact hagree.mono nofun
  | unread read =>
    obtain ⟨d', m, hd', hfiled, -⟩ := (hlate rfl).shown
    rw [hfiled.loaded_eq hd'] at read
    cases read
  | rendered read page =>
    obtain ⟨d', m, hd', hfiled, hshown⟩ := (hlate rfl).shown
    rw [hfiled.loaded_eq hd'] at read
    cases read
    have hlast : Agree (· = pageName :: aim cwd r.dir) t' u :=
      (hagree.symm.written_right page hfiled.2.1).symm.mono fun q hq => hq.elim And.right id
    apply hlast.closed
    rw [page.file, hshown]
    exact .pages (.rendered frame _ _ _ (.inl rfl))

end

end LintDigest.RuleSummary
