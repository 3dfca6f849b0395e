import LintDigest.Proofs.Session.Calls
import LintDigest.Proofs.Session.SideBySide
import LintDigest.Proofs.Summary.Sources

/-!
# What a new session inherits

Starting over removes the files of the summaries one after another, and stops at the first directory
that stands in the place of one. `survivors_of_begin` says which files that leaves, when the start
fails, and that a session which starts without such files never shows anything but modules that it
took in itself. A file behind a directory does survive, and is taken for part of the new session
(`old_document_survives`).
-/

namespace LintDigest.Session

open Script Storage LintDigest.Tree

/-! ## What is left -/

section

variable {dir : Path} {cwd : Place} {t t' : Tree} {m n : String} {names : List String}
  {res : Except Error Unit}

/-- Of the files, those survive that come after a directory. -/
theorem Removed.survives_iff {before after : List String}
    (h : Removed dir cwd (before ++ n :: after) t res t')
    (hnames : ∀ m ∈ before ++ n :: after, IsName m) (hnodup : (before ++ n :: after).Nodup) :
    t'.stat cwd (dir / n) = some .file ↔
      t.stat cwd (dir / n) = some .file ∧ ∃ m ∈ before, t.stat cwd (dir / m) = some .dir := by
  induction before generalizing t with
  | nil =>
    obtain ⟨hn, hnames⟩ := List.forall_mem_cons.1 hnames
    obtain ⟨hnot, -⟩ := List.nodup_cons.1 hnodup
    refine iff_of_false (fun hfile => ?_) (by simp)
    cases h with
    | absent none rest =>
      rw [rest.stat_of_notMem hnames hn hnot, none] at hfile
      cases hfile
    | gone file rest =>
      rw [rest.stat_of_notMem hnames hn hnot, stat_erase hn hn file, if_pos rfl] at hfile
      cases hfile
    | stuck blocked =>
      rw [blocked] at hfile
      cases hfile
  | cons m before ih =>
    obtain ⟨hm, hnames⟩ := List.forall_mem_cons.1 hnames
    obtain ⟨hnot, hnodup⟩ := List.nodup_cons.1 hnodup
    cases h with
    | absent none rest =>
      rw [ih rest hnames hnodup]
      simp [none]
    | gone file rest =>
      have hother : ∀ k ∈ before ++ n :: after, (t.erase (m :: aim cwd dir)).stat cwd (dir / k) =
          t.stat cwd (dir / k) := by
        intro k hk
        rw [stat_erase hm (hnames k hk) file, if_neg (by rintro rfl; exact hnot hk)]
      rw [ih rest hnames hnodup, hother n (by simp)]
      refine and_congr_right fun _ => ?_
      constructor
      · rintro ⟨k, hk, hdir⟩
        rw [hother k (by simp [hk])] at hdir
        exact ⟨k, List.mem_cons_of_mem _ hk, hdir⟩
      · rintro ⟨k, hk, hdir⟩
        rcases List.mem_cons.1 hk with rfl | hk
        · cases file.symm.trans hdir
        · exact ⟨k, hk, by rw [hother k (by simp [hk]), hdir]⟩
    | stuck blocked => simp [blocked]

/-- The start fails if there is a directory among the names. -/
theorem Removed.fails_iff (h : Removed dir cwd names t res t') (hnames : ∀ m ∈ names, IsName m)
    (hnodup : names.Nodup) :
    (∃ e, res = .error e) ↔ ∃ m ∈ names, t.stat cwd (dir / m) = some .dir := by
  induction h with
  | nil => simp
  | absent none rest ih =>
    obtain ⟨hm, hnames⟩ := List.forall_mem_cons.1 hnames
    rw [ih hnames (List.nodup_cons.1 hnodup).2, List.exists_mem_cons_iff]
    simp [none]
  | gone file rest ih =>
    obtain ⟨hm, hnames⟩ := List.forall_mem_cons.1 hnames
    obtain ⟨hnot, hnodup⟩ := List.nodup_cons.1 hnodup
    rw [ih hnames hnodup, List.exists_mem_cons_iff, file]
    simp only [reduceCtorEq, Option.some.injEq, false_or]
    refine exists_congr fun k => and_congr_right fun hk => ?_
    rw [stat_erase hm (hnames k hk) file, if_neg (by rintro rfl; exact hnot hk)]
  | stuck blocked => exact iff_of_true ⟨_, rfl⟩ ⟨_, List.mem_cons_self, blocked⟩

/-- Directories stay, and nothing is written. -/
theorem Removed.dirsKept_inherits (h : Removed dir cwd names t res t')
    (hnames : ∀ m ∈ names, IsName m) : DirsKept t t' ∧ ∀ n, Inherits n t t' := by
  induction h with
  | nil | stuck => exact ⟨fun _ => id, fun _ _ _ => id⟩
  | absent none rest ih => exact ih fun m hm => hnames m (List.mem_cons_of_mem _ hm)
  | @gone m names t t' res file rest ih =>
    obtain ⟨hm, hnames⟩ := List.forall_mem_cons.1 hnames
    obtain ⟨hdirs, hinherits⟩ := ih hnames
    refine ⟨(dirsKept_erase hm file).trans hdirs, fun n place c hc => ?_⟩
    have hleft := hinherits n place c hc
    rw [get?_erase] at hleft
    by_cases hq : n :: place = m :: aim cwd dir
    · rw [hq, Function.update_self] at hleft
      cases hleft
    · rwa [Function.update_of_ne hq] at hleft

end

/-! ## Where it comes from -/

/-- What the summaries hold in the second tree stems from what they held in the first one and from
the modules with these outcomes. -/
structure Carried (s : Session) (cwd : Place) (os : List Outcome) (t t' : Tree) : Prop where
  canonical : ∀ o ∈ os, o.document.Canonical
  bundle : ∀ rows, (∀ row ∈ rows, BundleSummary.Unmarked row) → s.bundle.Sourced cwd rows t →
    s.bundle.Sourced cwd (rows ++ s.rows cwd (listed os)) t'
  rule : ∀ ds : List Document, (∀ d ∈ ds, d.Canonical) → s.rule.Sourced cwd ds t →
    s.rule.Sourced cwd (ds ++ os.map (·.document)) t'

section

variable {s : Session} {cwd : Place} {os os' : List Outcome} {t t' t'' : Tree} {th : Thread}
  {w w' : Workspace} {module : Path} {o : Outcome} {d : Document} {html : String}

/-- If none of the files is new, nothing comes from elsewhere. The page of the rule summary does not
count, since nothing is read from it. -/
theorem carried_of_inherits
    (hi : ∀ n ∈ artifacts, n ≠ RuleSummary.pageName → Inherits n t t') : s.Carried cwd [] t t' := by
  refine ⟨List.forall_mem_nil _, fun shown _ h => ?_, fun ds _ h => ?_⟩
  · simpa [rows, listed] using h.inherits (hi _ (by decide) (by decide))
  · have hnames : ∀ n ∈ [RuleSummary.documentName, RuleSummary.snapshotName],
        n ∈ artifacts ∧ n ≠ RuleSummary.pageName := by decide
    simpa using h.inherits fun n hn => hi n (hnames n hn).1 (hnames n hn).2

theorem Carried.trans (h : s.Carried cwd os t t') (h' : s.Carried cwd os' t' t'') :
    s.Carried cwd (os ++ os') t t'' := by
  refine ⟨?_, fun shown hshown hsourced => ?_, fun ds hds hsourced => ?_⟩
  · intro o ho
    rcases List.mem_append.1 ho with ho | ho
    · exact h.canonical o ho
    · exact h'.canonical o ho
  · rw [listed_append, rows, List.map_append, ← List.append_assoc]
    refine h'.bundle _ ?_ (h.bundle shown hshown hsourced)
    intro row hrow
    rcases List.mem_append.1 hrow with hrow | hrow
    · exact hshown row hrow
    · exact s.unmarked_rows cwd _ row hrow
  · rw [List.map_append, ← List.append_assoc]
    refine h'.rule _ ?_ (h.rule ds hds hsourced)
    intro d hd
    rcases List.mem_append.1 hd with hd | hd
    · exact hds d hd
    · obtain ⟨o, ho, rfl⟩ := List.mem_map.1 hd
      exact h.canonical o ho

/-! ### Calls -/

theorem inherits_of_writeModule {A : (r : Request) → r.Answer → Prop} {res : Except Error Unit}
    (h : Course th A (s.writeModule module d html) w (.done res) w') :
    ∀ n ∈ artifacts, Inherits n w.tree w'.tree := by
  intro n hn
  have hne : n ≠ moduleDocument ∧ n ≠ modulePage := by
    revert n
    decide
  obtain ⟨-, saved, t₁, hdocument, hrest⟩ := stages_of_writeModule h
  have hsaved := hdocument.spares isName_moduleDocument hne.1
  cases saved with
  | error e =>
    rw [hrest.2]
    exact hsaved.inherits
  | ok _ => exact (hsaved.trans (hrest.spares isName_modulePage hne.2)).inherits

/-- The row of a module that has one. -/
theorem rows_reported (s : Session) (cwd : Place) (module : Path) (d : Document)
    (tools : List String) (written : Except Error Unit) :
    s.rows cwd (listed [s.reportedOutcome module d tools written]) =
      match written.toOption.map fun _ => s.pageOf module with
      | some p => s.bundle.rowsOf cwd [(p, d)]
      | none => [] := by
  cases written with
  | error e => simp [rows, listed, reportedOutcome, Except.toOption]
  | ok _ => simp [rows, listed, reportedOutcome, Except.toOption, BundleSummary.rowsOf]

theorem Taken.carried (tools : List String) {written : Except Error Unit} (hd : d.Canonical)
    (h : s.Taken th Request.credible (written.toOption.map fun _ => s.pageOf module) d html w w') :
    s.Carried w.home [s.reportedOutcome module d tools written] w.tree w'.tree := by
  obtain ⟨w₁, w₂, w₃, update, w₄, ⟨htree₁, hhome₁, -⟩, hlisted, ⟨htree₃, hhome₃, -⟩, hupdate,
    htree', -⟩ := h
  obtain ⟨m, heffect, -⟩ := RuleSummary.effect_of_course hupdate
  have hpage : Inherits BundleSummary.pageName w₃.tree w₄.tree :=
    (RuleSummary.spares_effect (w := w₃.setNow m) (by decide) heffect).inherits
  have hrows := rows_reported s w.home module d tools written
  generalize written.toOption.map (fun _ => s.pageOf module) = report at hlisted hrows
  have hhome₂ : w₂.home = w.home := by
    cases report with
    | none => exact hlisted.2.1.trans hhome₁
    | some p =>
      obtain ⟨row, happend⟩ := hlisted
      exact happend.home_eq.trans hhome₁
  rw [htree']
  refine ⟨by simpa [reportedOutcome] using hd, fun shown hshown h => ?_, fun ds hds h => ?_⟩
  · refine BundleSummary.Sourced.inherits ?_ hpage
    rw [hrows, htree₃]
    rw [← htree₁] at h
    cases report with
    | none => simpa [hlisted.1] using h
    | some p =>
      obtain ⟨row, happend⟩ := hlisted
      rw [← hhome₁] at h ⊢
      exact h.appended hshown happend
  · have hsame : s.rule.Sourced w.home ds w₃.tree := by
      rw [htree₃]
      rw [← htree₁] at h
      cases report with
      | none => rwa [hlisted.1]
      | some p =>
        obtain ⟨row, happend⟩ := hlisted
        obtain ⟨m, happending, -⟩ := s.bundle.appending_of_course p d (fun _ _ => id) happend
        refine h.inherits fun n hn => (happending.spares ?_).inherits
        revert n
        decide
    rw [← hhome₂, ← hhome₃] at hsame ⊢
    exact hsame.updated hds hd hupdate

theorem Turn.carried (h : Turn s module th Request.credible w o w') :
    s.Carried w.home [o] w.tree w'.tree := by
  cases h with
  | silent found rest =>
    rw [rest.1]
    refine ⟨by simpa [silentOutcome] using canonical_of_collect found, fun shown _ h => ?_,
      fun ds _ h => h.mono (List.sublist_append_left ..)⟩
    simpa [rows, listed, silentOutcome] using h
  | @told d tools m written w₁ w₂ w₃ _ found any start write taken rest =>
    have hwrite : s.Carried w.home [] w.tree w₂.tree :=
      carried_of_inherits fun n hn _ => start.1 ▸ inherits_of_writeModule write n hn
    have htaken := taken.carried tools (canonical_of_collect found)
    rw [write.home_eq, start.2.1, ← rest.1] at htaken
    exact hwrite.trans htaken

theorem Answer.carried {c : Call} {reply : Reply} (h : s.Answer th Request.credible w c reply w') :
    s.Carried w.home (outcomes [reply]) w.tree w'.tree := by
  cases h with
  | begun removed progress =>
    have hinherits := (removed.dirsKept_inherits isName_of_mem_artifacts).2
    exact carried_of_inherits fun n _ _ => hinherits n
  | outcome turn => exact turn.carried
  | finished finish rest =>
    obtain ⟨m, hending, -⟩ := RuleSummary.ending_of_course finish
    rw [rest.1]
    exact carried_of_inherits fun n _ hn =>
      (RuleSummary.Ending.spares (w := w.setNow m) hending hn).inherits

/-- After any calls, the summaries show what they showed before, or modules of those calls. -/
theorem Calls.carried {calls : List Call} {replies : List Reply}
    (h : s.Calls th Request.credible calls w replies w') :
    s.Carried w.home (outcomes replies) w.tree w'.tree := by
  induction h with
  | nil => exact carried_of_inherits fun _ _ _ _ _ => id
  | @cons c cs reply replies w w₁ w' first rest ih =>
    have hsplit : outcomes (reply :: replies) = outcomes [reply] ++ outcomes replies := by
      rw [outcomes, ← List.singleton_append, List.filterMap_append, outcomes, outcomes]
    rw [first.home_eq] at ih
    rw [hsplit]
    exact (answer_of_course first).carried.trans ih

end

/-! ## Main theorem -/

/-- The files of the summaries can be found where they are. Otherwise the path of the directory goes
through one that is missing, and leads to them as soon as that is made. -/
def InReach (s : Session) (w : Workspace) : Prop :=
  ∀ n ∈ artifacts, ∀ c, w.tree.get? (n :: aim w.home s.summaryDir) = some (.file c) →
    w.tree.stat w.home (s.summaryDir / n) = some .file

/-- Where the directory exists, everything in it can be found. -/
theorem inReach_of_leadsTo {s : Session} {w : Workspace} {place : Place}
    (hlead : LeadsTo w.tree w.home s.summaryDir place)
    (hw : ∀ n ∈ artifacts, Walkable (s.summaryDir / n)) : s.InReach w := by
  intro n hn c hc
  obtain rfl := hlead.eq_aim
  exact (stat_div (isName_of_mem_artifacts n hn)).2 ⟨hw n hn, _, _, hlead, hc, rfl⟩

/-- What cannot be found once the session has started is not there. -/
theorem InReach.not_file {s : Session} {w : Workspace} {t : Tree} {res : Except Error Unit}
    {n : String} (h : s.InReach w) (hr : Removed s.summaryDir w.home artifacts w.tree res t)
    (hn : n ∈ artifacts) (hgone : t.stat w.home (s.summaryDir / n) ≠ some .file) (c : Content) :
    t.get? (n :: aim w.home s.summaryDir) ≠ some (.file c) := by
  intro hc
  have hname := isName_of_mem_artifacts n hn
  obtain ⟨hdirs, hinherits⟩ := hr.dirsKept_inherits isName_of_mem_artifacts
  have hfound := h n hn c (hinherits n _ c hc)
  obtain ⟨hw, place, e, hlead, -⟩ := (stat_div hname).1 hfound
  obtain rfl := hlead.eq_aim
  exact hgone ((stat_div hname).2 ⟨hw, _, .file c, hlead.mono hdirs, hc, rfl⟩)

/-- Starting over stops at the first directory in the place of a file, and leaves the files that come
after it. The bundle page comes first, so if the files were in reach, it shows only modules of the
calls that follow, whatever these are; and the document of the rule summary is a merge of such modules,
if neither it nor the snapshot was left. -/
theorem survivors_of_begin {s : Session} {th : Thread} {w w₁ : Workspace} {res : Except Error Unit}
    (hbegin : Course th Request.credible s.begin w (.done res) w₁) :
    (∀ before n after, artifacts = before ++ n :: after →
      (w₁.tree.stat w.home (s.summaryDir / n) = some .file ↔
        w.tree.stat w.home (s.summaryDir / n) = some .file ∧
          ∃ m ∈ before, w.tree.stat w.home (s.summaryDir / m) = some .dir)) ∧
    ((∃ e, res = .error e) ↔
      ∃ n ∈ artifacts, w.tree.stat w.home (s.summaryDir / n) = some .dir) ∧
    (s.InReach w → ∀ calls replies w₂, s.Calls th Request.credible calls w₁ replies w₂ →
      (∀ text, w₂.tree.read w.home s.bundle.page = .ok text → ∃ stamp shown,
        shown.Sublist (s.rows w.home (listed (outcomes replies))) ∧
          text = BundleSummary.pageText stamp shown) ∧
      (w₁.tree.stat w.home s.rule.document ≠ some .file →
        w₁.tree.stat w.home s.rule.snapshot ≠ some .file →
        ∀ text, w₂.tree.read w.home s.rule.document = .ok text → ∃ taken : List Document,
          taken.Sublist ((outcomes replies).map (·.document)) ∧
            text = (Document.mergeAll taken).toXml)) := by
  have hremoved := (removed_of_course hbegin).1
  have hsurvives : ∀ before n after, artifacts = before ++ n :: after →
      (w₁.tree.stat w.home (s.summaryDir / n) = some .file ↔
        w.tree.stat w.home (s.summaryDir / n) = some .file ∧
          ∃ m ∈ before, w.tree.stat w.home (s.summaryDir / m) = some .dir) := by
    intro before n after hsplit
    have hnodup : artifacts.Nodup := by decide
    have hnames := isName_of_mem_artifacts
    rw [hsplit] at hremoved hnodup hnames
    exact hremoved.survives_iff hnames hnodup
  refine ⟨hsurvives, hremoved.fails_iff isName_of_mem_artifacts (by decide), ?_⟩
  intro hreach calls replies w₂ hcalls
  have hcarried := hcalls.carried
  rw [hbegin.home_eq] at hcarried
  constructor
  · intro text hread
    -- The bundle page comes first, so nothing is in its way.
    have hgone : w₁.tree.stat w.home (s.summaryDir / BundleSummary.pageName) ≠ some .file := by
      rw [ne_eq, hsurvives [] _ _ rfl]
      simp
    have hnone := hreach.not_file hremoved (by decide) hgone
    have hend := hcarried.bundle [] (List.forall_mem_nil _) fun c hc => absurd hc (hnone c)
    have hfile := get?_of_read hread
    rw [BundleSummary.page, aim_div _ _ BundleSummary.isName_pageName] at hfile
    obtain ⟨stamp, shown, -, hshown, htext⟩ := hend _ hfile
    exact ⟨stamp, shown, hshown, Content.text.inj htext⟩
  · intro hdocument hsnapshot text hread
    have hstart : s.rule.Sourced w.home [] w₁.tree := by
      intro n hn c hc
      simp only [List.mem_cons, List.not_mem_nil, or_false] at hn
      rcases hn with rfl | rfl
      · exact absurd hc (hreach.not_file hremoved (by decide) hdocument c)
      · exact absurd hc (hreach.not_file hremoved (by decide) hsnapshot c)
    have hend := hcarried.rule [] (List.forall_mem_nil _) hstart
    have hfile := get?_of_read hread
    rw [RuleSummary.document, aim_div _ _ RuleSummary.isName_documentName] at hfile
    obtain ⟨taken, htaken, htext⟩ := hend _ (by simp) _ hfile
    exact ⟨taken, htaken, Content.text.inj htext⟩

/-- A workspace with one report, and with a directory in the place of the bundle page. -/
def leftovers (old : List (Place × Entry)) : Workspace where
  tree := ⟨old ++ [(["summary-by-bundle.html", "site"], .dir), (["site"], .dir),
    (["lint.xml", "target", "app"], .file (.text
      "<checkstyle><file name='B.java'><error message='new'/></file></checkstyle>")),
    (["target", "app"], .dir), (["app"], .dir)]⟩
  lock := ⟨"summary", none, 0⟩

/-- The document of an earlier session. -/
def oldDocument : Document := ⟨[⟨"A.java", [⟨1, .error, "old", none⟩]⟩]⟩

/-- An earlier session has left a document. -/
def withDocument : Workspace :=
  leftovers [(["summary-by-rule.xml", "site"], .file (.text oldDocument.toXml))]

/-- What starting over leaves there. -/
def swept (w : Workspace) : Workspace := (plain.begin.run "main" w).2

theorem survivors_of_begin_leftovers :
    (∃ res,
      Course "main" Request.credible plain.begin withDocument (.done res) (swept withDocument) ∧
      (∃ e, res = .error e) ∧
      (swept withDocument).tree.stat [] plain.rule.document = some .file) ∧
    ∃ replies w₂, plain.Calls "main" Request.credible [.process ⟨"app"⟩] (swept (leftovers []))
        replies w₂ ∧
      ∃ text, w₂.tree.read [] plain.rule.document = .ok text ∧ ∃ taken : List Document,
        taken.Sublist ((outcomes replies).map (·.document)) ∧
          text = (Document.mergeAll taken).toXml := by
  have hbegin : ∀ old, Course "main" Request.credible plain.begin (leftovers old)
      (.done (plain.begin.run "main" (leftovers old)).1) (swept (leftovers old)) :=
    fun old => (answered_credible _ (show '<' ∉ "".toList by decide)).course
  constructor
  · obtain ⟨hsurvives, hfails, -⟩ := survivors_of_begin (hbegin _)
    refine ⟨_, hbegin _, hfails.2 ⟨BundleSummary.pageName, by decide, by decide +kernel⟩, ?_⟩
    exact (hsurvives [BundleSummary.pageName] _ _ rfl).2
      ⟨by decide +kernel, BundleSummary.pageName, by decide, by decide +kernel⟩
  · have hcalls := calls_of_run plain "main" [.process ⟨"app"⟩] (swept (leftovers []))
      (by rw [swept, now_run]; decide)
    have hread : ((([Call.process ⟨"app"⟩].mapM plain.call).run "main"
        (swept (leftovers []))).2.tree.read [] plain.rule.document).toOption.isSome := by
      decide +kernel
    generalize ([Call.process ⟨"app"⟩].mapM plain.call).run "main" (swept (leftovers [])) = x
      at hcalls hread
    obtain ⟨replies, w₂⟩ := x
    obtain ⟨text, htext⟩ := Option.isSome_iff_exists.1 hread
    have htext := eq_ok_of_toOption htext
    have hlead : LeadsTo (leftovers []).tree [] ⟨"site"⟩ ["site"] := ⟨by decide, by decide⟩
    have hreach : plain.InReach (leftovers []) :=
      inReach_of_leadsTo hlead (by unfold Walkable; decide +kernel)
    obtain ⟨-, -, hstems⟩ := survivors_of_begin (hbegin [])
    obtain ⟨-, hdocument⟩ := hstems hreach _ _ _ hcalls
    exact ⟨replies, w₂, hcalls, text, htext,
      hdocument (by decide +kernel) (by decide +kernel) text htext⟩

/-- The old document is merged with that of the new module. -/
theorem old_document_survives :
    (plain.begin.run "main" withDocument).1.toOption = none ∧
    (swept withDocument).tree.stat [] plain.rule.document = some .file ∧
    (((plain.process ⟨"app"⟩).run "main" (swept withDocument)).2.tree.read []
      plain.rule.document).toOption = some (Document.mergeAll [oldDocument,
        ((plain.process ⟨"app"⟩).run "main" (swept withDocument)).1.document]).toXml := by
  decide +kernel

end LintDigest.Session
