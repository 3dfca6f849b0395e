import LintDigest.Proofs.Summary.Granted
import LintDigest.Proofs.Text.Decimal
import LintDigest.Proofs.Text.Markup
import LintDigest.Proofs.Text.Search

/-!
# The rows of the bundle page

Whatever names and links a row shows, they are escaped, so no row and no opening holds anything that
looks like the marker. A row therefore always goes behind the rows that are there.
-/

namespace LintDigest

open Script Storage LintDigest.Tree

/-- A path as seen from the directory `cwd`. -/
def Path.seenFrom (cwd : Place) (p : Path) : Path :=
  if p.isAbsolute then p else (Workspace.pathOf cwd).join p

theorem Script.run_absolute (th : Thread) (p : Path) (w : Workspace) :
    (absolute p).run th w = (p.seenFrom w.home, w) := by
  unfold absolute Path.seenFrom
  split <;> rfl

namespace BundleSummary

/-! ## The text of the page -/

/-- The page with the given rows. -/
def pageText (stamp : String) (rows : List String) : String :=
  opening stamp ++ String.join rows ++ marker ++ closing

/-- A text in which the marker begins nowhere. -/
def Unmarked (text : String) : Prop :=
  Text.ClearOf marker.toList text.toList

instance (text : String) : Decidable (Unmarked text) :=
  inferInstanceAs (Decidable (Text.ClearOf _ _))

theorem Unmarked.append {a b : String} (ha : Unmarked a) (hb : Unmarked b) :
    Unmarked (a ++ b) := by
  rw [Unmarked, String.toList_append]
  exact Text.ClearOf.append ha hb

theorem unmarked_of_notMem {text : String} (h : '<' ∉ text.toList) : Unmarked text :=
  Text.clearOf_of_notMem h

theorem unmarked_escape (text : String) : Unmarked (Markup.escape text) :=
  unmarked_of_notMem (Markup.notMem_escape (by decide) (by decide) text)

theorem unmarked_toString (n : Nat) : Unmarked (toString n) := by
  apply unmarked_of_notMem
  intro h
  exact absurd (Text.isDigit_of_mem_toString h) (by decide)

theorem unmarked_opening {stamp : String} (h : '<' ∉ stamp.toList) : Unmarked (opening stamp) := by
  unfold opening
  refine .append (.append (.append ?_ (unmarked_of_notMem h)) (by decide +kernel)) (by decide +kernel)
  refine .append (.append (.append (.append (.append ?_ ?_) ?_) ?_) ?_) ?_
  all_goals decide +kernel

theorem unmarked_rowText (name link : String) (c : Counts) : Unmarked (rowText name link c) := by
  have hlink : Unmarked "<tr><td><a href=\"" := by decide +kernel
  have hname : Unmarked "\">" := by decide +kernel
  have herrors : Unmarked "</a></td><td class=\"error\">" := by decide +kernel
  have hwarnings : Unmarked "</td><td class=\"warning\">" := by decide +kernel
  have hinfos : Unmarked "</td><td class=\"info\">" := by decide +kernel
  have hend : Unmarked "</td></tr>\n" := by decide +kernel
  have hnamed := ((hlink.append (unmarked_escape link)).append hname).append (unmarked_escape name)
  have hcounted := ((hnamed.append herrors).append (unmarked_toString c.errors)).append hwarnings
  exact (((hcounted.append (unmarked_toString c.warnings)).append hinfos).append
    (unmarked_toString c.infos)).append hend

theorem unmarked_join {rows : List String} (h : ∀ row ∈ rows, Unmarked row) :
    Unmarked (String.join rows) := by
  induction rows with
  | nil => decide
  | cons row rows ih =>
    obtain ⟨hrow, hrows⟩ := List.forall_mem_cons.1 h
    rw [String.join_cons]
    exact hrow.append (ih hrows)

theorem insertRow?_append {text : String} (h : Unmarked text) (row rest : String) :
    insertRow? row (text ++ rest) = (insertRow? row rest).map (text ++ ·) := by
  unfold insertRow?
  rw [String.toList_append, Text.cutAt?_append h, Option.map_map, Option.map_map]
  congr 1
  funext cut
  simp [String.append_assoc]

theorem insertRow?_pageText {stamp : String} {rows : List String} (hstamp : '<' ∉ stamp.toList)
    (hrows : ∀ row ∈ rows, Unmarked row) (row : String) :
    insertRow? row (pageText stamp rows) = some (pageText stamp (rows ++ [row])) := by
  have hfront := (unmarked_opening hstamp).append (unmarked_join hrows)
  have hmark : insertRow? row (marker ++ closing) = some (row ++ marker ++ closing) := by
    rw [insertRow?, String.toList_append, Text.cutAt?_self (by decide)]
    simp
  rw [pageText, String.append_assoc, insertRow?_append hfront, hmark]
  simp [pageText, String.append_assoc]

/-- However many rows there are, the next one has one place to go. -/
theorem occurrences_marker {stamp : String} {rows : List String} (hstamp : '<' ∉ stamp.toList)
    (hrows : ∀ row ∈ rows, Unmarked row) :
    Text.occurrences marker.toList (pageText stamp rows).toList = 1 := by
  have hfront := (unmarked_opening hstamp).append (unmarked_join hrows)
  rw [pageText, String.append_assoc, String.toList_append, Text.occurrences_append hfront]
  decide +kernel

/-! ## The cells of a row -/

/-- A row of the page, cell by cell. -/
structure Row where
  link : String
  name : String
  errors : Nat
  warnings : Nat
  infos : Nat
  deriving DecidableEq

/-- The cell of a number, in the colour that `mark` stands for. -/
def Row.cell (mark : String) (n : Nat) : String :=
  "<td class=\"" ++ mark ++ "\">" ++ toString n ++ "</td>"

/-- The line of the page that shows the row: a link, and three numbers. -/
def Row.text (r : Row) : String :=
  "<tr><td><a href=\"" ++ Markup.escape r.link ++ "\">" ++ Markup.escape r.name ++ "</a></td>" ++
    cell "error" r.errors ++ cell "warning" r.warnings ++ cell "info" r.infos ++ "</tr>\n"

example : (Row.mk "../m/r.html" "<m>" 1 0 12).text =
    "<tr><td><a href=\"../m/r.html\">&lt;m&gt;</a></td><td class=\"error\">1</td>" ++
      "<td class=\"warning\">0</td><td class=\"info\">12</td></tr>\n" := by
  decide +kernel

theorem rowText_eq (name link : String) (c : Counts) :
    rowText name link c = (Row.mk link name c.errors c.warnings c.infos).text := by
  have herrors (rest : String) : "</a></td>" ++ ("<td class=\"" ++ ("error" ++ ("\">" ++ rest))) =
      "</a></td><td class=\"error\">" ++ rest := by
    simp only [← String.append_assoc]
    rfl
  have hwarnings (rest : String) : "</td>" ++ ("<td class=\"" ++ ("warning" ++ ("\">" ++ rest))) =
      "</td><td class=\"warning\">" ++ rest := by
    simp only [← String.append_assoc]
    rfl
  have hinfos (rest : String) : "</td>" ++ ("<td class=\"" ++ ("info" ++ ("\">" ++ rest))) =
      "</td><td class=\"info\">" ++ rest := by
    simp only [← String.append_assoc]
    rfl
  unfold rowText Row.text Row.cell
  simp only [String.append_assoc, herrors, hwarnings, hinfos]
  rfl

/-! ## Adding a row -/

/-- The row of a report, as seen from the directory `cwd`. -/
def rowOf (b : BundleSummary) (cwd : Place) (report : Path) (d : Document) : String :=
  let link := Path.relativeText (report.seenFrom cwd) (b.dir.seenFrom cwd)
  rowText (displayName (report.seenFrom cwd) link b.nameDepth) link d.counts

/-- Its cells: the link to the report, the name of the module and the counts of the document. -/
def rowFor (b : BundleSummary) (cwd : Place) (report : Path) (d : Document) : Row :=
  let link := Path.relativeText (report.seenFrom cwd) (b.dir.seenFrom cwd)
  { link
    name := displayName (report.seenFrom cwd) link b.nameDepth
    errors := d.counts.errors
    warnings := d.counts.warnings
    infos := d.counts.infos }

theorem rowOf_eq_text (b : BundleSummary) (cwd : Place) (report : Path) (d : Document) :
    b.rowOf cwd report d = (b.rowFor cwd report d).text :=
  rowText_eq _ _ _

/-- The page that a row is added to. -/
def current (b : BundleSummary) (w : Workspace) : Except Error String :=
  if (w.tree.stat w.home b.page).isSome then
    match w.tree.read w.home b.page with
    | .ok text => .ok text
    | .error fault => .error (.file b.page fault)
  else .ok (template w.now)

/-- How adding a row can end, and the tree it leaves. -/
inductive Appending (b : BundleSummary) (report : Path) (d : Document) (w : Workspace) :
    Except Error Appended → Tree → Prop
  | skipped (empty : d.isEmpty = true) : Appending b report d w (.ok .skipped) w.tree
  | refused {e : Error} (nonempty : d.isEmpty = false)
      (unfit : ∀ text, b.current w = .ok text →
        insertRow? (b.rowOf w.home report d) text = none) :
      Appending b report d w (.error e) w.tree
  | unwritten {e : Error} {text page : String} {t : Tree} (nonempty : d.isEmpty = false)
      (read : b.current w = .ok text)
      (insert : insertRow? (b.rowOf w.home report d) text = some page)
      (save : Replaced w.tree w.home b.page page (.error e) t) :
      Appending b report d w (.error e) t
  | added {name link text page : String} {t : Tree} (nonempty : d.isEmpty = false)
      (read : b.current w = .ok text)
      (insert : insertRow? (b.rowOf w.home report d) text = some page)
      (save : Replaced w.tree w.home b.page page (.ok ()) t) :
      Appending b report d w (.ok (.row name link)) t

section

variable (b : BundleSummary) (report : Path) (d : Document) {th : Thread}
  {A : (r : Request) → r.Answer → Prop} {w w' : Workspace} {res : Except Error Appended}

theorem run_content (th : Thread) (w : Workspace) :
    ∃ w', b.content.run th w = (b.current w, w') ∧ w'.tree = w.tree ∧ w'.home = w.home ∧
      w'.progress = w.progress := by
  unfold content current
  rw [run_isPresent_bind]
  cases (w.tree.stat w.home b.page).isSome with
  | true =>
    refine ⟨w, ?_, rfl, rfl, rfl⟩
    simp only [if_true, readText, request, ask_bind, done_bind, run, Workspace.answer]
    cases w.tree.read w.home b.page <;> rfl
  | false => exact ⟨_, rfl, rfl, rfl, rfl⟩

/-- What follows the content goes on from the page that is there, or from a new one. -/
theorem content_bind {α : Type} (f : Except Error String → Script α) :
    (b.content >>= f) = (isPresent b.page >>= fun found =>
      if found then readText b.page >>= f
      else do
        log .info "lintfold::summary::bundle" ("Creating bundle summary " ++ b.page.text)
        f (.ok (template (← request .now)))) := by
  rw [content, bind_assoc]
  refine congrArg _ (funext fun found => ?_)
  cases found <;> rfl

/-- Puts a row on the page that was read. -/
def place (content : String) : Script (Except Error Appended) := do
  if (Text.cutAt? marker.toList content.toList).isNone then
    return .error (.document b.page .missingMarker)
  let report ← absolute report
  let link := Path.relativeText report (← absolute b.dir)
  let name := displayName report link b.nameDepth
  match insertRow? (rowText name link d.counts) content with
  | none => return .error (.document b.page .missingMarker)
  | some page =>
    match ← replaceFile b.page page with
    | .error e => return .error e
    | .ok () => return .ok (.row name link)

theorem append_of_nonempty (hd : d.isEmpty = false) :
    b.append report d = locked (b.content >>= fun read =>
      match read with
      | .error e => return .error e
      | .ok content => b.place report d content) := by
  rw [append, if_neg (by simp [hd])]
  rfl

theorem insertRow?_eq_none_iff {row text : String} :
    insertRow? row text = none ↔ (Text.cutAt? marker.toList text.toList).isNone = true := by
  rw [insertRow?, Option.map_eq_none_iff, Option.isNone_iff_eq_none]

theorem run_place (th : Thread) (w : Workspace) (content : String) :
    (insertRow? (b.rowOf w.home report d) content = none ∧
      ∃ e, (b.place report d content).run th w = (.error e, w)) ∨
    ∃ page saved t, insertRow? (b.rowOf w.home report d) content = some page ∧
      Replaced w.tree w.home b.page page saved t ∧
      ∃ res, (b.place report d content).run th w = (res, { w with tree := t }) ∧
        match saved with
        | .error e => res = .error e
        | .ok () => ∃ name link, res = .ok (.row name link) := by
  unfold place
  split
  · next hnone => exact .inl ⟨insertRow?_eq_none_iff.2 hnone, _, rfl⟩
  · simp only [run_bind, run_absolute]
    have hrow : rowText (displayName (report.seenFrom w.home)
        (Path.relativeText (report.seenFrom w.home) (b.dir.seenFrom w.home)) b.nameDepth)
        (Path.relativeText (report.seenFrom w.home) (b.dir.seenFrom w.home)) d.counts =
          b.rowOf w.home report d := rfl
    rw [hrow]
    cases hinsert : insertRow? (b.rowOf w.home report d) content with
    | none => exact .inl ⟨rfl, _, rfl⟩
    | some page =>
      obtain ⟨saved, t, hrun, hreplaced⟩ := run_replaceFile th w b.page page
      refine .inr ⟨page, saved, t, rfl, hreplaced, ?_⟩
      simp only [run_bind, hrun]
      cases saved with
      | error e => exact ⟨_, rfl, rfl⟩
      | ok _ => exact ⟨_, rfl, _, _, rfl⟩

theorem appending_append (h : (b.append report d).run th w = (res, w')) :
    Appending b report d w res w'.tree ∧ w'.progress = w.progress := by
  cases hd : d.isEmpty with
  | true =>
    rw [append, if_pos hd] at h
    cases h
    exact ⟨.skipped hd, rfl⟩
  | false =>
    obtain ⟨w₁, hcontent, htree, hhome, hprogress⟩ := b.run_content th (w.entered th)
    rw [b.append_of_nonempty report d hd, run_locked, run_bind, hcontent] at h
    obtain ⟨rfl, rfl⟩ := Prod.mk.inj h
    rw [Workspace.tree_left, Workspace.progress_left]
    have hcurrent : b.current (w.entered th) = b.current w := rfl
    rw [Workspace.tree_entered] at htree
    rw [Workspace.home_entered] at hhome
    rw [hcurrent]
    cases hread : b.current w with
    | error e =>
      simp only [pure_eq_done, run_done, htree, hprogress]
      exact ⟨.refused hd (fun text htext => by simp [hread] at htext), rfl⟩
    | ok text =>
      simp only
      rcases b.run_place report d th w₁ text with
        ⟨hinsert, e, hrun⟩ | ⟨page, saved, t, hinsert, hreplaced, res, hrun, hres⟩
      · rw [hrun]
        rw [hhome] at hinsert
        simp only [htree, hprogress]
        refine ⟨.refused hd (fun text' htext => ?_), rfl⟩
        rw [hread] at htext
        cases htext
        exact hinsert
      · rw [hrun]
        rw [hhome] at hinsert
        rw [hhome, htree] at hreplaced
        simp only [hprogress]
        cases saved with
        | error e =>
          subst hres
          exact ⟨.unwritten hd hread hinsert hreplaced, rfl⟩
        | ok _ =>
          obtain ⟨name, link, rfl⟩ := hres
          exact ⟨.added hd hread hinsert hreplaced, rfl⟩

theorem timeless_place (content : String) : (b.place report d content).Timeless := by
  unfold place
  split
  · trivial
  · apply (passive_absolute _).timeless.bind
    intro report
    apply (passive_absolute _).timeless.bind
    intro dir
    simp only
    split
    · trivial
    · apply (timeless_replaceFile _ _).bind
      intro saved
      cases saved <;> trivial

theorem dated_append : (b.append report d).Dated := by
  have hcontent : b.content.Dated := by
    apply (passive_isPresent _).timeless.bind_dated
    intro present
    split
    · exact (passive_readText _).timeless.dated
    · exact .inl ⟨rfl, fun _ => .inr fun _ => trivial⟩
  cases hd : d.isEmpty with
  | true =>
    rw [append, if_pos hd]
    exact .inl ⟨rfl, fun _ => trivial⟩
  | false =>
    rw [b.append_of_nonempty report d hd]
    apply dated_locked
    apply hcontent.bind
    intro read
    cases read with
    | error e => trivial
    | ok content => exact b.timeless_place report d content

/-- A new page shows a moment that was asked for. -/
theorem credible_of_answered (h : (b.append report d).Answered th A w)
    (hA : ∀ r answer, A r answer → r.credible answer) (hd : d.isEmpty = false)
    (hnew : (w.tree.stat w.home b.page).isSome = false) : '<' ∉ w.now.toList := by
  rw [b.append_of_nonempty report d hd, locked] at h
  have hcontent := (answered_bind.1 (answered_bind.1 (answered_bind.1 h).2).1).1
  unfold content at hcontent
  have hpage := (answered_bind.1 hcontent).2
  have hstat : ((isPresent b.page).run th ((request .acquire).run th w).2).1 = false := hnew
  rw [hstat, if_neg Bool.false_ne_true] at hpage
  exact hA .now w.now hpage.2.1

/-- However the clock moves, a row is added at some moment, which shows on a new page only. -/
theorem appending_of_course (hA : ∀ r answer, A r answer → r.credible answer)
    (h : Course th A (b.append report d) w (.done res) w') :
    ∃ m, Appending b report d (w.setNow m) res w'.tree ∧ w'.progress = w.progress ∧
      (d.isEmpty = false → (w.tree.stat w.home b.page).isSome = false → '<' ∉ m.toList) := by
  obtain ⟨m, hrun, hanswered⟩ := h.run_eq (b.dated_append report d)
  obtain ⟨happending, hprogress⟩ := b.appending_append report d hrun
  exact ⟨m, happending, hprogress, b.credible_of_answered report d hanswered hA⟩

theorem place_of_granted {content page : String}
    (h : Course th Request.granted (b.place report d content) w (.done res) w')
    (hinsert : insertRow? (b.rowOf w.home report d) content = some page) :
    ∃ u, res = .ok u := by
  unfold place at h
  have hmarked : (Text.cutAt? marker.toList content.toList).isNone = false := by
    have hsome : insertRow? (b.rowOf w.home report d) content ≠ none := by simp [hinsert]
    rwa [Ne, insertRow?_eq_none_iff, Bool.not_eq_true] at hsome
  rw [hmarked, if_neg Bool.false_ne_true] at h
  obtain ⟨report', w₁, hreport, h⟩ := h.of_bind
  obtain ⟨rfl, hw₁⟩ := (passive_absolute _).course (Untouched.refl w) hreport
  obtain ⟨dir, w₂, hdir, h⟩ := h.of_bind
  obtain ⟨rfl, -⟩ := (passive_absolute _).course hw₁ hdir
  simp only [run_absolute] at h
  rw [rowOf] at hinsert
  simp only [hinsert] at h
  obtain ⟨saved, w₃, hsaved, h⟩ := h.of_bind
  obtain rfl := ok_of_granted hsaved
  exact ⟨_, h.of_done.1⟩

/-- If every write is granted, a row that fits into the page is added. -/
theorem append_of_granted (h : Course th Request.granted (b.append report d) w (.done res) w') :
    ∃ m, Appending b report d (w.setNow m) res w'.tree ∧ w'.progress = w.progress ∧
      (d.isEmpty = false → (w.tree.stat w.home b.page).isSome = false → '<' ∉ m.toList) ∧
      (d.isEmpty = false → ∀ text page, b.current (w.setNow m) = .ok text →
        insertRow? (b.rowOf w.home report d) text = some page → ∃ u, res = .ok u) := by
  obtain ⟨m, hrun, hanswered⟩ := h.run_eq (b.dated_append report d)
  obtain ⟨happending, hprogress⟩ := b.appending_append report d hrun
  refine ⟨m, happending, hprogress,
    b.credible_of_answered report d hanswered Request.credible_of_granted, ?_⟩
  intro hd text page hread hinsert
  obtain ⟨w₁, hcontent, -, hhome, -⟩ := b.run_content th ((w.setNow m).entered th)
  have hcurrent : b.current ((w.setNow m).entered th) = .ok text := hread
  rw [hcurrent] at hcontent
  rw [b.append_of_nonempty report d hd, run_locked, run_bind, hcontent] at hrun
  rw [b.append_of_nonempty report d hd, locked] at hanswered
  have hplace := (answered_bind.1 (answered_bind.1 (answered_bind.1 hanswered).2).1).2
  have hstart : ((request .acquire).run th (w.setNow m)).2 = (w.setNow m).entered th := rfl
  rw [hstart, hcontent] at hplace
  obtain ⟨u, hu⟩ := b.place_of_granted report d hplace.course (hhome ▸ hinsert)
  exact ⟨u, (Prod.mk.inj hrun).1.symm.trans hu⟩

end

/-! ## Rows in order -/

/-- The calls of a session, one after another. -/
def appendAll (b : BundleSummary) (calls : List (Path × Document)) :
    Script (List (Except Error Appended)) :=
  calls.mapM fun c => b.append c.1 c.2

/-- The rows of those calls that have diagnostics. -/
def rowsOf (b : BundleSummary) (cwd : Place) (calls : List (Path × Document)) : List String :=
  (calls.filter (!·.2.isEmpty)).map fun c => b.rowOf cwd c.1 c.2

/-- The rows of calls, cell by cell. -/
def rowsFor (b : BundleSummary) (cwd : Place) (calls : List (Path × Document)) : List Row :=
  calls.map fun c => b.rowFor cwd c.1 c.2

theorem map_text_rowsFor (b : BundleSummary) (cwd : Place) (calls : List (Path × Document)) :
    (b.rowsFor cwd calls).map Row.text = calls.map fun c => b.rowOf cwd c.1 c.2 := by
  rw [rowsFor, List.map_map]
  exact List.map_congr_left fun c _ => (b.rowOf_eq_text cwd c.1 c.2).symm

/-- The page shows the given rows; without rows there is no page. -/
def Shows (b : BundleSummary) (t : Tree) (cwd : Place) (rows : List String) : Prop :=
  (rows = [] ∧ t.stat cwd b.page = none) ∨
    rows ≠ [] ∧ ∃ stamp, '<' ∉ stamp.toList ∧ t.read cwd b.page = .ok (pageText stamp rows)

section

variable {b : BundleSummary} {th : Thread} {A : (r : Request) → r.Answer → Prop}
  {w w' : Workspace}

theorem unmarked_rowsOf (b : BundleSummary) (cwd : Place) (calls : List (Path × Document)) :
    ∀ row ∈ b.rowsOf cwd calls, Unmarked row := by
  intro row hrow
  obtain ⟨c, -, rfl⟩ := List.mem_map.1 hrow
  exact unmarked_rowText _ _ _

theorem read_of_replaced {t t' : Tree} {cwd : Place} {text : String}
    (h : Replaced t cwd b.page text (.ok ()) t') : t'.read cwd b.page = .ok text :=
  (h.toWritten isName_pageName).read isName_pageName

theorem current_of_read {text : String} (h : w.tree.read w.home b.page = .ok text) :
    b.current w = .ok text := by
  obtain ⟨place, hresolve⟩ := read_eq_ok.1 h
  have hstat : (w.tree.stat w.home b.page).isSome := stat_isSome.2 ⟨place, _, hresolve⟩
  rw [current, if_pos hstat, h]

/-- The first row goes wherever the page can be written. -/
theorem ok_of_writable {report : Path} {d : Document} {res : Except Error Appended}
    (hnew : w.tree.stat w.home b.page = none) (hpage : Writable w.tree w.home b.page)
    (hA : ∀ r answer, A r answer → r.credible answer)
    (hc : Course th A (b.append report d) w (.done res) w') : ∃ u, res = .ok u := by
  obtain ⟨m, happending, -, hstamp⟩ := b.appending_of_course report d hA hc
  generalize w'.tree = t at happending
  cases happending with
  | skipped => exact ⟨_, rfl⟩
  | added => exact ⟨_, rfl⟩
  | unwritten nonempty read insert save =>
    cases save with
    | failed unable => exact absurd hpage unable
  | refused nonempty unfit =>
    have hplain := hstamp nonempty (by simp [hnew])
    have hcurrent : b.current (w.setNow m) = .ok (pageText m []) := by
      rw [current, Workspace.tree_setNow, Workspace.home_setNow, hnew]
      simp [template, pageText]
    have hnone := unfit _ hcurrent
    rw [insertRow?_pageText hplain (by simp)] at hnone
    cases hnone

/-- A row that is added goes behind the others. -/
theorem Shows.append {rows : List String} {report : Path} {d : Document} {u : Appended}
    (h : b.Shows w.tree w.home rows) (hrows : ∀ row ∈ rows, Unmarked row)
    (hA : ∀ r answer, A r answer → r.credible answer)
    (hc : Course th A (b.append report d) w (.done (.ok u)) w') :
    b.Shows w'.tree w'.home (rows ++ b.rowsOf w.home [(report, d)]) := by
  obtain ⟨m, happending, -, hstamp⟩ := b.appending_of_course report d hA hc
  rw [hc.home_eq]
  generalize w'.tree = t at happending
  cases happending with
  | skipped empty => simpa [rowsOf, empty] using h
  | @added _ _ text page _ nonempty read insert save =>
    have hrow : b.rowsOf w.home [(report, d)] = [b.rowOf w.home report d] := by
      simp [rowsOf, nonempty]
    rw [hrow]
    -- Either way, what was read is a page with the rows so far.
    have hpage : ∃ stamp, '<' ∉ stamp.toList ∧ text = pageText stamp rows := by
      rcases h with ⟨rfl, hnone⟩ | ⟨-, stamp, hplain, hread⟩
      · have hnew : (w.tree.stat w.home b.page).isSome = false := by simp [hnone]
        have hcurrent : b.current (w.setNow m) = .ok (template m) := by
          rw [current, Workspace.tree_setNow, Workspace.home_setNow, hnone]
          rfl
        rw [hcurrent] at read
        cases read
        refine ⟨m, hstamp nonempty hnew, ?_⟩
        simp [template, pageText]
      · rw [current_of_read (w := w.setNow m) hread] at read
        cases read
        exact ⟨stamp, hplain, rfl⟩
    obtain ⟨stamp, hplain, rfl⟩ := hpage
    rw [insertRow?_pageText hplain hrows] at insert
    cases insert
    exact .inr ⟨by simp, stamp, hplain, read_of_replaced save⟩

theorem course_appendAll_cons {c : Path × Document} {calls : List (Path × Document)}
    {results : List (Except Error Appended)}
    (h : Course th A (b.appendAll (c :: calls)) w (.done results) w') :
    ∃ res rest w₁ w₂ m, results = res :: rest ∧ Course th A (b.append c.1 c.2) w (.done res) w₁ ∧
      Course th A (b.appendAll calls) w₁ (.done rest) w₂ ∧ w' = w₂.setNow m := by
  rw [appendAll, List.mapM_cons] at h
  obtain ⟨res, w₁, hc, h⟩ := h.of_bind
  obtain ⟨rest, w₂, hrest, h⟩ := h.of_bind
  obtain ⟨rfl, m, rfl⟩ := h.of_done
  exact ⟨res, rest, w₁, w₂, m, rfl, hc, hrest, rfl⟩

theorem Shows.appendAll {calls before : List (Path × Document)}
    {results : List (Except Error Appended)}
    (h : b.Shows w.tree w.home (b.rowsOf w.home before))
    (hA : ∀ r answer, A r answer → r.credible answer)
    (hc : Course th A (b.appendAll calls) w (.done results) w')
    (hok : ∀ res ∈ results, ∃ u, res = .ok u) :
    b.Shows w'.tree w'.home (b.rowsOf w'.home (before ++ calls)) := by
  induction calls generalizing before w w' results with
  | nil =>
    obtain ⟨rfl, m, rfl⟩ := hc.of_done
    simpa using h
  | cons c calls ih =>
    obtain ⟨res, rest, w₁, w₂, m, rfl, hfirst, hrest, rfl⟩ := course_appendAll_cons hc
    obtain ⟨⟨u, rfl⟩, hothers⟩ := List.forall_mem_cons.1 hok
    have hnext := h.append (unmarked_rowsOf b w.home before) hA hfirst
    have happend : b.rowsOf w.home before ++ b.rowsOf w.home [(c.1, c.2)] =
        b.rowsOf w₁.home (before ++ [c]) := by
      rw [hfirst.home_eq]
      simp only [rowsOf, List.filter_append, List.map_append]
    rw [happend] at hnext
    simpa using ih hnext hrest hothers

end

end BundleSummary

end LintDigest
