import Mathlib.Data.Option.Basic
import LintDigest.Proofs.Summary.Rows
import LintDigest.Proofs.Summary.Undo
import LintDigest.Session

/-!
# Trees that differ in moments only

Two runs that do the same at different moments leave trees that differ in what their pages say about
the time. `Agree E` compares two trees that way, except at the places in `E`, where they may differ
in any way but not in being a directory. Everything that looks at files sees the same in both trees,
and everything that writes keeps them in agreement.
-/

namespace LintDigest

open Script Storage LintDigest.Tree

/-! ## Pages -/

/-- Two texts of a file named `n` that differ at most in the moment they show. -/
inductive Restamped (n : String) : String → String → Prop
  | same (text : String) : Restamped n text text
  | rows {m m' : String} (rest : String) (name : n = BundleSummary.pageName)
      (plain : '<' ∉ m.toList) (plain' : '<' ∉ m'.toList) :
      Restamped n (BundleSummary.opening m ++ rest) (BundleSummary.opening m' ++ rest)
  | rendered (p : Page) (m m' : String) (d : Document)
      (name : n = RuleSummary.pageName ∨ n = Session.modulePage) :
      Restamped n (p.render m d) (p.render m' d)

/-- What stands at a place named `n` in two trees. -/
inductive Alike (n : String) : Option Entry → Option Entry → Prop
  | same (e : Option Entry) : Alike n e e
  | pages {text text' : String} (h : Restamped n text text') :
      Alike n (some (.file (.text text))) (some (.file (.text text')))

/-- The names of pages. -/
def pageNames : List String :=
  [BundleSummary.pageName, RuleSummary.pageName, Session.modulePage]

section

variable {n : String} {text text' : String} {e e' : Option Entry}

theorem Restamped.symm (h : Restamped n text text') : Restamped n text' text := by
  cases h with
  | same text => exact .same text
  | rows rest name plain plain' => exact .rows rest name plain' plain
  | rendered p m m' d name => exact .rendered p m' m d name

theorem Restamped.eq_of_notMem (h : Restamped n text text') (hn : n ∉ pageNames) :
    text = text' := by
  simp only [pageNames, List.mem_cons, List.not_mem_nil, or_false, not_or] at hn
  cases h with
  | same text => rfl
  | rows rest name plain plain' => exact absurd name hn.1
  | rendered p m m' d name =>
    rcases name with name | name
    · exact absurd name hn.2.1
    · exact absurd name hn.2.2

theorem Restamped.insertRow? (h : Restamped BundleSummary.pageName text text') (row : String) :
    Option.Rel (Restamped BundleSummary.pageName) (BundleSummary.insertRow? row text)
      (BundleSummary.insertRow? row text') := by
  cases h with
  | same text =>
    cases BundleSummary.insertRow? row text with
    | none => exact .none
    | some page => exact .some (.same page)
  | @rows m m' rest name plain plain' =>
    rw [BundleSummary.insertRow?_append (BundleSummary.unmarked_opening plain),
      BundleSummary.insertRow?_append (BundleSummary.unmarked_opening plain')]
    cases BundleSummary.insertRow? row rest with
    | none => exact .none
    | some page => exact .some (.rows page rfl plain plain')
  | rendered p m m' d name => exact absurd name (by decide)

theorem Alike.symm (h : Alike n e e') : Alike n e' e := by
  cases h with
  | same e => exact .same e
  | pages h => exact .pages h.symm

theorem Alike.eq_of_notMem (h : Alike n e e') (hn : n ∉ pageNames) : e = e' := by
  cases h with
  | same e => rfl
  | pages h => rw [h.eq_of_notMem hn]

theorem Alike.kind_eq (h : Alike n e e') : e.map Entry.kind = e'.map Entry.kind := by
  cases h <;> rfl

theorem Alike.isSome_eq (h : Alike n e e') : e.isSome = e'.isSome := by
  cases h <;> rfl

end

/-- The summaries of a session are the same in two workspaces, but for the moments on the pages. -/
structure Session.SameSummaries (s : Session) (w v : Workspace) : Prop where
  document : w.tree.entry w.home s.rule.document = v.tree.entry v.home s.rule.document
  rulePage : Alike RuleSummary.pageName (w.tree.entry w.home s.rule.page)
    (v.tree.entry v.home s.rule.page)
  bundlePage : Alike BundleSummary.pageName (w.tree.entry w.home s.bundle.page)
    (v.tree.entry v.home s.bundle.page)

/-! ## Agreement -/

/-- Two trees agree off the places in `E`. -/
structure Agree (E : Place → Prop) (t t' : Tree) : Prop where
  dirs : ∀ q, t.get? q = some .dir ↔ t'.get? q = some .dir
  alike : ∀ n place, ¬ E (n :: place) → Alike n (t.get? (n :: place)) (t'.get? (n :: place))

namespace Agree

variable {E : Place → Prop} {t t' u u' : Tree} {cwd place : Place} {p dir : Path} {n : String}

theorem refl (E : Place → Prop) (t : Tree) : Agree E t t :=
  ⟨fun _ => Iff.rfl, fun _ _ _ => .same _⟩

theorem symm (h : Agree E t t') : Agree E t' t :=
  ⟨fun q => (h.dirs q).symm, fun n place hE => (h.alike n place hE).symm⟩

theorem dirsKept (h : Agree E t t') : DirsKept t t' :=
  fun q => (h.dirs q).1

theorem leadsTo_iff (h : Agree E t t') : LeadsTo t cwd p place ↔ LeadsTo t' cwd p place :=
  ⟨fun hl => hl.mono h.dirsKept, fun hl => hl.mono h.symm.dirsKept⟩

theorem get?_eq (h : Agree E t t') (hE : ¬ E (n :: place)) (hn : n ∉ pageNames) :
    t.get? (n :: place) = t'.get? (n :: place) :=
  (h.alike n place hE).eq_of_notMem hn

theorem mono {E' : Place → Prop} (h : Agree E t t') (hE : ∀ q, E q → E' q) : Agree E' t t' :=
  ⟨h.dirs, fun n place hn => h.alike n place fun he => hn (hE _ he)⟩

/-- Trees that are alike also at the one place where they may differ agree everywhere. -/
theorem closed (h : Agree (· = n :: place) t t')
    (hn : Alike n (t.get? (n :: place)) (t'.get? (n :: place))) : Agree E t t' := by
  refine ⟨h.dirs, fun m place' _ => ?_⟩
  by_cases hm : m :: place' = n :: place
  · rw [hm, (List.cons.inj hm).1]
    exact hn
  · exact h.alike m place' hm

/-! ### Looking -/

theorem resolve_alike (h : Agree E t t') (hE : ¬ E (aim cwd p)) {e : Entry}
    (hr : t.resolve cwd p = .ok (place, e)) :
    ∃ e', t'.resolve cwd p = .ok (place, e') ∧
      Alike ((aim cwd p).headD "") (some e) (some e') := by
  cases e with
  | dir =>
    obtain ⟨hw, hlead⟩ := resolve_eq_dir.1 hr
    exact ⟨.dir, resolve_eq_dir.2 ⟨hw, h.leadsTo_iff.1 hlead⟩, .same _⟩
  | file c =>
    have haim := eq_aim_of_resolve hr
    obtain ⟨hw, hwalk, hfile, hslash⟩ := resolve_eq_ok.1 hr
    -- The root is a directory, so a file has a name.
    cases place with
    | nil => cases hfile
    | cons n place =>
      have hname : Alike n (some (.file c)) (t'.get? (n :: place)) := by
        have hn := h.alike n place (haim ▸ hE)
        rwa [hfile] at hn
      obtain ⟨e', he'⟩ := Option.isSome_iff_exists.1 hname.isSome_eq.symm
      rw [he'] at hname
      refine ⟨e', resolve_eq_ok.2 ⟨hw, walk_mono h.dirsKept hwalk (by simp [he']), he', ?_⟩, ?_⟩
      · exact fun ht => absurd (hslash ht) (by simp)
      · rw [← haim]
        exact hname

theorem entry_alike (h : Agree E t t') (hE : ¬ E (aim cwd p)) :
    Alike ((aim cwd p).headD "") (t.entry cwd p) (t'.entry cwd p) := by
  cases hr : t.resolve cwd p with
  | ok found =>
    obtain ⟨e', hr', he⟩ := h.resolve_alike hE hr
    rw [Tree.entry, Tree.entry, hr, hr']
    exact he
  | error fault =>
    cases hr' : t'.resolve cwd p with
    | error fault' =>
      rw [Tree.entry, Tree.entry, hr, hr']
      exact .same _
    | ok found =>
      obtain ⟨e, he, -⟩ := h.symm.resolve_alike hE hr'
      rw [hr] at he
      cases he

theorem stat_eq (h : Agree E t t') (hE : ¬ E (aim cwd p)) : t.stat cwd p = t'.stat cwd p := by
  have hstat : ∀ u : Tree, u.stat cwd p = (u.entry cwd p).map Entry.kind := by
    intro u
    unfold Tree.entry stat
    cases u.resolve cwd p <;> rfl
  rw [hstat, hstat]
  exact (h.entry_alike hE).kind_eq

/-- What can be read in one tree can be read in the other. -/
theorem read_alike (h : Agree E t t') (hE : ¬ E (aim cwd p)) {text : String}
    (hr : t.read cwd p = .ok text) :
    ∃ text', t'.read cwd p = .ok text' ∧ Restamped ((aim cwd p).headD "") text text' := by
  obtain ⟨place, hr⟩ := read_eq_ok.1 hr
  obtain ⟨e', hr', he⟩ := h.resolve_alike hE hr
  cases he with
  | same => exact ⟨text, read_eq_ok.2 ⟨place, hr'⟩, .same text⟩
  | pages hpages => exact ⟨_, read_eq_ok.2 ⟨place, hr'⟩, hpages⟩

/-! ### Writing -/

/-- The same change keeps trees in agreement. -/
theorem update {x x' : Option Entry} (h : Agree E t u)
    (ht : t'.get? = Function.update t.get? (n :: place) x)
    (hu : u'.get? = Function.update u.get? (n :: place) x') (hx : Alike n x x') :
    Agree E t' u' := by
  have hdir : x = some .dir ↔ x' = some .dir := by cases hx <;> simp
  refine ⟨fun q => ?_, fun n' place' hE => ?_⟩
  · rw [ht, hu]
    by_cases hq : q = n :: place
    · rw [hq, Function.update_self, Function.update_self]
      exact hdir
    · rw [Function.update_of_ne hq, Function.update_of_ne hq]
      exact h.dirs q
  · rw [ht, hu]
    by_cases hq : n' :: place' = n :: place
    · rw [hq, Function.update_self, Function.update_self]
      exact (List.cons.inj hq).1 ▸ hx
    · rw [Function.update_of_ne hq, Function.update_of_ne hq]
      exact h.alike n' place' hE

theorem written {text text' : String} (h : Agree E t u) (ht : Written t t' cwd dir n text)
    (hu : Written u u' cwd dir n text') (hr : Restamped n text text') : Agree E t' u' := by
  refine ⟨fun q => ?_, fun n' place' hE => ?_⟩
  · by_cases hq : q = n :: aim cwd dir
    · rw [hq, ht.file, hu.file]
      simp
    · by_cases hway : OnWay cwd dir q
      · simp only [ht.leads.dir_of_onWay hway, hu.leads.dir_of_onWay hway]
      · rw [ht.other q hq hway, hu.other q hq hway]
        exact h.dirs q
  · by_cases hq : n' :: place' = n :: aim cwd dir
    · rw [hq, ht.file, hu.file]
      exact (List.cons.inj hq).1 ▸ .pages hr
    · by_cases hway : OnWay cwd dir (n' :: place')
      · rw [ht.leads.dir_of_onWay hway, hu.leads.dir_of_onWay hway]
        exact .same _
      · rw [ht.other _ hq hway, hu.other _ hq hway]
        exact h.alike n' place' hE

/-- Where only one tree is written to, the trees may differ afterwards. -/
theorem written_right {text : String} (h : Agree E t u) (hu : Written u u' cwd dir n text)
    (hlead : LeadsTo u cwd dir (aim cwd dir)) :
    Agree (fun q => E q ∨ q = n :: aim cwd dir) t u' := by
  have hview := hu.get?_eq hlead
  refine ⟨fun q => ?_, fun n' place' hE => ?_⟩
  · by_cases hq : q = n :: aim cwd dir
    · rw [hq, hu.file]
      simp [h.dirs, hu.free]
    · rw [hview, Function.update_of_ne hq]
      exact h.dirs q
  · rw [not_or] at hE
    rw [hview, Function.update_of_ne hE.2]
    exact h.alike n' place' hE.1

end Agree

/-! ## The bundle page -/

namespace BundleSummary

variable {b : BundleSummary} {report : Path} {d : Document} {th : Thread} {w w' v v' : Workspace}
  {E : Place → Prop}

/-- The page with the row of a report, if the page can be read and the row fits into it. -/
def extended? (b : BundleSummary) (report : Path) (d : Document) (w : Workspace) : Option String :=
  (b.current w).toOption.bind (insertRow? (b.rowOf w.home report d))

theorem Appending.tree_of_isEmpty {res : Except Error Appended} {t : Tree}
    (h : Appending b report d w res t) (hd : d.isEmpty = true) : t = w.tree := by
  cases h with
  | skipped => rfl
  | refused nonempty | unwritten nonempty | added nonempty => simp [hd] at nonempty

/-- A row that does not fit changes nothing, and a page with one more row is written as a whole. -/
theorem Appending.stages {res : Except Error Appended} {t : Tree}
    (h : Appending b report d w res t) (hd : d.isEmpty = false) :
    match b.extended? report d w with
    | none => t = w.tree
    | some page => ∃ saved, Replaced w.tree w.home b.page page saved t ∧
        saved.toOption.isSome = res.toOption.isSome := by
  have hextended : ∀ {text}, b.current w = .ok text →
      b.extended? report d w = insertRow? (b.rowOf w.home report d) text := by
    intro text htext
    rw [extended?, htext]
    rfl
  cases h with
  | skipped empty =>
    rw [hd] at empty
    cases empty
  | refused nonempty unfit =>
    have hnone : b.extended? report d w = none := by
      cases hcurrent : b.current w with
      | error e => rw [extended?, hcurrent]; rfl
      | ok text => rw [hextended hcurrent]; exact unfit text hcurrent
    rw [hnone]
  | unwritten nonempty read insert save =>
    rw [hextended read, insert]
    exact ⟨_, save, rfl⟩
  | added nonempty read insert save =>
    rw [hextended read, insert]
    exact ⟨_, save, rfl⟩

/-- If every write is granted, the row of a module with diagnostics is added wherever it fits. -/
theorem extended_of_granted {res : Except Error Appended} (hd : d.isEmpty = false)
    (h : Course th Request.granted (b.append report d) w (.done res) w') :
    ∃ m, ((w.tree.stat w.home b.page).isSome = false → '<' ∉ m.toList) ∧
      match b.extended? report d (w.setNow m) with
      | none => w'.tree = w.tree
      | some page => Written w.tree w'.tree w.home b.dir pageName page := by
  obtain ⟨m, happending, -, hstamp, hfits⟩ := b.append_of_granted report d h
  refine ⟨m, hstamp hd, ?_⟩
  have hstages := happending.stages hd
  cases hpage : b.extended? report d (w.setNow m) with
  | none => simpa only [hpage, Workspace.tree_setNow] using hstages
  | some page =>
    simp only [hpage] at hstages
    obtain ⟨saved, hsave, hok⟩ := hstages
    obtain ⟨text, hread, hinsert⟩ := Option.bind_eq_some_iff.1 hpage
    obtain ⟨u, rfl⟩ := hfits hd text page (eq_ok_of_toOption hread) hinsert
    cases saved with
    | error e => cases hok
    | ok _ => exact hsave.toWritten isName_pageName

theorem toOption_current (b : BundleSummary) (w : Workspace) :
    (b.current w).toOption =
      bif (w.tree.stat w.home b.page).isSome then (w.tree.read w.home b.page).toOption
      else some (template w.now) := by
  unfold current
  cases (w.tree.stat w.home b.page).isSome with
  | true => cases w.tree.read w.home b.page <;> rfl
  | false => rfl

/-- The page that a row is added to, in two workspaces where the page on disk differs in the moment
only. -/
theorem current_restamped {m m' : String} (hhome : v.home = w.home)
    (hstat : v.tree.stat w.home b.page = w.tree.stat w.home b.page)
    (hread : Option.Rel (Restamped pageName) (w.tree.read w.home b.page).toOption
      (v.tree.read w.home b.page).toOption)
    (hm : (w.tree.stat w.home b.page).isSome = false → '<' ∉ m.toList)
    (hm' : (v.tree.stat v.home b.page).isSome = false → '<' ∉ m'.toList) :
    Option.Rel (Restamped pageName) (b.current (w.setNow m)).toOption
      (b.current (v.setNow m')).toOption := by
  rw [toOption_current, toOption_current]
  rw [hhome, hstat] at hm'
  simp only [Workspace.tree_setNow, Workspace.home_setNow, Workspace.now_setNow, hhome, hstat]
  cases hs : (w.tree.stat w.home b.page).isSome with
  | true => exact hread
  | false =>
    rw [cond_false, cond_false, template, template, String.append_assoc, String.append_assoc]
    exact .some (.rows _ rfl (hm hs) (hm' hs))

theorem current_alike {m m' : String} (h : Agree E w.tree v.tree)
    (hE : ¬ E (pageName :: aim w.home b.dir)) (hhome : v.home = w.home)
    (hm : (w.tree.stat w.home b.page).isSome = false → '<' ∉ m.toList)
    (hm' : (v.tree.stat v.home b.page).isSome = false → '<' ∉ m'.toList) :
    Option.Rel (Restamped pageName) (b.current (w.setNow m)).toOption
      (b.current (v.setNow m')).toOption := by
  have haim : aim w.home b.page = pageName :: aim w.home b.dir := aim_div _ _ isName_pageName
  rw [← haim] at hE
  refine current_restamped hhome (h.stat_eq hE).symm ?_ hm hm'
  cases hread : w.tree.read w.home b.page with
  | ok text =>
    obtain ⟨text', hread', hr⟩ := h.read_alike hE hread
    rw [hread']
    rw [haim] at hr
    exact .some hr
  | error fault =>
    cases hread' : v.tree.read w.home b.page with
    | error fault' => exact .none
    | ok text =>
      obtain ⟨text', htext', -⟩ := h.symm.read_alike hE hread'
      rw [hread] at htext'
      cases htext'

theorem extended?_restamped (hhome : v.home = w.home)
    (h : Option.Rel (Restamped pageName) (b.current w).toOption (b.current v).toOption) :
    Option.Rel (Restamped pageName) (b.extended? report d w) (b.extended? report d v) := by
  unfold extended?
  rw [hhome]
  generalize (b.current w).toOption = text, (b.current v).toOption = text' at h
  cases h with
  | none => exact .none
  | some hr => exact hr.insertRow? _

/-- The same row in both runs leaves both pages as they are, or writes both. -/
theorem append_alike {res res' : Except Error Appended} (h : Agree E w.tree v.tree)
    (hE : ¬ E (pageName :: aim w.home b.dir)) (hhome : v.home = w.home)
    (hw : Course th Request.granted (b.append report d) w (.done res) w')
    (hv : Course th Request.granted (b.append report d) v (.done res') v') :
    (w'.tree = w.tree ∧ v'.tree = v.tree) ∨
      ∃ page page', Written w.tree w'.tree w.home b.dir pageName page ∧
        Written v.tree v'.tree w.home b.dir pageName page' ∧ Restamped pageName page page' := by
  cases hd : d.isEmpty with
  | true =>
    obtain ⟨m, happending, -⟩ := b.appending_of_course report d Request.credible_of_granted hw
    obtain ⟨m', happending', -⟩ := b.appending_of_course report d Request.credible_of_granted hv
    exact .inl ⟨happending.tree_of_isEmpty hd, happending'.tree_of_isEmpty hd⟩
  | false =>
    obtain ⟨m, hm, hw⟩ := extended_of_granted hd hw
    obtain ⟨m', hm', hv⟩ := extended_of_granted hd hv
    have hextended : Option.Rel (Restamped pageName) (b.extended? report d (w.setNow m))
        (b.extended? report d (v.setNow m')) :=
      extended?_restamped hhome (current_alike h hE hhome hm hm')
    rw [hhome] at hv
    generalize b.extended? report d (w.setNow m) = page,
      b.extended? report d (v.setNow m') = page' at hextended hw hv
    cases hextended with
    | none => exact .inl ⟨hw, hv⟩
    | some hr => exact .inr ⟨_, _, hw, hv, hr⟩

end BundleSummary

end LintDigest
