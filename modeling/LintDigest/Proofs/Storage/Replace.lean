import LintDigest.Proofs.Script.Run
import LintDigest.Proofs.Tree.Operations

/-!
# Files written as a whole

`run_replaceFile`: writing a file either puts the whole text at its place and changes nothing else
but the directories that were missing, or changes nothing but those.
-/

namespace LintDigest.Storage

open Script LintDigest.Tree

/-- The tree with the directories that writing to `p` creates, as far as they can be. -/
def prepared (t : Tree) (cwd : Place) (p : Path) : Tree := (t.makeDirs cwd (directoryOf p)).2

/-- A file can be written: its directory exists or can be created, a scratch file fits into it, and
the path names a spot that no directory holds. -/
def Writable (t : Tree) (cwd : Place) (p : Path) : Prop :=
  (t.makeDirs cwd (directoryOf p)).1 = .ok () ∧
    (∃ s, (prepared t cwd p).scratch cwd (directoryOf p) = .ok s) ∧
      ∃ place n, (prepared t cwd p).spot cwd p = .ok (.child place n false) ∧
        (prepared t cwd p).get? (n :: place) ≠ some .dir

/-- How writing `text` to the path `p` may end, and the tree it may leave behind. -/
inductive Replaced (t : Tree) (cwd : Place) (p : Path) (text : String) :
    Except Error Unit → Tree → Prop
  | written {t' : Tree} {place : Place} {n : String}
      (able : Writable t cwd p)
      (spot : (prepared t cwd p).spot cwd p = .ok (.child place n false))
      (free : (prepared t cwd p).get? (n :: place) ≠ some .dir)
      (result : t'.get? = Function.update (prepared t cwd p).get? (n :: place)
        (some (.file (.text text)))) :
      Replaced t cwd p text (.ok ()) t'
  | failed {e : Error} {t' : Tree}
      (unable : ¬ Writable t cwd p)
      (result : t'.get? = (prepared t cwd p).get?) :
      Replaced t cwd p text (.error e) t'

/-- A scratch file that was filled is renamed if the path names a free spot, and can be removed
otherwise. -/
theorem rename_scratch {t : Tree} {cwd place : Place} {dir p : Path} {name text : String}
    (hlead : LeadsTo t cwd dir place) (hname : IsName name) (hw : Walkable (dir / name))
    (hfree : t.get? (name :: place) = none) {filled : Tree}
    (hfilled : filled.get? =
      Function.update t.get? (name :: place) (some (.file (.text text)))) :
    (∀ {e}, filled.rename cwd (dir / name) p = .error e →
      (¬ ∃ place' n, t.spot cwd p = .ok (.child place' n false) ∧
        t.get? (n :: place') ≠ some .dir) ∧
      ∃ t', filled.remove cwd (dir / name) = .ok t' ∧ t'.get? = t.get?) ∧
    (∀ {t'}, filled.rename cwd (dir / name) p = .ok t' →
      ∃ place' n, t.spot cwd p = .ok (.child place' n false) ∧ t.get? (n :: place') ≠ some .dir ∧
        t'.get? = Function.update t.get? (n :: place') (some (.file (.text text)))) := by
  have hself : filled.get? (name :: place) = some (.file (.text text)) := by
    rw [hfilled, Function.update_self]
  have hother : ∀ q, q ≠ name :: place → filled.get? q = t.get? q := by
    intro q hq
    rw [hfilled, Function.update_of_ne hq]
  have hkept : DirsKept t filled := by
    intro q hq
    rw [hother q (by rintro rfl; rw [hfree] at hq; cases hq)]
    exact hq
  have hback : DirsKept filled t := by
    intro q hq
    rwa [hother q (by rintro rfl; rw [hself] at hq; cases hq)] at hq
  have hlead' := hlead.mono hkept
  have hspot : filled.spot cwd (dir / name) = .ok (.child place name false) :=
    (spot_div hname).2 ⟨hw, place, hlead', rfl⟩
  -- Without the scratch file the tree is what it was.
  have hgone : Function.update filled.get? (name :: place) none = t.get? := by
    rw [hfilled, Function.update_idem, ← hfree, Function.update_eq_self]
  constructor
  · intro e h
    constructor
    · rintro ⟨place', n, hp, hdir⟩
      have hok := (rename_file hspot hself).2
        ⟨place', n, spot_mono hkept hp, fun h => hdir (hback _ h), rfl⟩
      rw [h] at hok
      cases hok
    · refine ⟨_, (remove_div hname).2 ⟨hw, place, _, hlead', hself, rfl⟩, ?_⟩
      rw [get?_erase, hgone]
  · intro t' h
    obtain ⟨place', n, hp, hdir, rfl⟩ := (rename_file hspot hself).1 h
    refine ⟨place', n, spot_mono hback hp, fun h => hdir (hkept _ h), ?_⟩
    by_cases hsame : name :: place = n :: place'
    · rw [if_pos hsame, hfilled, hsame]
    · rw [if_neg hsame, get?_put, get?_erase, hgone]

theorem run_replaceFile (th : Thread) (w : Workspace) (p : Path) (text : String) :
    ∃ res t', (replaceFile p text).run th w = (res, { w with tree := t' }) ∧
      Replaced w.tree w.home p text res t' := by
  unfold replaceFile
  simp only [request, ask_bind, done_bind, run, Workspace.answer]
  cases hmade : w.tree.makeDirs w.home (directoryOf p) with
  | mk made t₁ =>
  have hprepared : prepared w.tree w.home p = t₁ := by rw [prepared, hmade]
  cases made with
  | error fault =>
    refine ⟨_, t₁, rfl, .failed (fun h => ?_) (by rw [hprepared])⟩
    have hok := h.1
    rw [hmade] at hok
    cases hok
  | ok u =>
    simp only [run, Workspace.answer]
    cases hscratch : t₁.scratch w.home (directoryOf p) with
    | error fault =>
      refine ⟨_, t₁, rfl, .failed (fun h => ?_) (by rw [hprepared])⟩
      obtain ⟨s, hs⟩ := h.2.1
      rw [hprepared, hscratch] at hs
      cases hs
    | ok found =>
      obtain ⟨place, name, hlead, hname, hw, hpath, hfree, htree⟩ := scratch_eq_ok hscratch
      obtain ⟨scratch, t₂⟩ := found
      simp only at hpath htree
      subst hpath htree
      -- The scratch file is there to be filled.
      have hview : (t₁.put (name :: place) (.file (.text ""))).get? =
          Function.update t₁.get? (name :: place) (some (.file (.text ""))) := get?_put ..
      have hkept : DirsKept t₁ (t₁.put (name :: place) (.file (.text ""))) := by
        intro q hq
        rw [hview, Function.update_of_ne (by rintro rfl; rw [hfree] at hq; cases hq)]
        exact hq
      have hfill := (write_div (t := t₁.put (name :: place) (.file (.text ""))) hname
        (c := .text text)).2 ⟨hw, place, hlead.mono hkept, by simp [hview], rfl⟩
      obtain ⟨hfail, hdone⟩ := rename_scratch (p := p) hlead hname hw hfree
        (by rw [get?_put, hview, Function.update_idem])
      simp only [run, Workspace.answer, Workspace.change, hfill]
      cases hrename : Tree.rename _ w.home (directoryOf p / name) p with
      | error e =>
        obtain ⟨hnone, t', hremove, ht'⟩ := hfail hrename
        simp only [run, Workspace.answer, Workspace.change, hremove]
        refine ⟨_, t', rfl, .failed (fun h => hnone ?_) (by rw [hprepared, ht'])⟩
        rw [← hprepared]
        exact h.2.2
      | ok t' =>
        obtain ⟨place', n, hspot, hdir, ht'⟩ := hdone hrename
        rw [← hprepared] at hspot hdir ht' hscratch
        exact ⟨_, t', rfl, .written ⟨by rw [hmade], ⟨_, hscratch⟩, place', n, hspot, hdir⟩ hspot hdir
          ht'⟩

/-! ## Files in a directory -/

section

variable {t t' : Tree} {cwd place : Place} {p dir : Path} {n text : String}
  {res : Except Error Unit}

/-- Nothing is written where a directory is. -/
theorem Replaced.dirsKept (h : Replaced t cwd p text res t') : DirsKept t t' := by
  have hgrown : Grown t (prepared t cwd p) := makeDirs_grown t cwd (directoryOf p)
  cases h with
  | written able spot free result => exact hgrown.dirsKept.trans (dirsKept_of_update result free)
  | failed unable result => exact hgrown.dirsKept.trans (dirsKept_of_get? result)

theorem Replaced.spares {m : String} (hn : IsName n) (hne : m ≠ n)
    (h : Replaced t cwd (dir / n) text res t') : Spares m t t' := by
  have hgrown : Grown t (prepared t cwd (dir / n)) := makeDirs_grown t cwd _
  cases h with
  | written able spot free result =>
    obtain ⟨-, place, -, hspot⟩ := (spot_div hn).1 spot
    cases hspot
    exact hgrown.spares.trans (spares_of_update hne result free)
  | failed unable result => exact hgrown.spares.trans (spares_of_get? result)

theorem Replaced.keeps {m : String} (hn : IsName n) (hne : m ≠ n)
    (h : Replaced t cwd (dir / n) text res t') : Keeps m t t' :=
  (h.spares hn hne).keeps

theorem prepared_of_leadsTo (hn : IsName n) (hlead : LeadsTo t cwd dir place) :
    prepared t cwd (dir / n) = t :=
  makeDirs_of_leadsTo ((leadsTo_directoryOf dir hn).2 hlead)

/-- A file that was written is where its directory leads to now. -/
theorem Replaced.written_div (hn : IsName n) (h : Replaced t cwd (dir / n) text (.ok ()) t') :
    Walkable (dir / n) ∧ ∃ place, LeadsTo t' cwd dir place ∧
      t'.get? (n :: place) = some (.file (.text text)) := by
  cases h with
  | written able spot free result =>
    obtain ⟨hw, place, hlead, hspot⟩ := (spot_div hn).1 spot
    cases hspot
    -- The directory may be new, so the walk starts from the prepared tree.
    refine ⟨hw, _, hlead.mono (dirsKept_of_update result free), ?_⟩
    rw [result, Function.update_self]

/-- In a directory that exists, writing changes the file and nothing else. -/
theorem Replaced.written_of_leadsTo (hn : IsName n) (hlead : LeadsTo t cwd dir place)
    (h : Replaced t cwd (dir / n) text (.ok ()) t') :
    Walkable (dir / n) ∧ t.get? (n :: place) ≠ some .dir ∧
      t'.get? = Function.update t.get? (n :: place) (some (.file (.text text))) := by
  cases h with
  | written able spot free result =>
    rw [prepared_of_leadsTo hn hlead] at spot free result
    obtain ⟨hw, place', hlead', hspot⟩ := (spot_div hn).1 spot
    cases hspot
    obtain rfl := hlead.unique hlead'
    exact ⟨hw, free, result⟩

theorem Replaced.failed_of_leadsTo {e : Error} (hn : IsName n) (hlead : LeadsTo t cwd dir place)
    (h : Replaced t cwd (dir / n) text (.error e) t') : t'.get? = t.get? := by
  cases h with
  | failed unable result => rwa [prepared_of_leadsTo hn hlead] at result

/-- What was written can be read back. -/
theorem Replaced.read_eq (h : Replaced t cwd p text (.ok ()) t') : t'.read cwd p = .ok text := by
  cases h with
  | written able spot free result =>
    have hspot := spot_mono (dirsKept_of_update result free) spot
    exact read_eq_ok.2 ⟨_, resolve_of_spot hspot (by rw [result, Function.update_self])⟩

theorem Replaced.isOk_iff {res : Except Error Unit} (h : Replaced t cwd p text res t') :
    res = .ok () ↔ Writable t cwd p := by
  cases h with
  | written able => exact iff_of_true rfl able
  | failed unable => exact iff_of_false nofun unable

theorem writable_of_run {th : Thread} {w : Workspace}
    (h : ((replaceFile p text).run th w).1.toOption = some ()) : Writable w.tree w.home p := by
  obtain ⟨res, t', hrun, hreplaced⟩ := run_replaceFile th w p text
  rw [hrun] at h
  exact hreplaced.isOk_iff.1 (eq_ok_of_toOption h)

end

/-! ## Reading -/

theorem still_readText (p : Path) : (readText p).Still := by
  refine ⟨rfl, fun found => ?_⟩
  cases found <;> trivial

theorem run_readText (th : Thread) (w : Workspace) (p : Path) :
    (readText p).run th w = ((w.tree.read w.home p).mapError (Error.file p), w) := by
  unfold readText
  simp only [request, ask_bind, done_bind, run, Workspace.answer]
  cases w.tree.read w.home p <;> rfl

/-- What reading the document at a path gives. -/
def loaded (t : Tree) (cwd : Place) (p : Path) : Except Error Document :=
  match t.read cwd p with
  | .error fault => .error (.file p fault)
  | .ok text => Document.ofXml p text

theorem loaded_eq_ok {t : Tree} {cwd : Place} {p : Path} {d : Document} :
    loaded t cwd p = .ok d ↔ ∃ place text,
      t.resolve cwd p = .ok (place, .file (.text text)) ∧ Document.ofXml p text = .ok d := by
  unfold loaded
  constructor
  · intro h
    split at h
    · cases h
    · next text hread =>
      obtain ⟨place, hresolve⟩ := read_eq_ok.1 hread
      exact ⟨place, text, hresolve, h⟩
  · rintro ⟨place, text, hresolve, htext⟩
    rw [read_eq_ok.2 ⟨place, hresolve⟩]
    exact htext

/-- What reading a document gives, by what its file holds. -/
def decoded (p : Path) : Content → Except Error Document
  | .text text => Document.ofXml p text
  | .binary _ => .error (.file p .notUtf8)

/-- Paths only label errors. -/
theorem decoded_eq_ok {p q : Path} {c : Content} {d : Document} (h : decoded p c = .ok d) :
    decoded q c = .ok d := by
  cases c with
  | binary bytes => cases h
  | text text =>
    simp only [decoded, Document.ofXml] at h ⊢
    split at h
    · cases h
    · next root _ =>
      cases hroot : Document.ofElement root with
      | error e =>
        rw [hroot] at h
        cases h
      | ok d' =>
        rw [hroot] at h
        exact h

theorem loaded_of_resolve {t : Tree} {cwd place : Place} {p : Path} {c : Content}
    (h : t.resolve cwd p = .ok (place, .file c)) : loaded t cwd p = decoded p c := by
  cases c with
  | text text => rw [loaded, read_eq_ok.2 ⟨place, h⟩, decoded]
  | binary bytes =>
    have hread : t.read cwd p = .error .notUtf8 := by
      unfold Tree.read
      rw [h]
      rfl
    rw [loaded, hread, decoded]

theorem run_loadDocument (th : Thread) (w : Workspace) (p : Path) :
    (loadDocument p).run th w = (loaded w.tree w.home p, w) := by
  unfold loadDocument readText loaded
  simp only [request, ask_bind, done_bind, run, Workspace.answer, run_bind]
  cases w.tree.read w.home p <;> rfl

end LintDigest.Storage
