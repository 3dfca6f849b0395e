import LintDigest.Program
import LintDigest.Proofs.Report.Produced
import LintDigest.Proofs.Tree.Aim

/-!
# Merging in batches

Documents can be merged in one go, or batch by batch into files that are merged in their turn, to any
depth. `merge_of_batches` says that the text written in the end is the same. What is read back from
the file of a batch is what was written there, and merging is associative on documents that were
read.
-/

namespace LintDigest

open Script Storage LintDigest.Tree

/-! ## Trees that only gain entries -/

/-- Whatever stands in `t` stands in `t'` as well. -/
def Tree.Within (t t' : Tree) : Prop :=
  ∀ q e, t.get? q = some e → t'.get? q = some e

section

variable {t t' t'' : Tree} {cwd : Place} {p : Path} {text : String}

theorem Tree.Within.refl (t : Tree) : Within t t :=
  fun _ _ he => he

theorem Tree.Within.trans (h : Within t t') (h' : Within t' t'') : Within t t'' :=
  fun q e he => h' q e (h q e he)

theorem Tree.Within.dirsKept (h : Within t t') : DirsKept t t' :=
  fun q hq => h q _ hq

/-- What could be read can still be read. -/
theorem Tree.Within.loaded {d : Document} (h : Within t t') (hd : loaded t cwd p = .ok d) :
    loaded t' cwd p = .ok d := by
  obtain ⟨place, text, hresolve, htext⟩ := loaded_eq_ok.1 hd
  obtain ⟨hw, hwalk, hfile, hslash⟩ := resolve_eq_ok.1 hresolve
  have hfile' := h _ _ hfile
  have hresolve' : t'.resolve cwd p = .ok (place, .file (.text text)) :=
    resolve_eq_ok.2 ⟨hw, walk_mono h.dirsKept hwalk (by simp [hfile']), hfile', hslash⟩
  exact loaded_eq_ok.2 ⟨place, text, hresolve', htext⟩

/-- Nothing is lost by writing a file that was not there. -/
theorem Storage.Replaced.within {res : Except Error Unit} (h : Replaced t cwd p text res t')
    (hfresh : t.get? (aim cwd p) = none) : Within t t' := by
  have hgrown : Grown t (prepared t cwd p) := makeDirs_grown t cwd _
  intro q e he
  cases h with
  | written able spot free result =>
    have hne : q ≠ aim cwd p := by
      rintro rfl
      rw [hfresh] at he
      cases he
    rw [result, eq_aim_of_spot spot, Function.update_of_ne hne]
    exact hgrown.get? he
  | failed unable result =>
    rw [result]
    exact hgrown.get? he

end

namespace Program

variable {th : Thread} {w w' : Workspace} {colour : Bool} {mode : Option String}

/-! ## One merge -/

/-- The files hold the documents, in the same order. -/
def Hold (w : Workspace) (files : List String) (ds : List Document) : Prop :=
  List.Forall₂ (fun d file => loaded w.tree w.home ⟨file⟩ = .ok d) ds files

theorem Hold.canonical {files : List String} {ds : List Document} (h : Hold w files ds) :
    ∀ d ∈ ds, d.Canonical := by
  induction h with
  | nil => exact fun d hd => by cases hd
  | @cons d file ds files hd _ ih =>
    refine List.forall_mem_cons.2 ⟨?_, ih⟩
    obtain ⟨place, text, -, htext⟩ := loaded_eq_ok.1 hd
    exact Document.canonical_of_ofXml htext

theorem Hold.within {files : List String} {ds : List Document} (h : Hold w files ds)
    (hhome : w'.home = w.home) (htree : Within w.tree w'.tree) : Hold w' files ds := by
  refine List.Forall₂.imp (fun d file hd => ?_) h
  rw [hhome]
  exact htree.loaded hd

theorem Hold.run_loadAll {files : List String} {ds : List Document} (h : Hold w files ds) :
    (loadAll files).run th w = (ds, w) := by
  induction h with
  | nil => rfl
  | @cons d file ds files hd _ ih =>
    rw [loadAll, run_bind, run_loadDocument, hd]
    simp only [run_bind, ih]
    rfl

/-- What merging files does: it succeeds if the output can be written. -/
theorem Hold.run_merge {files : List String} {ds : List Document} (h : Hold w files ds)
    (th : Thread) (colour : Bool) (out : String) (mode : Option String) :
    ∃ saved, Replaced w.tree w.home ⟨out⟩ (Document.mergeAll ds).toXml saved
        ((merge colour out files mode).run th w).2.tree ∧
      (saved = .ok () → ((merge colour out files mode).run th w).1 = .success) := by
  obtain ⟨saved, t, hrun, hreplaced⟩ :=
    run_replaceFile th w ⟨out⟩ (Document.mergeAll ds).toXml
  refine ⟨saved, ?_⟩
  rw [merge, run_bind, h.run_loadAll]
  simp only [orFail, run_bind, saveDocument, hrun]
  cases saved with
  | error e => exact ⟨hreplaced, nofun⟩
  | ok _ => exact ⟨hreplaced, fun _ => rfl⟩

/-- The run of a merge succeeds and leaves a text in its output. -/
def Writes (th : Thread) (w : Workspace) (colour : Bool) (out : String) (files : List String)
    (mode : Option String) (text : String) : Prop :=
  ((merge colour out files mode).run th w).1 = .success ∧
    ((merge colour out files mode).run th w).2.tree.read w.home ⟨out⟩ = .ok text

theorem Hold.writes {files : List String} {ds : List Document} {out : String}
    (h : Hold w files ds) (hable : Writable w.tree w.home ⟨out⟩) (th : Thread) (colour : Bool)
    (mode : Option String) : Writes th w colour out files mode (Document.mergeAll ds).toXml := by
  obtain ⟨saved, hreplaced, hexit⟩ := h.run_merge th colour out mode
  cases saved with
  | error e =>
    cases hreplaced with
    | failed unable => exact absurd hable unable
  | ok _ => exact ⟨hexit rfl, hreplaced.read_eq⟩

/-! ## Batches -/

/-- In the workspace `w`, batches of `files` are merged into new files, one after another, which
leads to `w'`. Left to be merged are `names`: the files of the batches, in order, and the files that
are in no batch. A batch may itself be made of files and batches. -/
inductive Gathered (th : Thread) : Workspace → List String → List String → Workspace → Prop
  | none {w : Workspace} : Gathered th w [] [] w
  | asIs {w w' : Workspace} {file : String} {files names : List String}
      (rest : Gathered th w files names w') : Gathered th w (file :: files) (file :: names) w'
  | batch {w w₁ w' : Workspace} {part parts files names : List String} {colour : Bool}
      {out : String} {mode : Option String} (inner : Gathered th w part parts w₁)
      (fresh : w₁.tree.get? (aim w₁.home ⟨out⟩) = Option.none)
      (able : Writable w₁.tree w₁.home ⟨out⟩)
      (rest : Gathered th ((merge colour out parts mode).run th w₁).2 files names w') :
      Gathered th w (part ++ files) (out :: names) w'

theorem Hold.exists_of_loaded {files : List String}
    (h : ∀ file ∈ files, ∃ d, loaded w.tree w.home ⟨file⟩ = .ok d) : ∃ ds, Hold w files ds := by
  induction files with
  | nil => exact ⟨[], .nil⟩
  | cons file files ih =>
    obtain ⟨⟨d, hd⟩, hfiles⟩ := List.forall_mem_cons.1 h
    obtain ⟨ds, hds⟩ := ih hfiles
    exact ⟨d :: ds, .cons hd hds⟩

theorem Hold.mergeAll_append {files files' : List String} {xs ys : List Document}
    (hxs : Hold w files xs) (hys : Hold w' files' ys) :
    Document.mergeAll (xs ++ ys) = (Document.mergeAll xs).merge (Document.mergeAll ys) :=
  Document.mergeAll_append (fun d hd => (hxs.canonical d hd).1) fun d hd => (hys.canonical d hd).1

/-- A merge into a new file keeps all files, and the new one holds the merged document. -/
theorem Hold.merged {files : List String} {ds : List Document} {out : String}
    (h : Hold w files ds) (hfresh : w.tree.get? (aim w.home ⟨out⟩) = none)
    (hable : Writable w.tree w.home ⟨out⟩) (th : Thread) (colour : Bool) (mode : Option String)
    (hrun : ((merge colour out files mode).run th w).2 = w') :
    w'.home = w.home ∧ Within w.tree w'.tree ∧ Hold w' [out] [Document.mergeAll ds] := by
  obtain ⟨saved, hreplaced, -⟩ := h.run_merge th colour out mode
  obtain ⟨-, hread⟩ := h.writes hable th colour mode
  have hhome := home_run th (merge colour out files mode) w
  rw [hrun] at hreplaced hread hhome
  refine ⟨hhome, hreplaced.within hfresh, .cons ?_ .nil⟩
  rw [loaded, hhome, hread]
  exact (Document.canonical_mergeAll h.canonical).ofXml_eq _

/-- The files of batches hold the merged documents, so merging them is merging all. -/
theorem Gathered.hold {files names : List String} (h : Gathered th w files names w')
    {ds : List Document} (hds : Hold w files ds) :
    w'.home = w.home ∧ Within w.tree w'.tree ∧
      ∃ ds', Hold w' names ds' ∧ Document.mergeAll ds' = Document.mergeAll ds := by
  induction h generalizing ds with
  | none =>
    cases hds
    exact ⟨rfl, .refl _, [], .nil, rfl⟩
  | @asIs w w' file files names rest ih =>
    obtain _ | @⟨d, _, ds, _, hd, hrest⟩ := hds
    obtain ⟨hhome, hwithin, ds', hds', hmerged⟩ := ih hrest
    have hfile : Hold w [file] [d] := .cons hd .nil
    refine ⟨hhome, hwithin, d :: ds', .cons (hhome ▸ hwithin.loaded hd) hds', ?_⟩
    calc Document.mergeAll ([d] ++ ds')
        = (Document.mergeAll [d]).merge (Document.mergeAll ds') := hfile.mergeAll_append hds'
      _ = (Document.mergeAll [d]).merge (Document.mergeAll ds) := by rw [hmerged]
      _ = Document.mergeAll ([d] ++ ds) := (hfile.mergeAll_append hrest).symm
  | @batch w w₁ w' part parts files names colour out mode inner fresh able rest ih ih' =>
    have hpart : Hold w part (ds.take part.length) := List.forall₂_take_append _ _ _ hds
    have hfiles : Hold w files (ds.drop part.length) := List.forall₂_drop_append _ _ _ hds
    obtain ⟨hhome₁, hwithin₁, xs, hxs, hmerged⟩ := ih hpart
    obtain ⟨hhome₂, hwithin₂, hout⟩ := hxs.merged fresh able th colour mode rfl
    have hkept := hwithin₁.trans hwithin₂
    obtain ⟨hhome, hwithin, ys, hys, hrest⟩ := ih' (hfiles.within (hhome₂.trans hhome₁) hkept)
    obtain _ | ⟨hout', -⟩ := hout.within hhome hwithin
    refine ⟨hhome.trans (hhome₂.trans hhome₁), hkept.trans hwithin, _ :: ys, .cons hout' hys, ?_⟩
    calc Document.mergeAll ([Document.mergeAll xs] ++ ys)
        = (Document.mergeAll [Document.mergeAll xs]).merge (Document.mergeAll ys) :=
          hout.mergeAll_append hys
      _ = (Document.mergeAll (ds.take part.length)).merge
            (Document.mergeAll (ds.drop part.length)) := by rw [Document.mergeAll, hmerged, hrest]
      _ = Document.mergeAll (ds.take part.length ++ ds.drop part.length) :=
          (hpart.mergeAll_append hfiles).symm
      _ = Document.mergeAll ds := by rw [List.take_append_drop]

/-! ## Main theorem -/

/-- Files that can all be read are merged in batches, to any depth, and then what is left is merged.
This writes the text that merging all files at once writes. -/
theorem merge_of_batches {files names : List String} {out out' : String} {colour' : Bool}
    {mode' : Option String} (hload : ∀ file ∈ files, ∃ d, loaded w.tree w.home ⟨file⟩ = .ok d)
    (hgathered : Gathered th w files names w') (hable : Writable w.tree w.home ⟨out⟩)
    (hable' : Writable w'.tree w'.home ⟨out'⟩) :
    ∃ text, Writes th w colour out files mode text ∧
      Writes th w' colour' out' names mode' text := by
  obtain ⟨ds, hds⟩ := Hold.exists_of_loaded hload
  obtain ⟨-, -, ds', hds', hmerged⟩ := hgathered.hold hds
  refine ⟨(Document.mergeAll ds).toXml, hds.writes hable _ _ _, ?_⟩
  rw [← hmerged]
  exact hds'.writes hable' _ _ _

/-- A shelf with two documents: one names a file twice, the other a file without diagnostics. -/
def shelf : Workspace where
  tree := ⟨[
    (["a.xml"], .file (.text
      "<lintfold><file name='A'><diagnostic/></file><file name='A'/></lintfold>")),
    (["b.xml"], .file (.text "<lintfold><file name='B'/></lintfold>"))]⟩
  lock := ⟨"summary", none, 0⟩

/-- The shelf after `a.xml` has been merged into `x.xml`. -/
def shelfMerged : Workspace := ((merge true "x.xml" ["a.xml"] none).run "main" shelf).2

/-- The shelf after that file and `b.xml` have been merged into `new/y.xml`. -/
def shelfNested : Workspace :=
  ((merge true "new/y.xml" ["x.xml", "b.xml"] none).run "main" shelfMerged).2

theorem merge_of_batches_nested :
    ∃ text, Gathered "main" shelf ["a.xml", "b.xml"] ["new/y.xml"] shelfNested ∧
      Writes "main" shelf true "all.xml" ["a.xml", "b.xml"] none text ∧
      Writes "main" shelfNested false "all.xml" ["new/y.xml"] none text := by
  have hload : ∀ file ∈ ["a.xml", "b.xml"], ∃ d, loaded shelf.tree shelf.home ⟨file⟩ = .ok d := by
    have hsome : ∀ file ∈ ["a.xml", "b.xml"],
        (loaded shelf.tree shelf.home ⟨file⟩).toOption.isSome := by decide +kernel
    intro file hfile
    obtain ⟨d, hd⟩ := Option.isSome_iff_exists.1 (hsome file hfile)
    exact ⟨d, eq_ok_of_toOption hd⟩
  have hfresh : shelfMerged.tree.get? (aim shelfMerged.home ⟨"new/y.xml"⟩) = none ∧
      ((replaceFile ⟨"new/y.xml"⟩ "").run "main" shelfMerged).1.toOption = some () := by
    decide +kernel
  have hable : ((replaceFile ⟨"x.xml"⟩ "").run "main" shelf).1.toOption = some () ∧
      ((replaceFile ⟨"all.xml"⟩ "").run "main" shelf).1.toOption = some () ∧
      ((replaceFile ⟨"all.xml"⟩ "").run "main" shelfNested).1.toOption = some () := by
    decide +kernel
  obtain ⟨hx, hall, hall'⟩ := hable
  have hinner : Gathered "main" shelf (["a.xml"] ++ ["b.xml"]) ["x.xml", "b.xml"] shelfMerged := by
    rw [shelfMerged]
    exact .batch (.asIs .none) (by decide +kernel) (writable_of_run hx) (.asIs .none)
  have hgathered : Gathered "main" shelf (["a.xml", "b.xml"] ++ []) ["new/y.xml"] shelfNested := by
    rw [shelfNested]
    exact .batch hinner hfresh.1 (writable_of_run hfresh.2) .none
  have hwrites : ∃ text, Writes "main" shelf true "all.xml" ["a.xml", "b.xml"] none text ∧
      Writes "main" shelfNested false "all.xml" ["new/y.xml"] none text :=
    merge_of_batches hload hgathered (writable_of_run hall) (writable_of_run hall')
  obtain ⟨text, hwrites⟩ := hwrites
  exact ⟨text, hgathered, hwrites⟩

end Program

end LintDigest
