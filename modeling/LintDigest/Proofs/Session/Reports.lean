import LintDigest.Proofs.Session.Passage
import LintDigest.Proofs.Summary.Alike

/-!
# What modules read

A module reads its reports and looks for the files that they name. In two trees that differ in
moments only, and in a directory that nothing is read in, it finds the same: pages show moments, and
a page is no report.
-/

namespace LintDigest

open Script Storage LintDigest.Tree

/-! ## Pages are no reports -/

/-- What a page starts with. -/
def pageHead : List Char := ['<', '!', 'D']

theorem Xml.parse_of_pageHead {text : String} (h : pageHead <+: text.toList) :
    Xml.Element.parse text = .error .definition := by
  obtain ⟨rest, hrest⟩ := h
  have hmarkup : Xml.readMarkup ('!' :: 'D' :: rest) = .error .definition := by
    rw [Xml.readMarkup] <;> intro cs hcs <;> cases hcs
  have htokens : Xml.documentTokens text.toList = .error .definition := by
    have hmark : Text.after? [Char.ofNat 0xFEFF] ('<' :: '!' :: 'D' :: rest) = none := rfl
    have hhead : Text.after? "<?xml ".toList ('<' :: '!' :: 'D' :: rest) = none := rfl
    rw [← hrest, Xml.documentTokens]
    simp only [pageHead, List.cons_append, List.nil_append, hmark, Option.getD_none, hhead]
    rw [Xml.tokens]
    split
    · next hread =>
      rw [hmarkup] at hread
      cases hread
      rfl
    · next hread =>
      rw [hmarkup] at hread
      cases hread
  rw [Xml.Element.parse, htokens]
  rfl

theorem pageHead_opening (m : String) : pageHead <+: (BundleSummary.opening m).toList := by
  unfold BundleSummary.opening
  simp only [String.append_assoc]
  rw [String.toList_append]
  exact List.IsPrefix.trans (by decide) (List.prefix_append _ _)

theorem pageHead_render (p : Page) (m : String) (d : Document) :
    pageHead <+: (p.render m d).toList := by
  unfold Page.render
  simp only [String.append_assoc]
  rw [String.toList_append]
  exact List.IsPrefix.trans (by decide) (List.prefix_append _ _)

/-- Texts that show different moments are pages. -/
theorem Restamped.eq_or_pageHead {n text text' : String} (h : Restamped n text text') :
    text = text' ∨ pageHead <+: text.toList ∧ pageHead <+: text'.toList := by
  cases h with
  | same text => exact .inl rfl
  | @rows m m' rest name plain plain' =>
    have hopening : ∀ m, pageHead <+: (BundleSummary.opening m ++ rest).toList := by
      intro m
      rw [String.toList_append]
      exact (pageHead_opening m).trans (List.prefix_append _ _)
    exact .inr ⟨hopening m, hopening m'⟩
  | rendered p m m' d name => exact .inr ⟨pageHead_render p m d, pageHead_render p m' d⟩

/-! ## Looking at paths -/

/-- Nothing is looked at, read or listed below `place`. -/
def Request.outside (cwd place : Place) : (r : Request) → r.Answer → Prop
  | .stat p, _ | .read p, _ | .list p, _ => ¬ (place <:+ aim cwd p ∧ aim cwd p ≠ place)
  | _, _ => True

instance (cwd place : Place) (r : Request) (answer : r.Answer) :
    Decidable (r.outside cwd place answer) :=
  match r, answer with
  | .stat p, _ | .read p, _ | .list p, _ =>
    inferInstanceAs (Decidable (¬ (place <:+ aim cwd p ∧ aim cwd p ≠ place)))
  | .makeDirs _, _ | .scratch _, _ | .fill _ _, _ | .rename _ _, _ | .copy _ _, _ | .remove _, _
  | .cwd, _ | .now, _ | .log _, _ | .print _, _ | .complain _, _ | .acquire, _ | .release, _
  | .lockName, _ | .countUpdate, _ | .setPending _, _ | .takePending, _ => isTrue trivial

/-- Whether a request asks what stands at a path, or logs something. -/
def Request.isPeek : Request → Bool
  | .stat _ | .log _ => true
  | _ => false

namespace Script

variable {α β : Type}

/-- The script asks what stands at paths, logs, and does nothing else. -/
def Peeks : Script α → Prop
  | done _ => True
  | ask r next => r.isPeek = true ∧ ∀ answer, (next answer).Peeks

theorem Peeks.bind {s : Script α} (hs : s.Peeks) {f : α → Script β} (hf : ∀ a, (f a).Peeks) :
    (s >>= f).Peeks := by
  induction s with
  | done a => exact hf a
  | ask r next ih => exact ⟨hs.1, fun answer => ih answer (hs.2 answer)⟩

theorem peeks_mapM {f : α → Script β} (h : ∀ a, (f a).Peeks) (xs : List α) :
    (xs.mapM f).Peeks := by
  induction xs with
  | nil => trivial
  | cons x xs ih =>
    rw [List.mapM_cons]
    exact (h x).bind fun _ => ih.bind fun _ => trivial

variable {th : Thread} {E : Place → Prop} {place : Place} {w v : Workspace}

/-- Such a script cannot tell trees that agree where it looks from each other. -/
theorem Peeks.run_eq {s : Script α} (hs : s.Peeks) (h : Agree E w.tree v.tree)
    (hE : ∀ q, E q → place <:+ q ∧ q ≠ place) (hhome : v.home = w.home)
    (ha : s.Answered th (Request.outside w.home place) w) :
    (s.run th v).1 = (s.run th w).1 := by
  induction s generalizing w v with
  | done a => rfl
  | ask r next ih =>
    cases r with
    | stat p =>
      have hstat := h.stat_eq fun he => ha.1 (hE _ he)
      simp only [run, Workspace.answer, hhome, ← hstat]
      exact ih _ (hs.2 _) h hhome ha.2
    | log record => exact ih _ (hs.2 _) h hhome ha.2
    | _ => cases hs.1

end Script

/-! ## Reports -/

namespace Storage

theorem peeks_firstPresent (ps : List Path) : (firstPresent ps).Peeks := by
  induction ps with
  | nil => trivial
  | cons p ps ih =>
    have hpresent : (isPresent p).Peeks := ⟨rfl, fun _ => trivial⟩
    apply hpresent.bind
    intro present
    split
    · trivial
    · exact ih

theorem peeks_placeFinding (f : Finding) : (placeFinding f).Peeks := by
  apply (peeks_firstPresent f.candidates).bind
  intro found
  cases found <;> trivial

theorem peeks_transformReport (tool : Tool) (origin : Path) (text : String) :
    (transformReport tool origin text).Peeks := by
  unfold transformReport
  split
  · trivial
  · exact (peeks_mapM peeks_placeFinding _).bind fun _ => trivial

variable {tool : Tool} {p : Path} {th : Thread} {E : Place → Prop} {place : Place}
  {w v : Workspace}

theorem transformReport_of_pageHead (tool : Tool) (p : Path) {text : String}
    (h : pageHead <+: text.toList) :
    ∃ e, transformReport tool p text = .done (.error e) := by
  refine ⟨.xml .definition, ?_⟩
  unfold transformReport Report.findings
  rw [Xml.parse_of_pageHead h]
  rfl

/-- A report is read alike; errors may differ. -/
theorem loadReport_alike (h : Agree E w.tree v.tree) (hE : ∀ q, E q → place <:+ q ∧ q ≠ place)
    (hhome : v.home = w.home)
    (ha : (loadReport tool p).Answered th (Request.outside w.home place) w) :
    ((loadReport tool p).run th v).1.toOption = ((loadReport tool p).run th w).1.toOption := by
  unfold loadReport at ha ⊢
  rw [answered_bind, run_readText] at ha
  obtain ⟨⟨hread, -⟩, hrest⟩ := ha
  have hp : ¬ E (aim w.home p) := fun he => hread (hE _ he)
  rw [run_bind, run_bind, run_readText, run_readText, hhome]
  cases htext : w.tree.read w.home p with
  | error fault =>
    cases htext' : v.tree.read w.home p with
    | error fault' => rfl
    | ok text' =>
      obtain ⟨text, htext, -⟩ := h.symm.read_alike hp htext'
      simp_all
  | ok text =>
    obtain ⟨text', htext', hr⟩ := h.read_alike hp htext
    rw [htext] at hrest
    rw [htext']
    rcases hr.eq_or_pageHead with rfl | ⟨hhead, hhead'⟩
    · have hpeeks : (log .debug "lintfold::sources"
          ("Reading " ++ tool.name ++ " report " ++ p.text) >>= fun _ =>
            transformReport tool p text).Peeks := by
        have hlog : (log .debug "lintfold::sources"
          ("Reading " ++ tool.name ++ " report " ++ p.text)).Peeks := ⟨rfl, fun _ => trivial⟩
        exact hlog.bind fun _ => peeks_transformReport tool p text
      exact congrArg Except.toOption (hpeeks.run_eq h hE hhome hrest)
    · have herror : ∀ {x : Workspace} {text : String}, pageHead <+: text.toList →
          ((log .debug "lintfold::sources"
            ("Reading " ++ tool.name ++ " report " ++ p.text) >>= fun _ =>
              transformReport tool p text).run th x).1.toOption = none := by
        intro x text hhead
        obtain ⟨e, he⟩ := transformReport_of_pageHead tool p hhead
        rw [run_bind, he]
        rfl
      exact (herror hhead').trans (herror hhead).symm

end Storage

namespace Session

variable {th : Thread} {E : Place → Prop} {place : Place} {w v : Workspace}

theorem run_isFile (p : Path) (th : Thread) (w : Workspace) :
    (isFile p).run th w = (decide (w.tree.stat w.home p = some .file), w) := rfl

theorem run_collectOne (outDir : Path) (tool : Tool) (file : String) (th : Thread) (w : Workspace) :
    ((collectOne outDir tool file).run th w).1 =
      if w.tree.stat w.home (outDir / file) = some .file then
        ((loadReport tool (outDir / file)).run th w).1.toOption
      else none := by
  rw [collectOne, run_bind, run_isFile]
  by_cases hstat : w.tree.stat w.home (outDir / file) = some .file
  · simp only [hstat, decide_true, if_true, run_bind]
    cases ((loadReport tool (outDir / file)).run th w).1 <;> rfl
  · simp only [hstat, decide_false, if_false]
    rfl

theorem collectOne_eq {outDir : Path} {tool : Tool} {file : String} (h : Agree E w.tree v.tree)
    (hE : ∀ q, E q → place <:+ q ∧ q ≠ place) (hhome : v.home = w.home)
    (ha : (collectOne outDir tool file).Answered th (Request.outside w.home place) w) :
    ((collectOne outDir tool file).run th v).1 = ((collectOne outDir tool file).run th w).1 := by
  rw [collectOne, answered_bind] at ha
  obtain ⟨⟨hfile, -⟩, hrest⟩ := ha
  have hstat : w.tree.stat w.home (outDir / file) = v.tree.stat w.home (outDir / file) :=
    h.stat_eq fun he => hfile (hE _ he)
  rw [run_collectOne, run_collectOne, hhome, ← hstat]
  split
  · next hpresent =>
    simp only [run_isFile, hpresent, decide_true, if_true] at hrest
    exact loadReport_alike h hE hhome (answered_bind.1 hrest).1
  · rfl

theorem run_collectFrom_cons (outDir : Path) (tool : Tool) (file : String)
    (inputs : List (Tool × String)) (th : Thread) (w : Workspace) :
    ((collectFrom outDir ((tool, file) :: inputs)).run th w).1 =
      (((collectOne outDir tool file).run th w).1.map (tool, ·)).toList ++
        ((collectFrom outDir inputs).run th ((collectOne outDir tool file).run th w).2).1 := by
  rw [collectFrom, run_bind]
  generalize (collectOne outDir tool file).run th w = found
  obtain ⟨found, w₁⟩ := found
  cases found with
  | none => rfl
  | some d => exact congrArg Prod.fst (run_bind th _ _ w₁)

theorem answered_collectFrom_cons {outDir : Path} {tool : Tool} {file : String}
    {inputs : List (Tool × String)} {A : (r : Request) → r.Answer → Prop}
    (h : (collectFrom outDir ((tool, file) :: inputs)).Answered th A w) :
    (collectOne outDir tool file).Answered th A w ∧
      (collectFrom outDir inputs).Answered th A ((collectOne outDir tool file).run th w).2 := by
  rw [collectFrom, answered_bind] at h
  refine ⟨h.1, ?_⟩
  have hrest := h.2
  generalize (collectOne outDir tool file).run th w = found at hrest ⊢
  obtain ⟨found, w₁⟩ := found
  cases found with
  | none => exact hrest
  | some d => exact (answered_bind.1 hrest).1

theorem collectFrom_eq {outDir : Path} {inputs : List (Tool × String)}
    (h : Agree E w.tree v.tree) (hE : ∀ q, E q → place <:+ q ∧ q ≠ place) (hhome : v.home = w.home)
    (ha : (collectFrom outDir inputs).Answered th (Request.outside w.home place) w) :
    ((collectFrom outDir inputs).run th v).1 = ((collectFrom outDir inputs).run th w).1 := by
  induction inputs generalizing w v with
  | nil => rfl
  | cons input inputs ih =>
    obtain ⟨tool, file⟩ := input
    obtain ⟨hone, hrest⟩ := answered_collectFrom_cons ha
    rw [run_collectFrom_cons, run_collectFrom_cons, collectOne_eq h hE hhome hone]
    -- The next report is looked for in the same trees.
    obtain ⟨htree, hhome₁, -⟩ := (passive_collectOne outDir tool file).untouched th w
    obtain ⟨htree', hhome', -⟩ := (passive_collectOne outDir tool file).untouched th v
    generalize ((collectOne outDir tool file).run th w).2 = w₁ at htree hhome₁ hrest ⊢
    generalize ((collectOne outDir tool file).run th v).2 = v₁ at htree' hhome' ⊢
    rw [← htree, ← htree'] at h
    rw [← hhome₁] at hrest
    rw [ih h (by rw [hhome', hhome₁, hhome]) hrest]

/-- A module finds the same in trees that agree where it looks. -/
theorem collect_eq {s : Session} {module : Path} (h : Agree E w.tree v.tree)
    (hE : ∀ q, E q → place <:+ q ∧ q ≠ place) (hhome : v.home = w.home)
    (ha : (s.collect module).Answered th (Request.outside w.home place) w) :
    ((s.collect module).run th v).1 = ((s.collect module).run th w).1 := by
  rw [collect, answered_bind] at ha
  rw [collect, run_bind, run_bind, collectFrom_eq h hE hhome ha.1]
  rfl

end Session

end LintDigest
