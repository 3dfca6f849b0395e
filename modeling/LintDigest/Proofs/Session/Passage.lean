import LintDigest.Proofs.Session.Persisted
import LintDigest.Proofs.Summary.Granted
import LintDigest.Proofs.Summary.Rows

/-!
# How a module passes through a session

`Passage` lists what becomes of a module when every write is granted: either it has no reports, or
its document and its page are written and both summaries take it in. `passage_of_course` says that
there is no other way.
-/

namespace LintDigest

open Script Storage LintDigest.Tree

/-! ## Looking at reports -/

namespace Script

theorem passive_mapM {α β : Type} {f : α → Script β} (h : ∀ a, (f a).Passive) (xs : List α) :
    (xs.mapM f).Passive := by
  induction xs with
  | nil => trivial
  | cons x xs ih =>
    rw [List.mapM_cons]
    exact (h x).bind fun _ => ih.bind fun _ => trivial

theorem passive_log (level : Log.Level) (target message : String) :
    (log level target message).Passive :=
  passive_request rfl

end Script

namespace Storage

theorem passive_firstPresent (ps : List Path) : (firstPresent ps).Passive := by
  induction ps with
  | nil => trivial
  | cons p ps ih =>
    apply (passive_isPresent p).bind
    intro present
    split
    · trivial
    · exact ih

theorem passive_placeFinding (f : Finding) : (placeFinding f).Passive := by
  apply (passive_firstPresent f.candidates).bind
  intro found
  cases found <;> trivial

theorem passive_transformReport (tool : Tool) (origin : Path) (text : String) :
    (transformReport tool origin text).Passive := by
  unfold transformReport
  split
  · trivial
  · exact (passive_mapM passive_placeFinding _).bind fun _ => trivial

theorem passive_loadReport (tool : Tool) (p : Path) : (loadReport tool p).Passive := by
  apply (passive_readText p).bind
  intro found
  cases found with
  | error e => trivial
  | ok text => exact (passive_log _ _ _).bind fun _ => passive_transformReport tool p text

end Storage

namespace Session

theorem passive_collectOne (outDir : Path) (tool : Tool) (file : String) :
    (collectOne outDir tool file).Passive := by
  have hfile : (isFile (outDir / file)).Passive := ⟨rfl, fun _ => trivial⟩
  apply hfile.bind
  intro present
  split
  · apply (passive_loadReport tool _).bind
    intro read
    cases read with
    | ok d => trivial
    | error e => exact (passive_log _ _ _).bind fun _ => trivial
  · exact (passive_log _ _ _).bind fun _ => trivial

theorem passive_collectFrom (outDir : Path) (inputs : List (Tool × String)) :
    (collectFrom outDir inputs).Passive := by
  induction inputs with
  | nil => trivial
  | cons input inputs ih =>
    apply (passive_collectOne outDir input.1 input.2).bind
    intro found
    cases found with
    | none => exact ih
    | some d => exact ih.bind fun _ => trivial

theorem passive_collect (s : Session) (module : Path) : (s.collect module).Passive :=
  (passive_collectFrom _ _).bind fun _ => trivial

theorem passive_noteRow (row : Option (Except Error Appended)) : (noteRow row).Passive := by
  unfold noteRow
  split
  · exact passive_log _ _ _
  · trivial
  · exact passive_log _ _ _
  · exact passive_log _ _ _

theorem passive_noteUpdate (update : Except Error RuleUpdate) : (noteUpdate update).Passive := by
  unfold noteUpdate
  split
  · trivial
  · exact passive_log _ _ _
  · exact passive_log _ _ _

theorem passive_report (entries : List (String × Diagnostic)) : (report entries).Passive := by
  induction entries with
  | nil => trivial
  | cons e entries ih => exact (passive_log _ _ _).bind fun _ => ih

/-! ## One module -/

/-- The title of a module's page, as seen from the directory `cwd`. -/
def titleOf (cwd : Place) (module : Path) : String :=
  ((module.seenFrom cwd).fileName?).getD "module"

/-- The path of a module's page. -/
def pageOf (s : Session) (module : Path) : Path := s.outDir module / modulePage

/-- The outcome of a module without reports. -/
def silentOutcome (module : Path) (d : Document) : Outcome where
  module := module.text
  tools := []
  counts := {}
  report := none
  document := d
  gate := none

/-- The outcome of a module whose page was written. -/
def toldOutcome (s : Session) (module : Path) (d : Document) (tools : List String) : Outcome where
  module := module.text
  tools := tools
  counts := d.counts
  report := some (s.pageOf module).text
  document := d
  gate := s.thresholds.judge d

/-- The outcome of a module with reports, by whether its document and page could be written. -/
def reportedOutcome (s : Session) (module : Path) (d : Document) (tools : List String)
    (written : Except Error Unit) : Outcome where
  module := module.text
  tools := tools
  counts := d.counts
  report := written.toOption.map fun _ => (s.pageOf module).text
  document := d
  gate := s.thresholds.judge d

/-- The bundle summary takes in a module; without a report there is nothing to take in. -/
def Listed (s : Session) (th : Thread) (A : (r : Request) → r.Answer → Prop)
    (report : Option Path) (d : Document) (w w' : Workspace) : Prop :=
  match report with
  | some p => ∃ row, Course th A (s.bundle.append p d) w (.done row) w'
  | none => Untouched w w'

/-- Both summaries take in a module. -/
def Taken (s : Session) (th : Thread) (A : (r : Request) → r.Answer → Prop)
    (report : Option Path) (d : Document) (page : String) (w w' : Workspace) : Prop :=
  ∃ w₁ w₂ w₃ update w₄, Untouched w w₁ ∧ s.Listed th A report d w₁ w₂ ∧ Untouched w₂ w₃ ∧
    Course th A (s.rule.update d page) w₃ (.done update) w₄ ∧ Untouched w₄ w'

/-- What becomes of a module. The summaries take it in even if its document or its page could not be
written; only the row of the bundle page is left out then. -/
inductive Turn (s : Session) (module : Path) (th : Thread) (A : (r : Request) → r.Answer → Prop)
    (w : Workspace) : Outcome → Workspace → Prop
  | silent {d : Document} {w' : Workspace}
      (found : ((s.collect module).run th w).1 = (d, [])) (rest : Untouched w w') :
      Turn s module th A w (silentOutcome module d) w'
  | told {d : Document} {tools : List String} {m : String} {written : Except Error Unit}
      {w₁ w₂ w₃ w' : Workspace}
      (found : ((s.collect module).run th w).1 = (d, tools)) (any : tools ≠ [])
      (start : Untouched w w₁)
      (write : Course th A (s.writeModule module d
        (({ title := titleOf w.home module } : Page).render m d)) w₁ (.done written) w₂)
      (taken : s.Taken th A (written.toOption.map fun _ => s.pageOf module) d
        (({ title := titleOf w.home module } : Page).render m d) w₂ w₃)
      (rest : Untouched w₃ w') :
      Turn s module th A w (s.reportedOutcome module d tools written) w'

/-- What becomes of a module if every write is granted. -/
inductive Passage (s : Session) (module : Path) (th : Thread) (w : Workspace) :
    Outcome → Workspace → Prop
  | silent {d : Document} {w' : Workspace}
      (found : ((s.collect module).run th w).1 = (d, [])) (rest : Untouched w w') :
      Passage s module th w (silentOutcome module d) w'
  | told {d : Document} {tools : List String} {m : String} {t₁ : Tree} {w₂ w₃ w' : Workspace}
      (found : ((s.collect module).run th w).1 = (d, tools)) (any : tools ≠ [])
      (document : Written w.tree t₁ w.home (s.outDir module) moduleDocument d.toXml)
      (page : Written t₁ w₂.tree w.home (s.outDir module) modulePage
        (({ title := titleOf w.home module } : Page).render m d))
      (home : w₂.home = w.home) (progress : w₂.progress = w.progress)
      (taken : s.Taken th Request.granted (some (s.pageOf module)) d
        (({ title := titleOf w.home module } : Page).render m d) w₂ w₃)
      (rest : Untouched w₃ w') :
      Passage s module th w (s.toldOutcome module d tools) w'

section

variable {s : Session} {module : Path} {th : Thread} {A : (r : Request) → r.Answer → Prop}
  {w w' : Workspace}

theorem taken_of_course {report : Option Path} {d : Document} {page : String} {u : Unit}
    (h : Course th A (s.updateSummaries report d page) w (.done u) w') :
    s.Taken th A report d page w w' := by
  unfold updateSummaries at h
  obtain ⟨w₁, w₂, henter, h, hleave⟩ := h.of_locked
  have hupdate : ∀ {w₃}, Course th A (s.rule.update d page >>= noteUpdate) w₃ (.done u) w₂ →
      ∃ update w₄, Course th A (s.rule.update d page) w₃ (.done update) w₄ ∧ Untouched w₄ w' := by
    intro w₃ h
    obtain ⟨update, w₄, hupdate, h⟩ := h.of_bind
    obtain ⟨-, hend⟩ := (passive_noteUpdate _).course (Untouched.refl w₄) h
    exact ⟨update, w₄, hupdate, hend.trans hleave⟩
  cases report with
  | some p =>
    obtain ⟨row, w₃, happend, h⟩ := h.of_bind
    obtain ⟨_, w₄, hnote, h⟩ := h.of_bind
    obtain ⟨-, hrow⟩ := (passive_noteRow _).course (Untouched.refl w₃) hnote
    obtain ⟨update, w₅, hupdate, hend⟩ := hupdate h
    exact ⟨w₁, w₃, w₄, update, w₅, henter, ⟨row, happend⟩, hrow, hupdate, hend⟩
  | none =>
    obtain ⟨_, w₃, hnote, h⟩ := h.of_bind
    obtain ⟨-, hrow⟩ := (passive_noteRow _).course (Untouched.refl w₁) hnote
    obtain ⟨update, w₄, hupdate, hend⟩ := hupdate h
    exact ⟨w₁, w₁, w₃, update, w₄, henter, Untouched.refl w₁, hrow, hupdate, hend⟩

theorem written_of_writeModule {d : Document} {page : String} {res : Except Error Unit}
    (h : Course th Request.granted (s.writeModule module d page) w (.done res) w') :
    res = .ok () ∧ (∃ t₁, Written w.tree t₁ w.home (s.outDir module) moduleDocument d.toXml ∧
      Written t₁ w'.tree w.home (s.outDir module) modulePage page) ∧ w'.progress = w.progress := by
  unfold writeModule at h
  obtain ⟨saved, w₁, hsaved, h⟩ := h.of_bind
  obtain ⟨rfl, hdocument, hprogress₁⟩ := written_of_course isName_moduleDocument hsaved
  obtain ⟨rfl, hpage, hprogress₂⟩ := written_of_course isName_modulePage h
  rw [hsaved.home_eq] at hpage
  exact ⟨rfl, ⟨w₁.tree, hdocument, hpage⟩, hprogress₂.trans hprogress₁⟩

/-- A passage ends with the diagnostics in the log, if they go there at all. -/
theorem answered_of_course {d : Document} {tools : List String} {report : Option String}
    {o : Outcome}
    (h : Course th A (do
      if s.console then Session.report d.entries
      return { module := module.text, tools, counts := d.counts, report, document := d,
               gate := s.thresholds.judge d }) w (.done o) w') :
    o = { module := module.text, tools, counts := d.counts, report, document := d,
          gate := s.thresholds.judge d } ∧ Untouched w w' := by
  split at h
  · obtain ⟨_, w₁, hlog, h⟩ := h.of_bind
    obtain ⟨-, hw₁⟩ := (passive_report _).course (Untouched.refl w) hlog
    obtain ⟨rfl, m, rfl⟩ := h.of_done
    exact ⟨rfl, hw₁⟩
  · obtain ⟨rfl, m, rfl⟩ := h.of_done
    exact ⟨rfl, Untouched.refl w⟩

theorem turn_of_course {o : Outcome} (h : Course th A (s.process module) w (.done o) w') :
    Turn s module th A w o w' := by
  unfold process at h
  obtain ⟨⟨d, tools⟩, w₁, hfound, h⟩ := h.of_bind
  obtain ⟨hcollect, hw₁⟩ := (s.passive_collect module).course (Untouched.refl w) hfound
  simp only at h
  split at h
  · next hnone =>
    obtain rfl : tools = [] := List.isEmpty_iff.1 hnone
    obtain ⟨_, w₂, hlog, h⟩ := h.of_bind
    obtain ⟨rfl, m, rfl⟩ := h.of_done
    obtain ⟨-, hw₂⟩ := (passive_log _ _ _).course hw₁ hlog
    exact .silent hcollect.symm hw₂
  · next hsome =>
    have hany : tools ≠ [] := fun e => hsome (List.isEmpty_iff.2 e)
    obtain ⟨title, w₂, htitle, h⟩ := h.of_bind
    have hlook : (moduleTitle module).Passive := (passive_absolute _).bind fun _ => trivial
    obtain ⟨htitle, hw₂⟩ := hlook.course hw₁ htitle
    have htitle : title = titleOf w.home module := by
      rw [htitle, moduleTitle, run_bind, run_absolute]
      rfl
    subst htitle
    obtain ⟨m', moment, w₃, hanswer, -, h⟩ := h.of_request_bind
    obtain ⟨rfl, rfl⟩ := Prod.mk.inj hanswer
    have hstart : Untouched w (w₂.setNow m') := hw₂
    obtain ⟨written, w₄, hwritten, h⟩ := h.of_bind
    cases written with
    | ok _ =>
      obtain ⟨_, w₅, htaken, h⟩ := h.of_bind
      obtain ⟨rfl, hrest⟩ := answered_of_course h
      exact .told hcollect.symm hany hstart hwritten (taken_of_course htaken) hrest
    | error e =>
      obtain ⟨_, w₅, hlog, h⟩ := h.of_bind
      obtain ⟨-, hw₅⟩ := (passive_log _ _ _).course (Untouched.refl w₄) hlog
      obtain ⟨_, w₆, htaken, h⟩ := h.of_bind
      obtain ⟨rfl, hrest⟩ := answered_of_course h
      obtain ⟨v₁, v₂, v₃, update, v₄, hv₁, hupdates⟩ := taken_of_course htaken
      exact .told hcollect.symm hany hstart hwritten
        ⟨v₁, v₂, v₃, update, v₄, hw₅.trans hv₁, hupdates⟩ hrest

theorem passage_of_course {o : Outcome}
    (h : Course th Request.granted (s.process module) w (.done o) w') :
    Passage s module th w o w' := by
  cases turn_of_course h with
  | silent found rest => exact .silent found rest
  | told found any start write taken rest =>
    obtain ⟨rfl, ⟨t₁, hdocument, hpage⟩, hprogress⟩ := written_of_writeModule write
    have hhome := write.home_eq
    obtain ⟨htree, hhome₁, hprogress₁, -⟩ := start
    rw [htree, hhome₁] at hdocument
    rw [hhome₁] at hpage hhome
    rw [hprogress₁] at hprogress
    exact .told found any hdocument hpage hhome hprogress taken rest

end

end Session

end LintDigest
