import LintDigest.Proofs.Document.Canonical
import LintDigest.Proofs.Script.Run
import LintDigest.Proofs.Xml.Characters
import LintDigest.Storage

/-!
# Documents that readers produce

A reader takes its texts from a parsed tree, and what it does with them (cutting, joining, putting
a tool's name in front) adds only characters that XML allows. So every produced document is
canonical (`Produced.canonical`): it names each path once and is read back as it was written.
-/

namespace LintDigest

open Xml Script Storage

/-! ## Texts made of other texts -/

theorem squash_allowed {s : String} (h : Allowed s) : Allowed (Text.squash s) := by
  refine allowed_ofList.2 fun c hc => ?_
  rcases Text.mem_of_mem_glue hc with hc | ⟨w, hw, hc⟩
  · rw [List.mem_singleton.1 hc]
    rfl
  · exact h c (Text.mem_of_mem_split (List.mem_filter.1 hw).1 hc)

theorem trim_allowed {s : String} (h : Allowed s) :
    Allowed (String.ofList (Text.trim s.toList)) := by
  refine allowed_ofList.2 fun c hc => h c ?_
  have hback := (List.dropWhile_suffix _).mem (List.mem_reverse.1 hc)
  exact (List.dropWhile_suffix _).mem (List.mem_reverse.1 hback)

theorem lastDotted_allowed {s : String} (h : Allowed s) : Allowed (Report.lastDotted s) := by
  refine allowed_ofList.2 fun c hc => ?_
  cases hlast : (Text.split (· == '.') s.toList).getLast? with
  | none => simp [hlast] at hc
  | some w =>
    simp only [hlast, Option.getD_some] at hc
    exact h c (Text.mem_of_mem_split (List.mem_of_getLast? hlast) hc)

theorem div_allowed {p : Path} {s : String} (hp : Allowed p.text) (hs : Allowed s) :
    Allowed (p / s).text := by
  show Allowed (p.join ⟨s⟩).text
  unfold Path.join
  split
  · exact hs
  · split
    · exact allowed_append.2 ⟨hp, hs⟩
    · exact allowed_append.2 ⟨hp, hs⟩
    · exact allowed_append.2 ⟨allowed_append.2 ⟨hp, by decide⟩, hs⟩

theorem getD_allowed {s : Option String} (h : ∀ x, s = some x → Allowed x) :
    Allowed (s.getD "") := by
  cases s with
  | none => exact fun c hc => by simp at hc
  | some x => exact h x rfl

/-! ## Documents -/

namespace Document

theorem readDiagnostic_allowed {e : Element} (he : e.Allowed) {x : Diagnostic}
    (h : readDiagnostic e = .ok x) : x.Allowed := by
  unfold readDiagnostic at h
  split at h
  · cases h
  · cases h
    exact ⟨getD_allowed fun _ => he.attribute?, fun _ => he.attribute?⟩

theorem readGroup_allowed {e : Element} (he : e.Allowed) {g : FileGroup}
    (h : readGroup e = .ok g) : g.Allowed := by
  unfold readGroup at h
  split at h
  · cases h
  · next path hpath =>
    obtain ⟨xs, hxs, h⟩ := bind_eq_ok.1 h
    cases h
    refine ⟨he.attribute? hpath, ?_⟩
    exact forall_of_mapM_ok hxs fun c hc _ => readDiagnostic_allowed (he.child hc)

theorem canonical_of_ofXml {origin : Path} {text : String} {d : Document}
    (h : ofXml origin text = .ok d) : d.Canonical := by
  unfold ofXml at h
  split at h
  · cases h
  · next root hparse =>
    have hroot := parse_allowed hparse
    cases hread : ofElement root with
    | error e =>
      rw [hread] at h
      cases h
    | ok d' =>
      rw [hread] at h
      cases h
      unfold ofElement at hread
      split at hread
      · obtain ⟨gs, hgs, hread⟩ := bind_eq_ok.1 hread
        cases hread
        -- The reader joins groups, so no path comes twice, whatever the elements say.
        refine canonical_foldl_pushGroup canonical_empty ?_
        exact forall_of_mapM_ok hgs fun c hc _ => readGroup_allowed (hroot.child hc)
      · cases hread

theorem canonical_foldl_push {es : List (String × Diagnostic)} {d : Document} (hd : d.Canonical)
    (hes : ∀ e ∈ es, Xml.Allowed e.1 ∧ e.2.Allowed) :
    (es.foldl (fun d (path, x) => d.push path x) d).Canonical := by
  induction es generalizing d with
  | nil => exact hd
  | cons e es ih =>
    obtain ⟨⟨hpath, hx⟩, hrest⟩ := List.forall_mem_cons.1 hes
    refine ih (canonical_pushGroup hd ⟨hpath, ?_⟩) hrest
    exact List.forall_mem_singleton.2 hx

end Document

/-! ## Findings -/

/-- The texts of a finding are made of characters that XML allows. -/
structure Finding.Allowed (f : Finding) : Prop where
  candidates : ∀ p ∈ f.candidates, Xml.Allowed p.text
  path : Xml.Allowed f.path
  diagnostic : f.diagnostic.Allowed

namespace Report

/-- A rule stands behind the name of its tool. -/
theorem source_allowed {e : Element} (he : e.Allowed) {name tool : String} {f : String → String}
    (htool : Xml.Allowed tool) (hf : ∀ s, Xml.Allowed s → Xml.Allowed (f s)) :
    ∀ s ∈ (e.attribute? name).map fun s => tool ++ f s, Xml.Allowed s := by
  intro s hs
  obtain ⟨rule, hrule, rfl⟩ := Option.map_eq_some_iff.1 hs
  exact allowed_append.2 ⟨htool, hf rule (he.attribute? hrule)⟩

theorem checkstyleFinding_allowed {path : String} (hpath : Xml.Allowed path) {e : Element}
    (he : e.Allowed) {f : Finding} (h : checkstyleFinding? path e = some f) : f.Allowed := by
  obtain ⟨severity, -, rfl⟩ := Option.map_eq_some_iff.1 h
  refine ⟨fun p hp => (by cases hp), hpath, ?_, ?_⟩
  · exact squash_allowed (getD_allowed fun _ => he.attribute?)
  · exact source_allowed he (by decide) fun _ => lastDotted_allowed

theorem pmdFinding_allowed {path : String} (hpath : Xml.Allowed path) {e : Element}
    (he : e.Allowed) : (pmdFinding path e).Allowed := by
  refine ⟨fun p hp => (by cases hp), hpath, squash_allowed he.allText, ?_⟩
  exact source_allowed he (by decide) fun _ => id

theorem sourceDirs_allowed {root : Element} (h : root.Allowed) :
    ∀ p ∈ sourceDirs root, Xml.Allowed p.text := by
  intro p hp
  obtain ⟨project, hproject, hp⟩ := List.mem_flatMap.1 hp
  obtain ⟨dir, hdir, hp⟩ := List.mem_filterMap.1 hp
  obtain ⟨s, hs, rfl⟩ := Option.map_eq_some_iff.1 hp
  exact trim_allowed (((h.child hproject).child hdir).leadingText? hs)

theorem spotbugsMessage_allowed {e : Element} (he : e.Allowed) :
    Xml.Allowed (spotbugsMessage e) := by
  simp only [spotbugsMessage]
  split
  · next text htext =>
    obtain ⟨c, hc, htext⟩ := Option.bind_eq_some_iff.1 htext
    -- The first of the long messages, else of the short ones.
    have hchild : c.Allowed := by
      rcases List.mem_append.1 (List.mem_of_mem_head? hc) with hc | hc
      · exact he.child hc
      · exact he.child hc
    exact squash_allowed (hchild.leadingText? htext)
  · exact getD_allowed fun _ => he.attribute?

theorem spotbugsFinding_allowed {dirs : List Path} (hdirs : ∀ p ∈ dirs, Xml.Allowed p.text)
    {e : Element} (he : e.Allowed) {f : Finding} (h : spotbugsFinding? dirs e = some f) :
    f.Allowed := by
  obtain ⟨line, hline, h⟩ := Option.bind_eq_some_iff.1 h
  obtain ⟨path, hpath, h⟩ := Option.bind_eq_some_iff.1 h
  cases h
  have hsource := (he.child (List.mem_of_mem_head? hline)).attribute? hpath
  refine ⟨fun p hp => ?_, hsource, spotbugsMessage_allowed he, ?_⟩
  · obtain ⟨dir, hdir, rfl⟩ := List.mem_map.1 hp
    exact div_allowed (hdirs dir hdir) hsource
  · exact source_allowed he (by decide) fun _ => id

theorem inFiles_allowed {root : Element} (h : root.Allowed) {name path : String} {e : Element}
    (he : (path, e) ∈ inFiles root name) : Xml.Allowed path ∧ e.Allowed := by
  obtain ⟨file, hfile, he⟩ := List.mem_flatMap.1 he
  split at he
  · cases he
  · next path' hpath =>
    obtain ⟨e', he', heq⟩ := List.mem_map.1 he
    cases heq
    exact ⟨(h.child hfile).attribute? hpath, (h.child hfile).child he'⟩

theorem findingsBelow_allowed {root : Element} (h : root.Allowed) (tool : Tool) :
    ∀ f ∈ findingsBelow tool root, f.Allowed := by
  intro f hf
  cases tool with
  | checkstyle =>
    obtain ⟨⟨path, e⟩, hmem, hf⟩ := List.mem_filterMap.1 hf
    obtain ⟨hpath, he⟩ := inFiles_allowed h hmem
    exact checkstyleFinding_allowed hpath he hf
  | pmd =>
    obtain ⟨⟨path, e⟩, hmem, rfl⟩ := List.mem_map.1 hf
    obtain ⟨hpath, he⟩ := inFiles_allowed h hmem
    exact pmdFinding_allowed hpath he
  | spotbugs =>
    obtain ⟨e, hmem, hf⟩ := List.mem_filterMap.1 hf
    exact spotbugsFinding_allowed (sourceDirs_allowed h) (h.child hmem) hf

theorem findings_allowed {tool : Tool} {origin : Path} {text : String} {fs : List Finding}
    (h : findings tool origin text = .ok fs) : ∀ f ∈ fs, f.Allowed := by
  unfold findings at h
  split at h
  · cases h
  · next root hparse =>
    split at h
    · cases h
      exact findingsBelow_allowed (parse_allowed hparse) tool
    · cases h

end Report

namespace Storage

theorem mem_of_run_firstPresent {th : Thread} {ps : List Path} {w : Workspace} {p : Path}
    (h : ((firstPresent ps).run th w).1 = some p) : p ∈ ps := by
  induction ps generalizing w with
  | nil => cases h
  | cons q ps ih =>
    rw [firstPresent, run_isPresent_bind] at h
    split at h
    · cases h
      exact List.mem_cons_self
    · exact List.mem_cons_of_mem _ (ih h)

/-- A finding is placed at its own path or at a candidate. -/
theorem run_placeFinding_allowed (th : Thread) {f : Finding} (hf : f.Allowed) (w : Workspace) :
    Xml.Allowed ((placeFinding f).run th w).1.1 ∧ ((placeFinding f).run th w).1.2.Allowed := by
  rw [placeFinding, run_bind]
  split
  · next p hp => exact ⟨hf.candidates p (mem_of_run_firstPresent hp), hf.diagnostic⟩
  · exact ⟨hf.path, hf.diagnostic⟩

theorem run_mapM_placeFinding_allowed (th : Thread) {fs : List Finding}
    (hfs : ∀ f ∈ fs, f.Allowed) (w : Workspace) :
    ∀ e ∈ ((fs.mapM placeFinding).run th w).1, Xml.Allowed e.1 ∧ e.2.Allowed := by
  induction fs generalizing w with
  | nil => exact fun e he => by cases he
  | cons f fs ih =>
    obtain ⟨hf, hrest⟩ := List.forall_mem_cons.1 hfs
    rw [List.mapM_cons, run_bind, run_bind]
    exact List.forall_mem_cons.2 ⟨run_placeFinding_allowed th hf w, ih hrest _⟩

theorem canonical_of_transformReport {tool : Tool} {origin : Path} {text : String} {th : Thread}
    {w : Workspace} {d : Document}
    (h : ((transformReport tool origin text).run th w).1 = .ok d) : d.Canonical := by
  unfold transformReport at h
  split at h
  · cases h
  · next fs hfs =>
    rw [run_bind] at h
    cases h
    refine Document.canonical_foldl_push Document.canonical_empty ?_
    exact run_mapM_placeFinding_allowed th (Report.findings_allowed hfs) w

end Storage

/-! ## Everything that is produced -/

/-- The documents that can come up: what is read from documents and from tools' reports, in any
workspace, and what is merged from such documents. -/
inductive Produced : Document → Prop
  | read {origin : Path} {text : String} {d : Document} (h : Document.ofXml origin text = .ok d) :
      Produced d
  | transformed {tool : Tool} {origin : Path} {text : String} {th : Thread} {w : Workspace}
      {d : Document} (h : ((transformReport tool origin text).run th w).1 = .ok d) : Produced d
  | merged {a b : Document} (ha : Produced a) (hb : Produced b) : Produced (a.merge b)
  | mergedAll {ds : List Document} (h : ∀ d ∈ ds, Produced d) : Produced (.mergeAll ds)

theorem Produced.canonical {d : Document} (h : Produced d) : d.Canonical := by
  induction h with
  | read h => exact Document.canonical_of_ofXml h
  | transformed h => exact canonical_of_transformReport h
  | merged _ _ ha hb => exact Document.canonical_merge ha hb
  | mergedAll _ ih => exact Document.canonical_mergeAll ih

end LintDigest
