import Mathlib.Data.List.Perm.Basic
import LintDigest.Config.Basic
import LintDigest.Proofs.Except
import LintDigest.Workspace

/-!
# Report files by tool

A configuration file names report files in a map from names of tools to files, and a map lists its
entries in any order. Whether the settings can be resolved does not hang on that order, and neither
does any other setting. Which report file a tool has does, once the map has two names of the tool
with different files (`resolve_by_order`).
-/

namespace LintDigest

/-- The tool that a name stands for. -/
def Tool.named? (name : String) : Option Tool :=
  (Tool.parse name).toOption

/-- The report file that the last of some entries for a tool gives. -/
def fileFor? (es : List (String × String)) (tool : Tool) : Option String :=
  (es.reverse.find? fun e => Tool.named? e.1 = some tool).map (·.2)

/-- The names of one tool have one report file. -/
def TextMap.Unambiguous (m : TextMap) : Prop :=
  ∀ e ∈ m.entries, ∀ e' ∈ m.entries,
    (Tool.named? e.1).isSome → Tool.named? e'.1 = Tool.named? e.1 → e.2 = e'.2

instance (m : TextMap) : Decidable m.Unambiguous :=
  inferInstanceAs (Decidable (∀ _ ∈ _, _))

section

variable {es : List (String × String)} {tool : Tool} {name input : String} {m : TextMap}

/-! ## Listing a map -/

theorem lookup_eq_none (h : name ∉ es.map (·.1)) : es.lookup name = none := by
  rw [List.lookup_eq_none_iff]
  intro e he
  exact bne_iff_ne.2 fun hname => h (hname ▸ List.mem_map_of_mem he)

/-- A map of entries has under a name what the last entry of that name has. -/
theorem TextMap.lookup_ofEntries (es : List (String × String)) (name : String) :
    (TextMap.ofEntries es).entries.lookup name = es.reverse.lookup name := by
  change (lasting es).lookup name = _
  induction es with
  | nil => rfl
  | cons e es ih =>
    obtain ⟨key, input⟩ := e
    rw [lasting, List.reverse_cons, List.lookup_append, ← ih]
    by_cases hname : name = key
    · subst hname
      split
      · next hlater =>
        have hsome : ((lasting es).lookup name).isSome := by
          rw [ih, ← Option.ne_none_iff_isSome, Ne, List.lookup_eq_none_iff]
          obtain ⟨e, he, hkey⟩ := List.mem_map.1 hlater
          intro h
          exact bne_iff_ne.1 (h e (List.mem_reverse.2 he)) hkey.symm
        rw [Option.or_of_isSome hsome]
      · next hlast =>
        have hnone := lookup_eq_none fun h => hlast (map_fst_lasting_subset es h)
        simp [hnone]
    · have hkey : (name == key) = false := beq_false_of_ne hname
      split <;> simp [List.lookup_cons, hkey]

theorem MapOrder.mem_list (o : MapOrder) {e : String × String} : e ∈ o.list m ↔ e ∈ m.entries :=
  (o.perm m).mem_iff

theorem MapOrder.list_empty (o : MapOrder) : o.list ∅ = [] :=
  List.perm_nil.1 (o.perm ∅)

/-- Any entry of a map can be the last one listed. -/
def MapOrder.ending (e : String × String) : MapOrder where
  list m := if e ∈ m.entries then m.entries.erase e ++ [e] else m.entries
  perm m := by
    split
    · next he => exact (List.perm_append_singleton _ _).trans (List.perm_cons_erase he).symm
    · exact .refl _

/-! ## The report file of a tool -/

theorem fileFor?_cons (e : String × String) (es : List (String × String)) (tool : Tool) :
    fileFor? (e :: es) tool =
      (fileFor? es tool).or (if Tool.named? e.1 = some tool then some e.2 else none) := by
  rw [fileFor?, List.reverse_cons, List.find?_append, Option.map_or, List.find?_singleton, fileFor?]
  refine congrArg (Option.or _) ?_
  split <;> simp_all

theorem fileFor?_ending {e : String × String} (he : e ∈ m.entries)
    (htool : Tool.named? e.1 = some tool) :
    fileFor? ((MapOrder.ending e).list m) tool = some e.2 := by
  simp [MapOrder.ending, he, fileFor?, htool]

theorem exists_of_fileFor? (h : fileFor? es tool = some input) :
    ∃ e ∈ es, Tool.named? e.1 = some tool ∧ e.2 = input := by
  obtain ⟨e, hfind, rfl⟩ := Option.map_eq_some_iff.1 h
  exact ⟨e, List.mem_reverse.1 (List.mem_of_find?_eq_some hfind),
    by simpa using List.find?_some hfind, rfl⟩

theorem fileFor?_isSome {e : String × String} (he : e ∈ es) (htool : Tool.named? e.1 = some tool) :
    ∃ input, fileFor? es tool = some input := by
  rw [← Option.isSome_iff_exists, fileFor?, Option.isSome_map, List.find?_isSome]
  exact ⟨e, List.mem_reverse.2 he, by simpa using htool⟩

/-- Where the names of one tool have one file, the order does not matter. -/
theorem TextMap.Unambiguous.fileFor?_eq (hone : m.Unambiguous) (o o' : MapOrder) (tool : Tool) :
    fileFor? (o'.list m) tool = fileFor? (o.list m) tool := by
  have hsome : ∀ o o' : MapOrder, ∀ input, fileFor? (o.list m) tool = some input →
      fileFor? (o'.list m) tool = some input := by
    intro o o' input hinput
    obtain ⟨e, he, htool, rfl⟩ := exists_of_fileFor? hinput
    rw [o.mem_list] at he
    obtain ⟨input', hinput'⟩ := fileFor?_isSome (o'.mem_list.2 he) htool
    obtain ⟨e', he', htool', rfl⟩ := exists_of_fileFor? hinput'
    rw [o'.mem_list] at he'
    rw [hinput', hone e he e' he' (by simp [htool]) (htool'.trans htool.symm)]
  exact Option.ext fun input => ⟨hsome o' o input, hsome o o' input⟩

end

namespace Config

/-- Settings that differ at most in how they list the report files. -/
structure Same (c d : Config) : Prop where
  others : { d with inputs := c.inputs } = c
  inputs : ∀ tool, d.inputs.lookup tool = c.inputs.lookup tool

/-- Either both results are the same settings, or both are failures. -/
def SameResult : Except ConfigFault Config → Except ConfigFault Config → Prop
  | .ok c, .ok d => c.Same d
  | .error _, .error _ => True
  | _, _ => False

section

variable {root : Path} {cli : Overrides} {file : ConfigFile} {es : List (String × String)}
  {o o' : MapOrder} {c d : Config}

/-! ## Collecting report files -/

theorem parseTool_eq_ok {name : String} {tool : Tool} :
    parseTool name = .ok tool ↔ Tool.named? name = some tool := by
  rw [parseTool, Tool.named?]
  cases Tool.parse name <;> simp [Except.mapError, Except.toOption]

/-- One more entry is one more file for the tool that its name stands for. -/
def collect (inputs : List (Tool × String)) (e : String × String) :
    Except ConfigFault (List (Tool × String)) := do
  return (← parseTool e.1, e.2) :: inputs

theorem collect_eq_ok {e : String × String} {inputs inputs' : List (Tool × String)} :
    collect inputs e = .ok inputs' ↔
      ∃ tool, Tool.named? e.1 = some tool ∧ inputs' = (tool, e.2) :: inputs := by
  rw [collect, bind_eq_ok]
  constructor
  · rintro ⟨tool, htool, h⟩
    cases h
    exact ⟨tool, parseTool_eq_ok.1 htool, rfl⟩
  · rintro ⟨tool, htool, rfl⟩
    exact ⟨tool, parseTool_eq_ok.2 htool, rfl⟩

theorem collectInputs_eq (es : List (String × String)) : collectInputs es = es.foldlM collect [] :=
  rfl

/-- Entries can be collected just if each of their names stands for a tool. -/
theorem foldlM_collect_isOk (es : List (String × String)) (acc : List (Tool × String)) :
    (∃ inputs, es.foldlM collect acc = .ok inputs) ↔
      ∀ name ∈ es.map (·.1), ∃ tool, Tool.named? name = some tool := by
  induction es generalizing acc with
  | nil => simp [pure, Except.pure]
  | cons e es ih =>
    simp only [List.foldlM_cons, List.map_cons, List.forall_mem_cons, bind_eq_ok, collect_eq_ok]
    constructor
    · rintro ⟨inputs, _, ⟨tool, htool, rfl⟩, h⟩
      exact ⟨⟨tool, htool⟩, (ih _).1 ⟨inputs, h⟩⟩
    · rintro ⟨⟨tool, htool⟩, hes⟩
      obtain ⟨inputs, h⟩ := (ih ((tool, e.2) :: acc)).2 hes
      exact ⟨inputs, _, ⟨tool, htool, rfl⟩, h⟩

/-- The last entry for a tool counts. -/
theorem lookup_of_foldlM_collect {acc inputs : List (Tool × String)}
    (h : es.foldlM collect acc = .ok inputs) (tool : Tool) :
    inputs.lookup tool = (fileFor? es tool).or (acc.lookup tool) := by
  induction es generalizing acc with
  | nil =>
    cases h
    rfl
  | cons e es ih =>
    rw [List.foldlM_cons, bind_eq_ok] at h
    obtain ⟨_, hcollect, h⟩ := h
    obtain ⟨tool', htool', rfl⟩ := collect_eq_ok.1 hcollect
    rw [ih h, fileFor?_cons, htool', Option.or_assoc]
    refine congrArg (Option.or _) ?_
    by_cases hsame : tool = tool'
    · simp [hsame]
    · simp [List.lookup_cons, beq_false_of_ne hsame, Ne.symm hsame]

/-! ## Resolving in some order -/

/-- The settings without the report files of the file. -/
def base (root : Path) (cli : Overrides) (file : ConfigFile) : Except ConfigFault Config :=
  resolve .written root cli (some { file with inputs := ∅ })

/-- Report files are collected apart from all else. -/
theorem resolve_eq_ok :
    resolve o root cli (some file) = .ok c ↔
      ∃ rest inputs, base root cli file = .ok rest ∧
        (o.list file.inputs).foldlM collect [] = .ok inputs ∧ c = { rest with inputs } := by
  unfold base resolve
  simp only [Option.getD_some, collectInputs_eq, MapOrder.list_empty]
  split
  · simp [throw, throwThe, MonadExceptOf.throw, bind, Except.bind]
  · -- Tools and mode come from the file or are the usual ones, and are the same on both sides.
    cases file.sources <;> cases cli.regenerate <|> (file.summary.getD {}).regenerate
    all_goals
      simp only [bind_eq_ok]
      constructor
      · rintro ⟨tools, htools, inputs, hinputs, mode, hmode, ⟨⟩⟩
        exact ⟨_, inputs, ⟨tools, htools, [], rfl, mode, hmode, rfl⟩, hinputs, rfl⟩
      · rintro ⟨_, inputs, ⟨tools, htools, _, ⟨⟩, mode, hmode, ⟨⟩⟩, hinputs, rfl⟩
        exact ⟨tools, htools, inputs, hinputs, mode, hmode, rfl⟩

/-- The names of the map decide whether its report files can be collected, whatever their order. -/
theorem resolve_isOk :
    (∃ c, resolve o root cli (some file) = .ok c) ↔ (∃ rest, base root cli file = .ok rest) ∧
      ∀ e ∈ file.inputs.entries, ∃ tool, Tool.named? e.1 = some tool := by
  have hnames : (∀ name ∈ (o.list file.inputs).map (·.1), ∃ tool, Tool.named? name = some tool) ↔
      ∀ e ∈ file.inputs.entries, ∃ tool, Tool.named? e.1 = some tool := by
    simp only [List.forall_mem_map, o.mem_list]
  rw [← hnames]
  constructor
  · rintro ⟨c, h⟩
    obtain ⟨rest, inputs, hrest, hinputs, -⟩ := resolve_eq_ok.1 h
    exact ⟨⟨rest, hrest⟩, (foldlM_collect_isOk _ []).1 ⟨inputs, hinputs⟩⟩
  · rintro ⟨⟨rest, hrest⟩, hall⟩
    obtain ⟨inputs, hinputs⟩ := (foldlM_collect_isOk _ []).2 hall
    exact ⟨_, resolve_eq_ok.2 ⟨rest, inputs, hrest, hinputs, rfl⟩⟩

theorem lookup_inputs_of_resolve (h : resolve o root cli (some file) = .ok c) (tool : Tool) :
    c.inputs.lookup tool = fileFor? (o.list file.inputs) tool := by
  obtain ⟨rest, inputs, -, hinputs, rfl⟩ := resolve_eq_ok.1 h
  rw [lookup_of_foldlM_collect hinputs tool, List.lookup_nil, Option.or_none]

theorem others_of_resolve (h : resolve o root cli (some file) = .ok c)
    (h' : resolve o' root cli (some file) = .ok d) : { d with inputs := c.inputs } = c := by
  obtain ⟨rest, inputs, hrest, -, rfl⟩ := resolve_eq_ok.1 h
  obtain ⟨rest', inputs', hrest', -, rfl⟩ := resolve_eq_ok.1 h'
  cases hrest.symm.trans hrest'
  rfl

theorem sameResult_of_fileFor?
    (h : (∃ c, resolve o root cli (some file) = .ok c) → ∀ tool,
      fileFor? (o'.list file.inputs) tool = fileFor? (o.list file.inputs) tool) :
    SameResult (resolve o root cli (some file)) (resolve o' root cli (some file)) := by
  have hok : (∃ d, resolve o' root cli (some file) = .ok d) ↔
      ∃ c, resolve o root cli (some file) = .ok c := resolve_isOk.trans resolve_isOk.symm
  cases hc : resolve o root cli (some file) with
  | error e =>
    cases hd : resolve o' root cli (some file) with
    | error e' => trivial
    | ok d => simp [hc, hd] at hok
  | ok c =>
    obtain ⟨d, hd⟩ := hok.2 ⟨c, hc⟩
    rw [hd]
    refine ⟨others_of_resolve hc hd, fun tool => ?_⟩
    rw [lookup_inputs_of_resolve hc, lookup_inputs_of_resolve hd, h ⟨c, hc⟩]

theorem SameResult.fileFor?_eq
    (h : SameResult (resolve o root cli (some file)) (resolve o' root cli (some file)))
    (hc : resolve o root cli (some file) = .ok c) (tool : Tool) :
    fileFor? (o'.list file.inputs) tool = fileFor? (o.list file.inputs) tool := by
  rw [hc] at h
  cases hd : resolve o' root cli (some file) with
  | error e =>
    rw [hd] at h
    cases h
  | ok d =>
    rw [hd] at h
    rw [← lookup_inputs_of_resolve hc, ← lookup_inputs_of_resolve hd, h.inputs tool]

end

/-- In whatever order the report files of a file are listed, the settings can be resolved or not,
and but for the report files they are the same. A tool has the report file of its last name that is
listed. So all orders give the same settings just if they cannot be resolved, or the names of each
tool have one report file. -/
theorem resolve_by_order (root : Path) (cli : Overrides) (file : ConfigFile) :
    (∀ o o', (∃ c, resolve o root cli (some file) = .ok c) ↔
      ∃ c, resolve o' root cli (some file) = .ok c) ∧
    (∀ o o' c c', resolve o root cli (some file) = .ok c →
      resolve o' root cli (some file) = .ok c' →
        { c' with inputs := c.inputs } = c ∧
          ∀ tool, c'.inputName tool =
            (fileFor? (o'.list file.inputs) tool).getD tool.defaultInput) ∧
    ((∀ o o', SameResult (resolve o root cli (some file)) (resolve o' root cli (some file))) ↔
      ((∃ o c, resolve o root cli (some file) = .ok c) → file.inputs.Unambiguous)) := by
  refine ⟨fun o o' => resolve_isOk.trans resolve_isOk.symm, fun o o' c c' hc hc' =>
    ⟨others_of_resolve hc hc', fun tool => ?_⟩, ?_⟩
  · rw [inputName, lookup_inputs_of_resolve hc']
  · constructor
    · rintro hall ⟨o, hresolved⟩ e he e' he' hsome hsame
      obtain ⟨tool, htool⟩ := Option.isSome_iff_exists.1 hsome
      -- The two entries can both be listed last.
      obtain ⟨c, hc⟩ : ∃ c, resolve (.ending e) root cli (some file) = .ok c :=
        resolve_isOk.2 (resolve_isOk.1 hresolved)
      have heq := (hall (.ending e) (.ending e')).fileFor?_eq hc tool
      rw [fileFor?_ending he htool, fileFor?_ending he' (hsame.trans htool)] at heq
      exact (Option.some.inj heq).symm
    · intro hone o o'
      exact sameResult_of_fileFor? fun hc => (hone ⟨o, hc⟩).fileFor?_eq o o'

/-- A file that spells the name of one tool in two ways. -/
def spelled : ConfigFile where
  inputs := .ofEntries [("SpotBugs", "bugs.xml"), ("pmd", "p.xml"), ("findbugs", "bugs.xml")]

/-- Both spellings have one report file, so the order does not matter. -/
theorem resolve_by_order_spelled :
    ((∃ o c, resolve o ⟨"/ws"⟩ {} (some spelled) = .ok c) → spelled.inputs.Unambiguous) ∧
      SameResult (resolve .written ⟨"/ws"⟩ {} (some spelled))
        (resolve .reversed ⟨"/ws"⟩ {} (some spelled)) := by
  have hone : spelled.inputs.Unambiguous := by decide +kernel
  exact ⟨fun _ => hone, (resolve_by_order ⟨"/ws"⟩ {} spelled).2.2.2 (fun _ => hone) _ _⟩

/-- A file that gives one tool two report files. -/
def ambiguous : String :=
  "[inputs]\nspotbugs = \"a.xml\"\nfindbugs = \"b.xml\"\n"

/-- A workspace with that file at its root. -/
def ambiguousRoot : Workspace where
  tree := ⟨[([tomlName], .file (.text ambiguous))]⟩
  lock := ⟨"summary", none, 0⟩

/-- The order in which the file is listed decides between the two. -/
theorem order_of_inputs_shows :
    (((discover {} .written).run "main" ambiguousRoot).1.toOption.map (inputName · .spotbugs)) =
        some "b.xml" ∧
      (((discover {} .reversed).run "main" ambiguousRoot).1.toOption.map (inputName · .spotbugs)) =
        some "a.xml" := by
  decide +kernel

end Config

end LintDigest
