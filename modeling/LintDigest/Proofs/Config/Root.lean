import LintDigest.Config.Basic
import LintDigest.Proofs.Path.Ancestors
import LintDigest.Proofs.Script.Run

/-!
# The root of a repository

The root is looked for from a path upwards, one parent after the other, until a parent is missing or
empty. `Path.Above` says so without listing any ancestors. The root that is found is the nearest
marked one, and whether there is a configuration is decided by its files alone
(`detectRoot_nearest`).
-/

namespace LintDigest

open Script Storage

/-- The path that is `n` parents above another; an empty parent does not count. -/
inductive Path.Above : Path → Nat → Path → Prop
  | self (p : Path) : Above p 0 p
  | parent {p q r : Path} {n : Nat} (hparent : p.parent? = some q) (hnonempty : q.text ≠ "")
      (habove : Above q n r) : Above p (n + 1) r

namespace Config

/-- The names of configuration files. -/
def fileNames : List String := tomlName :: yamlNames

/-- The names that mark a directory as a root. -/
def markers : List String := fileNames ++ [".git"]

/-- One of the names exists in a directory. -/
def Has (w : Workspace) (dir : Path) (names : List String) : Prop :=
  ∃ name ∈ names, (w.tree.stat w.home (dir / name)).isSome

instance (w : Workspace) (dir : Path) (names : List String) : Decidable (Has w dir names) :=
  inferInstanceAs (Decidable (∃ name ∈ names, _))

section

variable {start root : Path} {th : Thread} {w : Workspace} {names : List String}

/-! ## Going up -/

theorem rootCandidates_eq (start : Path) :
    rootCandidates start = start ::
      match start.parent? with
      | none => []
      | some q => if q.text = "" then [] else rootCandidates q := by
  rw [rootCandidates]
  congr 1
  cases hparent : start.parent? with
  | none => rw [List.head?_eq_none_iff.1 hparent, List.takeWhile_nil]
  | some q =>
    have hcons : q.ancestors = q :: q.ancestors.tail := rfl
    rw [← Path.ancestors_of_parent? hparent, hcons, List.takeWhile_cons]
    by_cases hq : q.text = ""
    · simp [hq]
    · simp [hq, rootCandidates]

example : (rootCandidates ⟨"./ws/.//m/../n/"⟩).map Path.text =
    ["./ws/.//m/../n/", "./ws/.//m/..", "./ws/.//m", "./ws", "."] := by
  decide

theorem above_iff {n : Nat} {p : Path} :
    start.Above n p ↔ (rootCandidates start)[n]? = some p := by
  induction n generalizing start with
  | zero =>
    rw [rootCandidates_eq, List.getElem?_cons_zero, Option.some.injEq]
    constructor
    · rintro ⟨⟩
      rfl
    · rintro rfl
      exact .self start
  | succ n ih =>
    rw [rootCandidates_eq, List.getElem?_cons_succ]
    constructor
    · intro h
      cases h with
      | parent hparent hnonempty habove =>
        rw [hparent]
        simpa [hnonempty] using ih.1 habove
    · intro h
      split at h
      · cases h
      · next q hparent =>
        split at h
        · cases h
        · next hnonempty => exact .parent hparent hnonempty (ih.2 h)

/-! ## Looking for names -/

@[simp] theorem has_nil (w : Workspace) (dir : Path) : ¬ Has w dir [] := by
  simp [Has]

@[simp] theorem has_cons (w : Workspace) (dir : Path) (name : String) (names : List String) :
    Has w dir (name :: names) ↔ (w.tree.stat w.home (dir / name)).isSome ∨ Has w dir names := by
  simp [Has]

theorem run_hasAny (dir : Path) (names : List String) (th : Thread) (w : Workspace) :
    (hasAny dir names).run th w = (decide (Has w dir names), w) := by
  induction names with
  | nil => simp [hasAny]
  | cons name names ih =>
    unfold hasAny
    rw [run_isPresent_bind]
    cases hpresent : (w.tree.stat w.home (dir / name)).isSome with
    | true => simp [hpresent]
    | false =>
      have hrest : decide (Has w dir (name :: names)) = decide (Has w dir names) :=
        decide_eq_decide.2 (by simp [hpresent])
      rw [hrest]
      exact ih

theorem run_firstMarked (ps : List Path) (th : Thread) (w : Workspace) :
    (firstMarked ps).run th w = (ps.find? fun p => Has w p markers, w) := by
  induction ps with
  | nil => rfl
  | cons p ps ih =>
    have hmarked : (isMarked p).run th w = (decide (Has w p markers), w) := run_hasAny p markers th w
    unfold firstMarked
    rw [run_bind, hmarked, List.find?_cons]
    by_cases hp : Has w p markers
    · simp [hp]
    · simpa [hp] using ih

theorem run_detectRoot (start : Path) (th : Thread) (w : Workspace) :
    (detectRoot start).run th w =
      (((rootCandidates start).find? fun p => Has w p markers).getD start, w) := by
  unfold detectRoot
  rw [run_bind, run_firstMarked]
  rfl

/-! ## Reading the configuration -/

theorem run_loadFile (p : Path) (read : String → Except String ConfigFile) (th : Thread)
    (w : Workspace) : ∃ found, (loadFile p read).run th w = (found, w) := by
  unfold loadFile
  rw [run_bind, run_readText]
  cases w.tree.read w.home p with
  | error fault => exact ⟨_, rfl⟩
  | ok text =>
    simp only [Except.mapError]
    cases read text <;> exact ⟨_, rfl⟩

/-- A file that is there is found, also if it cannot be read; else the search goes on. -/
theorem run_load_cons {rest : Script (Except Error (Option ConfigFile))} {name : String}
    (read : String → Except String ConfigFile)
    (hrest : ∃ result, rest.run th w = (result, w) ∧ (result = .ok none ↔ ¬ Has w root names)) :
    ∃ result, (do if ← isPresent (root / name) then
          return (← loadFile (root / name) read).map some else rest).run th w = (result, w) ∧
      (result = .ok none ↔ ¬ Has w root (name :: names)) := by
  rw [run_isPresent_bind]
  cases hpresent : (w.tree.stat w.home (root / name)).isSome with
  | false =>
    obtain ⟨result, hrun, hresult⟩ := hrest
    exact ⟨result, hrun, by simpa [hpresent] using hresult⟩
  | true =>
    obtain ⟨found, hfound⟩ := run_loadFile (root / name) read th w
    refine ⟨found.map some, by simp [run_bind, hfound], ?_⟩
    cases found <;> simp [hpresent, Except.map]

theorem run_loadYaml (root : Path) (names : List String) (th : Thread) (w : Workspace) :
    ∃ result, (loadYaml root names).run th w = (result, w) ∧
      (result = .ok none ↔ ¬ Has w root names) := by
  induction names with
  | nil => exact ⟨.ok none, rfl, by simp⟩
  | cons name names ih => exact run_load_cons ConfigFile.ofYaml ih

theorem run_load (root : Path) (th : Thread) (w : Workspace) :
    ∃ result, (load root).run th w = (result, w) ∧
      (result = .ok none ↔ ¬ Has w root fileNames) :=
  run_load_cons ConfigFile.ofToml (run_loadYaml root yamlNames th w)

end

/-- The root is the path itself or the nearest of its parents, that is marked; if none is, it is the
path as it was given. A configuration is found there just if the root itself has one of its files,
and a file that cannot be read is an error. Nothing is changed by the search. -/
theorem detectRoot_nearest (start : Path) (th : Thread) (w : Workspace) :
    ∃ root, (detectRoot start).run th w = (root, w) ∧
      ((∃ n, start.Above n root ∧ Has w root markers ∧
          ∀ m < n, ∀ p, start.Above m p → ¬ Has w p markers) ∨
        root = start ∧ ∀ n p, start.Above n p → ¬ Has w p markers) ∧
      (((load root).run th w).1 = .ok none ↔ ¬ Has w root fileNames) := by
  have hload : ∀ root, (((load root).run th w).1 = .ok none ↔ ¬ Has w root fileNames) := by
    intro root
    obtain ⟨result, hrun, hresult⟩ := run_load root th w
    rw [hrun]
    exact hresult
  rw [run_detectRoot]
  refine ⟨_, rfl, ?_, hload _⟩
  cases hfind : (rootCandidates start).find? fun p => Has w p markers with
  | none =>
    rw [List.find?_eq_none] at hfind
    refine .inr ⟨rfl, fun n p habove => ?_⟩
    simpa using hfind p (List.mem_of_getElem? (above_iff.1 habove))
  | some root =>
    obtain ⟨hmarked, n, hn, hroot, hbefore⟩ := List.find?_eq_some_iff_getElem.1 hfind
    refine .inl ⟨n, above_iff.2 ?_, of_decide_eq_true hmarked, fun m hm p habove => ?_⟩
    · rw [List.getElem?_eq_getElem hn, hroot, Option.getD_some]
    · have hp := above_iff.1 habove
      rw [List.getElem?_eq_getElem (hm.trans hn), Option.some.injEq] at hp
      simpa [← hp] using hbefore m hm

/-- A repository below a directory with a configuration does not see it. -/
example :
    let tree : Tree := ⟨[([".git", "b", "a"], .dir), (["c", "b", "a"], .dir), (["b", "a"], .dir),
      (["lintfold.toml", "a"], .file (.text "")), (["a"], .dir)]⟩
    ((detectRoot ⟨"a/b/c"⟩).run "main" { tree, lock := ⟨"summary", none, 0⟩ }).1 = ⟨"a/b"⟩ := by
  decide +kernel

end Config

end LintDigest
