import LintDigest.Modules
import LintDigest.Proofs.Glob.Search
import LintDigest.Proofs.Path.Order

/-!
# Each directory once

`arrange` sorts paths and drops those that walk like the path before them. Sorting brings all paths
of one walk together, so what is left is strictly increasing (`increasing_arrange`) and still shows
every walk (`mem_walks_arrange`). Which patterns found a directory, how often and in which order
makes no difference to the directories that are listed (`find_lists_matches`).
-/

namespace LintDigest.Modules

open Script
open Std (OrientedCmp TransCmp)

variable {p q : Path} {ps qs : List Path} {walk : List Path.Component}

/-! ## Increasing lists -/

/-- Every path comes before all that follow it. -/
def Increasing (ps : List Path) : Prop :=
  ps.Pairwise fun p q => p.compare q = .lt

theorem Increasing.nodup_walks (h : Increasing ps) : (ps.map Path.components).Nodup := by
  refine List.pairwise_map.2 (h.imp fun {p q} hlt hwalk => ?_)
  rw [Path.compare_eq_iff.2 hwalk] at hlt
  cases hlt

/-- Increasing lists with the same walks agree walk by walk. -/
theorem Increasing.walks_ext (hp : Increasing ps) (hq : Increasing qs)
    (h : ∀ walk, walk ∈ ps.map Path.components ↔ walk ∈ qs.map Path.components) :
    ps.map Path.components = qs.map Path.components := by
  have hincreasing : ∀ {ps : List Path}, Increasing ps →
      (ps.map Path.components).Pairwise fun a b => Path.compare.walk a b = .lt :=
    fun h => List.pairwise_map.2 h
  have hperm := (List.perm_ext_iff_of_nodup hp.nodup_walks hq.nodup_walks).2 h
  refine hperm.eq_of_pairwise ?_ (hincreasing hp) (hincreasing hq)
  intro a b _ _ hab hba
  exact absurd hba (OrientedCmp.not_lt_of_lt hab)

/-! ## Arranging -/

theorem distinct_sublist (ps : List Path) : (distinct ps).Sublist ps := by
  fun_induction distinct ps with
  | case1 p q rest heq ih => exact ih.trans (.cons_cons p (.cons q (.refl rest)))
  | case2 p q rest hne ih => exact .cons_cons p ih
  | case3 ps h => exact .refl ps

theorem mem_walks_distinct (ps : List Path) :
    walk ∈ (distinct ps).map Path.components ↔ walk ∈ ps.map Path.components := by
  fun_induction distinct ps with
  | case1 p q rest heq ih =>
    rw [ih]
    simp [Path.compare_eq_iff.1 heq]
  | case2 p q rest hne ih => rw [List.map_cons, List.mem_cons, ih, ← List.mem_cons, ← List.map_cons]
  | case3 ps h => rfl

/-- In a sorted list it is enough to compare neighbours. -/
theorem increasing_distinct (h : ps.Pairwise fun p q => (p.compare q).isLE) :
    Increasing (distinct ps) := by
  fun_induction distinct ps with
  | case1 p q rest heq ih => exact ih (h.sublist (.cons_cons p (.cons q (.refl rest))))
  | case2 p q rest hne ih =>
    obtain ⟨hp, hrest⟩ := List.pairwise_cons.1 h
    have hpq : p.compare q = .lt := by
      have hle := hp q List.mem_cons_self
      cases hcompare : p.compare q with
      | lt => rfl
      | eq => exact absurd hcompare hne
      | gt => simp [hcompare] at hle
    refine List.pairwise_cons.2 ⟨fun z hz => ?_, ih hrest⟩
    rcases List.mem_cons.1 ((distinct_sublist _).subset hz) with rfl | hz
    · exact hpq
    · exact TransCmp.lt_of_lt_of_isLE hpq ((List.pairwise_cons.1 hrest).1 z hz)
  | case3 ps hshort =>
    match ps, hshort with
    | [], _ => exact .nil
    | [p], _ => exact List.pairwise_singleton _ p
    | p :: q :: rest, hshort => exact absurd rfl (hshort p q rest)

theorem increasing_arrange (ps : List Path) : Increasing (arrange ps) :=
  increasing_distinct <|
    List.pairwise_mergeSort (fun _ _ _ => TransCmp.isLE_trans) Path.isLE_or_isLE ps

theorem mem_of_mem_arrange (h : p ∈ arrange ps) : p ∈ ps :=
  List.mem_mergeSort.1 ((distinct_sublist _).subset h)

theorem mem_walks_arrange :
    walk ∈ (arrange ps).map Path.components ↔ walk ∈ ps.map Path.components := by
  rw [arrange, mem_walks_distinct]
  exact ((List.mergeSort_perm ps _).map Path.components).mem_iff

/-! ## Finding -/

/-- The directories among the paths that match a pattern below a root. -/
def matched (th : Thread) (w : Workspace) (root : Path) (pattern : String) : List Path :=
  (Glob.found th w (root / pattern)).filter fun p => w.tree.stat w.home p = some .dir

theorem run_directories (ps : List Path) (th : Thread) (w : Workspace) :
    (directories ps).run th w = (ps.filter fun p => w.tree.stat w.home p = some .dir, w) := by
  induction ps with
  | nil => rfl
  | cons p ps ih =>
    have hdir : (isDir p).run th w = (decide (w.tree.stat w.home p = some .dir), w) := rfl
    rw [directories, run_bind, hdir]
    by_cases hp : w.tree.stat w.home p = some .dir
    · simp [hp, run_bind, ih]
    · simp [hp, ih]

theorem run_matching {root : Path} {patterns : List String}
    (hvalid : ∀ s ∈ patterns, Glob.IsValid (root / s)) (th : Thread) (w : Workspace) :
    (matching root patterns).run th w = (.ok (patterns.flatMap (matched th w root)), w) := by
  induction patterns with
  | nil => rfl
  | cons s patterns ih =>
    obtain ⟨hs, hrest⟩ := List.forall_mem_cons.1 hvalid
    rw [matching, run_bind, Glob.run_expand hs]
    simp only [run_bind, run_directories, ih hrest]
    rfl

theorem run_find {root : Path} {patterns : List String}
    (hvalid : ∀ s ∈ patterns, Glob.IsValid (root / s)) (th : Thread) (w : Workspace) :
    (find root patterns).run th w =
      (.ok (arrange (patterns.flatMap (matched th w root))), w) := by
  rw [find, run_bind, run_matching hvalid]
  rfl

/-- Patterns that can be read list directories in strictly increasing order, so none twice: those
that match one of the patterns and, up to the way they are written, all of these. The order of the
patterns and their repetitions make no difference but to the way the directories are written.
Nothing is changed by looking for them. -/
theorem find_lists_matches (root : Path) (patterns : List String) (th : Thread) (w : Workspace)
    (hvalid : ∀ s ∈ patterns, Glob.IsValid (root / s)) :
    ∃ dirs, (find root patterns).run th w = (.ok dirs, w) ∧
      Increasing dirs ∧ (dirs.map Path.components).Nodup ∧
      (∀ p ∈ dirs, ∃ s ∈ patterns, p ∈ matched th w root s) ∧
      (∀ s ∈ patterns, ∀ p ∈ matched th w root s, p.components ∈ dirs.map Path.components) ∧
      ∀ others : List String, (∀ s, s ∈ others ↔ s ∈ patterns) →
        ∃ dirs', (find root others).run th w = (.ok dirs', w) ∧
          dirs'.map Path.components = dirs.map Path.components := by
  have hincreasing := increasing_arrange (patterns.flatMap (matched th w root))
  refine ⟨_, run_find hvalid th w, hincreasing, hincreasing.nodup_walks, ?_, ?_, ?_⟩
  · intro p hp
    exact List.mem_flatMap.1 (mem_of_mem_arrange hp)
  · intro s hs p hp
    exact mem_walks_arrange.2 (List.mem_map_of_mem (List.mem_flatMap.2 ⟨s, hs, hp⟩))
  · intro others hothers
    have hvalid' : ∀ s ∈ others, Glob.IsValid (root / s) := fun s hs => hvalid s ((hothers s).1 hs)
    refine ⟨_, run_find hvalid' th w, (increasing_arrange _).walks_ext hincreasing fun walk => ?_⟩
    rw [mem_walks_arrange, mem_walks_arrange]
    simp only [List.mem_map, List.mem_flatMap, hothers]

/-- A root with two modules. -/
def twoModules : Workspace where
  tree := ⟨[(["a", "modules", "ws"], .dir), (["b", "modules", "ws"], .dir),
    (["modules", "ws"], .dir), (["ws"], .dir)]⟩
  lock := ⟨"summary", none, 0⟩

/-- Patterns of which the first two find the same module. -/
def overlapping : List String := ["modules/a", "./modules/a", "modules//b"]

/-- A module that is found twice is listed once, as it was found first. -/
theorem find_lists_matches_overlapping :
    (∀ s ∈ overlapping, Glob.IsValid ((⟨"/ws"⟩ : Path) / s)) ∧
    ∃ dirs dirs', (find ⟨"/ws"⟩ overlapping).run "main" twoModules = (.ok dirs, twoModules) ∧
      Increasing dirs ∧ dirs = [⟨"/ws/modules/a"⟩, ⟨"/ws/modules/b"⟩] ∧
      (find ⟨"/ws"⟩ overlapping.reverse).run "main" twoModules = (.ok dirs', twoModules) ∧
      dirs'.map Path.components = dirs.map Path.components := by
  have hvalid : ∀ s ∈ overlapping, Glob.IsValid ((⟨"/ws"⟩ : Path) / s) := by decide +kernel
  obtain ⟨dirs, hrun, hincreasing, -, -, -, hothers⟩ :=
    find_lists_matches ⟨"/ws"⟩ overlapping "main" twoModules hvalid
  obtain ⟨dirs', hrun', hwalks⟩ := hothers overlapping.reverse fun s => List.mem_reverse
  refine ⟨hvalid, dirs, dirs', hrun, hincreasing, ?_, hrun', hwalks⟩
  have hmatched : overlapping.flatMap (matched "main" twoModules ⟨"/ws"⟩) =
      [⟨"/ws/modules/a"⟩, ⟨"/ws/./modules/a"⟩, ⟨"/ws/modules/b"⟩] := by
    decide +kernel
  rw [run_find hvalid, hmatched, arrange, List.mergeSort_of_pairwise (by decide +kernel)] at hrun
  cases hrun
  decide +kernel

end LintDigest.Modules
