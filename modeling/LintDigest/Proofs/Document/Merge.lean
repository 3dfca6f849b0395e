import LintDigest.Document.Merge
import LintDigest.Proofs.Document.Paths

/-!
# Merging is associative

Documents that name each path once form a monoid under `merge`, with the empty document as unit.
`mergeAll` merges level by level, and `mergeAll_eq_foldl` says that it gives what merging from the
left gives. So a list can be merged in parts (`mergeAll_append`).
-/

namespace LintDigest.Document

/-! ## Groups of one path and of two -/

/-- Two groups of one path are added as one. -/
theorem addGroup_addGroup (gs : List FileGroup) (path : String) (xs ys : List Diagnostic) :
    addGroup (addGroup gs ⟨path, xs⟩) ⟨path, ys⟩ = addGroup gs ⟨path, xs ++ ys⟩ := by
  induction gs with
  | nil => simp [addGroup]
  | cons k gs ih =>
    by_cases hk : k.path = path
    · simp [addGroup, hk]
    · simp [addGroup, hk, ih]

/-- A group of a known path can be added after a group of another path. -/
theorem addGroup_right_comm {gs : List FileGroup} {g h : FileGroup}
    (hg : g.path ∈ gs.map (·.path)) (hne : g.path ≠ h.path) :
    addGroup (addGroup gs g) h = addGroup (addGroup gs h) g := by
  induction gs with
  | nil => cases hg
  | cons k gs ih =>
    by_cases hkg : k.path = g.path
    · simp [addGroup, hkg, hne]
    · have htail : g.path ∈ gs.map (·.path) := (List.mem_cons.1 hg).resolve_left (Ne.symm hkg)
      by_cases hkh : k.path = h.path
      · simp [addGroup, hkh, hne.symm]
      · simp [addGroup, hkg, hkh, ih htail]

theorem mem_paths_addGroup {gs : List FileGroup} {path : String} (g : FileGroup)
    (h : path ∈ gs.map (·.path)) : path ∈ (addGroup gs g).map (·.path) := by
  rw [map_path_addGroup]
  split
  · exact h
  · exact List.mem_append_left _ h

/-- A group of a known path can be added after groups of other paths. -/
theorem foldl_addGroup_right_comm {gs hs : List FileGroup} {g : FileGroup}
    (hg : g.path ∈ hs.map (·.path)) (hgs : g.path ∉ gs.map (·.path)) :
    gs.foldl addGroup (addGroup hs g) = addGroup (gs.foldl addGroup hs) g := by
  induction gs generalizing hs with
  | nil => rfl
  | cons k gs ih =>
    have hne : g.path ≠ k.path := fun e => hgs (List.mem_cons.2 (.inl e))
    have htail : g.path ∉ gs.map (·.path) := fun h => hgs (List.mem_cons_of_mem _ h)
    rw [List.foldl_cons, List.foldl_cons, addGroup_right_comm hg hne]
    exact ih (mem_paths_addGroup k hg) htail

/-- Adding groups with `g` among them is adding the groups and then `g`. -/
theorem foldl_addGroup_addGroup {gs : List FileGroup} (hs : List FileGroup) (g : FileGroup)
    (h : (gs.map (·.path)).Nodup) :
    (addGroup gs g).foldl addGroup hs = addGroup (gs.foldl addGroup hs) g := by
  induction gs generalizing hs with
  | nil => rfl
  | cons k gs ih =>
    obtain ⟨hk, hgs⟩ := List.nodup_cons.1 h
    by_cases hkg : k.path = g.path
    · -- Here `g` has joined `k`, the first group. Added apart, it comes after the other groups,
      -- none of which has its path.
      have hjoin : addGroup hs { k with diagnostics := k.diagnostics ++ g.diagnostics } =
          addGroup (addGroup hs k) g := by
        obtain ⟨path, xs⟩ := k
        obtain ⟨path', ys⟩ := g
        obtain rfl : path = path' := hkg
        exact (addGroup_addGroup hs path xs ys).symm
      have hknown : g.path ∈ (addGroup hs k).map (·.path) := by
        rw [map_path_addGroup, hkg]
        split
        · assumption
        · exact List.mem_append_right _ List.mem_cons_self
      rw [addGroup, if_pos hkg, List.foldl_cons, List.foldl_cons, hjoin]
      exact foldl_addGroup_right_comm hknown (hkg ▸ hk)
    · rw [addGroup, if_neg hkg, List.foldl_cons, List.foldl_cons]
      exact ih _ hgs

theorem foldl_addGroup_foldl (as cs : List FileGroup) {bs : List FileGroup}
    (h : (bs.map (·.path)).Nodup) :
    (cs.foldl addGroup bs).foldl addGroup as = cs.foldl addGroup (bs.foldl addGroup as) := by
  induction cs generalizing bs with
  | nil => rfl
  | cons c cs ih =>
    rw [List.foldl_cons, List.foldl_cons, ih (nodup_addGroup c h), foldl_addGroup_addGroup as c h]

/-! ## Merging two documents -/

/-- The short cuts of `merge` are those of a fold, as long as the right document names each path
once. -/
theorem groups_merge (a : Document) {b : Document} (h : b.paths.Nodup) :
    (a.merge b).groups = b.groups.foldl addGroup a.groups := by
  rw [merge]
  by_cases hb : b.groups.isEmpty
  · rw [if_pos hb, List.isEmpty_iff.1 hb]
    rfl
  · by_cases ha : a.groups.isEmpty
    · have hfresh : (([] ++ b.groups).map FileGroup.path).Nodup := h
      rw [if_neg hb, if_pos ha, List.isEmpty_iff.1 ha, foldl_addGroup_fresh hfresh]
      rfl
    · rw [if_neg hb, if_neg ha, groups_foldl_pushGroup]

theorem paths_nodup_merge {a b : Document} (ha : a.paths.Nodup) (hb : b.paths.Nodup) :
    (a.merge b).paths.Nodup := by
  rw [paths, groups_merge a hb]
  exact nodup_foldl_addGroup _ ha

theorem empty_merge (d : Document) : merge {} d = d := by
  by_cases hd : d.groups.isEmpty
  · refine ext_groups ?_
    rw [merge, if_pos hd, List.isEmpty_iff.1 hd]
  · rw [merge, if_neg hd]
    rfl

theorem merge_assoc (a : Document) {b c : Document} (hb : b.paths.Nodup) (hc : c.paths.Nodup) :
    (a.merge b).merge c = a.merge (b.merge c) := by
  refine ext_groups ?_
  rw [groups_merge _ hc, groups_merge _ hb, groups_merge _ (paths_nodup_merge hb hc),
    groups_merge _ hc, foldl_addGroup_foldl _ _ hb]

/-! ## Merging a list of documents -/

theorem paths_nodup_mergePairs {ds : List Document} (h : ∀ d ∈ ds, d.paths.Nodup) :
    ∀ d ∈ mergePairs ds, d.paths.Nodup := by
  fun_induction mergePairs ds with
  | case1 a b rest ih =>
    simp only [List.forall_mem_cons] at h
    obtain ⟨ha, hb, hrest⟩ := h
    exact List.forall_mem_cons.2 ⟨paths_nodup_merge ha hb, ih hrest⟩
  | case2 rest => exact h

theorem foldl_merge_mergePairs (x : Document) {ds : List Document}
    (h : ∀ d ∈ ds, d.paths.Nodup) : (mergePairs ds).foldl merge x = ds.foldl merge x := by
  fun_induction mergePairs ds generalizing x with
  | case1 a b rest ih =>
    simp only [List.forall_mem_cons] at h
    obtain ⟨ha, hb, hrest⟩ := h
    rw [List.foldl_cons, List.foldl_cons, List.foldl_cons, merge_assoc x ha hb]
    exact ih _ hrest
  | case2 rest => rfl

theorem mergeAll_eq_foldl {ds : List Document} (h : ∀ d ∈ ds, d.paths.Nodup) :
    mergeAll ds = ds.foldl merge {} := by
  fun_induction mergeAll ds with
  | case1 => rfl
  | case2 d => exact (empty_merge d).symm
  | case3 a b rest ih =>
    -- One level of pairs has the same fold, by associativity.
    rw [ih (paths_nodup_mergePairs h)]
    exact foldl_merge_mergePairs {} h

theorem paths_nodup_foldl_merge {a : Document} {ds : List Document} (ha : a.paths.Nodup)
    (h : ∀ d ∈ ds, d.paths.Nodup) : (ds.foldl merge a).paths.Nodup := by
  induction ds generalizing a with
  | nil => exact ha
  | cons d ds ih =>
    obtain ⟨hd, hds⟩ := List.forall_mem_cons.1 h
    exact ih (paths_nodup_merge ha hd) hds

/-- Whatever stands on the left can be merged last. -/
theorem foldl_merge_eq_merge (a : Document) {ds : List Document} (h : ∀ d ∈ ds, d.paths.Nodup) :
    ds.foldl merge a = a.merge (ds.foldl merge {}) := by
  induction ds generalizing a with
  | nil => rfl
  | cons d ds ih =>
    obtain ⟨hd, hds⟩ := List.forall_mem_cons.1 h
    have hrest : (ds.foldl merge {}).paths.Nodup := paths_nodup_foldl_merge List.nodup_nil hds
    calc ds.foldl merge (a.merge d)
        = (a.merge d).merge (ds.foldl merge {}) := ih _ hds
      _ = a.merge (d.merge (ds.foldl merge {})) := merge_assoc a hd hrest
      _ = a.merge (ds.foldl merge d) := by rw [← ih d hds]
      _ = a.merge ((d :: ds).foldl merge {}) := by rw [List.foldl_cons, empty_merge]

theorem mergeAll_append {xs ys : List Document} (hxs : ∀ d ∈ xs, d.paths.Nodup)
    (hys : ∀ d ∈ ys, d.paths.Nodup) : mergeAll (xs ++ ys) = (mergeAll xs).merge (mergeAll ys) := by
  rw [mergeAll_eq_foldl (List.forall_mem_append.2 ⟨hxs, hys⟩), mergeAll_eq_foldl hxs,
    mergeAll_eq_foldl hys, List.foldl_append, foldl_merge_eq_merge _ hys]

end LintDigest.Document
