import Mathlib.Data.List.Nodup
import LintDigest.Document.Basic

/-!
# Paths of a document

`pushGroup` keeps the paths of a document apart. Pushing the groups of a document into an empty one
joins groups of one path (`regroup`), and changes nothing exactly when no path occurs twice
(`regroup_eq_self_iff`).
-/

namespace LintDigest.Document

/-- The paths of the groups, in order. -/
def paths (d : Document) : List String := d.groups.map (·.path)

/-- The document that is made of the groups of `d`, pushed one by one. -/
def regroup (d : Document) : Document := d.groups.foldl pushGroup {}

/-! ## Adding a group -/

/-- A group of a new path goes to the end. -/
theorem addGroup_fresh {gs : List FileGroup} {g : FileGroup} (h : ∀ k ∈ gs, k.path ≠ g.path) :
    addGroup gs g = gs ++ [g] := by
  induction gs with
  | nil => rfl
  | cons k gs ih =>
    simp only [addGroup, if_neg (h k List.mem_cons_self), List.cons_append]
    rw [ih fun x hx => h x (List.mem_cons_of_mem _ hx)]

/-- A group of a known path adds no path. -/
theorem map_path_addGroup_of_mem {gs : List FileGroup} {g : FileGroup}
    (h : g.path ∈ gs.map (·.path)) : (addGroup gs g).map (·.path) = gs.map (·.path) := by
  induction gs with
  | nil => cases h
  | cons k gs ih =>
    by_cases hk : k.path = g.path
    · simp [addGroup, hk]
    · have hg : g.path ∈ gs.map (·.path) := (List.mem_cons.1 h).resolve_left (Ne.symm hk)
      simp [addGroup, hk, ih hg]

theorem map_path_addGroup (gs : List FileGroup) (g : FileGroup) :
    (addGroup gs g).map (·.path) =
      if g.path ∈ gs.map (·.path) then gs.map (·.path) else gs.map (·.path) ++ [g.path] := by
  split
  · next h => exact map_path_addGroup_of_mem h
  · next h =>
    rw [addGroup_fresh fun k hk e => h (e ▸ List.mem_map_of_mem hk)]
    simp

theorem nodup_addGroup {gs : List FileGroup} (g : FileGroup) (h : (gs.map (·.path)).Nodup) :
    ((addGroup gs g).map (·.path)).Nodup := by
  rw [map_path_addGroup]
  split
  · exact h
  · next hg =>
    refine List.nodup_append.2 ⟨h, by simp, ?_⟩
    rintro x hx y hy rfl
    exact hg (List.mem_singleton.1 hy ▸ hx)

/-- What holds of the old groups and of the new one holds of all, if it passes to joined groups. -/
theorem forall_mem_addGroup {p : FileGroup → Prop} {gs : List FileGroup} {g : FileGroup}
    (hjoin : ∀ k : FileGroup, p k → p { k with diagnostics := k.diagnostics ++ g.diagnostics })
    (hgs : ∀ k ∈ gs, p k) (hg : p g) : ∀ k ∈ addGroup gs g, p k := by
  induction gs with
  | nil => simpa [addGroup] using hg
  | cons h gs ih =>
    have hh := hgs h List.mem_cons_self
    have ht := fun k hk => hgs k (List.mem_cons_of_mem h hk)
    rw [addGroup]
    split
    · exact List.forall_mem_cons.2 ⟨hjoin h hh, ht⟩
    · exact List.forall_mem_cons.2 ⟨hh, ih ht⟩

/-! ## Adding several groups -/

theorem groups_foldl_pushGroup (d : Document) (gs : List FileGroup) :
    (gs.foldl pushGroup d).groups = gs.foldl addGroup d.groups := by
  induction gs generalizing d with
  | nil => rfl
  | cons g gs ih => exact ih (d.pushGroup g)

theorem nodup_foldl_addGroup (gs : List FileGroup) {hs : List FileGroup}
    (h : (hs.map (·.path)).Nodup) : ((gs.foldl addGroup hs).map (·.path)).Nodup := by
  induction gs generalizing hs with
  | nil => exact h
  | cons g gs ih => exact ih (nodup_addGroup g h)

theorem paths_nodup_regroup (d : Document) : d.regroup.paths.Nodup := by
  rw [paths, regroup, groups_foldl_pushGroup]
  exact nodup_foldl_addGroup _ List.nodup_nil

/-- Groups of new and distinct paths are appended as they are. -/
theorem foldl_addGroup_fresh {gs hs : List FileGroup} (h : ((hs ++ gs).map (·.path)).Nodup) :
    gs.foldl addGroup hs = hs ++ gs := by
  induction gs generalizing hs with
  | nil => simp
  | cons g gs ih =>
    have hfresh : ∀ k ∈ hs, k.path ≠ g.path := by
      intro k hk e
      rw [List.map_append, List.nodup_append] at h
      exact h.2.2 _ (List.mem_map_of_mem hk) _ (by simp) e
    rw [List.foldl_cons, addGroup_fresh hfresh, ih (by simpa using h)]
    simp

theorem ext_groups {a b : Document} (h : a.groups = b.groups) : a = b := by
  cases a
  cases b
  exact congrArg Document.mk h

theorem regroup_eq_self {d : Document} (h : d.paths.Nodup) : d.regroup = d := by
  refine ext_groups ?_
  rw [regroup, groups_foldl_pushGroup]
  have hnil : (([] ++ d.groups).map FileGroup.path).Nodup := h
  exact foldl_addGroup_fresh hnil

theorem regroup_eq_self_iff (d : Document) : d.regroup = d ↔ d.paths.Nodup := by
  constructor
  · intro h
    exact h ▸ paths_nodup_regroup d
  · exact regroup_eq_self

end LintDigest.Document
