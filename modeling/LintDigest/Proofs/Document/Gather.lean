import Mathlib.Data.List.Induction
import LintDigest.Proofs.Document.Merge

/-!
# What a merge of many documents is

`gather` says what the groups of merged documents are without merging anything: one group for each
path, in the order in which the paths come up, with all that stands under the path, in order. Adding
groups one by one gives exactly this (`foldl_addGroup_nil`), whatever groups they are. So do
merging from the left, merging level by level, and any other way of pairing documents that name each
path once (`mergeAll_gathers`).
-/

namespace LintDigest.Document

/-- Everything that stands under a path in some groups, in order. -/
def under (path : String) (gs : List FileGroup) : List Diagnostic :=
  (gs.filter (·.path = path)).flatMap (·.diagnostics)

/-- One group for each path, the path that comes up first at the front. -/
def gather (gs : List FileGroup) : List FileGroup :=
  (gs.map (·.path)).eraseDups.map fun path => ⟨path, under path gs⟩

/-! ## Adding groups one by one -/

theorem under_concat (path : String) (gs : List FileGroup) (g : FileGroup) :
    under path (gs ++ [g]) = under path gs ++ if g.path = path then g.diagnostics else [] := by
  by_cases hg : g.path = path <;> simp [under, hg]

theorem under_eq_nil {path : String} {gs : List FileGroup} (h : path ∉ gs.map (·.path)) :
    under path gs = [] := by
  have hnone : gs.filter (·.path = path) = [] := by
    rw [List.filter_eq_nil_iff]
    intro g hg hpath
    exact h (of_decide_eq_true hpath ▸ List.mem_map_of_mem hg)
  rw [under, hnone, List.flatMap_nil]

theorem map_path_gather (gs : List FileGroup) :
    (gather gs).map (·.path) = (gs.map (·.path)).eraseDups := by
  rw [gather, List.map_map]
  exact List.map_id' _

/-- A known path is not named again, and a new one comes last. -/
theorem eraseDups_concat (ps : List String) (p : String) :
    (ps ++ [p]).eraseDups = if p ∈ ps then ps.eraseDups else ps.eraseDups ++ [p] := by
  rw [List.eraseDups_append]
  split
  · next hp => simp [List.removeAll, hp]
  · next hp => simp [List.removeAll, hp, List.eraseDups_cons]

/-- A group joins the group of its path, and the others stay as they are. -/
theorem addGroup_map {ps : List String} (f : String → List Diagnostic) {g : FileGroup}
    (hps : ps.Nodup) (hg : g.path ∈ ps) :
    addGroup (ps.map fun p => ⟨p, f p⟩) g =
      ps.map fun p => ⟨p, f p ++ if g.path = p then g.diagnostics else []⟩ := by
  induction ps with
  | nil => cases hg
  | cons p ps ih =>
    obtain ⟨hp, hps⟩ := List.nodup_cons.1 hps
    rw [List.map_cons, List.map_cons, addGroup]
    split
    · next hhead =>
      obtain rfl : p = g.path := hhead
      rw [if_pos rfl]
      refine congrArg _ (List.map_congr_left fun q hq => ?_)
      have hne : g.path ≠ q := fun e => hp (e ▸ hq)
      rw [if_neg hne, List.append_nil]
    · next hhead =>
      rw [if_neg (Ne.symm hhead), List.append_nil,
        ih hps ((List.mem_cons.1 hg).resolve_left (Ne.symm hhead))]

theorem addGroup_gather {gs : List FileGroup} (g : FileGroup)
    (hps : (gs.map (·.path)).eraseDups.Nodup) : addGroup (gather gs) g = gather (gs ++ [g]) := by
  rw [gather, gather, List.map_append, List.map_singleton, eraseDups_concat]
  by_cases hg : g.path ∈ gs.map (·.path)
  · rw [if_pos hg, addGroup_map _ hps (List.mem_eraseDups.2 hg)]
    exact List.map_congr_left fun p _ => by rw [under_concat]
  · have hfresh : ∀ k ∈ gather gs, k.path ≠ g.path := by
      rintro k hk hpath
      refine hg (List.mem_eraseDups.1 ?_)
      rw [← map_path_gather, ← hpath]
      exact List.mem_map_of_mem hk
    have hown : under g.path (gs ++ [g]) = g.diagnostics := by
      rw [under_concat, under_eq_nil hg, if_pos rfl, List.nil_append]
    rw [if_neg hg, List.map_append, List.map_singleton, hown, ← gather, addGroup_fresh hfresh]
    refine congrArg (· ++ [g]) (List.map_congr_left fun p hp => ?_)
    have hne : g.path ≠ p := fun e => hg (e ▸ List.mem_eraseDups.1 hp)
    rw [under_concat, if_neg hne, List.append_nil]

/-- Groups that are added one by one are gathered. -/
theorem foldl_addGroup_nil (gs : List FileGroup) : gs.foldl addGroup [] = gather gs := by
  induction gs using List.reverseRecOn with
  | nil => rfl
  | append_singleton gs g ih =>
    have hps : (gs.map (·.path)).eraseDups.Nodup := by
      rw [← map_path_gather, ← ih]
      exact nodup_foldl_addGroup gs List.nodup_nil
    rw [List.foldl_append, ih, List.foldl_cons, List.foldl_nil, addGroup_gather g hps]

/-! ## Merging documents -/

theorem groups_foldl_merge (a : Document) {ds : List Document} (h : ∀ d ∈ ds, d.paths.Nodup) :
    (ds.foldl merge a).groups = (ds.flatMap (·.groups)).foldl addGroup a.groups := by
  induction ds generalizing a with
  | nil => rfl
  | cons d ds ih =>
    obtain ⟨hd, hds⟩ := List.forall_mem_cons.1 h
    rw [List.foldl_cons, ih _ hds, groups_merge a hd, List.flatMap_cons, List.foldl_append]

theorem merge_empty (d : Document) : d.merge {} = d := rfl

/-- A way of merging documents in pairs. -/
inductive Pairing
  | blank
  | one (d : Document)
  | pair (left right : Pairing)

namespace Pairing

/-- The documents that are merged, from left to right. -/
def documents : Pairing → List Document
  | blank => []
  | one d => [d]
  | pair l r => l.documents ++ r.documents

/-- What the merges of a pairing give. -/
def merged : Pairing → Document
  | blank => {}
  | one d => d
  | pair l r => l.merged.merge r.merged

theorem merged_eq_mergeAll (t : Pairing) (h : ∀ d ∈ t.documents, d.paths.Nodup) :
    t.merged = mergeAll t.documents := by
  induction t with
  | blank => rw [merged, documents, mergeAll]
  | one d => rw [merged, documents, mergeAll]
  | pair l r ihl ihr =>
    obtain ⟨hl, hr⟩ := List.forall_mem_append.1 h
    rw [merged, documents, ihl hl, ihr hr, mergeAll_append hl hr]

end Pairing

/-- Merging documents that name each path once, level by level, is merging them from the left, and
merging them in any other pairs. The merged document has one group for each path, in the order in
which the paths come up in the documents, with what the documents say under this path, in order. On
such documents merging is associative, and the empty document is its unit. -/
theorem mergeAll_gathers (ds : List Document) (h : ∀ d ∈ ds, d.paths.Nodup) :
    mergeAll ds = ds.foldl merge {} ∧
      (mergeAll ds).groups = (ds.flatMap paths).eraseDups.map
        (fun path => ⟨path, ds.flatMap fun d => under path d.groups⟩) ∧
      (∀ t : Pairing, t.documents = ds → t.merged = mergeAll ds) ∧
      (∀ a b c : Document, a.paths.Nodup → b.paths.Nodup → c.paths.Nodup →
        (a.merge b).merge c = a.merge (b.merge c)) ∧
      ∀ d : Document, merge {} d = d ∧ d.merge {} = d := by
  refine ⟨mergeAll_eq_foldl h, ?_, ?_, ?_, ?_⟩
  · have hpaths : (ds.flatMap (·.groups)).map (·.path) = ds.flatMap paths := List.map_flatMap
    rw [mergeAll_eq_foldl h, groups_foldl_merge {} h, foldl_addGroup_nil, gather, hpaths]
    refine List.map_congr_left fun path _ => ?_
    rw [under, List.filter_flatMap, List.flatMap_assoc]
    rfl
  · rintro t rfl
    exact t.merged_eq_mergeAll h
  · intro a b c _ hb hc
    exact merge_assoc a hb hc
  · exact fun d => ⟨empty_merge d, merge_empty d⟩

/-- Three documents: one with an empty group, an empty one, and one that names the paths of the first
in another order. -/
def threeParts : List Document :=
  [⟨[⟨"b", [⟨1, .error, "x", none⟩]⟩, ⟨"a", []⟩]⟩, {},
    ⟨[⟨"a", [⟨2, .info, "y", none⟩]⟩, ⟨"c", []⟩, ⟨"b", [⟨1, .error, "x", none⟩]⟩]⟩]

theorem mergeAll_gathers_three :
    (∀ d ∈ threeParts, d.paths.Nodup) ∧
      mergeAll threeParts = threeParts.foldl merge {} ∧
      (mergeAll threeParts).groups =
        [⟨"b", [⟨1, .error, "x", none⟩, ⟨1, .error, "x", none⟩]⟩, ⟨"a", [⟨2, .info, "y", none⟩]⟩,
          ⟨"c", []⟩] ∧
      (Pairing.pair (.one threeParts[0]) (.pair .blank (.pair (.one threeParts[1])
        (.one threeParts[2])))).merged = mergeAll threeParts := by
  have hparts : ∀ d ∈ threeParts, d.paths.Nodup := by decide
  obtain ⟨hfold, hgroups, hpairing, -⟩ := mergeAll_gathers threeParts hparts
  exact ⟨hparts, hfold, hgroups.trans (by decide), hpairing _ rfl⟩

end LintDigest.Document
