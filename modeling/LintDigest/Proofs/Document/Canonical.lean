import LintDigest.Proofs.Document.Codec
import LintDigest.Proofs.Document.Merge

/-!
# Canonical documents

A canonical document names each path once and can be written. It is read back as it is, and
whatever is pushed or merged from canonical documents is canonical.
-/

namespace LintDigest.Document

/-- A document that is read back as it was written. -/
def Canonical (d : Document) : Prop :=
  d.paths.Nodup ∧ d.Allowed

instance (d : Document) : Decidable d.Canonical := inferInstanceAs (Decidable (_ ∧ _))

theorem Canonical.ofXml_eq {d : Document} (h : d.Canonical) (origin : Path) :
    ofXml origin d.toXml = .ok d := by
  rw [ofXml_toXml_eq, if_pos h.2, regroup_eq_self h.1]

theorem canonical_empty : Canonical {} :=
  ⟨List.nodup_nil, fun _ h => by cases h⟩

theorem allowed_addGroup {gs : List FileGroup} {g : FileGroup} (hgs : ∀ k ∈ gs, k.Allowed)
    (hg : g.Allowed) : ∀ k ∈ addGroup gs g, k.Allowed := by
  refine forall_mem_addGroup (fun k hk => ⟨hk.1, ?_⟩) hgs hg
  exact List.forall_mem_append.2 ⟨hk.2, hg.2⟩

theorem canonical_pushGroup {d : Document} {g : FileGroup} (hd : d.Canonical) (hg : g.Allowed) :
    (d.pushGroup g).Canonical :=
  ⟨nodup_addGroup g hd.1, allowed_addGroup hd.2 hg⟩

theorem canonical_foldl_pushGroup {gs : List FileGroup} {d : Document} (hd : d.Canonical)
    (hgs : ∀ g ∈ gs, g.Allowed) : (gs.foldl pushGroup d).Canonical := by
  induction gs generalizing d with
  | nil => exact hd
  | cons g gs ih =>
    have hcons := List.forall_mem_cons.1 hgs
    exact ih (canonical_pushGroup hd hcons.1) hcons.2

theorem canonical_merge {a b : Document} (ha : a.Canonical) (hb : b.Canonical) :
    (a.merge b).Canonical := by
  have hfold : a.merge b = b.groups.foldl pushGroup a := by
    refine ext_groups ?_
    rw [groups_merge a hb.1, groups_foldl_pushGroup]
  rw [hfold]
  exact canonical_foldl_pushGroup ha hb.2

theorem canonical_foldl_merge {ds : List Document} {d : Document} (hd : d.Canonical)
    (hds : ∀ x ∈ ds, x.Canonical) : (ds.foldl merge d).Canonical := by
  induction ds generalizing d with
  | nil => exact hd
  | cons x xs ih =>
    have hcons := List.forall_mem_cons.1 hds
    exact ih (canonical_merge hd hcons.1) hcons.2

theorem canonical_mergeAll {ds : List Document} (h : ∀ d ∈ ds, d.Canonical) :
    (mergeAll ds).Canonical := by
  rw [mergeAll_eq_foldl fun d hd => (h d hd).1]
  exact canonical_foldl_merge canonical_empty h

theorem mergeAll_concat {ds : List Document} {d : Document} (hds : ∀ x ∈ ds, x.Canonical)
    (hd : d.Canonical) : mergeAll (ds ++ [d]) = (mergeAll ds).merge d := by
  rw [mergeAll_append (fun x hx => (hds x hx).1) (List.forall_mem_singleton.2 hd.1), mergeAll]

end LintDigest.Document
