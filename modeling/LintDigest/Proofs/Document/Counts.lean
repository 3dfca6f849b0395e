import Mathlib.Algebra.GroupWithZero.Nat
import LintDigest.Proofs.Document.Merge

/-!
# Counts of merged documents

Merging moves diagnostics from one group to another and drops none, so counts add up.
-/

namespace LintDigest.Document

/-- The diagnostics of one severity among those of some groups. -/
def countIn (s : Severity) (gs : List FileGroup) : Nat :=
  (gs.map fun g => g.diagnostics.countP (·.severity = s)).sum

theorem get_foldl_tally (s : Severity) (es : List (String × Diagnostic)) (c : Counts) :
    (es.foldl (fun c e => c.tally e.2.severity) c).get s =
      c.get s + es.countP (·.2.severity = s) := by
  induction es generalizing c with
  | nil => rfl
  | cons e es ih =>
    have htally : (c.tally e.2.severity).get s =
        c.get s + if e.2.severity = s then 1 else 0 := by
      cases e.2.severity <;> cases s <;> simp [Counts.tally, Counts.get]
    rw [List.foldl_cons, ih, htally, List.countP_cons]
    simp only [decide_eq_true_eq]
    omega

theorem counts_get_entries (d : Document) (s : Severity) :
    d.counts.get s = d.entries.countP (·.2.severity = s) := by
  have hfiles : d.counts.get s =
      (d.entries.foldl (fun c e => c.tally e.2.severity) ({} : Counts)).get s := by
    cases s <;> rfl
  have hempty : ({} : Counts).get s = 0 := by cases s <;> rfl
  rw [hfiles, get_foldl_tally, hempty, Nat.zero_add]

theorem counts_get (d : Document) (s : Severity) : d.counts.get s = countIn s d.groups := by
  rw [counts_get_entries, entries, countIn, List.countP_flatMap]
  congr 1
  apply List.map_congr_left
  intro g _
  simp [List.countP_map, Function.comp_def]

theorem countIn_addGroup (s : Severity) (gs : List FileGroup) (g : FileGroup) :
    countIn s (addGroup gs g) = countIn s gs + g.diagnostics.countP (·.severity = s) := by
  induction gs with
  | nil => simp [addGroup, countIn]
  | cons h gs ih =>
    unfold countIn at ih ⊢
    rw [addGroup]
    split
    · simp
      omega
    · simp [ih]
      omega

theorem countIn_foldl_addGroup (s : Severity) (gs hs : List FileGroup) :
    countIn s (gs.foldl addGroup hs) = countIn s hs + countIn s gs := by
  induction gs generalizing hs with
  | nil => simp [countIn]
  | cons g gs ih =>
    rw [List.foldl_cons, ih, countIn_addGroup]
    simp [countIn]
    omega

theorem counts_merge (a : Document) {b : Document} (hb : b.paths.Nodup) (s : Severity) :
    (a.merge b).counts.get s = a.counts.get s + b.counts.get s := by
  rw [counts_get, counts_get, counts_get, groups_merge a hb, countIn_foldl_addGroup]

/-- What all documents count together is what their merge counts. -/
theorem counts_mergeAll {ds : List Document} (h : ∀ d ∈ ds, d.paths.Nodup) (s : Severity) :
    (mergeAll ds).counts.get s = (ds.map (·.counts.get s)).sum := by
  have hfold : ∀ a : Document, (ds.foldl merge a).counts.get s =
      a.counts.get s + (ds.map (·.counts.get s)).sum := by
    induction ds with
    | nil => simp
    | cons d ds ih =>
      intro a
      obtain ⟨hd, hds⟩ := List.forall_mem_cons.1 h
      rw [List.foldl_cons, ih hds, counts_merge a hd]
      simp
      omega
  have hempty : ({} : Document).counts.get s = 0 := by cases s <;> rfl
  rw [mergeAll_eq_foldl h, hfold, hempty, Nat.zero_add]

end LintDigest.Document
