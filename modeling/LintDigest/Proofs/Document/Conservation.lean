import LintDigest.Gate
import LintDigest.Proofs.Document.Counts

/-!
# Merging loses nothing

Whatever documents are merged, also documents that name a path twice, the located diagnostics of the
merge are theirs, in another order (`perm_entries_mergeAll`). Everything that only counts diagnostics
follows: the three totals, the number of diagnostics, whether there are any, and the verdict of the
gate.
-/

namespace LintDigest

namespace Document

/-! ## The diagnostics of a merge -/

/-- Every diagnostic of some groups with its path. -/
def spread (gs : List FileGroup) : List (String × Diagnostic) :=
  gs.flatMap fun g => g.diagnostics.map fun x => (g.path, x)

theorem spread_cons (g : FileGroup) (gs : List FileGroup) :
    spread (g :: gs) = spread [g] ++ spread gs := by
  simp [spread]

theorem perm_spread_addGroup (gs : List FileGroup) (g : FileGroup) :
    (spread (addGroup gs g)).Perm (spread gs ++ spread [g]) := by
  induction gs with
  | nil => exact .refl _
  | cons h gs ih =>
    rw [addGroup, spread_cons h gs, List.append_assoc]
    split
    · next hpath =>
      -- What joins the first group stands before the other groups now.
      have hjoined : spread [{ h with diagnostics := h.diagnostics ++ g.diagnostics }] =
          spread [h] ++ spread [g] := by
        simp [spread, hpath]
      rw [spread_cons, hjoined, List.append_assoc]
      exact List.perm_append_comm.append_left _
    · rw [spread_cons h]
      exact ih.append_left _

theorem perm_spread_foldl (gs hs : List FileGroup) :
    (spread (gs.foldl addGroup hs)).Perm (spread hs ++ spread gs) := by
  induction gs generalizing hs with
  | nil => simp [spread]
  | cons g gs ih =>
    rw [List.foldl_cons, spread_cons g gs, ← List.append_assoc]
    exact (ih _).trans ((perm_spread_addGroup hs g).append_right _)

/-- Two documents are merged without a loss, whatever paths they name. -/
theorem perm_entries_merge (a b : Document) :
    (a.merge b).entries.Perm (a.entries ++ b.entries) := by
  rw [merge]
  split
  · next hb => simp [entries, List.isEmpty_iff.1 hb]
  · split
    · next ha => simp [entries, List.isEmpty_iff.1 ha]
    · change (spread (b.groups.foldl pushGroup a).groups).Perm _
      rw [groups_foldl_pushGroup]
      exact perm_spread_foldl _ _

/-- One level of merging keeps all diagnostics. -/
theorem perm_entries_mergePairs (ds : List Document) :
    ((mergePairs ds).flatMap entries).Perm (ds.flatMap entries) := by
  fun_induction mergePairs ds with
  | case1 a b rest ih =>
    rw [List.flatMap_cons, List.flatMap_cons, List.flatMap_cons, ← List.append_assoc]
    exact (perm_entries_merge a b).append ih
  | case2 rest => exact .refl _

theorem perm_entries_mergeAll (ds : List Document) :
    (mergeAll ds).entries.Perm (ds.flatMap entries) := by
  fun_induction mergeAll ds with
  | case1 => exact .refl _
  | case2 d => simp
  | case3 a b rest ih => exact ih.trans (perm_entries_mergePairs (a :: b :: rest))

/-! ## The diagnostics of a document that groups a list -/

theorem groups_ofEntries_eq_foldl (es : List (String × Diagnostic)) :
    (ofEntries es).groups = (es.map fun e => ⟨e.1, [e.2]⟩).foldl addGroup [] := by
  have hfold : ofEntries es = (es.map fun e => ⟨e.1, [e.2]⟩).foldl pushGroup {} := by
    rw [List.foldl_map]
    rfl
  rw [hfold, groups_foldl_pushGroup]

theorem perm_entries_ofEntries (es : List (String × Diagnostic)) :
    (ofEntries es).entries.Perm es := by
  have hsingle : spread (es.map fun e => ⟨e.1, [e.2]⟩) = es := by
    rw [spread, List.flatMap_map]
    exact List.flatMap_singleton' es
  have hperm := perm_spread_foldl (es.map fun e => ⟨e.1, [e.2]⟩) []
  rw [← groups_ofEntries_eq_foldl, hsingle] at hperm
  exact hperm

/-! ## What only counts diagnostics -/

theorem count_eq (d : Document) (s : Severity) : d.count s = d.counts.get s := by
  rw [counts_get_entries, count, List.countP_eq_length_filter]

theorem total_counts (d : Document) :
    d.counts.errors + d.counts.warnings + d.counts.infos = d.entries.length := by
  have hget : d.counts.errors + d.counts.warnings + d.counts.infos =
      d.counts.get .error + d.counts.get .warning + d.counts.get .info := rfl
  rw [hget, counts_get_entries, counts_get_entries, counts_get_entries]
  induction d.entries with
  | nil => rfl
  | cons e es ih =>
    simp only [List.countP_cons, List.length_cons, ← ih]
    cases e.2.severity <;> simp <;> omega

theorem isEmpty_iff (d : Document) : d.isEmpty = true ↔ d.entries = [] := by
  simp [isEmpty, entries]

theorem size_eq (d : Document) : d.size = d.entries.length := by
  have hfold : ∀ n, d.groups.foldl (fun n g => n + g.diagnostics.length) n =
      n + (spread d.groups).length := by
    induction d.groups with
    | nil => exact fun _ => rfl
    | cons g gs ih =>
      intro n
      rw [List.foldl_cons, ih]
      simp [spread, Nat.add_assoc]
  rw [size, hfold, Nat.zero_add]
  rfl

/-- The totals of a merge are the sums of the totals. -/
theorem counts_get_mergeAll (ds : List Document) (s : Severity) :
    (mergeAll ds).counts.get s = (ds.map fun d => d.counts.get s).sum := by
  rw [counts_get_entries, (perm_entries_mergeAll ds).countP_eq, List.countP_flatMap]
  congr 1
  exact List.map_congr_left fun d _ => (counts_get_entries d s).symm

end Document

/-! ## The gate -/

namespace Thresholds

/-- The enabled severities that a document shows, the worst first, with their counts. -/
def violations (t : Thresholds) (d : Document) : List (Severity × Nat) :=
  (Severity.all.map fun s => (s, d.counts.get s)).filter
    fun v => t.enabled v.1 && decide (0 < v.2)

theorem judge_eq (t : Thresholds) (d : Document) :
    t.judge d = if (t.violations d).isEmpty then Option.none else some ⟨t.violations d⟩ := by
  have hviolations : ((Severity.all.filter t.enabled).map fun s => (s, d.counts.get s)).filter
      (fun v => decide (0 < v.2)) = t.violations d := by
    simp [violations, List.filter_map, Function.comp_def, List.filter_filter, Bool.and_comm]
  rw [← hviolations]
  rfl

theorem mem_violations {t : Thresholds} {d : Document} {v : Severity × Nat} :
    v ∈ t.violations d ↔ t.enabled v.1 = true ∧ 0 < v.2 ∧ v.2 = d.counts.get v.1 := by
  obtain ⟨s, n⟩ := v
  have hall : s ∈ Severity.all := by cases s <;> decide
  simp only [violations, List.mem_filter, List.mem_map, Prod.mk.injEq, Bool.and_eq_true,
    decide_eq_true_eq]
  constructor
  · rintro ⟨⟨_, -, rfl, rfl⟩, henabled, hpos⟩
    exact ⟨henabled, hpos, rfl⟩
  · rintro ⟨henabled, hpos, rfl⟩
    exact ⟨⟨s, hall, rfl, rfl⟩, henabled, hpos⟩

theorem isSome_judge (t : Thresholds) (d : Document) :
    (t.judge d).isSome ↔ ∃ s, t.enabled s = true ∧ 0 < d.counts.get s := by
  have hsome : (t.judge d).isSome ↔ ∃ v, v ∈ t.violations d := by
    rw [judge_eq, ← List.isEmpty_eq_false_iff_exists_mem]
    cases (t.violations d).isEmpty <;> simp
  rw [hsome]
  constructor
  · rintro ⟨v, hv⟩
    obtain ⟨henabled, hpos, hcount⟩ := mem_violations.1 hv
    exact ⟨v.1, henabled, hcount ▸ hpos⟩
  · rintro ⟨s, henabled, hpos⟩
    exact ⟨(s, d.counts.get s), mem_violations.2 ⟨henabled, hpos, rfl⟩⟩

theorem violations_judge (t : Thresholds) (d : Document) :
    (t.judge d).elim [] GateFailure.violations = t.violations d := by
  rw [judge_eq]
  split
  · next hnone => exact (List.isEmpty_iff.1 hnone).symm
  · rfl

end Thresholds

/-- Merging drops no diagnostic and invents none, whatever the documents look like. So the totals of a
merge are the sums of the totals, all ways of counting agree on them, and the gate fails a merge when
it fails one of the documents, for every enabled severity that any document shows, the worst first. -/
theorem mergeAll_conserves (ds : List Document) (t : Thresholds) :
    (Document.mergeAll ds).entries.Perm (ds.flatMap Document.entries) ∧
      (∀ s, (Document.mergeAll ds).counts.get s = (ds.map fun d => d.counts.get s).sum ∧
        (Document.mergeAll ds).count s = (Document.mergeAll ds).counts.get s) ∧
      (Document.mergeAll ds).size = (Document.mergeAll ds).counts.errors +
        (Document.mergeAll ds).counts.warnings + (Document.mergeAll ds).counts.infos ∧
      ((Document.mergeAll ds).isEmpty = true ↔ (Document.mergeAll ds).counts.errors +
        (Document.mergeAll ds).counts.warnings + (Document.mergeAll ds).counts.infos = 0) ∧
      ((t.judge (Document.mergeAll ds)).isSome ↔ ∃ d ∈ ds, (t.judge d).isSome) ∧
      (t.judge (Document.mergeAll ds)).elim [] GateFailure.violations =
        ([.error, .warning, .info].map fun s => (s, (ds.map fun d => d.counts.get s).sum)).filter
          fun v => t.enabled v.1 && decide (0 < v.2) := by
  have hsum := Document.counts_get_mergeAll ds
  refine ⟨Document.perm_entries_mergeAll ds, fun s => ⟨hsum s, Document.count_eq _ s⟩, ?_, ?_, ?_, ?_⟩
  · rw [Document.size_eq, Document.total_counts]
  · rw [Document.isEmpty_iff, Document.total_counts, List.length_eq_zero_iff]
  · simp only [Thresholds.isSome_judge, hsum, List.sum_pos_iff_exists_pos_nat, List.mem_map]
    constructor
    · rintro ⟨s, henabled, _, ⟨d, hd, rfl⟩, hpos⟩
      exact ⟨d, hd, s, henabled, hpos⟩
    · rintro ⟨d, hd, s, henabled, hpos⟩
      exact ⟨s, henabled, _, ⟨d, hd, rfl⟩, hpos⟩
  · simp only [Thresholds.violations_judge, Thresholds.violations, hsum]
    rfl

end LintDigest
