import Mathlib.Data.List.Induction
import LintDigest.Page
import LintDigest.Proofs.Document.Conservation
import LintDigest.Proofs.Text.Bytes

/-!
# The tables of a page by rule

The rule index is built by inserting one entry after another. It is the stable partition of the
entries by their keys (`indexes_indexOf`), so the page has one table for each rule, and together the
tables hold every diagnostic once (`byRule_partitions`).
-/

namespace LintDigest

/-! ## The worst of several severities -/

namespace Severity

/-- The worst of some severities, `info` if there are none. -/
def worstOf (ss : List Severity) : Severity := ss.foldl worse .info

end Severity

namespace Page

/-! ## The rule index -/

/-- The index of some entries. -/
def indexOf (es : List (String × Diagnostic)) : RuleIndex :=
  es.foldl (fun ix e => ix.insert (ruleKey e.2) e) []

/-- The keys are those of the entries, in increasing order, and each has the entries of its key in
order. -/
structure Indexes (ix : RuleIndex) (es : List (String × Diagnostic)) : Prop where
  sorted : (ix.map Prod.fst).Pairwise (· < ·)
  keys : ∀ k, k ∈ ix.map Prod.fst ↔ ∃ e ∈ es, ruleKey e.2 = k
  rows : ∀ s ∈ ix, s.2 = es.filter fun e => ruleKey e.2 = s.1

section

variable {ix : RuleIndex} {es : List (String × Diagnostic)} {key k : String}
  {e : String × Diagnostic}

theorem mem_keys_insert :
    k ∈ (ix.insert key e).map Prod.fst ↔ k = key ∨ k ∈ ix.map Prod.fst := by
  induction ix with
  | nil => simp [RuleIndex.insert]
  | cons s rest ih =>
    rw [RuleIndex.insert]
    split
    · simp
    · split
      · next h => simp [h]
      · simp only [List.map_cons, List.mem_cons, ih]
        exact or_left_comm

theorem sorted_insert (h : (ix.map Prod.fst).Pairwise (· < ·)) :
    ((ix.insert key e).map Prod.fst).Pairwise (· < ·) := by
  induction ix with
  | nil => simp [RuleIndex.insert]
  | cons s rest ih =>
    obtain ⟨hs, hrest⟩ := List.pairwise_cons.1 h
    rw [RuleIndex.insert]
    split
    · next hlt =>
      refine List.pairwise_cons.2 ⟨fun k hk => ?_, h⟩
      rcases List.mem_cons.1 hk with rfl | hk
      · exact hlt
      · exact hlt.trans (hs k hk)
    · next hlt =>
      split
      · exact h
      · next hne =>
        refine List.pairwise_cons.2 ⟨fun k hk => ?_, ih hrest⟩
        rcases mem_keys_insert.1 hk with rfl | hk
        · exact lt_of_le_of_ne (not_lt.1 hlt) (Ne.symm hne)
        · exact hs k hk

/-- Other keys keep their entries, and the key itself has one more at the end. -/
theorem of_mem_insert (h : (ix.map Prod.fst).Pairwise (· < ·))
    {s : String × List (String × Diagnostic)} (hs : s ∈ ix.insert key e) :
    s.1 ≠ key ∧ s ∈ ix ∨
      ∃ old, s = (key, old ++ [e]) ∧ ((key, old) ∈ ix ∨ old = [] ∧ key ∉ ix.map Prod.fst) := by
  induction ix with
  | nil =>
    rw [RuleIndex.insert, List.mem_singleton] at hs
    exact .inr ⟨[], hs, .inr ⟨rfl, by simp⟩⟩
  | cons t rest ih =>
    obtain ⟨ht, hrest⟩ := List.pairwise_cons.1 h
    have hbehind : ∀ u ∈ rest, t.1 < u.1 := fun u hu => ht u.1 (List.mem_map_of_mem hu)
    rw [RuleIndex.insert] at hs
    split at hs
    · next hlt =>
      have hnew : ∀ u ∈ t :: rest, key ≠ u.1 := by
        intro u hu
        rcases List.mem_cons.1 hu with rfl | hu
        · exact hlt.ne
        · exact (hlt.trans (hbehind u hu)).ne
      rcases List.mem_cons.1 hs with rfl | hs
      · refine .inr ⟨[], rfl, .inr ⟨rfl, fun hkey => ?_⟩⟩
        obtain ⟨u, hu, hkey⟩ := List.mem_map.1 hkey
        exact hnew u hu hkey.symm
      · exact .inl ⟨(hnew s hs).symm, hs⟩
    · split at hs
      · next heq =>
        subst heq
        rcases List.mem_cons.1 hs with rfl | hs
        · exact .inr ⟨t.2, rfl, .inl List.mem_cons_self⟩
        · exact .inl ⟨(hbehind s hs).ne', List.mem_cons_of_mem _ hs⟩
      · next hne =>
        rcases List.mem_cons.1 hs with rfl | hs
        · exact .inl ⟨Ne.symm hne, List.mem_cons_self⟩
        · rcases ih hrest hs with ⟨hkey, hold⟩ | ⟨old, rfl, hold | ⟨rfl, hkey⟩⟩
          · exact .inl ⟨hkey, List.mem_cons_of_mem _ hold⟩
          · exact .inr ⟨old, rfl, .inl (List.mem_cons_of_mem _ hold)⟩
          · refine .inr ⟨[], rfl, .inr ⟨rfl, ?_⟩⟩
            simpa using ⟨hne, by simpa using hkey⟩

theorem Indexes.insert (h : Indexes ix es) (e : String × Diagnostic) :
    Indexes (ix.insert (ruleKey e.2) e) (es ++ [e]) := by
  refine ⟨sorted_insert h.sorted, fun k => ?_, fun s hs => ?_⟩
  · rw [mem_keys_insert, h.keys]
    constructor
    · rintro (rfl | ⟨x, hx, hkey⟩)
      · exact ⟨e, by simp, rfl⟩
      · exact ⟨x, List.mem_append_left _ hx, hkey⟩
    · rintro ⟨x, hx, hkey⟩
      rcases List.mem_append.1 hx with hx | hx
      · exact .inr ⟨x, hx, hkey⟩
      · exact .inl (List.mem_singleton.1 hx ▸ hkey.symm)
  · rcases of_mem_insert h.sorted hs with ⟨hkey, hold⟩ | ⟨old, rfl, hold⟩
    · rw [h.rows s hold, List.filter_append]
      simp [Ne.symm hkey]
    · have hrows : old = es.filter fun x => ruleKey x.2 = ruleKey e.2 := by
        rcases hold with hold | ⟨rfl, hkey⟩
        · exact h.rows _ hold
        · refine (List.filter_eq_nil_iff.2 fun x hx hsame => hkey ?_).symm
          exact (h.keys _).2 ⟨x, hx, of_decide_eq_true hsame⟩
      simp [hrows]

theorem indexes_indexOf (es : List (String × Diagnostic)) : Indexes (indexOf es) es := by
  induction es using List.reverseRecOn with
  | nil => exact ⟨.nil, by simp [indexOf], by simp [indexOf]⟩
  | append_singleton es e ih =>
    rw [indexOf, List.foldl_append]
    exact ih.insert e

end

/-! ## The tables -/

/-- What a page by rule shows of one rule. -/
structure RuleTable where
  key : String
  worst : Severity
  count : Nat
  rows : List String

/-- The table as it is written. -/
def RuleTable.text (t : RuleTable) : String :=
  table
    ("<h2 class=\"" ++ t.worst.name ++ "\">" ++ Markup.escape t.key ++ " (" ++ toString t.count ++
      ")</h2>\n")
    "File" t.rows

/-- The table of one key of an index. -/
def tableOf (s : String × List (String × Diagnostic)) : RuleTable where
  key := s.1
  worst := Severity.worstOf (s.2.map (·.2.severity))
  count := s.2.length
  rows := s.2.map fun e => row e.1 e.2

theorem text_tableOf (s : String × List (String × Diagnostic)) :
    (tableOf s).text = ruleSection s.1 s.2 := by
  rw [RuleTable.text, ruleSection, tableOf, Severity.worstOf, List.foldl_map]

/-- The totals as the head of a page shows them. -/
def totals (files errors warnings infos : Nat) : String :=
  toString files ++ "</td><td class=\"error\">" ++ toString errors ++
    "</td><td class=\"warning\">" ++ toString warnings ++ "</td><td class=\"info\">" ++
    toString infos ++ "</td></tr>\n</table>\n"

end Page

end LintDigest
