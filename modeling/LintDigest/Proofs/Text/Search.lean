import Mathlib.Data.List.Infix
import LintDigest.Proofs.Text.Split

/-!
# Looking for a mark

A text is clear of a mark if the mark begins nowhere in it, whatever follows. Clear texts can be put
together (`ClearOf.append`), and whoever looks for the mark looks past them.
-/

namespace LintDigest.Text

variable {mark xs ys cs : List Char} {c : Char}

/-- The mark begins nowhere in `xs`, whatever follows `xs`. -/
def ClearOf (mark xs : List Char) : Prop :=
  ∀ ys ∈ xs.tails, ys ≠ [] → ¬ mark <+: ys ∧ ¬ ys <+: mark

instance (mark xs : List Char) : Decidable (ClearOf mark xs) :=
  inferInstanceAs (Decidable (∀ _ ∈ _, _))

/-- The number of places of a text at which the mark begins. -/
def occurrences (mark cs : List Char) : Nat :=
  cs.tails.countP (mark.isPrefixOf ·)

theorem clearOf_cons :
    ClearOf mark (c :: cs) ↔ (¬ mark <+: c :: cs ∧ ¬ c :: cs <+: mark) ∧ ClearOf mark cs := by
  simp [ClearOf]

theorem ClearOf.not_prefix (h : ClearOf mark (c :: xs)) (ys : List Char) :
    ¬ mark <+: c :: (xs ++ ys) := by
  obtain ⟨⟨hmark, hrest⟩, -⟩ := clearOf_cons.1 h
  intro hprefix
  rcases List.prefix_or_prefix_of_prefix hprefix (List.prefix_append (c :: xs) ys) with h | h
  · exact hmark h
  · exact hrest h

theorem ClearOf.append (hx : ClearOf mark xs) (hy : ClearOf mark ys) :
    ClearOf mark (xs ++ ys) := by
  induction xs with
  | nil => exact hy
  | cons c xs ih =>
    obtain ⟨⟨-, hrest⟩, hxs⟩ := clearOf_cons.1 hx
    rw [List.cons_append, clearOf_cons]
    refine ⟨⟨hx.not_prefix ys, ?_⟩, ih hxs⟩
    intro h
    exact hrest ((List.prefix_append (c :: xs) ys).trans h)

/-- A text that lacks the first character of a mark is clear of the mark. -/
theorem clearOf_of_notMem {m : Char} {ms : List Char} (h : m ∉ xs) : ClearOf (m :: ms) xs := by
  induction xs with
  | nil => simp [ClearOf]
  | cons c xs ih =>
    simp only [List.mem_cons, not_or] at h
    rw [clearOf_cons]
    simp [List.cons_prefix_cons, h.1, Ne.symm h.1, ih h.2]

theorem after?_eq_none_iff : after? mark cs = none ↔ ¬ mark <+: cs := by
  constructor
  · rintro h ⟨rest, rfl⟩
    rw [after?_append] at h
    cases h
  · intro h
    cases hafter : after? mark cs with
    | none => rfl
    | some rest => exact absurd ⟨rest, (after?_eq_some hafter).symm⟩ h

/-- The mark is looked for behind a clear text. -/
theorem cutAt?_append (h : ClearOf mark xs) (ys : List Char) :
    cutAt? mark (xs ++ ys) = (cutAt? mark ys).map fun cut => (xs ++ cut.1, cut.2) := by
  induction xs with
  | nil => simp
  | cons c xs ih =>
    rw [List.cons_append, cutAt?, after?_eq_none_iff.2 (h.not_prefix ys)]
    simp [ih (clearOf_cons.1 h).2, Function.comp_def]

theorem cutAt?_self (hmark : mark ≠ []) (ys : List Char) :
    cutAt? mark (mark ++ ys) = some ([], ys) := by
  obtain ⟨m, ms, rfl⟩ := List.exists_cons_of_ne_nil hmark
  have hafter : after? (m :: ms) (m :: (ms ++ ys)) = some ys := after?_append (m :: ms) ys
  rw [List.cons_append, cutAt?, hafter]

theorem occurrences_append (h : ClearOf mark xs) (ys : List Char) :
    occurrences mark (xs ++ ys) = occurrences mark ys := by
  induction xs with
  | nil => rfl
  | cons c xs ih =>
    have hnot : ¬ mark.isPrefixOf (c :: (xs ++ ys)) = true := by
      rw [List.isPrefixOf_iff_prefix]
      exact h.not_prefix ys
    rw [List.cons_append, occurrences, List.tails_cons, List.countP_cons_of_neg hnot]
    exact ih (clearOf_cons.1 h).2

end LintDigest.Text
