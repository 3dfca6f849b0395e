import Mathlib.Data.List.Basic
import LintDigest.Path.Basic
import LintDigest.Proofs.Text.Bytes

/-!
# The order of paths

Paths are compared by their walks, component by component, and components by their kind and then by
their text. That is a linear order of the walks: paths that are equal in it are exactly those with
the same walk (`compare_eq_iff`), however they are written. Names come in the order of their bytes
(`Component.compare_name_iff`).
-/

namespace LintDigest.Path

open Std (LawfulEqCmp LawfulEqOrd OrientedCmp TransCmp)

/-! ## Components -/

namespace Component

/-- Components of one kind differ in their texts, if at all. -/
theorem compare_eq_compareLex (a b : Component) :
    a.compare b = compareLex (compareOn rank) (compareOn text) a b := by
  cases a <;> cases b <;> rfl

instance : TransCmp compare := by
  rw [show compare = _ from funext₂ compare_eq_compareLex]
  infer_instance

instance : LawfulEqCmp compare where
  eq_of_compare {a b} h := by
    rw [compare_eq_compareLex, compareLex_eq_eq] at h
    have hrank : a.rank = b.rank := LawfulEqOrd.eq_of_compare h.1
    have htext : a.text = b.text := LawfulEqOrd.eq_of_compare h.2
    cases a <;> cases b <;> simp_all [rank, text]

/-- Names are in the order of their bytes. -/
theorem compare_name_iff (s t : String) :
    (name s).compare (name t) = .lt ↔ Text.utf8 s < Text.utf8 t := by
  rw [Text.utf8_lt_iff]
  exact compareOfLessAndEq_eq_lt

end Component

/-! ## Walks -/

theorem walk_eq_compareLex (as bs : List Component) :
    compare.walk as bs = List.compareLex Component.compare as bs := by
  fun_induction compare.walk as bs with
  | case1 => rfl
  | case2 => rfl
  | case3 => rfl
  | case4 a as b bs ih =>
    rw [ih, List.compareLex_cons_cons]

instance : TransCmp compare.walk := by
  rw [show compare.walk = _ from funext₂ walk_eq_compareLex]
  infer_instance

instance : LawfulEqCmp compare.walk := by
  rw [show compare.walk = _ from funext₂ walk_eq_compareLex]
  infer_instance

/-- Paths are compared by their walks. -/
theorem compare_eq_walk (p q : Path) : p.compare q = compare.walk p.components q.components := rfl

instance : TransCmp compare where
  eq_swap := by
    intro p q
    rw [compare_eq_walk, compare_eq_walk]
    exact OrientedCmp.eq_swap
  isLE_trans := by
    intro p q r hpq hqr
    rw [compare_eq_walk] at hpq hqr ⊢
    exact TransCmp.isLE_trans hpq hqr

variable {p q : Path}

/-- Paths are equal in this order just if they have the same walk. -/
theorem compare_eq_iff : p.compare q = .eq ↔ p.components = q.components := by
  rw [compare_eq_walk, LawfulEqCmp.compare_eq_iff_eq]

/-- Two paths are in order one way or the other. -/
theorem isLE_or_isLE (p q : Path) : ((p.compare q).isLE || (q.compare p).isLE) = true := by
  have hswap : q.compare p = (p.compare q).swap := OrientedCmp.eq_swap
  rw [hswap]
  cases p.compare q <;> rfl

end LintDigest.Path
