import LintDigest.Document.Basic

/-!
# Merging documents

`merge` unites the file groups of two documents; groups of one path are concatenated, the left one
first, and nothing is dropped or reordered. `mergeAll` merges neighbours pairwise, level by level,
until one document is left.
-/

namespace LintDigest.Document

/-- The groups of `a`, then those of `b`, with groups of one path joined. -/
def merge (a b : Document) : Document :=
  if b.groups.isEmpty then a
  else if a.groups.isEmpty then b
  else b.groups.foldl pushGroup a

/-- One level of merging: neighbours are merged in pairs and an odd last document is kept. -/
def mergePairs : List Document → List Document
  | a :: b :: rest => merge a b :: mergePairs rest
  | rest => rest

theorem length_mergePairs_le (ds : List Document) : (mergePairs ds).length ≤ ds.length := by
  fun_induction mergePairs ds with
  | case1 a b rest ih =>
    simp only [List.length_cons]
    omega
  | case2 => exact Nat.le_refl _

/-- All documents merged into one; no documents give the empty one. -/
def mergeAll : List Document → Document
  | [] => {}
  | [d] => d
  | a :: b :: rest => mergeAll (merge a b :: mergePairs rest)
  termination_by ds => ds.length
  decreasing_by
    have := length_mergePairs_le rest
    simp only [List.length_cons]
    omega

end LintDigest.Document
