import LintDigest.Path.Basic

/-!
# Relative paths

`walkTo` is the walk from a directory to a target, found by comparing the two paths component by
component. `relativeText` is that walk as a link.
-/

namespace LintDigest.Path

/-- The walk from a directory to a target, behind the steps already taken. Shared components are
skipped until the first step is taken. A `..` of the directory cannot be undone: then there is no
walk. -/
def stepsTo : (target base taken : List Component) → Option (List Component)
  | [], [], taken => some taken
  | as, [], taken => some (taken ++ as)
  | [], _ :: bs, taken => stepsTo [] bs (taken ++ [.up])
  | a :: as, b :: bs, taken =>
    if taken = [] ∧ a = b then stepsTo as bs taken
    else if b = .here then stepsTo as bs (taken ++ [a])
    else if b = .up then none
    else some (taken ++ .up :: bs.map (fun _ => .up) ++ a :: as)

/-- The path of `target` as seen from the directory `base`, if there is one. An absolute target is
its own path as seen from a relative directory. -/
def walkTo (target base : Path) : Option Path :=
  if target.isAbsolute = base.isAbsolute then
    (stepsTo target.components base.components []).map fun steps =>
      steps.foldl (fun p c => p.join ⟨c.text⟩) ⟨""⟩
  else if target.isAbsolute then some target
  else none

/-- The walk from `base` to `target` as a text with `/` between its components; the target itself
is written that way when there is no walk. -/
def relativeText (target base : Path) : String :=
  "/".intercalate (((walkTo target base).getD target).components.map Component.text)

end LintDigest.Path
