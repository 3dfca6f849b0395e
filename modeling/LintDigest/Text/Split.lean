/-!
# Cutting and gluing character lists

`split` cuts a text at every character of a class and `glue` puts a separator between pieces.
`glue_split` says that cutting at one character and gluing with it gives the text back.
-/

namespace LintDigest.Text

/-- The pieces between the characters of the class `p`; there is always at least one. -/
def split (p : Char → Bool) : List Char → List (List Char)
  | [] => [[]]
  | c :: cs =>
    if p c then [] :: split p cs
    else match split p cs with
      | [] => [[c]]
      | w :: ws => (c :: w) :: ws

/-- The pieces with `sep` between neighbours. -/
def glue (sep : List Char) : List (List Char) → List Char
  | [] => []
  | [w] => w
  | w :: v :: ws => w ++ sep ++ glue sep (v :: ws)

/-- The rest of a text after `lead`, if the text starts with it. -/
def after? : (lead : List Char) → List Char → Option (List Char)
  | [], cs => some cs
  | _ :: _, [] => none
  | l :: lead, c :: cs => if l = c then after? lead cs else none

/-- The text before the first occurrence of `mark`, and the text behind it. -/
def cutAt? (mark : List Char) : List Char → Option (List Char × List Char)
  | [] => if mark = [] then some ([], []) else none
  | c :: cs =>
    match after? mark (c :: cs) with
    | some rest => some ([], rest)
    | none => (cutAt? mark cs).map fun (before, rest) => (c :: before, rest)

theorem split_ne_nil (p : Char → Bool) (cs : List Char) : split p cs ≠ [] := by
  cases cs with
  | nil => simp [split]
  | cons c cs =>
    rw [split]
    split
    · simp
    · split <;> simp

theorem glue_split (sep : Char) (cs : List Char) : glue [sep] (split (· == sep) cs) = cs := by
  induction cs with
  | nil => rfl
  | cons c cs ih =>
    rw [split]
    split
    · next h =>
      have hc : c = sep := by simpa using h
      cases hs : split (· == sep) cs with
      | nil => exact absurd hs (split_ne_nil _ _)
      | cons w ws => rw [hs] at ih; simp [glue, ih, hc]
    · cases hs : split (· == sep) cs with
      | nil => exact absurd hs (split_ne_nil _ _)
      | cons w ws =>
        rw [hs] at ih
        cases ws with
        | nil => simpa [glue] using ih
        | cons v vs => simpa [glue] using ih

theorem after?_eq_some {lead cs rest : List Char} (h : after? lead cs = some rest) :
    cs = lead ++ rest := by
  induction lead generalizing cs with
  | nil => simpa [after?] using h
  | cons l lead ih =>
    cases cs with
    | nil => simp [after?] at h
    | cons c cs =>
      rw [after?] at h
      split at h
      · next hl => rw [hl, ih h]; rfl
      · cases h

@[simp] theorem after?_append (lead rest : List Char) : after? lead (lead ++ rest) = some rest := by
  induction lead with
  | nil => cases rest <;> rfl
  | cons l lead ih => simpa [after?] using ih

end LintDigest.Text
