import Mathlib.Data.List.Basic
import LintDigest.Text.Markup

/-!
# Escaping is one substitution

The eight passes of `escape` do what one pass does that replaces every character by its own
reference (`toList_escape`): no pass touches what an earlier pass wrote. Everything else about
escaped text is read off one character at a time.
-/

namespace LintDigest.Markup

/-- What one character is written as. -/
def reference (c : Char) : List Char :=
  ((references.lookup c).map String.toList).getD [c]

/-- The characters that are written as references. -/
def IsSpecial (c : Char) : Prop := c ∈ references.map (·.1)

instance (c : Char) : Decidable (IsSpecial c) := inferInstanceAs (Decidable (_ ∈ _))

/-- All passes over a text. -/
def passes (refs : List (Char × String)) (cs : List Char) : List Char :=
  refs.foldl (fun cs p => substitute p.1 p.2 cs) cs

theorem passes_cons (p : Char × String) (refs : List (Char × String)) (cs : List Char) :
    passes (p :: refs) cs = passes refs (substitute p.1 p.2 cs) := rfl

/-- A pass works character by character, and so do all passes together. -/
theorem passes_flatMap (refs : List (Char × String)) (f : Char → List Char) (cs : List Char) :
    passes refs (cs.flatMap f) = cs.flatMap fun c => passes refs (f c) := by
  induction refs generalizing f with
  | nil => rfl
  | cons p refs ih =>
    simp only [passes_cons, substitute, List.flatMap_assoc]
    exact ih _

/-- A character that no pass looks for comes through. -/
theorem passes_of_notMem (refs : List (Char × String)) (c : Char) (h : c ∉ refs.map (·.1)) :
    passes refs [c] = [c] := by
  induction refs with
  | nil => rfl
  | cons p refs ih =>
    simp only [List.map_cons, List.mem_cons, not_or] at h
    rw [passes_cons, show substitute p.1 p.2 [c] = [c] by simp [substitute, h.1]]
    exact ih h.2

theorem reference_of_not_special {c : Char} (h : ¬ IsSpecial c) : reference c = [c] := by
  have hn : references.lookup c = none := by
    rw [List.lookup_eq_none_iff]
    intro p hp
    simp only [bne_iff_ne, ne_eq]
    rintro rfl
    exact h (List.mem_map_of_mem hp)
  simp [reference, hn]

theorem passes_references (c : Char) : passes references [c] = reference c := by
  by_cases h : IsSpecial c
  · have all : ∀ r ∈ references, passes references [r.1] = reference r.1 := by decide
    obtain ⟨r, hr, rfl⟩ := List.mem_map.1 h
    exact all r hr
  · rw [passes_of_notMem references c h, reference_of_not_special h]

/-- The eight passes together replace each character by its reference. -/
theorem toList_escape (s : String) : (escape s).toList = s.toList.flatMap reference := by
  have h := passes_flatMap references (fun c => [c]) s.toList
  rw [List.flatMap_singleton'] at h
  simp only [escape, String.toList_ofList]
  exact h.trans (by simp only [passes_references])

/-- A text without special characters is written as it is. -/
theorem escape_eq_self {s : String} (h : ∀ c ∈ s.toList, ¬ IsSpecial c) : escape s = s := by
  rw [← String.toList_inj, toList_escape]
  calc s.toList.flatMap reference = s.toList.flatMap fun c => [c] :=
        List.flatMap_congr fun c hc => reference_of_not_special (h c hc)
    _ = s.toList := List.flatMap_singleton' _

/-- What holds of every plain character and of every character of a reference holds of escaped
text. -/
theorem forall_mem_escape {p : Char → Prop} {s : String}
    (plain : ∀ c ∈ s.toList, ¬ IsSpecial c → p c)
    (special : ∀ c, IsSpecial c → ∀ x ∈ reference c, p x) :
    ∀ x ∈ (escape s).toList, p x := by
  intro x hx
  rw [toList_escape] at hx
  obtain ⟨c, hc, hx⟩ := List.mem_flatMap.1 hx
  by_cases h : IsSpecial c
  · exact special c h x hx
  · rw [reference_of_not_special h, List.mem_singleton] at hx
    exact hx ▸ plain c hc h

/-- Only the ampersand of a reference is left of the special characters. -/
theorem notMem_escape {x : Char} (hx : IsSpecial x) (hne : x ≠ '&') (s : String) :
    x ∉ (escape s).toList := by
  have hall : ∀ r ∈ references, ∀ q ∈ references, q.1 ≠ '&' → q.1 ∉ reference r.1 := by decide
  intro hmem
  refine forall_mem_escape (p := (· ≠ x)) ?_ ?_ x hmem rfl
  · rintro c - hplain rfl
    exact hplain hx
  · intro c hc y hy
    obtain ⟨r, hr, rfl⟩ := List.mem_map.1 hc
    obtain ⟨q, hq, rfl⟩ := List.mem_map.1 hx
    exact ne_of_mem_of_not_mem hy (hall r hr q hq hne)

end LintDigest.Markup
