import LintDigest.Proofs.Text.Markup
import LintDigest.Proofs.Text.Search

/-!
# Reading references back

`expand` reads the references that escaping writes, and takes every other character as it stands.
What has been escaped is read back as it was, even if it looked like a reference before, so no two
texts are escaped alike (`escape_is_reversible_substitution`).
-/

namespace LintDigest.Markup

variable {c : Char} {cs rest after : List Char}

/-- The character of the reference that a text begins with, and the text behind the reference. -/
def leading? (cs : List Char) : Option (Char × List Char) :=
  references.findSome? fun (c, ref) => (Text.after? ref.toList cs).map fun rest => (c, rest)

theorem length_of_leading? (h : leading? cs = some (c, rest)) : rest.length < cs.length := by
  have hlong : ∀ r ∈ references, 0 < r.2.toList.length := by decide
  obtain ⟨r, hr, hafter⟩ := List.exists_of_findSome?_eq_some h
  obtain ⟨_, hrest, heq⟩ := Option.map_eq_some_iff.1 hafter
  cases heq
  rw [Text.after?_eq_some hrest, List.length_append]
  exact Nat.lt_add_of_pos_left (hlong r hr)

/-- A text with its references read from left to right. -/
def expandFrom : List Char → List Char
  | [] => []
  | c :: cs =>
    match _h : leading? (c :: cs) with
    | some (x, rest) => x :: expandFrom rest
    | none => c :: expandFrom cs
  termination_by cs => cs.length
  decreasing_by
    · exact length_of_leading? _h
    · exact Nat.lt_succ_self cs.length

/-- A text with its references read. -/
def expand (s : String) : String :=
  String.ofList (expandFrom s.toList)

theorem expandFrom_of_some (h : leading? cs = some (c, rest)) :
    expandFrom cs = c :: expandFrom rest := by
  cases cs with
  | nil => cases h
  | cons x cs =>
    rw [expandFrom]
    split <;> simp_all

theorem expandFrom_of_none (h : leading? (c :: cs) = none) :
    expandFrom (c :: cs) = c :: expandFrom cs := by
  rw [expandFrom]
  split <;> simp_all

/-! ## One character -/

theorem exists_reference (h : IsSpecial c) : ∃ r ∈ references, reference c = r.2.toList := by
  have all : ∀ r ∈ references, reference r.1 = r.2.toList := by decide
  obtain ⟨r, hr, rfl⟩ := List.mem_map.1 h
  exact ⟨r, hr, all r hr⟩

/-- A reference begins with an ampersand and has no other one. -/
theorem reference_eq_cons (h : IsSpecial c) :
    ∃ body, reference c = '&' :: body ∧ '&' ∉ body := by
  have all : ∀ r ∈ references,
      reference r.1 = '&' :: (reference r.1).tail ∧ '&' ∉ (reference r.1).tail := by
    decide
  obtain ⟨r, hr, rfl⟩ := List.mem_map.1 h
  exact ⟨_, all r hr⟩

theorem ne_ampersand (h : ¬ IsSpecial c) : c ≠ '&' := by
  rintro rfl
  exact h (by decide)

/-- Each reference is told from the others, whatever follows it. -/
theorem leading?_reference (h : IsSpecial c) (rest : List Char) :
    leading? (reference c ++ rest) = some (c, rest) := by
  simp only [IsSpecial, references, List.map_cons, List.map_nil, List.mem_cons, List.not_mem_nil,
    or_false] at h
  rcases h with rfl | rfl | rfl | rfl | rfl | rfl | rfl | rfl <;> rfl

theorem leading?_cons_of_ne (h : c ≠ '&') (cs : List Char) : leading? (c :: cs) = none := by
  have all : ∀ r ∈ references, r.2.toList = '&' :: r.2.toList.tail := by decide
  rw [leading?, List.findSome?_eq_none_iff]
  intro r hr
  rw [Option.map_eq_none_iff, Text.after?_eq_none_iff, all r hr, List.cons_prefix_cons]
  exact fun hprefix => h hprefix.1.symm

theorem expandFrom_reference (c : Char) (rest : List Char) :
    expandFrom (reference c ++ rest) = c :: expandFrom rest := by
  by_cases h : IsSpecial c
  · exact expandFrom_of_some (leading?_reference h rest)
  · rw [reference_of_not_special h, List.singleton_append,
      expandFrom_of_none (leading?_cons_of_ne (ne_ampersand h) rest)]

/-! ## Whole texts -/

theorem expand_escape (s : String) : expand (escape s) = s := by
  have hchars : ∀ cs : List Char, expandFrom (cs.flatMap reference) = cs := by
    intro cs
    induction cs with
    | nil => rw [List.flatMap_nil, expandFrom]
    | cons c cs ih => rw [List.flatMap_cons, expandFrom_reference, ih]
  rw [expand, toList_escape, hchars, String.ofList_toList]

theorem escape_append (s t : String) : escape (s ++ t) = escape s ++ escape t := by
  rw [← String.toList_inj]
  simp only [String.toList_append, toList_escape, List.flatMap_append]

/-- A suffix that begins with `c` begins behind a text without `c`. -/
theorem suffix_of_notMem {front : List Char} (hc : c ∉ front) (h : c :: after <:+ front ++ cs) :
    c :: after <:+ cs := by
  induction front with
  | nil => exact h
  | cons x front ih =>
    simp only [List.mem_cons, not_or] at hc
    rw [List.cons_append, List.suffix_cons_iff, List.cons.injEq] at h
    exact ih hc.2 (h.resolve_left fun heq => hc.1 heq.1)

/-- An ampersand is in a substituted text only where a reference begins. -/
theorem exists_reference_prefix (h : '&' :: after <:+ cs.flatMap reference) :
    ∃ r ∈ references, r.2.toList <+: '&' :: after := by
  induction cs with
  | nil => simp at h
  | cons c cs ih =>
    rw [List.flatMap_cons] at h
    by_cases hc : IsSpecial c
    · obtain ⟨body, hbody, hnone⟩ := reference_eq_cons hc
      rw [hbody, List.cons_append, List.suffix_cons_iff] at h
      rcases h with hwhole | hrest
      · obtain ⟨r, hr, href⟩ := exists_reference hc
        refine ⟨r, hr, cs.flatMap reference, ?_⟩
        rw [hwhole, ← href, hbody, List.cons_append]
      · exact ih (suffix_of_notMem hnone hrest)
    · have hplain : '&' ∉ reference c := by
        simpa [reference_of_not_special hc] using (ne_ampersand hc).symm
      exact ih (suffix_of_notMem hplain h)

/-- All passes of escaping together write each special character as its reference and leave the
others alone. A text can be escaped piece by piece; no special character is left but the ampersands
that begin references; and reading the references gives back the text. -/
theorem escape_is_reversible_substitution (s t : String) :
    (escape s).toList = s.toList.flatMap reference ∧
    escape (s ++ t) = escape s ++ escape t ∧
    (∀ c ∈ ['<', '>', '"', '\x27', '\n', '\r', '\t'], c ∉ (escape s).toList) ∧
    (∀ after, '&' :: after <:+ (escape s).toList →
      ∃ r ∈ references, r.2.toList <+: '&' :: after) ∧
    expand (escape s) = s ∧
    Function.Injective escape := by
  refine ⟨toList_escape s, escape_append s t, ?_, ?_, expand_escape s, ?_⟩
  · have all : ∀ r ∈ references.tail, r.1 ≠ '&' := by decide
    intro c hc
    change c ∈ references.tail.map (·.1) at hc
    obtain ⟨r, hr, rfl⟩ := List.mem_map.1 hc
    exact notMem_escape (List.mem_map_of_mem (List.mem_of_mem_tail hr)) (all r hr) s
  · intro after h
    rw [toList_escape] at h
    exact exists_reference_prefix h
  · exact Function.LeftInverse.injective expand_escape

/-- A text that looks escaped already is not taken for it. -/
example : escape "&lt;" = "&amp;lt;" ∧ expand "&amp;lt;&#10;" = "&lt;\n" := by
  decide +kernel

end LintDigest.Markup
