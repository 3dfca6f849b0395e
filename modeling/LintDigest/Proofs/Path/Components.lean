import Mathlib.Data.List.Basic
import Mathlib.Data.List.Induction
import LintDigest.Path.Relative
import LintDigest.Proofs.Path.Steps

/-!
# Components and their texts

Behind its head a path takes steps: `..` or names without a slash. Steps that are written with
slashes between them are read back as they are (`components_written`), and joining them one by one
writes the same text (`foldl_join`).
-/

namespace LintDigest.Path

/-- A component that can stand behind the head of a path. -/
def IsStep : Component → Prop
  | .root | .here => False
  | .up => True
  | .name s => s ≠ "" ∧ s ≠ "." ∧ s ≠ ".." ∧ '/' ∉ s.toList

/-- The relative path that takes the given steps. -/
def written (steps : List Component) : Path :=
  ⟨"/".intercalate (steps.map Component.text)⟩

variable {c : Component} {steps : List Component} {w : List Char} {ws : List (List Char)}

/-! ## One piece -/

theorem isStep_of_component? (h : component? w = some c) (hw : '/' ∉ w) : IsStep c := by
  unfold component? at h
  split at h
  · cases h
  · next hidle =>
    split at h
    · cases h
      trivial
    · next hup =>
      cases h
      simp only [idle, Bool.or_eq_true, beq_iff_eq, not_or] at hidle hup
      have htext : ∀ t : String, String.ofList w = t ↔ w = t.toList := by
        intro t
        rw [← String.toList_inj, String.toList_ofList]
      simp only [IsStep, Ne, htext, String.toList_ofList]
      exact ⟨hidle.1, hidle.2, hup, hw⟩

/-- The text of a step is a piece that says something. -/
theorem IsStep.text (h : IsStep c) : '/' ∉ c.text.toList ∧ component? c.text.toList = some c := by
  cases c with
  | root => cases h
  | here => cases h
  | up => decide
  | name s =>
    obtain ⟨hempty, hdot, hup, hslash⟩ := h
    have htext : ∀ t : String, s.toList = t.toList ↔ s = t := fun t => String.toList_inj
    refine ⟨hslash, ?_⟩
    have hidle : idle s.toList = false := by
      simpa [idle, hempty] using mt (htext ".").1 hdot
    have hnotup : (s.toList == ['.', '.']) = false := by
      simpa using mt (htext "..").1 hup
    rw [Component.text, component?, hidle, if_neg Bool.false_ne_true, hnotup,
      if_neg Bool.false_ne_true, String.ofList_toList]

/-- A piece that says something is neither empty nor a dot. -/
theorem ne_of_component? (h : component? w = some c) : w ≠ [] ∧ w ≠ ['.'] := by
  constructor <;> rintro rfl <;> cases h

/-! ## The steps of a path -/

theorem isStep_of_mem_layout {p : Path} (h : c ∈ p.layout.2.filterMap component?) : IsStep c := by
  obtain ⟨w, hw, hstep⟩ := List.mem_filterMap.1 h
  exact isStep_of_component? hstep (Tree.notMem_slash_layout p w hw)

/-- An absolute path starts at the root and takes steps from there. -/
theorem components_of_isAbsolute {p : Path} (h : p.isAbsolute = true) :
    ∃ steps, p.components = .root :: steps ∧ ∀ c ∈ steps, IsStep c := by
  have hlead : p.layout.1 = .root := of_decide_eq_true h
  refine ⟨p.layout.2.filterMap component?, ?_, fun c => isStep_of_mem_layout⟩
  unfold components
  split
  next lead pieces hlayout =>
  rw [hlayout] at hlead ⊢
  subst hlead
  rfl

theorem filter_steps (h : ∀ c ∈ steps, IsStep c) :
    steps.filter (fun c => c ≠ .root ∧ c ≠ .here) = steps := by
  refine List.filter_eq_self.2 fun c hc => ?_
  have hstep := h c hc
  cases c <;> simp [IsStep] at hstep ⊢

theorem text_of_component? (w : List Char) :
    (component? w).map Component.text = if idle w then none else some (String.ofList w) := by
  unfold component?
  split
  · rfl
  · split
    · next hup =>
      obtain rfl : w = ['.', '.'] := by simpa using hup
      rfl
    · rfl

/-- The names that a path walks through are the texts of its steps. -/
theorem steps_eq_filterMap (p : Path) :
    Tree.steps p = (p.layout.2.filterMap component?).map Component.text := by
  rw [Tree.steps_eq_layout, Tree.namingPieces, List.map_filterMap]
  simp only [text_of_component?]
  induction p.layout.2 with
  | nil => rfl
  | cons w ws ih => cases hw : idle w <;> simp [hw, ih]

theorem steps_eq_components (p : Path) :
    Tree.steps p = (p.components.filter fun c => c ≠ .root ∧ c ≠ .here).map Component.text := by
  have hsteps := filter_steps fun c => isStep_of_mem_layout (p := p) (c := c)
  rw [steps_eq_filterMap, components]
  split
  next lead pieces hlayout =>
  rw [hlayout] at hsteps ⊢
  cases lead <;> simp only [List.filter_cons, hsteps] <;> rfl

/-! ## Written steps -/

theorem glue_eq_intercalate (sep : List Char) (ws : List (List Char)) :
    Text.glue sep ws = sep.intercalate ws := by
  fun_induction Text.glue sep ws with
  | case1 => rfl
  | case2 w => simp
  | case3 w v ws ih => rw [List.intercalate_cons_cons, ih]

theorem toList_written (steps : List Component) :
    (written steps).text.toList = Text.glue ['/'] (steps.map (·.text.toList)) := by
  rw [glue_eq_intercalate, written, String.toList_intercalate, List.map_map]
  rfl

/-- Pieces are found again, if the first one cannot be taken for the head of a path. -/
theorem layout_of_glue {p : Path} (htext : p.text.toList = Text.glue ['/'] ws) (hne : ws ≠ [])
    (hslash : ∀ w ∈ ws, '/' ∉ w) (hempty : ws.head? ≠ some []) (hdot : ws.head? ≠ some ['.']) :
    p.layout = (.plain, ws) := by
  have hsplit : Text.split (· == '/') p.text.toList = ws := htext ▸ Tree.split_glue hne hslash
  unfold layout
  split
  · next h =>
    rw [h] at hsplit
    simp [← hsplit, Text.split] at hempty
  · next h =>
    rw [h] at hsplit
    simp [← hsplit, Text.split] at hdot
  · next h =>
    rw [h] at hsplit
    simp [← hsplit, Text.split] at hdot
  · rw [hsplit]

/-- Steps are read as they are written. -/
theorem components_written (h : ∀ c ∈ steps, IsStep c) : (written steps).components = steps := by
  cases steps with
  | nil => decide
  | cons c steps =>
    have hfirst := ne_of_component? (h c List.mem_cons_self).text.2
    have hlayout : (written (c :: steps)).layout =
        (.plain, (c :: steps).map (·.text.toList)) := by
      refine layout_of_glue (toList_written _) (by simp) ?_ ?_ ?_
      · exact List.forall_mem_map.2 fun c hc => (h c hc).text.1
      · simpa using hfirst.1
      · simpa using hfirst.2
    rw [components, hlayout]
    simp only [List.filterMap_map, Function.comp_def]
    calc (c :: steps).filterMap (fun c => component? c.text.toList)
        = (c :: steps).filterMap some := List.filterMap_congr fun c hc => (h c hc).text.2
      _ = c :: steps := List.filterMap_some

theorem written_concat (hne : steps ≠ []) (c : Component) :
    written (steps ++ [c]) = ⟨(written steps).text ++ "/" ++ c.text⟩ := by
  rw [written, written, List.map_append, List.map_singleton, String.intercalate_append_of_ne_nil]
  · rfl
  · simpa using hne
  · simp

/-- Written steps do not end in a slash. -/
theorem getLast?_written (h : ∀ c ∈ steps, IsStep c) :
    (written steps).text.toList.getLast? ≠ some '/' := by
  rcases List.eq_nil_or_concat steps with rfl | ⟨front, c, rfl⟩
  · decide
  · have hc := (h c (by simp)).text
    have hne := (ne_of_component? hc.2).1
    have hlast : c.text.toList.getLast? ≠ some '/' := fun hl => hc.1 (List.mem_of_getLast? hl)
    by_cases hfront : front = []
    · simpa [hfront, written] using hlast
    · rw [List.concat_eq_append, written_concat hfront, String.toList_append,
        List.getLast?_append_of_ne_nil _ hne]
      exact hlast

/-- Steps that are joined one by one are written with slashes between them. -/
theorem foldl_join (h : ∀ c ∈ steps, IsStep c) :
    steps.foldl (fun p c => p.join ⟨c.text⟩) ⟨""⟩ = written steps := by
  induction steps using List.reverseRecOn with
  | nil => rfl
  | append_singleton front c ih =>
    obtain ⟨hfront, hc⟩ := List.forall_mem_append.1 h
    have hslash := (List.forall_mem_singleton.1 hc).text.1
    have hrelative : (⟨c.text⟩ : Path).isAbsolute = false := by
      rw [Bool.eq_false_iff, Ne, Tree.isAbsolute_iff]
      exact fun hhead => hslash (List.mem_of_mem_head? hhead)
    rw [List.foldl_append, List.foldl_cons, List.foldl_nil, ih hfront, join, hrelative,
      if_neg Bool.false_ne_true]
    by_cases hne : front = []
    · subst hne
      simp [written]
    · have hlast := getLast?_written hfront
      rw [written_concat hne]
      split
      · next hl =>
        -- Only the path without steps has an empty text.
        have hempty : written front = ⟨""⟩ :=
          congrArg mk (String.toList_eq_nil_iff.1 (List.getLast?_eq_none_iff.1 hl))
        have hnil := components_written hfront
        rw [hempty] at hnil
        exact absurd hnil.symm hne
      · next hl => exact absurd hl hlast
      · rfl

end LintDigest.Path
