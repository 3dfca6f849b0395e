import LintDigest.Proofs.Path.Components
import LintDigest.Proofs.Tree.Aim

/-!
# Ancestors by their steps

Every ancestor of a path takes one step less than the one before it, down to none
(`map_steps_ancestors`). The file name of a path is its last step, unless that goes up. So the file
name of an ancestor is found by counting the steps of the path from the end (`fileName?_ancestor`).
The ancestors of a parent are those that are left (`ancestors_of_parent?`), so they can be found one
parent after the other.
-/

namespace LintDigest.Path

open LintDigest.Tree

/-- The name that a step stands for; a step up has none. -/
def stepName? (step : String) : Option String :=
  if step = ".." then none else some step

variable {p : Path}

theorem fileName?_of_getLast? {c : Component} (h : p.components.getLast? = some c)
    (hc : IsStep c) : p.fileName? = stepName? c.text := by
  cases c with
  | root => cases hc
  | here => cases hc
  | up => simp [fileName?, h, Component.text, stepName?]
  | name s => simp [fileName?, h, Component.text, stepName?, hc.2.2.1]

theorem fileName?_eq_steps (p : Path) : p.fileName? = (steps p).getLast?.bind stepName? := by
  -- Before its steps a path has a head, which is no name.
  obtain ⟨head, hcomponents, hhead⟩ : ∃ head, p.components = head ++ p.layout.2.filterMap component? ∧
      ∀ s, head.getLast? ≠ some (.name s) := by
    unfold components
    split
    next lead pieces hlayout =>
    rw [hlayout]
    cases lead with
    | root => exact ⟨[.root], rfl, by simp⟩
    | here => exact ⟨[.here], rfl, by simp⟩
    | plain => exact ⟨[], rfl, by simp⟩
  rw [steps_eq_filterMap]
  rcases List.eq_nil_or_concat (p.layout.2.filterMap component?) with hnil | ⟨front, c, hconcat⟩
  · rw [hnil, List.append_nil] at hcomponents
    rw [hnil, fileName?, hcomponents]
    split
    · next s hlast => exact absurd hlast (hhead s)
    · rfl
  · have hc : IsStep c := isStep_of_mem_layout (p := p) (by simp [hconcat])
    rw [hconcat, List.concat_eq_append] at hcomponents ⊢
    have hlast : p.components.getLast? = some c := by
      rw [hcomponents, ← List.append_assoc, List.getLast?_concat]
    rw [fileName?_of_getLast? hlast hc, List.map_append, List.map_singleton, List.getLast?_concat,
      Option.bind_some]

/-! ## Counting from the end -/

theorem map_namingPieces_shorter (xs : List (List Char)) :
    (shorter xs).map namingPieces = (namingPieces xs).tails.tail := by
  induction xs with
  | nil => rfl
  | cons x xs ih =>
    cases hx : idle x with
    | true =>
      rw [shorter, if_pos hx, ih]
      simp [namingPieces, hx]
    | false =>
      have hcons : namingPieces (x :: xs) = x :: namingPieces xs := by simp [namingPieces, hx]
      obtain ⟨front, hfront, hnone⟩ := namingPieces_dropWhile xs
      have hdrop : namingPieces (xs.dropWhile idle) = namingPieces xs := by
        conv_rhs => rw [hfront, namingPieces, List.filter_append]
        rw [← namingPieces, hnone]
        rfl
      rw [shorter, if_neg (by simp [hx]), List.map_cons, ih, hdrop, hcons, List.tails_cons]
      cases namingPieces xs <;> rfl

/-- A path, its parent and so on, by the steps that they take, the last step first. -/
theorem map_steps_ancestors (h : p.layout.1 ≠ .here) :
    p.ancestors.map (fun q => (steps q).reverse) = (steps p).reverse.tails := by
  have hshorter : ∀ ps ∈ shorter p.layout.2.reverse,
      (steps (ofLayout p.layout.1 ps.reverse)).reverse = (namingPieces ps).map String.ofList := by
    intro ps hps
    obtain ⟨mid, hmid, hpieces⟩ := suffix_of_mem_shorter hps
    have hlayout : p.layout.2 = ps.reverse ++ mid.reverse := by
      rw [← List.reverse_append, ← hpieces, List.reverse_reverse]
    rw [steps_ofLayout (fits_layout p hlayout (by simpa using hmid)), namingPieces,
      List.filter_reverse, List.map_reverse, List.reverse_reverse, namingPieces]
  have hsteps : (steps p).reverse = (namingPieces p.layout.2.reverse).map String.ofList := by
    rw [steps_eq_layout, namingPieces, namingPieces, List.filter_reverse, List.map_reverse]
  have hancestors : p.ancestors =
      p :: (shorter p.layout.2.reverse).map (fun ps => ofLayout p.layout.1 ps.reverse) := by
    unfold ancestors
    simp [h]
  calc p.ancestors.map (fun q => (steps q).reverse)
      = (steps p).reverse ::
          (shorter p.layout.2.reverse).map (fun ps => (namingPieces ps).map String.ofList) := by
        rw [hancestors, List.map_cons, List.map_map, Function.comp_def,
          List.map_congr_left hshorter]
    _ = (steps p).reverse :: (steps p).reverse.tails.tail := by
        rw [hsteps, List.map_tails, ← List.map_tail, ← map_namingPieces_shorter, List.map_map]
        rfl
    _ = (steps p).reverse.tails := by cases (steps p).reverse <;> rfl

theorem head?_getElem?_tails {α : Type} (xs : List α) (i : Nat) :
    (xs.tails[i]?).bind List.head? = xs[i]? := by
  induction xs generalizing i with
  | nil => cases i <;> rfl
  | cons x xs ih =>
    rw [List.tails_cons]
    cases i with
    | zero => rfl
    | succ i => simpa using ih i

/-- The file name of the `i`-th ancestor is the `i`-th step from the end. -/
theorem fileName?_ancestor (h : p.layout.1 ≠ .here) (i : Nat) :
    (p.ancestors[i]?).bind fileName? = ((steps p).reverse[i]?).bind stepName? := by
  have htails := congrArg (·[i]?) (map_steps_ancestors h)
  simp only [List.getElem?_map] at htails
  calc (p.ancestors[i]?).bind fileName?
      = (((p.ancestors[i]?).map fun q => (steps q).reverse).bind List.head?).bind stepName? := by
        cases p.ancestors[i]? <;> simp [fileName?_eq_steps]
    _ = ((steps p).reverse[i]?).bind stepName? := by rw [htails, head?_getElem?_tails]

/-! ## One level up -/

theorem shorter_dropWhile (xs : List (List Char)) : shorter (xs.dropWhile idle) = shorter xs := by
  induction xs with
  | nil => rfl
  | cons x xs ih =>
    cases hx : idle x with
    | true => rw [List.dropWhile_cons_of_pos hx, ih, shorter, if_pos hx]
    | false => rw [List.dropWhile_cons_of_neg (by simp [hx])]

/-- Taking off one component more is taking one off what is left. -/
theorem shorter_of_cons {xs ps : List (List Char)} {rest : List (List (List Char))}
    (h : shorter xs = ps :: rest) : shorter ps = rest := by
  induction xs with
  | nil => cases h
  | cons x xs ih =>
    rw [shorter] at h
    split at h
    · exact ih h
    · obtain ⟨rfl, rfl⟩ := List.cons.inj h
      exact shorter_dropWhile xs

/-- A path whose first piece is a dot begins with it. -/
theorem head_ne_dot_of_plain {p : Path} (h : p.layout.1 = .plain) :
    p.layout.2.head? ≠ some ['.'] := by
  unfold layout at h ⊢
  split at h
  · cases h
  · cases h
  · cases h
  · next hroot hdot hdotSlash =>
    intro hhead
    obtain ⟨ws, hws⟩ : ∃ ws, Text.split (· == '/') p.text.toList = ['.'] :: ws :=
      List.head?_eq_some_iff.1 hhead
    have htext := Text.glue_split '/' p.text.toList
    rw [hws] at htext
    cases ws with
    | nil => exact hdot htext.symm
    | cons w ws => exact hdotSlash _ htext.symm

theorem layout_ofLayout {lead : Lead} {ws : List (List Char)} (h : Fits lead ws) (hne : ws ≠ [])
    (hdot : lead = .plain → ws.head? ≠ some ['.']) : (ofLayout lead ws).layout = (lead, ws) := by
  obtain ⟨hslash, hlead⟩ := h
  have hsplit := split_glue hne hslash
  unfold ofLayout layout
  simp only [String.toList_ofList]
  cases lead with
  | root => simp only [Lead.chars, List.singleton_append, hsplit]
  | here =>
    obtain ⟨ws', rfl⟩ := List.head?_eq_some_iff.1 (hlead.resolve_left hne)
    cases ws' with
    | nil => rfl
    | cons v vs =>
      have htail := split_glue (List.cons_ne_nil v vs)
        fun w hw => hslash w (List.mem_cons_of_mem _ hw)
      simp [Lead.chars, Text.glue, htail]
  | plain =>
    simp only [Lead.chars, List.nil_append]
    split
    · next body hbody =>
      rw [hbody] at hsplit
      exact absurd (by rw [← hsplit]; rfl) hlead
    · next hbody =>
      rw [hbody] at hsplit
      exact absurd (by rw [← hsplit]; rfl) (hdot rfl)
    · next body hbody =>
      rw [hbody] at hsplit
      exact absurd (by rw [← hsplit]; rfl) (hdot rfl)
    · rw [hsplit]

/-- The ancestors of a parent are the further ancestors. -/
theorem ancestors_of_parent? {p q : Path} (h : p.parent? = some q) :
    q.ancestors = p.ancestors.tail := by
  cases hshort : shorter p.layout.2.reverse with
  | nil =>
    -- Only a dot at the head is left to be taken off.
    have htail : p.ancestors.tail = if p.layout.1 = .here then [⟨""⟩] else [] := by
      simp [ancestors, hshort]
    rw [parent?, htail] at h
    rw [htail]
    split at h
    · next hhere =>
      cases h
      rw [if_pos hhere]
      decide
    · cases h
  | cons ps rest =>
    have htail : p.ancestors.tail = ofLayout p.layout.1 ps.reverse ::
        (rest.map fun ps => ofLayout p.layout.1 ps.reverse) ++
          (if p.layout.1 = .here then [⟨""⟩] else []) := by
      simp [ancestors, hshort]
    obtain rfl : ofLayout p.layout.1 ps.reverse = q := by simpa [parent?, htail] using h
    rw [htail]
    obtain ⟨mid, hmid, hpieces⟩ := suffix_of_mem_shorter (hshort ▸ List.mem_cons_self)
    have hlayout : p.layout.2 = ps.reverse ++ mid.reverse := by
      rw [← List.reverse_append, ← hpieces, List.reverse_reverse]
    have hfits := fits_layout p hlayout (by simpa using hmid)
    have hrest := shorter_of_cons hshort
    by_cases hps : ps = []
    · subst hps
      obtain rfl : rest = [] := hrest.symm
      cases p.layout.1 <;> decide
    · have hdot : p.layout.1 = .plain → ps.reverse.head? ≠ some ['.'] := by
        intro hplain hhead
        refine head_ne_dot_of_plain hplain ?_
        rw [hlayout, List.head?_append, hhead, Option.some_or]
      have hback := layout_ofLayout hfits (by simpa using hps) hdot
      conv_lhs => rw [ancestors]
      rw [hback]
      simp [hrest]

end LintDigest.Path
