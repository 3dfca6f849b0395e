import Mathlib.Data.List.Chain
import LintDigest.Proofs.Text.Split
import LintDigest.Text.Blank

/-!
# Texts on one line

Squashing leaves exactly those texts alone that are on one line: words with single spaces between
them, and no other white space (`squash_eq_self_iff`). What has been squashed once is such a text
(`squash_squash`).
-/

namespace LintDigest.Text

/-- The text neither starts nor ends with white space, and all its white space is single spaces. -/
structure OneLine (cs : List Char) : Prop where
  head : ∀ c ∈ cs.head?, isBlank c = false
  last : ∀ c ∈ cs.getLast?, isBlank c = false
  space : ∀ c ∈ cs, isBlank c = true → c = ' '
  single : cs.IsChain fun a b => isBlank a = false ∨ isBlank b = false

/-- A word is not empty and has no white space. -/
def IsWord (w : List Char) : Prop :=
  w ≠ [] ∧ ∀ c ∈ w, isBlank c = false

variable {cs w : List Char} {ws : List (List Char)}

theorem isWord_of_mem_words (h : w ∈ words cs) : IsWord w := by
  obtain ⟨hw, hne⟩ := List.mem_filter.1 h
  exact ⟨by simpa using hne, not_of_mem_split hw⟩

theorem oneLine_nil : OneLine [] where
  head := by simp
  last := by simp
  space := by simp
  single := List.isChain_nil

theorem IsWord.oneLine (h : IsWord w) : OneLine w where
  head c hc := h.2 c (List.mem_of_mem_head? hc)
  last c hc := h.2 c (List.mem_of_mem_getLast? hc)
  space c hc hblank := by
    rw [h.2 c hc] at hblank
    cases hblank
  single := (List.pairwise_of_forall_mem_list fun a ha _ _ => .inl (h.2 a ha)).isChain

/-- A word and a text on one line, with a space between them, are on one line. -/
theorem OneLine.cons (hw : IsWord w) (h : OneLine cs) (hne : cs ≠ []) :
    OneLine (w ++ ' ' :: cs) where
  head c hc := by
    rw [List.head?_append_of_ne_nil _ hw.1] at hc
    exact hw.oneLine.head c hc
  last c hc := by
    rw [List.getLast?_append_of_ne_nil _ (List.cons_ne_nil _ _), List.getLast?_cons_of_ne_nil hne]
      at hc
    exact h.last c hc
  space c hc hblank := by
    rcases List.mem_append.1 hc with hc | hc
    · exact hw.oneLine.space c hc hblank
    · rcases List.mem_cons.1 hc with rfl | hc
      · rfl
      · exact h.space c hc hblank
  single := by
    refine hw.oneLine.single.append (h.single.cons fun b hb => .inr (h.head b hb)) ?_
    exact fun a ha _ _ => .inl (hw.oneLine.last a ha)

theorem glue_ne_nil (h : ∀ w ∈ ws, IsWord w) (hne : ws ≠ []) : glue [' '] ws ≠ [] := by
  fun_cases glue [' '] ws with
  | case1 => exact absurd rfl hne
  | case2 w => exact (h w List.mem_cons_self).1
  | case3 w v ws => simp

theorem oneLine_glue (h : ∀ w ∈ ws, IsWord w) : OneLine (glue [' '] ws) := by
  fun_induction glue [' '] ws with
  | case1 => exact oneLine_nil
  | case2 w => exact (h w List.mem_cons_self).oneLine
  | case3 w v ws ih =>
    have hrest : ∀ u ∈ v :: ws, IsWord u := fun u hu => h u (List.mem_cons_of_mem _ hu)
    rw [List.append_assoc]
    exact .cons (h w List.mem_cons_self) (ih hrest) (glue_ne_nil hrest (List.cons_ne_nil _ _))

/-! ## The pieces of a text on one line -/

theorem split_congr {p q : Char → Bool} (h : ∀ c ∈ cs, p c = q c) : split p cs = split q cs := by
  induction cs with
  | nil => rfl
  | cons c cs ih =>
    rw [split, split, h c List.mem_cons_self, ih fun x hx => h x (List.mem_cons_of_mem _ hx)]

/-- If white space is single and does not stand at the end, no piece behind the first is empty. -/
theorem ne_nil_of_mem_tail_split (hlast : ∀ c ∈ cs.getLast?, isBlank c = false)
    (hsingle : cs.IsChain fun a b => isBlank a = false ∨ isBlank b = false) :
    ∀ w ∈ (split isBlank cs).tail, w ≠ [] := by
  induction cs with
  | nil => simp [split]
  | cons c cs ih =>
    obtain ⟨hnext, hsingle⟩ := List.isChain_cons.1 hsingle
    cases cs with
    | nil =>
      have hc : isBlank c = false := hlast c rfl
      simp [split, hc]
    | cons b cs =>
      have htail := ih hlast hsingle
      by_cases hc : isBlank c = true
      · -- the piece behind this white space starts with `b`
        have hb : isBlank b = false := by simpa [hc] using hnext b rfl
        obtain ⟨v, vs, hs⟩ := List.exists_cons_of_ne_nil (split_ne_nil isBlank cs)
        rw [split_cons_of_neg hb hs] at htail
        rw [split, if_pos hc, split_cons_of_neg hb hs]
        intro w hw
        rcases List.mem_cons.1 hw with rfl | hw
        · exact List.cons_ne_nil _ _
        · exact htail w hw
      · obtain ⟨v, vs, hs⟩ := List.exists_cons_of_ne_nil (split_ne_nil isBlank (b :: cs))
        rw [hs] at htail
        rw [split_cons_of_neg (by simpa using hc) hs]
        exact htail

theorem ne_nil_of_mem_split (h : OneLine cs) (hne : cs ≠ []) : ∀ w ∈ split isBlank cs, w ≠ [] := by
  have htail := ne_nil_of_mem_tail_split h.last h.single
  cases cs with
  | nil => exact absurd rfl hne
  | cons c cs =>
    obtain ⟨v, vs, hs⟩ := List.exists_cons_of_ne_nil (split_ne_nil isBlank cs)
    rw [split_cons_of_neg (h.head c rfl) hs] at htail ⊢
    intro w hw
    rcases List.mem_cons.1 hw with rfl | hw
    · exact List.cons_ne_nil _ _
    · exact htail w hw

theorem glue_words (h : OneLine cs) : glue [' '] (words cs) = cs := by
  rcases eq_or_ne cs [] with rfl | hne
  · rfl
  have hwords : words cs = split isBlank cs := by
    refine List.filter_eq_self.2 fun w hw => ?_
    simpa using ne_nil_of_mem_split h hne w hw
  have hspace : split isBlank cs = split (· == ' ') cs := by
    refine split_congr fun c hc => ?_
    rw [Bool.eq_iff_iff, beq_iff_eq]
    refine ⟨h.space c hc, ?_⟩
    rintro rfl
    rfl
  rw [hwords, hspace, glue_split]

/-- Squashing leaves just the texts on one line alone. -/
theorem squash_eq_self_iff {s : String} : squash s = s ↔ OneLine s.toList := by
  rw [← String.toList_inj, squash, String.toList_ofList]
  constructor
  · intro h
    rw [← h]
    exact oneLine_glue fun w hw => isWord_of_mem_words hw
  · exact glue_words

theorem squash_squash (s : String) : squash (squash s) = squash s := by
  rw [squash_eq_self_iff, squash, String.toList_ofList]
  exact oneLine_glue fun w hw => isWord_of_mem_words hw

end LintDigest.Text
