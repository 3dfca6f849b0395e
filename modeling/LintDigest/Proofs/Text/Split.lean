import LintDigest.Text.Split

/-!
# Where texts are cut

`split_append_cons`: a character of the class cuts a text in two, whatever stands around it.
-/

namespace LintDigest.Text

theorem split_cons_of_neg {p : Char → Bool} {c : Char} (h : p c = false) {cs w : List Char}
    {ws : List (List Char)} (hs : split p cs = w :: ws) : split p (c :: cs) = (c :: w) :: ws := by
  rw [split, h, hs]
  rfl

/-- A text without characters of the class stays in one piece, whatever follows. -/
theorem split_append_of_neg {p : Char → Bool} {xs : List Char} (h : ∀ c ∈ xs, p c = false)
    {ys w : List Char} {ws : List (List Char)} (hs : split p ys = w :: ws) :
    split p (xs ++ ys) = (xs ++ w) :: ws := by
  induction xs with
  | nil => exact hs
  | cons c xs ih =>
    exact split_cons_of_neg (h c List.mem_cons_self) (ih fun x hx => h x (List.mem_cons_of_mem _ hx))

theorem split_of_neg {p : Char → Bool} {xs : List Char} (h : ∀ c ∈ xs, p c = false) :
    split p xs = [xs] := by
  have hnil : split p [] = [[]] := rfl
  simpa using split_append_of_neg h hnil

theorem split_append_cons {p : Char → Bool} {c : Char} (hc : p c = true) (xs ys : List Char) :
    split p (xs ++ c :: ys) = split p xs ++ split p ys := by
  induction xs with
  | nil => simp [split, hc]
  | cons x xs ih =>
    by_cases hx : p x = true
    · simp [split, hx, ih]
    · cases hs : split p xs with
      | nil => exact absurd hs (split_ne_nil _ _)
      | cons w ws => simp [split, hx, ih, hs]

/-- No piece has a character of the class. -/
theorem not_of_mem_split {p : Char → Bool} {cs w : List Char} (hw : w ∈ split p cs) :
    ∀ c ∈ w, p c = false := by
  induction cs generalizing w with
  | nil => simp_all [split]
  | cons x cs ih =>
    rw [split] at hw
    split at hw
    · rcases List.mem_cons.1 hw with rfl | hw
      · simp
      · exact ih hw
    · next hx =>
      cases hs : split p cs with
      | nil => exact absurd hs (split_ne_nil _ _)
      | cons v vs =>
        rw [hs] at hw ih
        rcases List.mem_cons.1 hw with rfl | hw
        · intro c hc
          rcases List.mem_cons.1 hc with rfl | hc
          · simpa using hx
          · exact ih List.mem_cons_self c hc
        · exact ih (List.mem_cons_of_mem _ hw)

/-- Every character of a piece is one of the text. -/
theorem mem_of_mem_split {p : Char → Bool} {cs w : List Char} (hw : w ∈ split p cs) {c : Char}
    (hc : c ∈ w) : c ∈ cs := by
  induction cs generalizing w with
  | nil => simp_all [split]
  | cons x cs ih =>
    rw [split] at hw
    split at hw
    · rcases List.mem_cons.1 hw with rfl | hw
      · cases hc
      · exact List.mem_cons_of_mem _ (ih hw hc)
    · cases hs : split p cs with
      | nil => exact absurd hs (split_ne_nil _ _)
      | cons v vs =>
        rw [hs] at hw ih
        rcases List.mem_cons.1 hw with rfl | hw
        · rcases List.mem_cons.1 hc with rfl | hc
          · exact List.mem_cons_self
          · exact List.mem_cons_of_mem _ (ih List.mem_cons_self hc)
        · exact List.mem_cons_of_mem _ (ih (List.mem_cons_of_mem _ hw) hc)

/-- Every character of a glued text is one of a piece or of the separator. -/
theorem mem_of_mem_glue {sep : List Char} {ws : List (List Char)} {c : Char}
    (h : c ∈ glue sep ws) : c ∈ sep ∨ ∃ w ∈ ws, c ∈ w := by
  fun_induction glue sep ws with
  | case1 => cases h
  | case2 w => exact .inr ⟨w, List.mem_singleton_self w, h⟩
  | case3 w v ws ih =>
    rcases List.mem_append.1 h with h | h
    · rcases List.mem_append.1 h with h | h
      · exact .inr ⟨w, List.mem_cons_self, h⟩
      · exact .inl h
    · rcases ih h with h | ⟨u, hu, h⟩
      · exact .inl h
      · exact .inr ⟨u, List.mem_cons_of_mem _ hu, h⟩

/-- The first occurrence of a character is the one behind a text that does not hold it. -/
theorem cutAt?_singleton {m : Char} {xs : List Char} (h : m ∉ xs) (ys : List Char) :
    cutAt? [m] (xs ++ m :: ys) = some (xs, ys) := by
  induction xs with
  | nil => simp [cutAt?, after?]
  | cons x xs ih =>
    simp only [List.mem_cons, not_or] at h
    simp [cutAt?, after?, h.1, ih h.2]

theorem cutAt?_eq_some {mark cs before rest : List Char} (h : cutAt? mark cs = some (before, rest)) :
    cs = before ++ mark ++ rest := by
  induction cs generalizing before with
  | nil =>
    rw [cutAt?] at h
    split at h
    · next hm => cases h; simp [hm]
    · cases h
  | cons c cs ih =>
    rw [cutAt?] at h
    split at h
    · next r hr => cases h; simpa using after?_eq_some hr
    · obtain ⟨⟨b, r⟩, hb, he⟩ := Option.map_eq_some_iff.1 h
      simp only [Prod.mk.injEq] at he
      obtain ⟨rfl, rfl⟩ := he
      simp [ih hb]

end LintDigest.Text
