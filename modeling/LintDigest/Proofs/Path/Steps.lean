import LintDigest.Proofs.Text.Split
import LintDigest.Storage

/-!
# Names below a directory

Every file of the program is a name in a directory, written `dir / name`. Its walk is the walk of
the directory and then the name (`route_div`). The directory in which it is written is a lexical
parent and need not be spelled like `dir`, but it takes the same steps (`steps_directoryOf`).
-/

namespace LintDigest.Tree

/-- A name that an entry can have. -/
def IsName (n : String) : Prop :=
  n ≠ "" ∧ n ≠ "." ∧ n ≠ ".." ∧ '/' ∉ n.toList ∧ n.utf8ByteSize ≤ maxName

instance (n : String) : Decidable (IsName n) := inferInstanceAs (Decidable (_ ∧ _))

/-- The names a path walks through, without those that stay where they are. -/
def steps (p : Path) : List String :=
  (route p).filter (· ≠ ".")

/-! ## Joined paths -/

theorem isAbsolute_iff (p : Path) : p.isAbsolute = true ↔ p.text.toList.head? = some '/' := by
  unfold Path.isAbsolute Path.layout
  split
  · next h => simp [h]
  · next h => simp [h]
  · next h => simp [h]
  · next h _ _ =>
    have hhead : p.text.toList.head? ≠ some '/' := by
      intro hs
      obtain ⟨body, hbody⟩ := List.head?_eq_some_iff.1 hs
      exact h body hbody
    simpa using hhead

theorem not_isAbsolute_name {n : String} (hn : IsName n) : (⟨n⟩ : Path).isAbsolute = false := by
  rw [Bool.eq_false_iff, Ne, isAbsolute_iff]
  intro h
  exact hn.2.2.2.1 (List.mem_of_mem_head? h)

/-- A name is added to a directory behind a slash, unless the directory ends in one or is empty. -/
theorem toList_div (p : Path) {n : String} (hn : IsName n) :
    (p / n).text.toList = p.text.toList ++
      (if p.text.toList = [] ∨ p.text.toList.getLast? = some '/' then [] else ['/']) ++
        n.toList := by
  show (p.join ⟨n⟩).text.toList = _
  rw [Path.join, not_isAbsolute_name hn]
  cases hl : p.text.toList.getLast? with
  | none => simp [List.getLast?_eq_none_iff.1 hl]
  | some c =>
    have hne : p.text.toList ≠ [] := by
      rintro h
      rw [h] at hl
      cases hl
    by_cases hc : c = '/'
    · simp [hc]
    · simp [hc, hne]

theorem isAbsolute_div (p : Path) {n : String} (hn : IsName n) :
    (p / n).isAbsolute = p.isAbsolute := by
  rw [Bool.eq_iff_iff, isAbsolute_iff, isAbsolute_iff, toList_div p hn]
  cases hp : p.text.toList with
  | cons c cs => simp
  | nil =>
    have hhead : n.toList.head? ≠ some '/' := fun h => hn.2.2.2.1 (List.mem_of_mem_head? h)
    simpa using hhead

theorem route_div (p : Path) {n : String} (hn : IsName n) : route (p / n) = route p ++ [n] := by
  have hpiece : Text.split (· == '/') n.toList = [n.toList] := by
    refine Text.split_of_neg fun c hc => ?_
    have : c ≠ '/' := fun e => hn.2.2.2.1 (e ▸ hc)
    simpa using this
  have hne : n.toList ≠ [] := by simpa using hn.1
  rw [route, route, toList_div p hn]
  by_cases hp : p.text.toList = []
  · simp [hp, hpiece, hne, Text.split]
  · by_cases hl : p.text.toList.getLast? = some '/'
    · obtain ⟨cs, hcs⟩ := List.getLast?_eq_some_iff.1 hl
      have hcut := fun ys => Text.split_append_cons (p := (· == '/')) (c := '/') rfl cs ys
      rw [hcs] at *
      simp [hcut, hpiece, hne, Text.split]
    · have hcut := Text.split_append_cons (p := (· == '/')) (c := '/') rfl p.text.toList n.toList
      simp [hp, hl, hcut, hpiece, hne]

theorem steps_div (p : Path) {n : String} (hn : IsName n) : steps (p / n) = steps p ++ [n] := by
  rw [steps, route_div p hn, List.filter_append, steps]
  simp [hn.2.1]

theorem trailing_div (p : Path) {n : String} (hn : IsName n) : trailing (p / n) = false := by
  have hne : n.toList ≠ [] := by simpa using hn.1
  have hslash : n.toList.getLast hne ≠ '/' := fun h => hn.2.2.2.1 (h ▸ List.getLast_mem hne)
  rw [trailing, toList_div p hn, List.getLast?_append, List.getLast?_eq_some_getLast hne]
  simpa using hslash

/-! ## Parents -/

theorem split_glue {ws : List (List Char)} (hne : ws ≠ []) (h : ∀ w ∈ ws, '/' ∉ w) :
    Text.split (· == '/') (Text.glue ['/'] ws) = ws := by
  have hpiece : ∀ w ∈ ws, Text.split (· == '/') w = [w] := by
    intro w hw
    refine Text.split_of_neg fun c hc => ?_
    have : c ≠ '/' := fun e => h w hw (e ▸ hc)
    simpa using this
  induction ws with
  | nil => exact absurd rfl hne
  | cons w ws ih =>
    cases ws with
    | nil => exact hpiece w List.mem_cons_self
    | cons v vs =>
      have htail := ih (List.cons_ne_nil v vs) (fun x hx => h x (List.mem_cons_of_mem _ hx))
        (fun x hx => hpiece x (List.mem_cons_of_mem _ hx))
      rw [Text.glue, List.append_assoc, List.singleton_append, Text.split_append_cons rfl, htail,
        hpiece w List.mem_cons_self]
      rfl

/-- The pieces of a text that name something. -/
def namingPieces (ws : List (List Char)) : List (List Char) :=
  ws.filter fun w => !Path.idle w

theorem steps_eq_namingPieces (p : Path) :
    steps p = (namingPieces (Text.split (· == '/') p.text.toList)).map String.ofList := by
  have hdot : ∀ w : List Char, String.ofList w = "." ↔ w = ['.'] := by
    intro w
    rw [← String.toList_inj]
    simp
  rw [steps, route, namingPieces, List.filter_map, List.filter_filter]
  congr 1
  refine List.filter_congr fun w _ => ?_
  by_cases hw : w = ['.']
  · simp [hw, Path.idle]
  · by_cases hn : w = [] <;> simp [Path.idle, hw, hn, hdot]

theorem steps_eq_layout (p : Path) :
    steps p = (namingPieces p.layout.2).map String.ofList := by
  rw [steps_eq_namingPieces]
  congr 1
  unfold Path.layout
  split
  · next body h => simp [h, Text.split, namingPieces, Path.idle]
  · next h => simp [h, Text.split, namingPieces, Path.idle]
  · next body h => simp [h, Text.split, namingPieces, Path.idle]
  · rfl

/-- Pieces that a path can have behind its lead. -/
def Fits (lead : Path.Lead) (ws : List (List Char)) : Prop :=
  (∀ w ∈ ws, '/' ∉ w) ∧
    match lead with
    | .root => True
    | .here => ws = [] ∨ ws.head? = some []
    | .plain => ws.head? ≠ some []

theorem notMem_slash_layout (p : Path) : ∀ w ∈ p.layout.2, '/' ∉ w := by
  have hpiece : ∀ cs, ∀ w ∈ Text.split (· == '/') cs, '/' ∉ w := by
    intro cs w hw hslash
    simpa using Text.not_of_mem_split hw '/' hslash
  unfold Path.layout
  split
  · exact hpiece _
  · simp
  · simpa using hpiece _
  · exact hpiece _

/-- The pieces of a path without the last ones can be those of a path. -/
theorem fits_layout (p : Path) {ws mid : List (List Char)} (h : p.layout.2 = ws ++ mid)
    (hmid : mid ≠ []) : Fits p.layout.1 ws := by
  refine ⟨fun w hw => notMem_slash_layout p w (h ▸ List.mem_append_left mid hw), ?_⟩
  revert h
  unfold Path.layout
  split
  · intro _
    trivial
  · intro h
    cases ws with
    | nil => exact .inl rfl
    | cons w ws => exact .inr (by simpa using (List.cons.inj h).1.symm)
  · intro h
    cases ws with
    | nil => exact .inl rfl
    | cons w ws => exact .inr (by simpa using (List.cons.inj h).1.symm)
  · next hroot _ _ =>
    intro h hs
    obtain ⟨ws', rfl⟩ := List.head?_eq_some_iff.1 hs
    -- An empty first piece of several would make the path absolute.
    obtain ⟨v, vs, hv⟩ := List.exists_cons_of_ne_nil (l := ws' ++ mid) (by simp [hmid])
    have htext := Text.glue_split '/' p.text.toList
    rw [show Text.split (· == '/') p.text.toList = [] :: v :: vs by simpa [hv] using h] at htext
    exact hroot _ htext.symm

theorem steps_ofLayout {lead : Path.Lead} {ws : List (List Char)} (h : Fits lead ws) :
    steps (Path.ofLayout lead ws) = (namingPieces ws).map String.ofList := by
  rw [steps_eq_namingPieces, Path.ofLayout]
  congr 1
  obtain ⟨hslash, hlead⟩ := h
  by_cases hws : ws = []
  · subst hws
    cases lead <;> decide
  · have hsplit := split_glue hws hslash
    cases lead with
    | root => simp [Path.Lead.chars, Text.split, hsplit, namingPieces, Path.idle]
    | plain => simp [Path.Lead.chars, hsplit]
    | here =>
      -- The dot of the lead is followed by the slash that the empty first piece stands for.
      obtain ⟨ws', rfl⟩ := List.head?_eq_some_iff.1 (hlead.resolve_left hws)
      cases ws' with
      | nil => decide
      | cons v vs =>
        have htail := split_glue (List.cons_ne_nil v vs)
          fun w hw => hslash w (List.mem_cons_of_mem _ hw)
        simp [Path.Lead.chars, Text.glue, Text.split, htail, namingPieces, Path.idle]

theorem isAbsolute_ofLayout {lead : Path.Lead} {ws : List (List Char)} (h : Fits lead ws) :
    (Path.ofLayout lead ws).isAbsolute = decide (lead = .root) := by
  rw [Bool.eq_iff_iff, isAbsolute_iff, Path.ofLayout]
  cases lead with
  | root => simp [Path.Lead.chars]
  | here => simp [Path.Lead.chars]
  | plain =>
    cases ws with
    | nil => simp [Path.Lead.chars, Text.glue]
    | cons w ws =>
      have hw : w ≠ [] := by simpa using h.2
      obtain ⟨c, cs, rfl⟩ := List.exists_cons_of_ne_nil hw
      have hc : c ≠ '/' := fun e => h.1 _ List.mem_cons_self (e ▸ List.mem_cons_self)
      cases ws <;> simpa [Path.Lead.chars, Text.glue] using hc

theorem namingPieces_dropWhile (xs : List (List Char)) :
    ∃ front, xs = front ++ xs.dropWhile Path.idle ∧ namingPieces front = [] := by
  refine ⟨xs.takeWhile Path.idle, List.takeWhile_append_dropWhile.symm, ?_⟩
  refine List.filter_eq_nil_iff.2 fun w hw => ?_
  simpa using List.all_eq_true.1 List.all_takeWhile w hw

/-- The first shorter list of pieces lacks one that names something, and idle ones. -/
theorem shorter_cons {xs ps : List (List Char)} {rest : List (List (List Char))}
    (h : Path.shorter xs = ps :: rest) :
    ∃ mid w, xs = mid ++ ps ∧ namingPieces mid = [w] := by
  induction xs with
  | nil => cases h
  | cons x xs ih =>
    rw [Path.shorter] at h
    split at h
    · next hx =>
      obtain ⟨mid, w, rfl, hmid⟩ := ih h
      exact ⟨x :: mid, w, rfl, by simpa [namingPieces, hx] using hmid⟩
    · next hx =>
      obtain ⟨rfl, -⟩ := List.cons.inj h
      obtain ⟨front, hfront, hnone⟩ := namingPieces_dropWhile xs
      refine ⟨x :: front, x, by rw [List.cons_append, ← hfront], ?_⟩
      have hcons : namingPieces (x :: front) = x :: namingPieces front := by
        simp [namingPieces, hx]
      rw [hcons, hnone]

theorem shorter_ne_nil {xs : List (List Char)} (h : namingPieces xs ≠ []) :
    Path.shorter xs ≠ [] := by
  induction xs with
  | nil => exact absurd rfl h
  | cons x xs ih =>
    rw [Path.shorter]
    split
    · next hx => exact ih (by simpa [namingPieces, hx] using h)
    · simp

/-- A path that names something has a parent, which lacks the last of its steps. -/
theorem exists_parent {q : Path} (h : steps q ≠ []) :
    ∃ d, q.parent? = some d ∧ steps d = (steps q).dropLast ∧ d.isAbsolute = q.isAbsolute := by
  have hpieces : namingPieces q.layout.2.reverse ≠ [] := by
    intro hnone
    refine h ?_
    rw [namingPieces, List.filter_reverse] at hnone
    rw [steps_eq_layout, namingPieces, List.reverse_eq_nil_iff.1 hnone]
    rfl
  -- `shorter` takes pieces off the front of the reversed list.
  obtain ⟨ps, rest, hshort⟩ := List.exists_cons_of_ne_nil (shorter_ne_nil hpieces)
  obtain ⟨mid, w, hmid, hw⟩ := shorter_cons hshort
  have hlayout : q.layout.2 = ps.reverse ++ mid.reverse := by
    rw [← List.reverse_append, ← hmid, List.reverse_reverse]
  have hmidne : mid.reverse ≠ [] := by
    rintro hm
    rw [List.reverse_eq_nil_iff.1 hm] at hw
    cases hw
  have hfits := fits_layout q hlayout hmidne
  refine ⟨Path.ofLayout q.layout.1 ps.reverse, ?_, ?_, ?_⟩
  · simp [Path.parent?, Path.ancestors, hshort]
  · have hlast : namingPieces mid.reverse = [w] := by
      rw [namingPieces, List.filter_reverse]
      simpa [namingPieces] using congrArg List.reverse hw
    rw [steps_ofLayout hfits, steps_eq_layout q, hlayout]
    simp only [namingPieces, List.filter_append, List.map_append] at hlast ⊢
    rw [hlast]
    simp
  · rw [isAbsolute_ofLayout hfits]
    rfl

/-- The directory in which a file is written takes the steps of the directory it was named in. -/
theorem steps_directoryOf (dir : Path) {n : String} (hn : IsName n) :
    steps (Storage.directoryOf (dir / n)) = steps dir ∧
      (Storage.directoryOf (dir / n)).isAbsolute = dir.isAbsolute := by
  have hne : steps (dir / n) ≠ [] := by simp [steps_div dir hn]
  obtain ⟨d, hd, hsteps, habs⟩ := exists_parent hne
  rw [steps_div dir hn, List.dropLast_concat] at hsteps
  rw [isAbsolute_div dir hn] at habs
  rw [Storage.directoryOf, hd]
  by_cases he : d.text = ""
  · -- A single name has the empty parent, for which `.` stands in.
    have hempty : d = ⟨""⟩ := congrArg Path.mk he
    subst hempty
    exact ⟨hsteps ▸ rfl, habs ▸ rfl⟩
  · simpa [he] using ⟨hsteps, habs⟩

end LintDigest.Tree
