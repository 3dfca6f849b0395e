import Mathlib.Data.List.Forall2
import Mathlib.Data.Option.Basic
import LintDigest.Proofs.Tree.Aim

/-!
# Trees of one shape

Two trees are twins when their entries stand at the same places in the same order and are alike one
by one. Whatever looks at a tree without reading a file sees the same in its twin, and the same
operation on both leaves twins.
-/

namespace LintDigest

/-! ## Results in pairs -/

section

variable {ε α β γ δ : Type} {R : α → β → Prop} {S : γ → δ → Prop}

/-- Two computations fail alike, or succeed with values that `R` relates. -/
inductive Paired (R : α → β → Prop) : Except ε α → Except ε β → Prop
  | error (e : ε) : Paired R (.error e) (.error e)
  | ok {a : α} {b : β} (h : R a b) : Paired R (.ok a) (.ok b)

theorem Paired.bind {x : Except ε α} {y : Except ε β} {f : α → Except ε γ} {g : β → Except ε δ}
    (h : Paired R x y) (hfg : ∀ a b, x = .ok a → R a b → Paired S (f a) (g b)) :
    Paired S (x >>= f) (y >>= g) := by
  cases h with
  | error e => exact .error e
  | ok h => exact hfg _ _ rfl h

theorem Paired.refl (x : Except ε α) : Paired Eq x x := by
  cases x with
  | error e => exact .error e
  | ok a => exact .ok rfl

end

namespace Tree

/-- A relation between trees that one directory keeps, a path of directories keeps. -/
theorem makeDirsAlong_paired {S : Tree → Tree → Prop} {cwd : Place} {ps : List Path}
    (hmake : ∀ t t' p, S t t' → p ∈ ps → p.text ≠ "" →
      Paired S (t.makeDir cwd p) (t'.makeDir cwd p))
    (hstat : ∀ t t' p, S t t' → p ∈ ps → p.text ≠ "" → t'.stat cwd p = t.stat cwd p)
    {t t' : Tree} (h : S t t') :
    (t'.makeDirsAlong cwd ps).1 = (t.makeDirsAlong cwd ps).1 ∧
      S (t.makeDirsAlong cwd ps).2 (t'.makeDirsAlong cwd ps).2 := by
  induction ps with
  | nil => exact ⟨rfl, h⟩
  | cons p rest ih =>
    have ih := ih (fun t t' q hS hq => hmake t t' q hS (List.mem_cons_of_mem _ hq))
      fun t t' q hS hq => hstat t t' q hS (List.mem_cons_of_mem _ hq)
    unfold makeDirsAlong
    split
    · exact ⟨rfl, h⟩
    · next hp =>
      have hpair := hmake t t' p h List.mem_cons_self hp
      generalize t.makeDir cwd p = x, t'.makeDir cwd p = x' at hpair
      cases hpair with
      | ok hx => exact ⟨rfl, hx⟩
      | error e =>
        rw [hstat t t' p h List.mem_cons_self hp]
        cases e with
        | notFound =>
          obtain ⟨hres, htree⟩ := ih
          generalize t.makeDirsAlong cwd rest = y, t'.makeDirsAlong cwd rest = y' at hres htree
          obtain ⟨res, u⟩ := y
          obtain ⟨res', u'⟩ := y'
          obtain rfl : res' = res := hres
          cases res' with
          | error e => exact ⟨rfl, htree⟩
          | ok _ =>
            have hagain := hmake u u' p htree List.mem_cons_self hp
            simp only [hstat u u' p htree List.mem_cons_self hp]
            generalize u.makeDir cwd p = z, u'.makeDir cwd p = z' at hagain
            cases hagain with
            | ok hz => exact ⟨rfl, hz⟩
            | error e => exact ⟨rfl, htree⟩
        | _ => exact ⟨rfl, h⟩

/-- A relation between entries of one name. Entries that differ are files with different texts. -/
structure Likeness (R : String → Entry → Entry → Prop) : Prop where
  refl : ∀ n e, R n e e
  texts : ∀ n e e', R n e e' →
    e' = e ∨ ∃ text text', e = .file (.text text) ∧ e' = .file (.text text')

/-- Entries at one place that are alike. -/
def AlikeAt (R : String → Entry → Entry → Prop) (x x' : Place × Entry) : Prop :=
  x'.1 = x.1 ∧ R (x.1.headD "") x.2 x'.2

/-- Two trees have the same places, with entries that are alike. -/
def Twin (R : String → Entry → Entry → Prop) (t t' : Tree) : Prop :=
  List.Forall₂ (AlikeAt R) t.entries t'.entries

section

variable {R : String → Entry → Entry → Prop} {t t' : Tree} {cwd place : Place} {p dir dir' : Path}
  {m n : String}

theorem Likeness.kind_eq (hR : Likeness R) {e e' : Entry} (h : R n e e') : e'.kind = e.kind := by
  rcases hR.texts n e e' h with rfl | ⟨text, text', rfl, rfl⟩ <;> rfl

theorem twin_refl (hR : Likeness R) (t : Tree) : Twin R t t :=
  List.forall₂_same.2 fun _ _ => ⟨rfl, hR.refl _ _⟩

/-! ## Looking -/

theorem lookup_alike {es es' : List (Place × Entry)} (h : List.Forall₂ (AlikeAt R) es es')
    (q : Place) : Option.Rel (R (q.headD "")) (es.lookup q) (es'.lookup q) := by
  induction h with
  | nil => exact .none
  | @cons x x' es es' hx _ ih =>
    obtain ⟨hplace, hentry⟩ := hx
    rw [List.lookup_cons, List.lookup_cons, hplace]
    by_cases hq : q = x.1
    · rw [hq, beq_self_eq_true]
      exact .some hentry
    · rw [beq_false_of_ne hq]
      exact ih

/-- What stands at a place of two twins. -/
theorem Twin.get?_cases (hR : Likeness R) (h : Twin R t t') (q : Place) :
    (t.get? q = none ∧ t'.get? q = none) ∨ (t.get? q = some .dir ∧ t'.get? q = some .dir) ∨
      ∃ c c', t.get? q = some (.file c) ∧ t'.get? q = some (.file c') ∧
        R (q.headD "") (.file c) (.file c') := by
  unfold get?
  split
  · exact .inr (.inl ⟨rfl, rfl⟩)
  · have hrel := lookup_alike h q
    generalize t.entries.lookup q = x, t'.entries.lookup q = x' at hrel
    cases hrel with
    | none => exact .inl ⟨rfl, rfl⟩
    | @some e e' hentry =>
      have hkind := hR.kind_eq hentry
      cases e <;> cases e'
      · exact .inr (.inl ⟨rfl, rfl⟩)
      · cases hkind
      · cases hkind
      · exact .inr (.inr ⟨_, _, rfl, rfl, hentry⟩)

theorem Twin.file_alike {c c' : Content} (hR : Likeness R) (h : Twin R t t') {q : Place}
    (hc : t.get? q = some (.file c)) (hc' : t'.get? q = some (.file c')) :
    R (q.headD "") (.file c) (.file c') := by
  rcases h.get?_cases hR q with ⟨hq, -⟩ | ⟨hq, -⟩ | ⟨d, d', hq, hq', hd⟩
  · rw [hc] at hq
    cases hq
  · rw [hc] at hq
    cases hq
  · rw [hc] at hq
    rw [hc'] at hq'
    cases hq
    cases hq'
    exact hd

theorem Twin.isSome_eq (hR : Likeness R) (h : Twin R t t') (q : Place) :
    (t'.get? q).isSome = (t.get? q).isSome := by
  rcases h.get?_cases hR q with ⟨hq, hq'⟩ | ⟨hq, hq'⟩ | ⟨c, c', hq, hq', -⟩ <;>
    simp only [hq, hq', Option.isSome_some]

theorem Twin.dir_iff (hR : Likeness R) (h : Twin R t t') (q : Place) :
    t'.get? q = some .dir ↔ t.get? q = some .dir := by
  rcases h.get?_cases hR q with ⟨hq, hq'⟩ | ⟨hq, hq'⟩ | ⟨c, c', hq, hq', -⟩ <;> simp [hq, hq']

theorem Twin.step_eq (hR : Likeness R) (h : Twin R t t') : t'.step = t.step := by
  funext here name
  unfold step
  rw [h.isSome_eq hR]
  rcases h.get?_cases hR here with ⟨hq, hq'⟩ | ⟨hq, hq'⟩ | ⟨c, c', hq, hq', -⟩ <;> rw [hq, hq']

theorem Twin.spot_eq (hR : Likeness R) (h : Twin R t t') (cwd : Place) (p : Path) :
    t'.spot cwd p = t.spot cwd p := by
  unfold spot
  rw [h.step_eq hR]
  refine bind_congr fun origin => ?_
  split
  · rfl
  · refine bind_congr fun parent => ?_
    rcases h.get?_cases hR parent with ⟨hq, hq'⟩ | ⟨hq, hq'⟩ | ⟨c, c', hq, hq', -⟩ <;> rw [hq, hq']

theorem Twin.resolve (hR : Likeness R) (h : Twin R t t') (cwd : Place) (p : Path) :
    Paired (AlikeAt R) (t.resolve cwd p) (t'.resolve cwd p) := by
  unfold Tree.resolve
  rw [h.step_eq hR]
  refine .bind (.refl _) ?_
  rintro origin - - rfl
  refine .bind (.refl _) ?_
  rintro place - - rfl
  rcases h.get?_cases hR place with ⟨hq, hq'⟩ | ⟨hq, hq'⟩ | ⟨c, c', hq, hq', hc⟩
  · simp only [hq, hq']
    exact .error _
  · simp only [hq, hq']
    exact .ok ⟨rfl, hR.refl _ _⟩
  · simp only [hq, hq']
    split
    · exact .error _
    · exact .ok ⟨rfl, hc⟩

theorem Twin.stat_eq (hR : Likeness R) (h : Twin R t t') (cwd : Place) (p : Path) :
    t'.stat cwd p = t.stat cwd p := by
  unfold stat
  have hpair := h.resolve hR cwd p
  generalize t.resolve cwd p = x, t'.resolve cwd p = x' at hpair
  cases hpair with
  | error e => rfl
  | @ok x x' hx => exact congrArg some (hR.kind_eq hx.2)

/-! ## Changing -/

theorem filter_alike {es es' : List (Place × Entry)} (h : List.Forall₂ (AlikeAt R) es es')
    (keep : Place → Bool) :
    List.Forall₂ (AlikeAt R) (es.filter fun e => keep e.1) (es'.filter fun e => keep e.1) := by
  refine List.rel_filter (fun x x' hx => ?_) h
  simp only [hx.1]

theorem Twin.put {e e' : Entry} (h : Twin R t t') (q : Place) (he : R (q.headD "") e e') :
    Twin R (t.put q e) (t'.put q e') :=
  .cons ⟨rfl, he⟩ (filter_alike h fun place => decide (place ≠ q))

theorem Twin.erase (h : Twin R t t') (q : Place) : Twin R (t.erase q) (t'.erase q) :=
  filter_alike h fun place => decide (place ≠ q)

/-- Below a place, an entry keeps its name when the place is moved. -/
theorem headD_moved {q old : Place} (hsuffix : old.isSuffixOf q = true) (hne : q ≠ old)
    (new : Place) : (q.take (q.length - old.length) ++ new).headD "" = q.headD "" := by
  obtain ⟨names, rfl⟩ := List.isSuffixOf_iff_suffix.1 hsuffix
  rw [List.length_append, Nat.add_sub_cancel, List.take_left]
  cases names with
  | nil => exact absurd rfl hne
  | cons name names => rfl

theorem moved_alike {es es' : List (Place × Entry)} (h : List.Forall₂ (AlikeAt R) es es')
    (old new : Place) :
    List.Forall₂ (AlikeAt R)
      ((es.filter fun e => old.isSuffixOf e.1 && e.1 ≠ old).map fun (place, entry) =>
        (place.take (place.length - old.length) ++ new, entry))
      ((es'.filter fun e => old.isSuffixOf e.1 && e.1 ≠ old).map fun (place, entry) =>
        (place.take (place.length - old.length) ++ new, entry)) := by
  induction h with
  | nil => exact .nil
  | @cons x x' es es' hx _ ih =>
    obtain ⟨q, e⟩ := x
    obtain ⟨q', e'⟩ := x'
    obtain ⟨hplace, hentry⟩ := hx
    obtain rfl : q' = q := hplace
    by_cases hq : (old.isSuffixOf q' && decide (q' ≠ old)) = true
    · rw [List.filter_cons_of_pos (by exact hq), List.filter_cons_of_pos (by exact hq)]
      obtain ⟨hsuffix, hne⟩ := Bool.and_eq_true_iff.1 hq
      refine .cons ⟨rfl, ?_⟩ ih
      rw [headD_moved hsuffix (of_decide_eq_true hne)]
      exact hentry
    · rw [List.filter_cons_of_neg (by exact hq), List.filter_cons_of_neg (by exact hq)]
      exact ih

theorem Twin.move (hR : Likeness R) (h : Twin R t t') {old : Place} (hold : t.get? old = some .dir)
    (new : Place) : Twin R (t.move old new) (t'.move old new) := by
  unfold Tree.move
  rw [hold, (h.dir_iff hR old).2 hold]
  refine .cons ⟨rfl, hR.refl _ _⟩ (List.rel_append (moved_alike h old new) ?_)
  exact filter_alike h fun place => !old.isSuffixOf place && place ≠ new

/-! ### Directories -/

theorem Twin.makeDir (hR : Likeness R) (h : Twin R t t') (cwd : Place) (p : Path) :
    Paired (Twin R) (t.makeDir cwd p) (t'.makeDir cwd p) := by
  unfold Tree.makeDir
  rw [h.spot_eq hR]
  refine .bind (.refl _) ?_
  rintro spot - - rfl
  cases spot with
  | fixed => exact .error _
  | child parent name slash =>
    simp only [h.isSome_eq hR]
    split
    · exact .error _
    · exact .ok (h.put _ (hR.refl _ _))

theorem Twin.makeDirsAlong (hR : Likeness R) (h : Twin R t t') (cwd : Place) (ps : List Path) :
    (t'.makeDirsAlong cwd ps).1 = (t.makeDirsAlong cwd ps).1 ∧
      Twin R (t.makeDirsAlong cwd ps).2 (t'.makeDirsAlong cwd ps).2 :=
  makeDirsAlong_paired (fun _ _ p h _ _ => Twin.makeDir hR h cwd p)
    (fun _ _ p h _ _ => Twin.stat_eq hR h cwd p) h

theorem Twin.scratch (hR : Likeness R) (h : Twin R t t') (cwd : Place) (dir : Path) :
    Paired (fun x x' => x'.1 = x.1 ∧ Twin R x.2 x'.2 ∧
        ∃ k, IsName (scratchName k) ∧ x.1 = dir / scratchName k)
      (t.scratch cwd dir) (t'.scratch cwd dir) := by
  unfold Tree.scratch
  refine .bind (h.resolve hR cwd dir) ?_
  rintro ⟨place, e⟩ ⟨place', e'⟩ - ⟨rfl, he⟩
  have hkind := hR.kind_eq he
  cases e <;> cases e'
  · have hnames : t'.scratchNames = t.scratchNames := by
      rw [scratchNames, scratchNames, List.Forall₂.length_eq h]
    simp only [hnames, ← Option.not_isSome, h.isSome_eq hR]
    split
    · exact .error _
    · next name hname =>
      obtain ⟨k, -, rfl⟩ := List.mem_map.1 (List.mem_of_find?_eq_some hname)
      refine .bind (.refl _) ?_
      rintro origin - - rfl
      split
      · exact .error _
      · next hlong =>
        have hput := h.put (scratchName k :: place') (hR.refl _ (.file (.text "")))
        exact .ok ⟨rfl, hput, k, isName_scratchName (Nat.not_lt.1 hlong), rfl⟩
  · cases hkind
  · cases hkind
  · exact .error _

/-! ### Files -/

theorem Twin.write (hR : Likeness R) (h : Twin R t t') (hn : IsName n) {c c' : Content}
    (hc : R n (.file c) (.file c')) :
    Paired (Twin R) (t.write cwd (dir / n) c) (t'.write cwd (dir / n) c') := by
  unfold Tree.write
  rw [h.spot_eq hR]
  refine .bind (.refl _) ?_
  rintro spot _ hspot rfl
  obtain ⟨-, place, -, rfl⟩ := (spot_div hn).1 hspot
  simp only [h.dir_iff hR]
  split
  · exact .error _
  · exact .ok (h.put _ hc)

theorem Twin.copy (hR : Likeness R) (h : Twin R t t') (hm : IsName m) (hn : IsName n)
    (hmn : ∀ c c', R m (.file c) (.file c') → R n (.file c) (.file c')) :
    Paired (Twin R) (t.copy cwd (dir / m) (dir' / n)) (t'.copy cwd (dir / m) (dir' / n)) := by
  unfold Tree.copy
  refine .bind (h.resolve hR cwd (dir / m)) ?_
  rintro ⟨place, e⟩ ⟨place', e'⟩ hresolve ⟨-, he⟩
  obtain ⟨-, parent, -, rfl, -⟩ := (resolve_div hm).1 hresolve
  have hkind := hR.kind_eq he
  cases e <;> cases e'
  · exact .error _
  · cases hkind
  · cases hkind
  · exact h.write hR hn (hmn _ _ he)

theorem Twin.remove (hR : Likeness R) (h : Twin R t t') (cwd : Place) (p : Path) :
    Paired (Twin R) (t.remove cwd p) (t'.remove cwd p) := by
  unfold Tree.remove
  rw [h.spot_eq hR]
  refine .bind (.refl _) ?_
  rintro spot - - rfl
  cases spot with
  | fixed => exact .error _
  | child parent name slash =>
    rcases h.get?_cases hR (name :: parent) with ⟨hq, hq'⟩ | ⟨hq, hq'⟩ | ⟨c, c', hq, hq', -⟩
    · simp only [hq, hq']
      exact .error _
    · simp only [hq, hq']
      exact .error _
    · simp only [hq, hq']
      split
      · exact .error _
      · exact .ok (h.erase _)

theorem Twin.below_isEmpty_eq (h : Twin R t t') (q : Place) :
    (t'.below q).isEmpty = (t.below q).isEmpty := by
  have hlength : (t.below q).length = (t'.below q).length :=
    (filter_alike h fun p => q.isSuffixOf p && p ≠ q).length_eq
  rw [Bool.eq_iff_iff, List.isEmpty_iff_length_eq_zero, List.isEmpty_iff_length_eq_zero, hlength]

/-- A file goes to where it may differ as it does. -/
theorem Twin.rename (hR : Likeness R) (h : Twin R t t') (hm : IsName m) (hn : IsName n)
    (hmn : ∀ c c', t.get? (m :: aim cwd dir) = some (.file c) →
      t'.get? (m :: aim cwd dir) = some (.file c') → R n (.file c) (.file c')) :
    Paired (Twin R) (t.rename cwd (dir / m) (dir' / n)) (t'.rename cwd (dir / m) (dir' / n)) := by
  unfold Tree.rename
  rw [h.spot_eq hR, h.spot_eq hR]
  refine .bind (.refl _) ?_
  rintro - - - rfl
  refine .bind (.refl _) ?_
  rintro - - - rfl
  refine .bind (.refl _) ?_
  rintro source _ hsource rfl
  refine .bind (.refl _) ?_
  rintro target _ htarget rfl
  obtain ⟨-, place, hlead, rfl⟩ := (spot_div hm).1 hsource
  obtain rfl := hlead.eq_aim
  obtain ⟨-, place', -, rfl⟩ := (spot_div hn).1 htarget
  have hfound := h.get?_cases hR (n :: place')
  rcases h.get?_cases hR (m :: aim cwd dir) with ⟨hq, hq'⟩ | ⟨hq, hq'⟩ | ⟨c, c', hq, hq', -⟩
  · simp only [hq, hq']
    exact .error _
  · have hmove := Twin.move hR h hq (n :: place')
    simp only [hq, hq']
    split
    · exact .ok h
    · split
      · exact .error _
      · split
        · exact .error _
        · rcases hfound with ⟨hf, hf'⟩ | ⟨hf, hf'⟩ | ⟨c, c', hf, hf', -⟩
          · simp only [hf, hf']
            exact .ok hmove
          · simp only [hf, hf', h.below_isEmpty_eq]
            split
            · exact .ok hmove
            · exact .error _
          · simp only [hf, hf']
            exact .error _
  · have hput := (h.erase (m :: aim cwd dir)).put (n :: place') (hmn c c' hq hq')
    simp only [hq, hq', h.dir_iff hR]
    split
    · exact .error _
    · split
      · exact .error _
      · split
        · exact .ok h
        · exact .ok hput

end

end Tree

end LintDigest
