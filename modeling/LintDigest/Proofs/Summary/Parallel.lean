import LintDigest.Proofs.Summary.Alike
import LintDigest.Proofs.Tree.Twin

/-!
# Trees that agree off some places

`Parallel E` compares two trees that may differ in any way at the places in `E`, and elsewhere in the
moments that pages show. A path whose walk comes by no place in `E` leads to the same in both trees,
and what is written there leaves them parallel: either both writes succeed or neither does.
-/

namespace LintDigest

open Storage LintDigest.Tree

/-- Off the places in `E`, two trees differ in moments only. -/
def Parallel (E : Place → Prop) (t u : Tree) : Prop :=
  ∀ n place, ¬ E (n :: place) → Alike n (t.get? (n :: place)) (u.get? (n :: place))

/-- The walk of a path comes by no place in `E`. -/
def Clear (E : Place → Prop) (cwd : Place) (p : Path) : Prop :=
  ∀ q, OnWay cwd p q → ¬ E q

instance (E : Place → Prop) [DecidablePred E] (cwd : Place) (p : Path) :
    Decidable (Clear E cwd p) :=
  decidable_of_iff (∀ names ∈ (steps p).inits, ¬ E (names.foldl turn (origin cwd p))) (by
    simp only [Clear, OnWay, List.mem_inits]
    constructor
    · rintro h q ⟨names, hnames, rfl⟩
      exact h names hnames
    · exact fun h names hnames => h _ ⟨names, hnames, rfl⟩)

section

variable {E : Place → Prop} {cwd place here q : Place} {p dir : Path} {n name : String}
  {t t' u u' : Tree}

theorem clear_of_false (cwd : Place) (p : Path) : Clear (fun _ => False) cwd p :=
  fun _ _ => id

theorem Clear.not_aim (h : Clear E cwd p) : ¬ E (aim cwd p) :=
  h _ (onWay_aim cwd p)

/-- The walk to a file comes by every place on the way to its directory. -/
theorem Clear.parent (hn : IsName n) (h : Clear E cwd (dir / n)) : Clear E cwd dir := by
  rintro q ⟨names, hnames, rfl⟩
  refine h _ ⟨names, ?_, by rw [origin_div cwd dir hn]⟩
  rw [steps_div dir hn]
  exact hnames.trans (List.prefix_append _ _)

theorem Clear.directoryOf (hn : IsName n) (h : Clear E cwd dir) :
    Clear E cwd (directoryOf (dir / n)) :=
  fun q hq => h q ((onWay_directoryOf hn).1 hq)

/-- A file in a directory is one step further. -/
theorem clear_div (hn : IsName n) (h : Clear E cwd dir) (hfile : ¬ E (n :: aim cwd dir)) :
    Clear E cwd (dir / n) := by
  rintro q ⟨names, hnames, rfl⟩
  rw [steps_div dir hn] at hnames
  rw [origin_div cwd dir hn]
  rcases List.prefix_concat_iff.1 hnames with rfl | hbefore
  · rw [← steps_div dir hn, ← origin_div cwd dir hn]
    show ¬ E (aim cwd (dir / n))
    rwa [aim_div cwd dir hn]
  · exact h _ ⟨names, hbefore, rfl⟩

/-- A scratch file is at no place in `E` unless its directory is. -/
def Tidy (E : Place → Prop) : Prop :=
  ∀ k place, ¬ E place → ¬ E (scratchName k :: place)

/-- Wherever the walk of a clear path stands on its way, it stands at no place in `E`. -/
theorem Clear.not_prefix (h : Clear E cwd p) {names : List String} (hnames : names <+: route p) :
    ¬ E (names.foldl turn (origin cwd p)) := by
  rw [← foldl_turn_filter]
  exact h _ ⟨_, hnames.filter _, rfl⟩

namespace Parallel

/-! ## Looking -/

theorem refl (E : Place → Prop) (t : Tree) : Parallel E t t :=
  fun _ _ _ => .same _

/-- What stands at a place where the trees may not differ. -/
theorem get?_cases (h : Parallel E t u) (hq : ¬ E q) :
    (t.get? q = none ∧ u.get? q = none) ∨ (t.get? q = some .dir ∧ u.get? q = some .dir) ∨
      ∃ c c', t.get? q = some (.file c) ∧ u.get? q = some (.file c') ∧
        Alike (q.headD "") (some (.file c)) (some (.file c')) := by
  cases q with
  | nil => exact .inr (.inl ⟨rfl, rfl⟩)
  | cons n place =>
    have halike := h n place hq
    generalize t.get? (n :: place) = x, u.get? (n :: place) = y at halike
    cases halike with
    | same _ =>
      cases x with
      | none => exact .inl ⟨rfl, rfl⟩
      | some e =>
        cases e with
        | dir => exact .inr (.inl ⟨rfl, rfl⟩)
        | file c => exact .inr (.inr ⟨c, c, rfl, rfl, .same _⟩)
    | pages hpages => exact .inr (.inr ⟨_, _, rfl, rfl, .pages hpages⟩)

theorem isSome_eq (h : Parallel E t u) (hq : ¬ E q) : (u.get? q).isSome = (t.get? q).isSome := by
  rcases h.get?_cases hq with ⟨ht, hu⟩ | ⟨ht, hu⟩ | ⟨c, c', ht, hu, -⟩ <;>
    simp only [ht, hu, Option.isSome_some]

theorem dir_iff (h : Parallel E t u) (hq : ¬ E q) :
    u.get? q = some .dir ↔ t.get? q = some .dir := by
  rcases h.get?_cases hq with ⟨ht, hu⟩ | ⟨ht, hu⟩ | ⟨c, c', ht, hu, -⟩ <;> simp [ht, hu]

theorem get?_eq (h : Parallel E t u) (hE : ¬ E (n :: place)) (hn : n ∉ pageNames) :
    u.get? (n :: place) = t.get? (n :: place) :=
  ((h n place hE).eq_of_notMem hn).symm

theorem step_eq (h : Parallel E t u) (hhere : ¬ E here) (hnext : ¬ E (turn here name)) :
    u.step here name = t.step here name := by
  unfold step
  rcases h.get?_cases hhere with ⟨ht, hu⟩ | ⟨ht, hu⟩ | ⟨c, c', ht, hu, -⟩
  · rw [ht, hu]
  · simp only [ht, hu]
    by_cases hdot : name = "."
    · rw [if_pos hdot, if_pos hdot]
    · by_cases hup : name = ".."
      · simp only [if_neg hdot, if_pos hup]
      · rw [turn, if_neg hdot, if_neg hup] at hnext
        rw [h.isSome_eq hnext]
  · rw [ht, hu]

theorem walk_eq (h : Parallel E t u) {names : List String}
    (hclear : ∀ before, before <+: names → ¬ E (before.foldl turn here)) :
    names.foldlM u.step here = names.foldlM t.step here := by
  induction names generalizing here with
  | nil => rfl
  | cons name names ih =>
    have hstep : u.step here name = t.step here name :=
      h.step_eq (hclear [] List.nil_prefix)
        (hclear [name] ((List.prefix_cons_inj name).2 List.nil_prefix))
    rw [List.foldlM_cons, List.foldlM_cons, hstep]
    cases hnext : t.step here name with
    | error fault => rfl
    | ok next =>
      obtain rfl := turn_of_step hnext
      exact ih fun before hbefore => hclear (name :: before) ((List.prefix_cons_inj name).2 hbefore)

theorem leadsTo_iff (h : Parallel E t u) (hp : Clear E cwd p) :
    LeadsTo u cwd p place ↔ LeadsTo t cwd p place := by
  unfold LeadsTo
  rw [h.walk_eq fun _ hbefore => hp.not_prefix hbefore]
  refine and_congr_right fun hwalk => ?_
  rw [foldl_turn_of_walk hwalk]
  exact h.dir_iff (hp.not_prefix (List.prefix_refl _))

theorem spot_eq (h : Parallel E t u) (hp : Clear E cwd p) : u.spot cwd p = t.spot cwd p := by
  unfold spot
  cases hstart : start cwd p with
  | error fault => rfl
  | ok here =>
    obtain ⟨-, rfl⟩ := start_eq_ok.1 hstart
    simp only [bind, Except.bind]
    have hbefore : ∀ before, before <+: (route p).dropLast →
        ¬ E (before.foldl turn (origin cwd p)) :=
      fun _ hnames => hp.not_prefix (hnames.trans (List.dropLast_prefix _))
    rw [h.walk_eq hbefore]
    cases hwalk : (route p).dropLast.foldlM t.step (origin cwd p) with
    | error fault => rfl
    | ok parent =>
      have hparent : ¬ E parent := by
        rw [foldl_turn_of_walk hwalk]
        exact hbefore _ (List.prefix_refl _)
      rcases h.get?_cases hparent with ⟨ht, hu⟩ | ⟨ht, hu⟩ | ⟨c, c', ht, hu, -⟩ <;>
        simp only [ht, hu]

theorem resolve (h : Parallel E t u) (hp : Clear E cwd p) :
    Paired (fun x y => y.1 = x.1 ∧ Alike ((aim cwd p).headD "") (some x.2) (some y.2))
      (t.resolve cwd p) (u.resolve cwd p) := by
  unfold Tree.resolve
  refine .bind (.refl _) ?_
  rintro here _ hstart rfl
  obtain ⟨-, rfl⟩ := start_eq_ok.1 hstart
  rw [h.walk_eq fun _ hbefore => hp.not_prefix hbefore]
  refine .bind (.refl _) ?_
  rintro place _ hwalk rfl
  have haim : place = aim cwd p := by
    rw [aim, steps, foldl_turn_filter]
    exact foldl_turn_of_walk hwalk
  rcases h.get?_cases (haim ▸ hp.not_aim) with ⟨ht, hu⟩ | ⟨ht, hu⟩ | ⟨c, c', ht, hu, halike⟩
  · simp only [ht, hu]
    exact .error _
  · simp only [ht, hu]
    exact .ok ⟨rfl, .same _⟩
  · simp only [ht, hu]
    split
    · exact .error _
    · rw [haim] at halike
      exact .ok ⟨rfl, halike⟩

theorem stat_eq (h : Parallel E t u) (hp : Clear E cwd p) : u.stat cwd p = t.stat cwd p := by
  have hresolve := h.resolve hp
  unfold stat
  generalize t.resolve cwd p = x, u.resolve cwd p = y at hresolve
  cases hresolve with
  | error fault => rfl
  | @ok x y hxy => simpa using hxy.2.kind_eq.symm

theorem entry_alike (h : Parallel E t u) (hp : Clear E cwd p) :
    Alike ((aim cwd p).headD "") (t.entry cwd p) (u.entry cwd p) := by
  have hresolve := h.resolve hp
  unfold Tree.entry
  generalize t.resolve cwd p = x, u.resolve cwd p = y at hresolve
  cases hresolve with
  | error fault => exact .same _
  | ok hxy => exact hxy.2

/-- What stands at a path, by its name. -/
theorem entry_div (h : Parallel E t u) (hn : IsName n) (hp : Clear E cwd (dir / n)) :
    Alike n (t.entry cwd (dir / n)) (u.entry cwd (dir / n)) := by
  have halike := h.entry_alike hp
  rwa [aim_div _ _ hn] at halike

theorem read_alike (h : Parallel E t u) (hp : Clear E cwd p) :
    Paired (Restamped ((aim cwd p).headD "")) (t.read cwd p) (u.read cwd p) := by
  unfold Tree.read
  refine .bind (h.resolve hp) ?_
  rintro ⟨place, e⟩ ⟨_, e'⟩ - ⟨rfl, halike⟩
  cases halike with
  | same _ =>
    cases e with
    | dir => exact .error _
    | file c =>
      cases c with
      | text text => exact .ok (.same text)
      | binary bytes => exact .error _
  | pages hpages => exact .ok hpages

/-- A document shows no moment. -/
theorem loaded_eq (h : Parallel E t u) (hp : Clear E cwd p)
    (hpage : (aim cwd p).headD "" ∉ pageNames) : loaded u cwd p = loaded t cwd p := by
  have hread := h.read_alike hp
  unfold loaded
  generalize t.read cwd p = x, u.read cwd p = y at hread
  cases hread with
  | error fault => rfl
  | ok htext => rw [htext.eq_of_notMem hpage]

/-! ## Changing -/

/-- The same change in both trees. -/
theorem update {x y : Option Entry} (h : Parallel E t u)
    (ht : t'.get? = Function.update t.get? (n :: place) x)
    (hu : u'.get? = Function.update u.get? (n :: place) y) (hxy : Alike n x y) :
    Parallel E t' u' := by
  intro n' place' hE
  rw [ht, hu]
  by_cases hq : n' :: place' = n :: place
  · rw [hq, Function.update_self, Function.update_self]
    exact (List.cons.inj hq).1 ▸ hxy
  · rw [Function.update_of_ne hq, Function.update_of_ne hq]
    exact h n' place' hE

theorem congr (h : Parallel E t u) (ht : t'.get? = t.get?) (hu : u'.get? = u.get?) :
    Parallel E t' u' := by
  intro n place hE
  rw [ht, hu]
  exact h n place hE

theorem makeDir (h : Parallel E t u) (hp : Clear E cwd p) :
    Paired (Parallel E) (t.makeDir cwd p) (u.makeDir cwd p) := by
  unfold Tree.makeDir
  rw [h.spot_eq hp]
  refine .bind (.refl _) ?_
  rintro spot _ hspot rfl
  cases spot with
  | fixed => exact .error _
  | child parent name slash =>
    have hspot : ¬ E (name :: parent) := eq_aim_of_spot hspot ▸ hp.not_aim
    simp only [h.isSome_eq hspot]
    split
    · exact .error _
    · exact .ok (h.update (get?_put ..) (get?_put ..) (.same _))

theorem makeDirs (h : Parallel E t u) (hp : Clear E cwd p) :
    (u.makeDirs cwd p).1 = (t.makeDirs cwd p).1 ∧
      Parallel E (t.makeDirs cwd p).2 (u.makeDirs cwd p).2 := by
  have hclear : ∀ p' ∈ p.ancestors, p'.text ≠ "" → Clear E cwd p' :=
    fun p' hmem hne q hq => hp q (hq.of_mem_ancestors hmem hne)
  exact makeDirsAlong_paired (fun _ _ p' h hmem hne => Parallel.makeDir h (hclear p' hmem hne))
    (fun _ _ p' h hmem hne => Parallel.stat_eq h (hclear p' hmem hne)) h

/-- Scratch files get the same names, so they can be created in both trees or in neither. -/
theorem scratch_iff (h : Parallel E t u) (hE : Tidy E) (hdir : Clear E cwd dir) :
    (∃ s, u.scratch cwd dir = .ok s) ↔ ∃ s, t.scratch cwd dir = .ok s := by
  have hplace : ∀ {place e}, t.resolve cwd dir = .ok (place, e) → ¬ E place := by
    intro place e hresolve
    rw [eq_aim_of_resolve hresolve]
    exact hdir.not_aim
  have hresolve := h.resolve hdir
  cases ht : t.resolve cwd dir with
  | error fault =>
    rw [ht] at hresolve
    cases hu : u.resolve cwd dir with
    | ok found =>
      rw [hu] at hresolve
      cases hresolve
    | error fault' => simp [Tree.scratch, ht, hu, bind, Except.bind]
  | ok found =>
    obtain ⟨place, e⟩ := found
    rw [ht] at hresolve
    generalize hu : u.resolve cwd dir = y at hresolve
    obtain _ | @⟨_, ⟨place', e'⟩, hsame, halike⟩ := hresolve
    obtain rfl : place' = place := hsame
    have hkind := halike.kind_eq
    cases e <;> cases e'
    · obtain ⟨k, -, hfree, hbefore⟩ := exists_first_free t place'
      have htaken : ∀ j, (u.get? (scratchName j :: place')).isSome =
          (t.get? (scratchName j :: place')).isSome :=
        fun j => h.isSome_eq (hE j place' (hplace ht))
      have hfree' : u.get? (scratchName k :: place') = none := by
        rw [← Option.not_isSome_iff_eq_none, htaken, hfree]
        simp
      rw [scratch_isOk ht hfree hbefore, scratch_isOk hu hfree' fun j hj => htaken j ▸ hbefore j hj]
    · cases hkind
    · cases hkind
    · simp [Tree.scratch, ht, hu, bind, Except.bind]

theorem prepared (h : Parallel E t u) (hn : IsName n) (hdir : Clear E cwd dir) :
    Parallel E (prepared t cwd (dir / n)) (prepared u cwd (dir / n)) :=
  (h.makeDirs (hdir.directoryOf hn)).2

theorem writable_iff (h : Parallel E t u) (hE : Tidy E) (hn : IsName n)
    (hp : Clear E cwd (dir / n)) : Writable u cwd (dir / n) ↔ Writable t cwd (dir / n) := by
  have hdir := (hp.parent hn).directoryOf hn
  have hprepared := h.prepared hn (hp.parent hn)
  unfold Writable
  rw [(h.makeDirs hdir).1, hprepared.scratch_iff hE hdir,
    hprepared.spot_eq hp]
  refine and_congr_right fun _ => and_congr_right fun _ => ?_
  refine exists_congr fun place => exists_congr fun n' => and_congr_right fun hspot => ?_
  rw [Ne, Ne, hprepared.dir_iff (eq_aim_of_spot hspot ▸ hp.not_aim)]

/-- Writing the same to both trees succeeds in both or in neither, and leaves them parallel. -/
theorem replaced {text text' : String} {res res' : Except Error Unit} (h : Parallel E t u)
    (hE : Tidy E) (hn : IsName n) (hp : Clear E cwd (dir / n))
    (ht : Replaced t cwd (dir / n) text res t') (hu : Replaced u cwd (dir / n) text' res' u')
    (hr : Restamped n text text') : res'.toOption = res.toOption ∧ Parallel E t' u' := by
  have hprepared := h.prepared hn (hp.parent hn)
  have hable := h.writable_iff hE hn hp
  cases ht with
  | written able spot free result =>
    cases hu with
    | written able' spot' free' result' =>
      rw [hprepared.spot_eq hp, spot] at spot'
      cases spot'
      obtain ⟨-, place, -, hspot⟩ := (spot_div hn).1 spot
      cases hspot
      exact ⟨rfl, hprepared.update result result' (.pages hr)⟩
    | failed unable' => exact absurd (hable.2 able) unable'
  | failed unable result =>
    cases hu with
    | written able' => exact absurd (hable.1 able') unable
    | failed unable' result' => exact ⟨rfl, hprepared.congr result result'⟩

end Parallel

end

end LintDigest
