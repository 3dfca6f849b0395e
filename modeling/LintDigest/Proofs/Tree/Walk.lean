import Mathlib.Logic.Function.Basic
import LintDigest.Proofs.Except
import LintDigest.Proofs.Path.Steps

/-!
# Where walks lead

`LeadsTo` says that a path leads to a directory. A walk goes through directories only, so it leads
to the same place in every tree that keeps the directories (`LeadsTo.mono`). `spot_div` and
`resolve_div` say what a name in a directory stands for.
-/

namespace LintDigest.Tree

/-! ## Entries -/

theorem lookup_filter_ne {p q : Place} (h : q ≠ p) (es : List (Place × Entry)) :
    (es.filter (·.1 ≠ p)).lookup q = es.lookup q := by
  induction es with
  | nil => rfl
  | cons e es ih =>
    obtain ⟨k, e⟩ := e
    by_cases hk : k = p
    · have hqk : (q == k) = false := by simpa [hk] using h
      rw [List.filter_cons_of_neg (by simpa using hk), ih, List.lookup_cons, hqk]
    · rw [List.filter_cons_of_pos (by simpa using hk), List.lookup_cons, List.lookup_cons, ih]

theorem lookup_filter_self (p : Place) (es : List (Place × Entry)) :
    (es.filter (·.1 ≠ p)).lookup p = none := by
  induction es with
  | nil => rfl
  | cons e es ih =>
    obtain ⟨k, e⟩ := e
    by_cases hk : k = p
    · rw [List.filter_cons_of_neg (by simpa using hk), ih]
    · have hpk : (p == k) = false := by simpa using Ne.symm hk
      rw [List.filter_cons_of_pos (by simpa using hk), List.lookup_cons, hpk, ih]

theorem get?_put (t : Tree) (n : String) (place : Place) (e : Entry) :
    (t.put (n :: place) e).get? = Function.update t.get? (n :: place) (some e) := by
  funext q
  unfold get? put
  by_cases hq : q = n :: place
  · simp [hq]
  · have hqn : (q == n :: place) = false := by simpa using hq
    rw [Function.update_of_ne hq, List.lookup_cons, hqn, lookup_filter_ne hq]

theorem get?_erase (t : Tree) (n : String) (place : Place) :
    (t.erase (n :: place)).get? = Function.update t.get? (n :: place) none := by
  funext q
  unfold get? erase
  by_cases hq : q = n :: place
  · rw [hq, Function.update_self, if_neg (List.cons_ne_nil _ _), lookup_filter_self]
  · rw [Function.update_of_ne hq, lookup_filter_ne hq]

/-! ## Walks -/

/-- Every directory of `t` is one of `t'`. -/
def DirsKept (t t' : Tree) : Prop :=
  ∀ q, t.get? q = some .dir → t'.get? q = some .dir

theorem DirsKept.trans {t t' t'' : Tree} (h : DirsKept t t') (h' : DirsKept t' t'') :
    DirsKept t t'' :=
  fun q hq => h' q (h q hq)

theorem get?_of_step {t : Tree} {here next : Place} {name : String}
    (h : t.step here name = .ok next) : t.get? here = some .dir := by
  unfold step at h
  split at h
  · cases h
  · cases h
  · assumption

/-- Whoever arrives in a directory has started in one. -/
theorem get?_of_walk {t : Tree} {names : List String} {here place : Place}
    (h : names.foldlM t.step here = .ok place) (hp : t.get? place = some .dir) :
    t.get? here = some .dir := by
  cases names with
  | nil =>
    cases h
    exact hp
  | cons name names =>
    rw [List.foldlM_cons, bind_eq_ok] at h
    obtain ⟨next, hstep, -⟩ := h
    exact get?_of_step hstep

theorem step_mono {t t' : Tree} (hk : DirsKept t t') {here next : Place} {name : String}
    (h : t.step here name = .ok next) (hnext : (t'.get? next).isSome) :
    t'.step here name = .ok next := by
  have hhere := get?_of_step h
  have hhere' := hk _ hhere
  unfold step at h ⊢
  simp only [hhere] at h
  simp only [hhere']
  split at h
  · next hname => simpa [hname] using h
  · next hdot =>
    split at h
    · next hup => simpa [hdot, hup] using h
    · next hup =>
      split at h
      · cases h
      · next hlong =>
        split at h
        · cases h
          simp [hdot, hup, hlong, hnext]
        · cases h

/-- A walk goes through directories, so it needs nothing else but the place where it ends. -/
theorem walk_mono {t t' : Tree} (hk : DirsKept t t') {names : List String} {here place : Place}
    (h : names.foldlM t.step here = .ok place) (hp : (t'.get? place).isSome) :
    names.foldlM t'.step here = .ok place := by
  induction names generalizing here with
  | nil => exact h
  | cons name names ih =>
    rw [List.foldlM_cons, bind_eq_ok] at h
    obtain ⟨next, hstep, hrest⟩ := h
    have hnext : (t'.get? next).isSome := by
      cases names with
      | nil =>
        cases hrest
        exact hp
      | cons name' names =>
        rw [List.foldlM_cons, bind_eq_ok] at hrest
        obtain ⟨_, hstep', -⟩ := hrest
        rw [hk _ (get?_of_step hstep')]
        rfl
    rw [List.foldlM_cons, step_mono hk hstep hnext]
    exact ih hrest

/-- A `.` on the way to a directory says nothing. -/
theorem walk_filter {t : Tree} {names : List String} {here place : Place}
    (hp : t.get? place = some .dir) :
    (names.filter (· ≠ ".")).foldlM t.step here = .ok place ↔
      names.foldlM t.step here = .ok place := by
  induction names generalizing here with
  | nil => rfl
  | cons name names ih =>
    by_cases hname : name = "."
    · rw [List.filter_cons_of_neg (by simpa using hname), ih, List.foldlM_cons, bind_eq_ok]
      constructor
      · intro h
        refine ⟨here, ?_, h⟩
        rw [step, get?_of_walk h hp, hname]
        rfl
      · rintro ⟨next, hstep, h⟩
        rw [step, get?_of_step hstep, hname] at hstep
        cases hstep
        exact h
    · rw [List.filter_cons_of_pos (by simpa using hname), List.foldlM_cons, List.foldlM_cons,
        bind_eq_ok, bind_eq_ok]
      simp only [ih]

/-! ## Directories -/

/-- The place where the walk of a path starts, whether or not the path can be walked. -/
def origin (cwd : Place) (p : Path) : Place :=
  if p.isAbsolute then [] else cwd

/-- The walk of a path ends in a directory, which is at `place`. -/
def LeadsTo (t : Tree) (cwd : Place) (p : Path) (place : Place) : Prop :=
  (route p).foldlM t.step (origin cwd p) = .ok place ∧ t.get? place = some .dir

theorem LeadsTo.mono {t t' : Tree} {cwd place : Place} {p : Path} (h : LeadsTo t cwd p place)
    (hk : DirsKept t t') : LeadsTo t' cwd p place :=
  ⟨walk_mono hk h.1 (by simp [hk _ h.2]), hk _ h.2⟩

theorem LeadsTo.unique {t : Tree} {cwd place place' : Place} {p : Path}
    (h : LeadsTo t cwd p place) (h' : LeadsTo t cwd p place') : place = place' :=
  Except.ok.inj (h.1.symm.trans h'.1)

theorem origin_div (cwd : Place) (dir : Path) {n : String} (hn : IsName n) :
    origin cwd (dir / n) = origin cwd dir := by
  rw [origin, isAbsolute_div dir hn, origin]

theorem leadsTo_iff_steps {t : Tree} {cwd place : Place} {p : Path} :
    LeadsTo t cwd p place ↔
      (steps p).foldlM t.step (origin cwd p) = .ok place ∧ t.get? place = some .dir :=
  and_congr_left fun hp => (walk_filter hp).symm

theorem leadsTo_directoryOf {t : Tree} {cwd place : Place} (dir : Path) {n : String}
    (hn : IsName n) :
    LeadsTo t cwd (Storage.directoryOf (dir / n)) place ↔ LeadsTo t cwd dir place := by
  obtain ⟨hsteps, habs⟩ := steps_directoryOf dir hn
  rw [leadsTo_iff_steps, leadsTo_iff_steps, hsteps, origin, habs, origin]

/-! ## Names in directories -/

/-- A path that an operating system takes at all. -/
def Walkable (p : Path) : Prop :=
  '\x00' ∉ p.text.toList ∧ p.text ≠ "" ∧ p.text.utf8ByteSize ≤ maxPath

theorem start_eq_ok {cwd here : Place} {p : Path} :
    start cwd p = .ok here ↔ Walkable p ∧ here = origin cwd p := by
  constructor
  · intro h
    unfold start at h
    split at h
    · cases h
    · next hz =>
      split at h
      · cases h
      · next he =>
        split at h
        · cases h
        · next hl =>
          cases h
          exact ⟨⟨by simpa using hz, he, Nat.not_lt.1 hl⟩, rfl⟩
  · rintro ⟨⟨hz, he, hl⟩, rfl⟩
    rw [start, if_neg (by simpa using hz), if_neg he, if_neg (Nat.not_lt.2 hl)]
    rfl

/-- The spot of a path, by its last name and the walk of the others. -/
theorem spot_eq_child {t : Tree} {cwd place : Place} {p : Path} {n : String} {slash : Bool} :
    t.spot cwd p = .ok (.child place n slash) ↔
      Walkable p ∧ (route p).getLast? = some n ∧ n ≠ "." ∧ n ≠ ".." ∧ n.utf8ByteSize ≤ maxName ∧
        (route p).dropLast.foldlM t.step (origin cwd p) = .ok place ∧
          t.get? place = some .dir ∧ slash = trailing p := by
  unfold spot
  simp only [bind_eq_ok, start_eq_ok]
  constructor
  · rintro ⟨_, ⟨hw, rfl⟩, h⟩
    refine ⟨hw, ?_⟩
    split at h
    · cases h
    · next name hname =>
      rw [bind_eq_ok] at h
      obtain ⟨parent, hwalk, h⟩ := h
      split at h
      · cases h
      · cases h
      · next hdir =>
        split at h
        · cases h
        · next hdots =>
          split at h
          · cases h
          · next hlong =>
            cases h
            rw [not_or] at hdots
            exact ⟨hname, hdots.1, hdots.2, Nat.not_lt.1 hlong, hwalk, hdir, rfl⟩
  · rintro ⟨hw, hname, hdot, hup, hlong, hwalk, hdir, rfl⟩
    refine ⟨_, ⟨hw, rfl⟩, ?_⟩
    simp [hname, hwalk, hdir, hdot, hup, Nat.not_lt.2 hlong, bind, Except.bind, pure, Except.pure]

theorem spot_mono {t t' : Tree} (hk : DirsKept t t') {cwd place : Place} {p : Path} {n : String}
    {slash : Bool} (h : t.spot cwd p = .ok (.child place n slash)) :
    t'.spot cwd p = .ok (.child place n slash) := by
  rw [spot_eq_child] at h ⊢
  obtain ⟨hw, hname, hdot, hup, hlong, hwalk, hdir, hslash⟩ := h
  exact ⟨hw, hname, hdot, hup, hlong, walk_mono hk hwalk (by simp [hk _ hdir]), hk _ hdir, hslash⟩

theorem spot_div {t : Tree} {cwd : Place} {dir : Path} {n : String} (hn : IsName n) {s : Spot} :
    t.spot cwd (dir / n) = .ok s ↔
      Walkable (dir / n) ∧ ∃ place, LeadsTo t cwd dir place ∧ s = .child place n false := by
  have hroute := route_div dir hn
  have hslash := trailing_div dir hn
  have horigin := origin_div cwd dir hn
  obtain ⟨-, hdot, hup, -, hlong⟩ := hn
  constructor
  · intro h
    cases s with
    | fixed =>
      -- Only a path that ends in no name, or in dots, has a fixed spot.
      unfold spot at h
      simp only [bind_eq_ok, hroute, List.getLast?_concat] at h
      obtain ⟨_, -, parent, -, h⟩ := h
      split at h
      · cases h
      · cases h
      · rw [if_neg (by simp [hdot, hup]), if_neg (Nat.not_lt.2 hlong)] at h
        cases h
    | child place name slash =>
      obtain ⟨hw, hname, -, -, -, hwalk, hdir, rfl⟩ := spot_eq_child.1 h
      rw [hroute, List.getLast?_concat] at hname
      cases hname
      rw [hroute, List.dropLast_concat, horigin] at hwalk
      exact ⟨hw, place, ⟨hwalk, hdir⟩, by rw [hslash]⟩
  · rintro ⟨hw, place, ⟨hwalk, hdir⟩, rfl⟩
    refine spot_eq_child.2 ⟨hw, by simp [hroute], hdot, hup, hlong, ?_, hdir, hslash.symm⟩
    rwa [hroute, List.dropLast_concat, horigin]

theorem resolve_eq_ok {t : Tree} {cwd place : Place} {p : Path} {e : Entry} :
    t.resolve cwd p = .ok (place, e) ↔
      Walkable p ∧ (route p).foldlM t.step (origin cwd p) = .ok place ∧ t.get? place = some e ∧
        (trailing p = true → e = .dir) := by
  unfold resolve
  simp only [bind_eq_ok, start_eq_ok]
  constructor
  · rintro ⟨_, ⟨hw, rfl⟩, place', hwalk, h⟩
    refine ⟨hw, ?_⟩
    split at h
    · cases h
    · next c hc =>
      split at h
      · cases h
      · next hslash =>
        cases h
        exact ⟨hwalk, hc, fun ht => absurd ht hslash⟩
    · next hdir =>
      cases h
      exact ⟨hwalk, hdir, fun _ => rfl⟩
  · rintro ⟨hw, hwalk, he, hslash⟩
    refine ⟨_, ⟨hw, rfl⟩, place, hwalk, ?_⟩
    cases e with
    | dir => simp [he]
    | file c =>
      have : trailing p = false := by
        cases ht : trailing p with
        | false => rfl
        | true => exact absurd (hslash ht) (by simp)
      simp [he, this]

theorem resolve_eq_dir {t : Tree} {cwd place : Place} {p : Path} :
    t.resolve cwd p = .ok (place, .dir) ↔ Walkable p ∧ LeadsTo t cwd p place := by
  rw [resolve_eq_ok, LeadsTo]
  simp

/-- A path leads to what stands at its spot. -/
theorem resolve_of_spot {t : Tree} {cwd place : Place} {p : Path} {n : String} {e : Entry}
    (h : t.spot cwd p = .ok (.child place n false)) (he : t.get? (n :: place) = some e) :
    t.resolve cwd p = .ok (n :: place, e) := by
  obtain ⟨hw, hlast, hdot, hup, hlong, hwalk, hdir, hslash⟩ := spot_eq_child.1 h
  obtain ⟨names, hroute⟩ := List.getLast?_eq_some_iff.1 hlast
  rw [hroute, List.dropLast_concat] at hwalk
  refine resolve_eq_ok.2 ⟨hw, ?_, he, fun htrailing => ?_⟩
  · rw [hroute, List.foldlM_append, bind_eq_ok]
    refine ⟨place, hwalk, ?_⟩
    simp [step, hdir, hdot, hup, Nat.not_lt.2 hlong, he]
  · rw [← hslash] at htrailing
    cases htrailing

/-- What a name in a directory stands for: the entry of that name where the directory leads to. -/
theorem resolve_div {t : Tree} {cwd place : Place} {dir : Path} {n : String} (hn : IsName n)
    {e : Entry} :
    t.resolve cwd (dir / n) = .ok (place, e) ↔
      Walkable (dir / n) ∧ ∃ parent, LeadsTo t cwd dir parent ∧ place = n :: parent ∧
        t.get? place = some e := by
  have hslash := trailing_div dir hn
  rw [resolve_eq_ok, route_div dir hn, origin_div cwd dir hn, List.foldlM_append, hslash]
  simp only [bind_eq_ok, Bool.false_eq_true, false_implies, and_true]
  obtain ⟨-, hdot, hup, -, hlong⟩ := hn
  constructor
  · rintro ⟨hw, ⟨parent, hwalk, hlast⟩, he⟩
    refine ⟨hw, parent, ?_⟩
    rw [List.foldlM_cons, bind_eq_ok] at hlast
    obtain ⟨next, hstep, hnext⟩ := hlast
    cases hnext
    have hdir := get?_of_step hstep
    rw [step, hdir] at hstep
    simp only [if_neg hdot, if_neg hup, if_neg (Nat.not_lt.2 hlong)] at hstep
    split at hstep
    · cases hstep
      exact ⟨⟨hwalk, hdir⟩, rfl, he⟩
    · cases hstep
  · rintro ⟨hw, parent, ⟨hwalk, hdir⟩, rfl, he⟩
    refine ⟨hw, ⟨parent, hwalk, ?_⟩, he⟩
    simp [step, hdir, hdot, hup, Nat.not_lt.2 hlong, he]

end LintDigest.Tree
