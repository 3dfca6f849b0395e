import Mathlib.Data.List.Infix
import LintDigest.Proofs.Storage.Replace

/-!
# Where paths point

There are no links, so a path that can be walked leads where its names say (`LeadsTo.eq_aim`), and
one that cannot be walked yet points there too. Creating the directories of a path changes nothing
but places on the way to it, which makes a successful write a change that the path alone describes
(`Replaced.toWritten`).
-/

namespace LintDigest.Tree

/-! ## By the names alone -/

/-- One step by its name alone. -/
def turn (here : Place) (name : String) : Place :=
  if name = "." then here else if name = ".." then here.tail else name :: here

/-- The place that a path points to, whether or not anything is there. -/
def aim (cwd : Place) (p : Path) : Place :=
  (steps p).foldl turn (origin cwd p)

/-- The walk of `p` comes by `q`. -/
def OnWay (cwd : Place) (p : Path) (q : Place) : Prop :=
  ∃ names, names <+: steps p ∧ q = names.foldl turn (origin cwd p)

instance (cwd : Place) (p : Path) (q : Place) : Decidable (OnWay cwd p q) :=
  decidable_of_iff (q ∈ (steps p).inits.map fun names => names.foldl turn (origin cwd p))
    (by simp only [OnWay, List.mem_map, List.mem_inits, eq_comm (a := q)])

section

variable {t t' : Tree} {cwd place q : Place} {p dir : Path} {n : String}

theorem onWay_aim (cwd : Place) (p : Path) : OnWay cwd p (aim cwd p) :=
  ⟨steps p, List.prefix_refl _, rfl⟩

theorem aim_div (cwd : Place) (dir : Path) (hn : IsName n) :
    aim cwd (dir / n) = n :: aim cwd dir := by
  rw [aim, steps_div dir hn, origin_div cwd dir hn, List.foldl_append]
  simp [turn, aim, hn.2.1, hn.2.2.1]

theorem turn_of_step {here next : Place} {name : String} (h : t.step here name = .ok next) :
    next = turn here name := by
  unfold step at h
  unfold turn
  split at h
  · cases h
  · cases h
  · split at h
    · next hdot =>
      rw [if_pos hdot]
      exact (Except.ok.inj h).symm
    · next hdot =>
      rw [if_neg hdot]
      split at h
      · next hup =>
        rw [if_pos hup]
        exact (Except.ok.inj h).symm
      · next hup =>
        rw [if_neg hup]
        split at h
        · cases h
        · split at h
          · exact (Except.ok.inj h).symm
          · cases h

theorem foldl_turn_of_walk {names : List String} {here : Place}
    (h : names.foldlM t.step here = .ok place) : place = names.foldl turn here := by
  induction names generalizing here with
  | nil =>
    cases h
    rfl
  | cons name names ih =>
    rw [List.foldlM_cons, bind_eq_ok] at h
    obtain ⟨next, hstep, hrest⟩ := h
    rw [List.foldl_cons, ← turn_of_step hstep]
    exact ih hrest

theorem LeadsTo.eq_aim (h : LeadsTo t cwd p place) : place = aim cwd p :=
  foldl_turn_of_walk (leadsTo_iff_steps.1 h).1

theorem foldl_turn_filter (names : List String) (here : Place) :
    (names.filter (· ≠ ".")).foldl turn here = names.foldl turn here := by
  induction names generalizing here with
  | nil => rfl
  | cons name names ih =>
    by_cases hname : name = "."
    · rw [List.filter_cons_of_neg (by simpa using hname), ih, List.foldl_cons, turn, if_pos hname]
    · rw [List.filter_cons_of_pos (by simpa using hname), List.foldl_cons, List.foldl_cons, ih]

theorem eq_aim_of_resolve {e : Entry} (h : t.resolve cwd p = .ok (place, e)) :
    place = aim cwd p := by
  obtain ⟨-, hwalk, -⟩ := resolve_eq_ok.1 h
  rw [aim, steps, foldl_turn_filter]
  exact foldl_turn_of_walk hwalk

theorem get?_of_read {text : String} (h : t.read cwd p = .ok text) :
    t.get? (aim cwd p) = some (.file (.text text)) := by
  obtain ⟨place, hresolve⟩ := read_eq_ok.1 h
  obtain ⟨-, -, hfile, -⟩ := resolve_eq_ok.1 hresolve
  rwa [eq_aim_of_resolve hresolve] at hfile

theorem get?_of_stat {k : EntryKind} (h : t.stat cwd p = some k) :
    ∃ e, t.get? (aim cwd p) = some e ∧ e.kind = k := by
  unfold stat at h
  split at h
  · next place e hresolve =>
    obtain ⟨-, -, he, -⟩ := resolve_eq_ok.1 hresolve
    rw [eq_aim_of_resolve hresolve] at he
    exact ⟨e, he, Option.some.inj h⟩
  · cases h

theorem eq_aim_of_spot {slash : Bool} (h : t.spot cwd p = .ok (.child place n slash)) :
    n :: place = aim cwd p := by
  obtain ⟨-, hlast, hdot, hup, -, hwalk, hdir, -⟩ := spot_eq_child.1 h
  obtain ⟨names, hroute⟩ := List.getLast?_eq_some_iff.1 hlast
  rw [hroute, List.dropLast_concat] at hwalk
  have hparent := foldl_turn_of_walk ((walk_filter hdir).2 hwalk)
  rw [aim, steps, hroute, List.filter_append, List.foldl_append, ← hparent]
  simp [turn, hdot, hup]

/-- A walk that ends in a directory goes through directories. -/
theorem LeadsTo.dir_of_onWay (h : LeadsTo t cwd p place) (hq : OnWay cwd p q) :
    t.get? q = some .dir := by
  obtain ⟨names, ⟨rest, hsteps⟩, rfl⟩ := hq
  obtain ⟨hwalk, hdir⟩ := leadsTo_iff_steps.1 h
  rw [← hsteps, List.foldlM_append, bind_eq_ok] at hwalk
  obtain ⟨here, hhere, hrest⟩ := hwalk
  rw [← foldl_turn_of_walk hhere]
  exact get?_of_walk hrest hdir

/-! ## Ancestors -/

theorem suffix_of_mem_shorter {xs ps : List (List Char)} (h : ps ∈ Path.shorter xs) :
    ∃ mid, mid ≠ [] ∧ xs = mid ++ ps := by
  induction xs with
  | nil => cases h
  | cons x xs ih =>
    rw [Path.shorter] at h
    split at h
    · obtain ⟨mid, -, rfl⟩ := ih h
      exact ⟨x :: mid, List.cons_ne_nil _ _, rfl⟩
    · rcases List.mem_cons.1 h with rfl | h
      · obtain ⟨front, hfront, -⟩ := namingPieces_dropWhile xs
        exact ⟨x :: front, List.cons_ne_nil _ _, by rw [List.cons_append, ← hfront]⟩
      · obtain ⟨mid, -, rfl⟩ := ih h
        exact ⟨x :: mid, List.cons_ne_nil _ _, rfl⟩

/-- An ancestor takes the first steps of a path. -/
theorem steps_of_mem_ancestors (cwd : Place) {p' : Path} (h : p' ∈ p.ancestors)
    (hp : p'.text ≠ "") :
    steps p' <+: steps p ∧ origin cwd p' = origin cwd p := by
  have hcases : p' = p ∨ (∃ ps ∈ Path.shorter p.layout.2.reverse,
      p' = Path.ofLayout p.layout.1 ps.reverse) ∨ p' = ⟨""⟩ := by
    unfold Path.ancestors at h
    simp only [List.cons_append, List.mem_cons, List.mem_append, List.mem_map] at h
    rcases h with rfl | ⟨ps, hps, rfl⟩ | h
    · exact .inl rfl
    · exact .inr (.inl ⟨ps, hps, rfl⟩)
    · split at h
      · exact .inr (.inr (List.mem_singleton.1 h))
      · cases h
  rcases hcases with rfl | ⟨ps, hps, rfl⟩ | rfl
  · exact ⟨List.prefix_refl _, rfl⟩
  · obtain ⟨mid, hmid, hpieces⟩ := suffix_of_mem_shorter hps
    have hlayout : p.layout.2 = ps.reverse ++ mid.reverse := by
      rw [← List.reverse_append, ← hpieces, List.reverse_reverse]
    have hfits := fits_layout p hlayout (by simpa using hmid)
    constructor
    · refine ⟨(namingPieces mid.reverse).map String.ofList, ?_⟩
      rw [steps_ofLayout hfits, steps_eq_layout p, hlayout, namingPieces, namingPieces, namingPieces,
        List.filter_append, List.map_append]
    · rw [origin, isAbsolute_ofLayout hfits, origin]
      rfl
  · exact absurd rfl hp

/-- Who walks to an ancestor walks on the way of the path. -/
theorem OnWay.of_mem_ancestors {p' : Path} (h : p' ∈ p.ancestors) (hp : p'.text ≠ "")
    (hq : OnWay cwd p' q) : OnWay cwd p q := by
  obtain ⟨hsteps, horigin⟩ := steps_of_mem_ancestors cwd h hp
  obtain ⟨names, hnames, rfl⟩ := hq
  exact ⟨names, hnames.trans hsteps, by rw [horigin]⟩

/-! ## Creating directories -/

/-- A directory that has been created is where its path leads to. -/
theorem makeDir_changes (h : t.makeDir cwd p = .ok t') (hq : t'.get? q ≠ t.get? q) :
    steps p ≠ [] ∧ LeadsTo t' cwd p q := by
  have hkept := (makeDir_grown h).dirsKept
  rw [makeDir, bind_eq_ok] at h
  obtain ⟨s, hspot, h⟩ := h
  cases s with
  | fixed => cases h
  | child parent name slash =>
    simp only at h
    split at h
    · cases h
    · cases h
      obtain rfl : q = name :: parent := by
        by_contra hne
        rw [get?_put, Function.update_of_ne hne] at hq
        exact hq rfl
      have hnew : (t.put (name :: parent) .dir).get? (name :: parent) = some .dir := by
        rw [get?_put, Function.update_self]
      obtain ⟨-, hlast, hdot, hup, hlong, hwalk, hdir, -⟩ := spot_eq_child.1 (spot_mono hkept hspot)
      obtain ⟨names, hroute⟩ := List.getLast?_eq_some_iff.1 hlast
      rw [hroute, List.dropLast_concat] at hwalk
      refine ⟨by simp [steps, hroute, hdot], ?_, hnew⟩
      rw [hroute, List.foldlM_append, bind_eq_ok]
      refine ⟨parent, hwalk, ?_⟩
      simp [step, hdir, hdot, hup, Nat.not_lt.2 hlong, hnew]

/-- One of the paths leads to each directory that has been created along them. -/
theorem makeDirsAlong_changes {ps : List Path} (hq : (t.makeDirsAlong cwd ps).2.get? q ≠ t.get? q) :
    ∃ p ∈ ps, steps p ≠ [] ∧ LeadsTo (t.makeDirsAlong cwd ps).2 cwd p q := by
  induction ps with
  | nil => exact absurd rfl hq
  | cons p rest ih =>
    rw [makeDirsAlong] at hq ⊢
    split at hq
    · exact absurd rfl hq
    · next hp =>
      rw [if_neg hp]
      have hself : ∀ {t₁ t₂ : Tree}, t₁.makeDir cwd p = .ok t₂ → t₂.get? q ≠ t₁.get? q →
          ∃ p' ∈ p :: rest, steps p' ≠ [] ∧ LeadsTo t₂ cwd p' q :=
        fun h hne => ⟨p, List.mem_cons_self, makeDir_changes h hne⟩
      have hrest : ∀ {t₂ : Tree}, (t.makeDirsAlong cwd rest).2.get? q ≠ t.get? q →
          DirsKept (t.makeDirsAlong cwd rest).2 t₂ →
            ∃ p' ∈ p :: rest, steps p' ≠ [] ∧ LeadsTo t₂ cwd p' q := by
        intro t₂ hne hkept
        obtain ⟨p', hp', hsteps, hlead⟩ := ih hne
        exact ⟨p', List.mem_cons_of_mem _ hp', hsteps, hlead.mono hkept⟩
      split at hq
      · next t₁ h₁ => exact hself h₁ hq
      · split at hq
        · next e t₁ h₁ =>
          rw [h₁] at hrest
          exact hrest hq fun _ h => h
        · next t₁ h₁ =>
          rw [h₁] at hrest
          split at hq
          · next t₂ h₂ =>
            by_cases hsame : t₁.get? q = t.get? q
            · exact hself h₂ (by rwa [hsame])
            · exact hrest hsame (makeDir_grown h₂).dirsKept
          · exact hrest hq fun _ h => h
      · exact absurd rfl hq

theorem makeDirs_changes (hq : (t.makeDirs cwd p).2.get? q ≠ t.get? q) : OnWay cwd p q := by
  obtain ⟨p', hp', hsteps, hlead⟩ := makeDirsAlong_changes hq
  have hne : p'.text ≠ "" := fun hempty => by
    obtain rfl : p' = ⟨""⟩ := congrArg Path.mk hempty
    exact hsteps (by decide)
  rw [hlead.eq_aim]
  exact (onWay_aim cwd p').of_mem_ancestors hp' hne

end

end LintDigest.Tree

namespace LintDigest.Storage

open LintDigest.Tree

/-! ## Successful writes -/

/-- `t'` is `t` with `text` in the file `n` of the directory `dir`, which has been created if it was
missing. -/
structure Written (t t' : Tree) (cwd : Place) (dir : Path) (n text : String) : Prop where
  leads : LeadsTo t' cwd dir (aim cwd dir)
  walkable : Walkable (dir / n)
  file : t'.get? (n :: aim cwd dir) = some (.file (.text text))
  /-- A directory does not give way to a file. -/
  free : t.get? (n :: aim cwd dir) ≠ some .dir
  /-- A file does not give way to a directory. -/
  kept : ∀ q c, t.get? q = some (.file c) → ¬ OnWay cwd dir q
  other : ∀ q, q ≠ n :: aim cwd dir → ¬ OnWay cwd dir q → t'.get? q = t.get? q

section

variable {t t' : Tree} {cwd : Place} {dir : Path} {n text : String}

theorem onWay_directoryOf (hn : IsName n) {q : Place} :
    OnWay cwd (directoryOf (dir / n)) q ↔ OnWay cwd dir q := by
  obtain ⟨hsteps, habs⟩ := steps_directoryOf dir hn
  rw [OnWay, OnWay, hsteps, origin, habs, origin]

theorem Replaced.toWritten (hn : IsName n) (h : Replaced t cwd (dir / n) text (.ok ()) t') :
    Written t t' cwd dir n text := by
  cases h with
  | written able spot free result =>
    obtain ⟨hw, place, hlead, hspot⟩ := (spot_div hn).1 spot
    cases hspot
    obtain rfl := hlead.eq_aim
    have hgrown : Grown t (prepared t cwd (dir / n)) := makeDirs_grown t cwd _
    refine ⟨hlead.mono (dirsKept_of_update result free), hw, ?_, ?_, ?_, ?_⟩
    · rw [result, Function.update_self]
    · exact fun hdir => free (hgrown.get? hdir)
    · intro q c hq hway
      have hdir := hlead.dir_of_onWay hway
      rw [hgrown.get? hq] at hdir
      cases hdir
    · intro q hne hway
      rw [result, Function.update_of_ne hne]
      by_contra hq
      exact hway ((onWay_directoryOf hn).1 (makeDirs_changes hq))

theorem Written.read (hn : IsName n) (h : Written t t' cwd dir n text) :
    t'.read cwd (dir / n) = .ok text :=
  (read_div hn).2 ⟨h.walkable, _, h.leads, h.file⟩

theorem Written.dirsKept (h : Written t t' cwd dir n text) : DirsKept t t' := by
  intro q hq
  by_cases hway : OnWay cwd dir q
  · exact h.leads.dir_of_onWay hway
  · rw [h.other q (by rintro rfl; exact h.free hq) hway]
    exact hq

/-- In a directory that exists, writing changes the file and nothing else. -/
theorem Written.get?_eq (h : Written t t' cwd dir n text) (hlead : LeadsTo t cwd dir (aim cwd dir)) :
    t'.get? = Function.update t.get? (n :: aim cwd dir) (some (.file (.text text))) := by
  funext q
  by_cases hq : q = n :: aim cwd dir
  · rw [hq, Function.update_self, h.file]
  · rw [Function.update_of_ne hq]
    by_cases hway : OnWay cwd dir q
    · rw [h.leads.dir_of_onWay hway, hlead.dir_of_onWay hway]
    · exact h.other q hq hway

/-- A file of another name stays. -/
theorem Written.file_kept (h : Written t t' cwd dir n text) {q : Place} {c : Content}
    (hq : t.get? q = some (.file c)) (hne : q ≠ n :: aim cwd dir) :
    t'.get? q = some (.file c) := by
  rw [h.other q hne (h.kept q c hq)]
  exact hq

theorem Written.keeps {m : String} (h : Written t t' cwd dir n text) (hne : m ≠ n) :
    Keeps m t t' := by
  refine ⟨h.dirsKept, fun place e he => ?_⟩
  cases e with
  | dir => exact h.dirsKept _ he
  | file c => exact h.file_kept he fun heq => hne (List.cons.inj heq).1

/-- No file of another name appears. -/
theorem Written.no_file (h : Written t t' cwd dir n text) {q : Place}
    (hq : ∀ c, t.get? q ≠ some (.file c)) (hne : q ≠ n :: aim cwd dir) :
    ∀ c, t'.get? q ≠ some (.file c) := by
  intro c hc
  by_cases hway : OnWay cwd dir q
  · rw [h.leads.dir_of_onWay hway] at hc
    cases hc
  · rw [h.other q hne hway] at hc
    exact hq c hc

end

end LintDigest.Storage
