import Mathlib.Data.List.Nodup
import Mathlib.Data.List.Perm.Subperm
import LintDigest.Proofs.Text.Decimal
import LintDigest.Proofs.Tree.Walk

/-!
# What file operations do

Each operation on a name in a directory, by what stands there: when it succeeds, and the tree it
leaves behind. Creating directories only adds directories where nothing was (`Grown`), and changes
nothing when the path leads to a directory already (`makeDirs_of_leadsTo`).
-/

namespace LintDigest.Tree

variable {t t' : Tree} {cwd : Place} {dir : Path} {n : String}

/-! ## Files -/

theorem write_div (hn : IsName n) {c : Content} :
    t.write cwd (dir / n) c = .ok t' ↔
      Walkable (dir / n) ∧ ∃ place, LeadsTo t cwd dir place ∧ t.get? (n :: place) ≠ some .dir ∧
        t' = t.put (n :: place) (.file c) := by
  rw [write, bind_eq_ok]
  simp only [spot_div hn]
  constructor
  · rintro ⟨_, ⟨hw, place, hlead, rfl⟩, h⟩
    refine ⟨hw, place, hlead, ?_⟩
    simp only [Bool.false_eq_true, false_or] at h
    split at h
    · cases h
    · next hdir =>
      cases h
      exact ⟨hdir, rfl⟩
  · rintro ⟨hw, place, hlead, hdir, rfl⟩
    exact ⟨_, ⟨hw, place, hlead, rfl⟩, by simp [hdir]⟩

theorem copy_div {m : String} (hm : IsName m) (hn : IsName n) :
    t.copy cwd (dir / m) (dir / n) = .ok t' ↔
      Walkable (dir / m) ∧ Walkable (dir / n) ∧ ∃ place c, LeadsTo t cwd dir place ∧
        t.get? (m :: place) = some (.file c) ∧ t.get? (n :: place) ≠ some .dir ∧
          t' = t.put (n :: place) (.file c) := by
  rw [copy, bind_eq_ok]
  constructor
  · rintro ⟨⟨source, e⟩, hsource, h⟩
    obtain ⟨hwm, place, hlead, rfl, he⟩ := (resolve_div hm).1 hsource
    cases e with
    | dir => cases h
    | file c =>
      obtain ⟨hwn, place', hlead', hdir, rfl⟩ := (write_div hn).1 h
      obtain rfl := hlead.unique hlead'
      exact ⟨hwm, hwn, place, c, hlead, he, hdir, rfl⟩
  · rintro ⟨hwm, hwn, place, c, hlead, hc, hdir, rfl⟩
    refine ⟨(m :: place, .file c), (resolve_div hm).2 ⟨hwm, place, hlead, rfl, hc⟩, ?_⟩
    exact (write_div hn).2 ⟨hwn, place, hlead, hdir, rfl⟩

theorem remove_div (hn : IsName n) :
    t.remove cwd (dir / n) = .ok t' ↔
      Walkable (dir / n) ∧ ∃ place c, LeadsTo t cwd dir place ∧
        t.get? (n :: place) = some (.file c) ∧ t' = t.erase (n :: place) := by
  rw [remove, bind_eq_ok]
  simp only [spot_div hn]
  constructor
  · rintro ⟨_, ⟨hw, place, hlead, rfl⟩, h⟩
    refine ⟨hw, place, ?_⟩
    simp only at h
    split at h
    · cases h
    · cases h
    · next c hc =>
      cases h
      exact ⟨c, hlead, hc, rfl⟩
  · rintro ⟨hw, place, c, hlead, hc, rfl⟩
    exact ⟨_, ⟨hw, place, hlead, rfl⟩, by simp [hc]⟩

/-- A file is renamed to a spot where no directory is. -/
theorem rename_file {p q : Path} {m : String} {place : Place} {c : Content}
    (hp : t.spot cwd p = .ok (.child place m false)) (hc : t.get? (m :: place) = some (.file c)) :
    t.rename cwd p q = .ok t' ↔
      ∃ place' n, t.spot cwd q = .ok (.child place' n false) ∧ t.get? (n :: place') ≠ some .dir ∧
        t' = if m :: place = n :: place' then t
          else (t.erase (m :: place)).put (n :: place') (.file c) := by
  have hstart : ∀ {p s}, t.spot cwd p = .ok s → ∃ here, start cwd p = .ok here := by
    intro p s h
    rw [spot, bind_eq_ok] at h
    obtain ⟨here, hhere, -⟩ := h
    exact ⟨here, hhere⟩
  rw [rename]
  simp only [bind_eq_ok]
  constructor
  · rintro ⟨_, -, _, -, source, hsource, target, htarget, h⟩
    rw [hp] at hsource
    cases hsource
    cases target with
    | fixed => cases h
    | child place' n slash =>
      simp only [hc] at h
      split at h
      · cases h
      · next hslash =>
        have : slash = false := by simpa using hslash
        subst this
        refine ⟨place', n, htarget, ?_⟩
        split at h
        · cases h
        · next hdir =>
          refine ⟨hdir, ?_⟩
          split at h
          · next hsame => exact (Except.ok.inj h).symm.trans (if_pos hsame).symm
          · next hsame => exact (Except.ok.inj h).symm.trans (if_neg hsame).symm
  · rintro ⟨place', n, hq, hdir, rfl⟩
    obtain ⟨here, hhere⟩ := hstart hp
    obtain ⟨there, hthere⟩ := hstart hq
    refine ⟨here, hhere, there, hthere, _, hp, _, hq, ?_⟩
    by_cases hsame : m :: place = n :: place'
    · simp only [hc, hdir, if_pos hsame]
      rfl
    · simp only [hc, hdir, if_neg hsame]
      rfl

theorem read_eq_ok {p : Path} {text : String} :
    t.read cwd p = .ok text ↔ ∃ place, t.resolve cwd p = .ok (place, .file (.text text)) := by
  rw [read, bind_eq_ok]
  constructor
  · rintro ⟨⟨place, e⟩, he, h⟩
    refine ⟨place, ?_⟩
    split at h
    · cases h
    · cases h
    · next hpair =>
      cases hpair
      cases h
      exact he
  · rintro ⟨place, h⟩
    exact ⟨_, h, rfl⟩

theorem stat_isSome {p : Path} :
    (t.stat cwd p).isSome ↔ ∃ place e, t.resolve cwd p = .ok (place, e) := by
  unfold stat
  cases t.resolve cwd p with
  | error fault => simp
  | ok found => exact ⟨fun _ => ⟨found.1, found.2, rfl⟩, fun _ => rfl⟩

theorem stat_div_isSome (hn : IsName n) :
    (t.stat cwd (dir / n)).isSome ↔
      Walkable (dir / n) ∧ ∃ place, LeadsTo t cwd dir place ∧ (t.get? (n :: place)).isSome := by
  simp only [stat_isSome, resolve_div hn]
  constructor
  · rintro ⟨_, e, hw, place, hlead, rfl, he⟩
    exact ⟨hw, place, hlead, by simp [he]⟩
  · rintro ⟨hw, place, hlead, he⟩
    obtain ⟨e, he⟩ := Option.isSome_iff_exists.1 he
    exact ⟨_, e, hw, place, hlead, rfl, he⟩

theorem stat_div (hn : IsName n) {k : EntryKind} :
    t.stat cwd (dir / n) = some k ↔
      Walkable (dir / n) ∧ ∃ place e, LeadsTo t cwd dir place ∧ t.get? (n :: place) = some e ∧
        e.kind = k := by
  unfold stat
  constructor
  · intro h
    split at h
    · next place e hresolve =>
      obtain ⟨hw, parent, hlead, rfl, he⟩ := (resolve_div hn).1 hresolve
      exact ⟨hw, parent, e, hlead, he, Option.some.inj h⟩
    · cases h
  · rintro ⟨hw, place, e, hlead, he, rfl⟩
    rw [(resolve_div hn).2 ⟨hw, place, hlead, rfl, he⟩]

theorem read_div (hn : IsName n) {text : String} :
    t.read cwd (dir / n) = .ok text ↔
      Walkable (dir / n) ∧ ∃ place, LeadsTo t cwd dir place ∧
        t.get? (n :: place) = some (.file (.text text)) := by
  simp only [read_eq_ok, resolve_div hn]
  constructor
  · rintro ⟨_, hw, place, hlead, rfl, hfile⟩
    exact ⟨hw, place, hlead, hfile⟩
  · rintro ⟨hw, place, hlead, hfile⟩
    exact ⟨_, hw, place, hlead, rfl, hfile⟩

/-- Nothing can be renamed or removed where nothing is. -/
theorem remove_of_stat_none (hn : IsName n) (h : t.stat cwd (dir / n) = none) :
    ∃ e, t.remove cwd (dir / n) = .error e := by
  cases hr : t.remove cwd (dir / n) with
  | error e => exact ⟨e, rfl⟩
  | ok t' =>
    obtain ⟨hw, place, c, hlead, hc, -⟩ := (remove_div hn).1 hr
    have hsome := (stat_div_isSome hn).2 ⟨hw, place, hlead, by simp [hc]⟩
    rw [h] at hsome
    cases hsome

theorem rename_of_stat_none {q : Path} (hn : IsName n) (h : t.stat cwd (dir / n) = none) :
    ∃ e, t.rename cwd (dir / n) q = .error e := by
  cases hr : t.rename cwd (dir / n) q with
  | error e => exact ⟨e, rfl⟩
  | ok t' =>
    rw [rename] at hr
    simp only [bind_eq_ok, spot_div hn] at hr
    obtain ⟨_, -, _, -, _, ⟨hw, place, hlead, rfl⟩, target, -, hr⟩ := hr
    have hnone : t.get? (n :: place) = none := by
      cases hc : t.get? (n :: place) with
      | none => rfl
      | some e =>
        have hsome := (stat_div_isSome hn).2 ⟨hw, place, hlead, by simp [hc]⟩
        rw [h] at hsome
        cases hsome
    cases target with
    | fixed => cases hr
    | child place' name' slash' =>
      simp only [hnone] at hr
      cases hr

/-! ## Scratch files -/

theorem toList_pushn (s : String) (c : Char) (k : Nat) :
    (s.pushn c k).toList = s.toList ++ List.replicate k c := by
  rw [String.pushn_eq_repeat_push]
  induction k with
  | zero => simp [Nat.repeat]
  | succ k ih => simp [Nat.repeat, ih, List.replicate_succ']

theorem toList_scratchName (k : Nat) :
    (scratchName k).toList =
      ".tmp".toList ++ List.replicate (6 - (toString k).length) '0' ++ (toString k).toList := by
  simp [scratchName, toList_pushn]

theorem isName_scratchName {k : Nat} (h : (scratchName k).utf8ByteSize ≤ maxName) :
    IsName (scratchName k) := by
  have hhead : ∃ cs, (scratchName k).toList = '.' :: 't' :: cs := by
    rw [toList_scratchName]
    exact ⟨_, rfl⟩
  obtain ⟨cs, hcs⟩ := hhead
  -- A name that starts with `.t` is neither empty nor made of dots.
  have hne : ∀ s : String, s.toList ≠ '.' :: 't' :: cs → scratchName k ≠ s := by
    rintro s hs rfl
    exact hs hcs
  refine ⟨hne _ (by simp), hne _ (by simp), hne _ (by simp), ?_, h⟩
  rw [toList_scratchName]
  intro hslash
  simp only [List.mem_append, List.mem_replicate] at hslash
  rcases hslash with (hslash | ⟨-, hslash⟩) | hslash
  · revert hslash
    decide
  · revert hslash
    decide
  · exact absurd (Text.isDigit_of_mem_toString hslash) (by decide)

/-- A scratch file is an empty file of a name that was free. -/
theorem scratch_eq_ok {p : Path} (h : t.scratch cwd dir = .ok (p, t')) :
    ∃ place name, LeadsTo t cwd dir place ∧ IsName name ∧ Walkable (dir / name) ∧ p = dir / name ∧
      t.get? (name :: place) = none ∧ t' = t.put (name :: place) (.file (.text "")) := by
  rw [scratch, bind_eq_ok] at h
  obtain ⟨⟨place, e⟩, hdir, h⟩ := h
  cases e with
  | file c => cases h
  | dir =>
    simp only at h
    split at h
    · cases h
    · next name hname =>
      rw [bind_eq_ok] at h
      obtain ⟨here, hstart, h⟩ := h
      split at h
      · cases h
      · next hlong =>
        cases h
        have hfree := List.find?_some hname
        obtain ⟨k, -, rfl⟩ := List.mem_map.1 (List.mem_of_find?_eq_some hname)
        refine ⟨place, _, (resolve_eq_dir.1 hdir).2, isName_scratchName (Nat.not_lt.1 hlong),
          (start_eq_ok.1 hstart).1, rfl, by simpa using hfree, rfl⟩

theorem ne_scratchName {n : String} (h : n.toList.take 4 ≠ ".tmp".toList) (k : Nat) :
    n ≠ scratchName k := by
  rintro rfl
  apply h
  simp [scratchName]

theorem ofDigitChars_replicate (k : Nat) (cs : List Char) :
    Nat.ofDigitChars 10 (List.replicate k '0' ++ cs) 0 = Nat.ofDigitChars 10 cs 0 := by
  induction k with
  | zero => rfl
  | succ k ih => rw [List.replicate_succ, List.cons_append, Nat.ofDigitChars_cons]; exact ih

theorem scratchName_injective : Function.Injective scratchName := by
  intro j k h
  have hvalue : ∀ k, Nat.ofDigitChars 10 ((scratchName k).toList.drop 4) 0 = k := by
    intro k
    have hdrop : (scratchName k).toList.drop 4 =
        List.replicate (6 - (toString k).length) '0' ++ (toString k).toList := by
      rw [toList_scratchName]
      rfl
    rw [hdrop, ofDigitChars_replicate, Nat.toString_eq_repr, Nat.toList_repr]
    exact Nat.ofDigitChars_toDigits (by decide) (by decide)
  rw [← hvalue j, h, hvalue]

theorem mem_of_lookup {q : Place} {es : List (Place × Entry)} (h : (es.lookup q).isSome) :
    q ∈ es.map (·.1) := by
  induction es with
  | nil => cases h
  | cons x es ih =>
    rw [List.lookup_cons] at h
    by_cases hq : q = x.1
    · exact hq ▸ List.mem_cons_self
    · rw [beq_false_of_ne hq] at h
      exact List.mem_cons_of_mem _ (ih h)

/-- Of the names that are tried for a scratch file, one is free, and so one is the first. -/
theorem exists_first_free (t : Tree) (place : Place) :
    ∃ k ≤ t.entries.length, t.get? (scratchName k :: place) = none ∧
      ∀ j < k, (t.get? (scratchName j :: place)).isSome := by
  cases hfind : (List.range (t.entries.length + 1)).find? fun k =>
      (t.get? (scratchName k :: place)).isNone with
  | some k =>
    obtain ⟨hk, hmem, hbefore⟩ := List.find?_range_eq_some.1 hfind
    refine ⟨k, Nat.lt_succ_iff.1 (List.mem_range.1 hmem), by simpa using hk, fun j hj => ?_⟩
    simpa using hbefore j hj
  | none =>
    -- There are fewer entries than names, so the names are not all taken.
    exfalso
    have hsubset : (List.range (t.entries.length + 1)).map (fun k => scratchName k :: place) ⊆
        t.entries.map (·.1) := by
      intro q hq
      obtain ⟨k, hk, rfl⟩ := List.mem_map.1 hq
      have htaken := List.find?_eq_none.1 hfind k hk
      rw [get?, if_neg (List.cons_ne_nil _ _)] at htaken
      exact mem_of_lookup (by simpa [← Option.isSome_iff_ne_none] using htaken)
    have hnodup : ((List.range (t.entries.length + 1)).map fun k => scratchName k :: place).Nodup :=
      List.Nodup.map (fun j k h => scratchName_injective (List.cons.inj h).1) List.nodup_range
    have hle := (List.subperm_of_subset hnodup hsubset).length_le
    simp only [List.length_map, List.length_range] at hle
    omega

/-- Whether a scratch file can be created depends on the path and on which names are taken. -/
theorem scratch_isOk {place : Place} {k : Nat} (hdir : t.resolve cwd dir = .ok (place, .dir))
    (hk : t.get? (scratchName k :: place) = none)
    (hbefore : ∀ j < k, (t.get? (scratchName j :: place)).isSome) :
    (∃ s, t.scratch cwd dir = .ok s) ↔
      Walkable (dir / scratchName k) ∧ (scratchName k).utf8ByteSize ≤ maxName := by
  obtain ⟨k', hle, hk', hbefore'⟩ := exists_first_free t place
  obtain rfl : k' = k := by
    rcases Nat.lt_trichotomy k' k with hlt | heq | hlt
    · have := hbefore k' hlt
      rw [hk'] at this
      cases this
    · exact heq
    · have := hbefore' k hlt
      rw [hk] at this
      cases this
  have hfind : t.scratchNames.find? (fun name => (t.get? (name :: place)).isNone) =
      some (scratchName k') := by
    rw [scratchNames, List.find?_map]
    have hfirst : (List.range (t.entries.length + 1)).find?
        ((fun name => (t.get? (name :: place)).isNone) ∘ scratchName) = some k' := by
      refine List.find?_range_eq_some.2 ⟨by simp [hk], List.mem_range.2 (Nat.lt_succ_iff.2 hle), ?_⟩
      intro j hj
      simpa using hbefore j hj
    rw [hfirst]
    rfl
  have heq : t.scratch cwd dir = (start cwd (dir / scratchName k') >>= fun _ =>
      if maxName < (scratchName k').utf8ByteSize then .error .nameTooLong
      else .ok (dir / scratchName k', t.put (scratchName k' :: place) (.file (.text "")))) := by
    rw [scratch, hdir]
    simp only [bind, Except.bind, hfind, pure, Except.pure]
  simp only [heq, bind_eq_ok, start_eq_ok]
  constructor
  · rintro ⟨s, _, ⟨hw, -⟩, h⟩
    refine ⟨hw, Nat.not_lt.1 fun hlong => ?_⟩
    rw [if_pos hlong] at h
    cases h
  · rintro ⟨hw, hlong⟩
    exact ⟨_, _, ⟨hw, rfl⟩, if_neg (Nat.not_lt.2 hlong)⟩

/-! ## Directories -/

/-- `t'` is `t` with directories added where nothing was. -/
def Grown (t t' : Tree) : Prop :=
  ∀ q, t'.get? q = t.get? q ∨ t.get? q = none ∧ t'.get? q = some .dir

theorem Grown.refl (t : Tree) : Grown t t :=
  fun _ => .inl rfl

theorem Grown.trans {t'' : Tree} (h : Grown t t') (h' : Grown t' t'') : Grown t t'' := by
  intro q
  rcases h q with hq | ⟨hnone, hdir⟩
  · rw [← hq]
    exact h' q
  · rcases h' q with hq' | ⟨hnone', -⟩
    · exact .inr ⟨hnone, hq'.trans hdir⟩
    · rw [hdir] at hnone'
      cases hnone'

/-- What was there stays. -/
theorem Grown.get? (h : Grown t t') {q : Place} {e : Entry} (he : t.get? q = some e) :
    t'.get? q = some e := by
  rcases h q with hq | ⟨hnone, -⟩
  · exact hq.trans he
  · rw [he] at hnone
    cases hnone

theorem Grown.dirsKept (h : Grown t t') : DirsKept t t' :=
  fun _ hq => h.get? hq

theorem makeDir_grown {p : Path} (h : t.makeDir cwd p = .ok t') : Grown t t' := by
  rw [makeDir, bind_eq_ok] at h
  obtain ⟨s, hspot, h⟩ := h
  cases s with
  | fixed => cases h
  | child place name slash =>
    simp only at h
    split at h
    · cases h
    · next hfree =>
      cases h
      have hnone : t.get? (name :: place) = none := by simpa using hfree
      intro q
      rw [get?_put]
      by_cases hq : q = name :: place
      · exact .inr ⟨hq ▸ hnone, by rw [hq, Function.update_self]⟩
      · exact .inl (Function.update_of_ne hq _ _)

/-- Whether or not all directories can be created, some may have been. -/
theorem makeDirsAlong_grown (ps : List Path) : Grown t (t.makeDirsAlong cwd ps).2 := by
  induction ps with
  | nil => exact Grown.refl t
  | cons p rest ih =>
    rw [makeDirsAlong]
    split
    · exact Grown.refl t
    · split
      · next t₁ h₁ => exact makeDir_grown h₁
      · -- The ancestors come first.
        split
        · next e t₁ h₁ =>
          rw [h₁] at ih
          exact ih
        · next t₁ h₁ =>
          rw [h₁] at ih
          split
          · next t₂ h₂ => exact ih.trans (makeDir_grown h₂)
          · exact ih
      · exact Grown.refl t

theorem makeDirs_grown (t : Tree) (cwd : Place) (p : Path) : Grown t (t.makeDirs cwd p).2 :=
  makeDirsAlong_grown p.ancestors

/-- The last step of a walk to a directory starts in a directory. -/
theorem LeadsTo.last {p : Path} {place : Place} (h : LeadsTo t cwd p place) {names : List String}
    {name : String} (hroute : route p = names ++ [name]) :
    ∃ parent, names.foldlM t.step (origin cwd p) = .ok parent ∧
      t.get? parent = some .dir ∧ t.step parent name = .ok place := by
  have hwalk := h.1
  rw [hroute, List.foldlM_append, bind_eq_ok] at hwalk
  obtain ⟨parent, hparent, hlast⟩ := hwalk
  rw [List.foldlM_cons, bind_eq_ok] at hlast
  obtain ⟨_, hstep, hnext⟩ := hlast
  cases hnext
  exact ⟨parent, hparent, get?_of_step hstep, hstep⟩

theorem makeDir_of_leadsTo {p : Path} {place : Place} (hw : Walkable p)
    (h : LeadsTo t cwd p place) : t.makeDir cwd p = .error .alreadyExists := by
  have hstart : start cwd p = .ok (origin cwd p) := start_eq_ok.2 ⟨hw, rfl⟩
  cases hl : (route p).getLast? with
  | none => simp [makeDir, spot, hstart, hl, bind, Except.bind, pure, Except.pure]
  | some name =>
    obtain ⟨names, hroute⟩ := List.getLast?_eq_some_iff.1 hl
    obtain ⟨parent, hwalk, hdir, hstep⟩ := h.last hroute
    by_cases hdots : name = "." ∨ name = ".."
    · simp [makeDir, spot, hstart, hroute, hwalk, hdir, hdots, bind, Except.bind, pure, Except.pure]
    · have hlast := hstep
      rw [not_or] at hdots
      rw [step, hdir] at hlast
      simp only [if_neg hdots.1, if_neg hdots.2] at hlast
      split at hlast
      · cases hlast
      · next hlong =>
        split at hlast
        · next hsome =>
          simp [makeDir, spot, hstart, hroute, hwalk, hdir, hdots, hlong, hsome, bind, Except.bind,
            pure, Except.pure]
        · cases hlast

theorem makeDir_of_not_walkable (t : Tree) (cwd : Place) {p : Path} (hw : ¬ Walkable p) (hp : p.text ≠ "") :
    ∃ e, e ≠ .notFound ∧ t.makeDir cwd p = .error e := by
  have hstart : ∃ e, e ≠ .notFound ∧ start cwd p = .error e := by
    unfold start
    by_cases hz : '\x00' ∈ p.text.toList
    · exact ⟨.zeroByte, by simp, by simp [hz]⟩
    · have hlong : maxPath < p.text.utf8ByteSize := by
        refine Nat.lt_of_not_le fun hl => hw ⟨hz, hp, hl⟩
      refine ⟨.nameTooLong, by simp, ?_⟩
      rw [if_neg (by simpa using hz), if_neg hp, if_pos hlong]
  obtain ⟨e, hne, he⟩ := hstart
  exact ⟨e, hne, by simp [makeDir, spot, he, bind, Except.bind]⟩

/-- Nothing is created on the way to a directory that exists. -/
theorem makeDirs_of_leadsTo {p : Path} {place : Place} (h : LeadsTo t cwd p place) :
    (t.makeDirs cwd p).2 = t := by
  have hcons : p.ancestors = p :: p.ancestors.tail := rfl
  rw [makeDirs, hcons, makeDirsAlong]
  by_cases hp : p.text = ""
  · rw [if_pos hp]
  · rw [if_neg hp]
    by_cases hw : Walkable p
    · rw [makeDir_of_leadsTo hw h]
    · -- Ancestors are only tried when the directory was not found.
      obtain ⟨e, hne, he⟩ := makeDir_of_not_walkable t cwd hw hp
      rw [he]
      cases e with
      | notFound => exact absurd rfl hne
      | _ => rfl

/-! ## Equal entries -/

theorem resolve_congr (h : t'.get? = t.get?) (cwd : Place) (p : Path) :
    t'.resolve cwd p = t.resolve cwd p := by
  have hstep : t'.step = t.step := by
    funext here name
    rw [step, step, h]
  rw [resolve, resolve, hstep, h]

theorem dirsKept_of_get? (h : t'.get? = t.get?) : DirsKept t t' :=
  fun _ hq => h ▸ hq

/-- A change where no directory was keeps the directories. -/
theorem dirsKept_of_update {place : Place} {x : Option Entry}
    (h : t'.get? = Function.update t.get? place x) (hplace : t.get? place ≠ some .dir) :
    DirsKept t t' := by
  intro q hq
  rw [h, Function.update_of_ne (by rintro rfl; exact hplace hq)]
  exact hq

/-! ## What stays -/

/-- Directories stay, and whatever has the name `n` is what it was, but for directories where nothing
was. -/
def Spares (n : String) (t t' : Tree) : Prop :=
  DirsKept t t' ∧ ∀ place, t'.get? (n :: place) = t.get? (n :: place) ∨
    t.get? (n :: place) = none ∧ t'.get? (n :: place) = some .dir

theorem spares_of_get? (h : t'.get? = t.get?) : Spares n t t' :=
  ⟨dirsKept_of_get? h, fun _ => .inl (h ▸ rfl)⟩

theorem Grown.spares (h : Grown t t') : Spares n t t' :=
  ⟨h.dirsKept, fun place => h (n :: place)⟩

theorem Spares.trans {t'' : Tree} (h : Spares n t t') (h' : Spares n t' t'') : Spares n t t'' := by
  refine ⟨h.1.trans h'.1, fun place => ?_⟩
  rcases h.2 place with hsame | ⟨hnone, hdir⟩
  · rw [← hsame]
    exact h'.2 place
  · exact .inr ⟨hnone, h'.1 _ hdir⟩

theorem spares_of_update {m : String} {place : Place} {x : Option Entry} (hne : n ≠ m)
    (h : t'.get? = Function.update t.get? (m :: place) x)
    (hdir : t.get? (m :: place) ≠ some .dir) : Spares n t t' := by
  refine ⟨dirsKept_of_update h hdir, fun place' => .inl ?_⟩
  rw [h, Function.update_of_ne fun heq => hne (List.cons.inj heq).1]

/-- Directories stay, and so does whatever has the name `n`. -/
def Keeps (n : String) (t t' : Tree) : Prop :=
  DirsKept t t' ∧ ∀ place e, t.get? (n :: place) = some e → t'.get? (n :: place) = some e

theorem Keeps.trans {t'' : Tree} (h : Keeps n t t') (h' : Keeps n t' t'') : Keeps n t t'' :=
  ⟨h.1.trans h'.1, fun place e he => h'.2 place e (h.2 place e he)⟩

theorem keeps_of_get? (h : t'.get? = t.get?) : Keeps n t t' :=
  ⟨dirsKept_of_get? h, fun _ _ he => h ▸ he⟩

theorem Spares.keeps (h : Spares n t t') : Keeps n t t' := by
  refine ⟨h.1, fun place e he => ?_⟩
  rcases h.2 place with hsame | ⟨hnone, -⟩
  · exact hsame.trans he
  · rw [he] at hnone
    cases hnone

/-- Every file of the name `n` in `t'` is in `t` already. -/
def Inherits (n : String) (t t' : Tree) : Prop :=
  ∀ place c, t'.get? (n :: place) = some (.file c) → t.get? (n :: place) = some (.file c)

theorem Spares.inherits (h : Spares n t t') : Inherits n t t' := by
  intro place c hc
  rcases h.2 place with hsame | ⟨-, hdir⟩
  · exact hsame ▸ hc
  · rw [hdir] at hc
    cases hc

end LintDigest.Tree
