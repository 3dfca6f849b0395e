import LintDigest.Proofs.Path.Components
import LintDigest.Proofs.Tree.Aim

/-!
# Links lead to their targets

The walk from a directory to a target forks where the two paths part: it goes up once for every
component of the directory behind the fork and then takes the rest of the target (`stepsTo_fork`).
If the directory never goes up itself, the written walk is a link that leads, by its names alone,
where the target points (`link_leads_to_target`).
-/

namespace LintDigest.Path

open LintDigest.Tree

/-! ## The fork of two walks -/

/-- Two walks run together along `shared`, as far as they can, and then part. -/
structure Fork (as bs shared rest more : List Component) : Prop where
  left : as = shared ++ rest
  right : bs = shared ++ more
  longest : ∀ front, front <+: as → front <+: bs → front <+: shared

variable {as bs shared rest more : List Component} {a b : Component}

theorem Fork.cons (h : Fork as bs shared rest more) (c : Component) :
    Fork (c :: as) (c :: bs) (c :: shared) rest more := by
  refine ⟨by rw [h.left, List.cons_append], by rw [h.right, List.cons_append], ?_⟩
  intro front hleft hright
  cases front with
  | nil => exact List.nil_prefix
  | cons d front =>
    obtain ⟨rfl, has⟩ := List.cons_prefix_cons.1 hleft
    obtain ⟨-, hbs⟩ := List.cons_prefix_cons.1 hright
    exact List.cons_prefix_cons.2 ⟨rfl, h.longest front has hbs⟩

theorem fork_of_ne (h : a ≠ b) : Fork (a :: as) (b :: bs) [] (a :: as) (b :: bs) := by
  refine ⟨rfl, rfl, fun front hleft hright => ?_⟩
  cases front with
  | nil => exact List.nil_prefix
  | cons c front =>
    obtain ⟨rfl, -⟩ := List.cons_prefix_cons.1 hleft
    exact absurd (List.cons_prefix_cons.1 hright).1 h

theorem fork_nil_left (bs : List Component) : Fork [] bs [] [] bs :=
  ⟨rfl, rfl, fun _ h _ => h⟩

theorem fork_nil_right (as : List Component) : Fork as [] [] as [] :=
  ⟨rfl, rfl, fun _ _ h => h⟩

/-- Absolute walks share at least the root. -/
theorem Fork.root (h : Fork (.root :: as) (.root :: bs) shared rest more) :
    ∃ front, shared = .root :: front ∧ as = front ++ rest ∧ bs = front ++ more := by
  have hroot := h.longest [.root] (List.prefix_append _ as) (List.prefix_append _ bs)
  obtain ⟨front, rfl⟩ := hroot
  exact ⟨front, rfl, (List.cons.inj h.left).2, (List.cons.inj h.right).2⟩

/-! ## The walk -/

theorem stepsTo_nil (bs taken : List Component) :
    stepsTo [] bs taken = some (taken ++ List.replicate bs.length .up) := by
  induction bs generalizing taken with
  | nil => simp [stepsTo]
  | cons b bs ih => rw [stepsTo, ih, List.append_assoc, List.length_cons, List.replicate_succ]; rfl

/-- The walk goes up from the directory to the fork and on to the target. -/
theorem stepsTo_fork (as : List Component) (hbs : ∀ b ∈ bs, b ≠ .here ∧ b ≠ .up) :
    ∃ shared rest more, Fork as bs shared rest more ∧
      stepsTo as bs [] = some (List.replicate more.length .up ++ rest) := by
  induction as generalizing bs with
  | nil => exact ⟨[], [], bs, fork_nil_left bs, by rw [stepsTo_nil, List.append_nil]; rfl⟩
  | cons a as ih =>
    cases bs with
    | nil => exact ⟨[], a :: as, [], fork_nil_right _, rfl⟩
    | cons b bs =>
      obtain ⟨⟨hhere, hup⟩, htail⟩ := List.forall_mem_cons.1 hbs
      by_cases hab : a = b
      · subst hab
        obtain ⟨shared, rest, more, hfork, hsteps⟩ := ih htail
        refine ⟨a :: shared, rest, more, hfork.cons a, ?_⟩
        rw [stepsTo, if_pos ⟨rfl, rfl⟩, hsteps]
      · refine ⟨[], a :: as, b :: bs, fork_of_ne hab, ?_⟩
        rw [stepsTo, if_neg (fun h => hab h.2), if_neg hhere, if_neg hup]
        simp [List.replicate_succ, List.map_const']

/-! ## Where walks lead -/

theorem aim_of_root {p : Path} (h : p.components = .root :: as) (hsteps : ∀ c ∈ as, IsStep c)
    (habs : p.isAbsolute = true) (cwd : Place) :
    aim cwd p = (as.map Component.text).foldl turn [] := by
  have hnames : steps p = as.map Component.text := by
    rw [steps_eq_components, h, List.filter_cons]
    simp only [filter_steps hsteps]
    rfl
  rw [aim, hnames, origin, habs, if_pos rfl]

theorem aim_written (h : ∀ c ∈ as, IsStep c) (cwd : Place) :
    aim cwd (written as) = (as.map Component.text).foldl turn cwd := by
  have hcomponents := components_written h
  have hrelative : (written as).isAbsolute = false := by
    rw [Bool.eq_false_iff]
    intro habs
    obtain ⟨bs, hbs, -⟩ := components_of_isAbsolute habs
    exact h .root (by rw [← hcomponents, hbs]; exact List.mem_cons_self)
  rw [aim, steps_eq_components, hcomponents, filter_steps h, origin, hrelative]
  rfl

/-- A walk through names goes down. -/
theorem foldl_turn_names {names : List Component} (h : ∀ c ∈ names, IsStep c ∧ c ≠ .up)
    (here : Place) :
    (names.map Component.text).foldl turn here = (names.map Component.text).reverse ++ here := by
  induction names generalizing here with
  | nil => rfl
  | cons c names ih =>
    obtain ⟨⟨hstep, hup⟩, hnames⟩ := List.forall_mem_cons.1 h
    have hturn : turn here c.text = c.text :: here := by
      cases c with
      | root => cases hstep
      | here => cases hstep
      | up => exact absurd rfl hup
      | name s =>
        obtain ⟨-, hdot, hdots, -⟩ := hstep
        simp [turn, Component.text, hdot, hdots]
    rw [List.map_cons, List.foldl_cons, hturn, ih hnames]
    simp

/-- As many steps up as there are names lead back. -/
theorem foldl_turn_ups (names : List String) (here : Place) :
    (List.replicate names.length "..").foldl turn (names ++ here) = here := by
  induction names with
  | nil => rfl
  | cons name names ih =>
    rw [List.length_cons, List.replicate_succ, List.foldl_cons]
    exact ih

theorem isStep_ups (n : Nat) (h : ∀ c ∈ as, IsStep c) :
    ∀ c ∈ List.replicate n Component.up ++ as, IsStep c := by
  refine List.forall_mem_append.2 ⟨fun c hc => ?_, h⟩
  rw [List.eq_of_mem_replicate hc]
  trivial

/-! ## Links -/

variable {target base : Path}

/-- Seen from a directory that never goes up, a target has a link: up to the fork and on to the
target. -/
theorem exists_link (htarget : target.isAbsolute = true) (hbase : base.isAbsolute = true)
    (hup : Component.up ∉ base.components) :
    ∃ front rest more, Fork target.components base.components (.root :: front) rest more ∧
      (∀ c ∈ front ++ rest, IsStep c) ∧ (∀ c ∈ front ++ more, IsStep c ∧ c ≠ .up) ∧
      relativeText target base = (written (List.replicate more.length .up ++ rest)).text := by
  obtain ⟨as, has, hsteps⟩ := components_of_isAbsolute htarget
  obtain ⟨bs, hbs, hnames⟩ := components_of_isAbsolute hbase
  have hdown : ∀ c ∈ bs, IsStep c ∧ c ≠ .up := by
    intro c hc
    refine ⟨hnames c hc, ?_⟩
    rintro rfl
    exact hup (hbs ▸ List.mem_cons_of_mem _ hc)
  have hplain : ∀ b ∈ base.components, b ≠ .here ∧ b ≠ .up := by
    rw [hbs]
    refine List.forall_mem_cons.2 ⟨by simp, fun b hb => ⟨?_, (hdown b hb).2⟩⟩
    rintro rfl
    exact hnames _ hb
  obtain ⟨shared, rest, more, hfork, hwalk⟩ := stepsTo_fork target.components hplain
  have hroot := hfork
  rw [has, hbs] at hroot
  obtain ⟨front, rfl, rfl, rfl⟩ := hroot.root
  refine ⟨front, rest, more, hfork, hsteps, hdown, ?_⟩
  have hall := isStep_ups more.length (List.forall_mem_append.1 hsteps).2
  rw [relativeText, walkTo, htarget, hbase, if_pos rfl, hwalk, Option.map_some, Option.getD_some,
    foldl_join hall, components_written hall]
  rfl

/-- Seen from a directory that never goes up, a target has a link of this shape: `..` for every
component of the directory behind the fork, then the rest of the target. The link leads from the
directory to where the target points. -/
theorem link_leads_to_target (cwd : Place) (htarget : target.isAbsolute = true)
    (hbase : base.isAbsolute = true) (hup : Component.up ∉ base.components) :
    aim (aim cwd base) ⟨relativeText target base⟩ = aim cwd target ∧
      ∃ shared rest more, Fork target.components base.components shared rest more ∧
        relativeText target base =
          "/".intercalate (List.replicate more.length ".." ++ rest.map Component.text) := by
  obtain ⟨front, rest, more, hfork, hsteps, hnames, hlink⟩ := exists_link htarget hbase hup
  obtain ⟨-, hrest⟩ := List.forall_mem_append.1 hsteps
  obtain ⟨-, hmore⟩ := List.forall_mem_append.1 hnames
  refine ⟨?_, _, rest, more, hfork, ?_⟩
  · have htargetComponents : target.components = .root :: (front ++ rest) := hfork.left
    have hbaseComponents : base.components = .root :: (front ++ more) := hfork.right
    have hback : List.replicate more.length ".." =
        List.replicate (more.map Component.text).reverse.length ".." := by simp
    -- From the fork down to the directory, up again, and on to the target.
    calc aim (aim cwd base) ⟨relativeText target base⟩
        = aim (aim cwd base) (written (List.replicate more.length .up ++ rest)) := by rw [hlink]
      _ = (rest.map Component.text).foldl turn
            ((List.replicate more.length "..").foldl turn (aim cwd base)) := by
          rw [aim_written (isStep_ups _ hrest), List.map_append, List.map_replicate,
            List.foldl_append, Component.text]
      _ = (rest.map Component.text).foldl turn
            ((front.map Component.text).foldl turn []) := by
          rw [aim_of_root hbaseComponents (fun c hc => (hnames c hc).1) hbase, List.map_append,
            List.foldl_append, foldl_turn_names hmore, hback, foldl_turn_ups]
      _ = aim cwd target := by
          rw [aim_of_root htargetComponents hsteps htarget, List.map_append, List.foldl_append]
  · rw [hlink, written, List.map_append, List.map_replicate]
    rfl

/-- A target that climbs behind the fork, seen from a directory with an idle piece. -/
theorem link_leads_to_target_climbing :
    (⟨"/ws//mod/./a/../../x"⟩ : Path).isAbsolute = true ∧
      (⟨"/ws/./target//summary"⟩ : Path).isAbsolute = true ∧
      Component.up ∉ (⟨"/ws/./target//summary"⟩ : Path).components ∧
      relativeText ⟨"/ws//mod/./a/../../x"⟩ ⟨"/ws/./target//summary"⟩ = "../../mod/a/../../x" ∧
      aim ["summary", "target", "ws"] ⟨"../../mod/a/../../x"⟩ = ["x", "ws"] := by
  have htarget : (⟨"/ws//mod/./a/../../x"⟩ : Path).isAbsolute = true := rfl
  have hbase : (⟨"/ws/./target//summary"⟩ : Path).isAbsolute = true := rfl
  have hup : Component.up ∉ (⟨"/ws/./target//summary"⟩ : Path).components := by decide
  have htext : relativeText ⟨"/ws//mod/./a/../../x"⟩ ⟨"/ws/./target//summary"⟩ =
      "../../mod/a/../../x" := by decide
  have hlead := (link_leads_to_target [] htarget hbase hup).1
  rw [htext] at hlead
  exact ⟨htarget, hbase, hup, htext, hlead⟩

end LintDigest.Path
