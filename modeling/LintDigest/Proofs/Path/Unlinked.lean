import LintDigest.Proofs.Path.Relative

/-!
# Targets without a link

From some directories there is no walk to a target. Then the target itself is written in place of
the link, from its components with slashes between them. A relative target stays as it is written,
if no piece of it is idle. An absolute one does not: the root is a component whose text is a slash
already, and gets one more behind it (`unlinked_respelled`).
-/

namespace LintDigest.Path

open LintDigest.Tree

/-- There is no walk from `base` to `target`, or `base` is relative and the target stands for
itself. -/
def Unlinked (target base : Path) : Prop :=
  walkTo target base = none ∨ target.isAbsolute = true ∧ base.isAbsolute = false

instance (target base : Path) : Decidable (Unlinked target base) :=
  inferInstanceAs (Decidable (_ ∨ _))

/-- No piece behind the first slash is idle: no slash is doubled or ends the path, and no `.` stands
behind the head. -/
def Tidy (p : Path) : Prop :=
  ∀ w ∈ (Text.split (· == '/') p.text.toList).tail, idle w = false

instance (p : Path) : Decidable p.Tidy := inferInstanceAs (Decidable (∀ _ ∈ _, _))

variable {p target base : Path} {as bs shared rest more : List Component} {a : Component}

/-! ## Where there is no walk -/

theorem Fork.of_cons (h : Fork (a :: as) (a :: bs) shared rest more) :
    ∃ front, Fork as bs front rest more := by
  obtain ⟨front, rfl⟩ := h.longest [a] (List.prefix_append _ as) (List.prefix_append _ bs)
  refine ⟨front, (List.cons.inj h.left).2, (List.cons.inj h.right).2, fun xs hleft hright => ?_⟩
  have hlonger := h.longest (a :: xs) (List.cons_prefix_cons.2 ⟨rfl, hleft⟩)
    (List.cons_prefix_cons.2 ⟨rfl, hright⟩)
  exact (List.cons_prefix_cons.1 hlonger).2

/-- A directory that goes up where the target goes another way cannot be walked back from. -/
theorem stepsTo_eq_none_iff (as : List Component) (hbs : ∀ b ∈ bs, b ≠ .here) :
    stepsTo as bs [] = none ↔
      ∃ shared a rest more, Fork as bs shared (a :: rest) (.up :: more) := by
  induction as generalizing bs with
  | nil =>
    rw [stepsTo_nil]
    refine iff_of_false (by simp) ?_
    rintro ⟨shared, a, rest, more, hfork⟩
    simpa using hfork.left
  | cons a as ih =>
    cases bs with
    | nil =>
      refine iff_of_false (by simp [stepsTo]) ?_
      rintro ⟨shared, a, rest, more, hfork⟩
      simpa using hfork.right
    | cons b bs =>
      obtain ⟨hhere, htail⟩ := List.forall_mem_cons.1 hbs
      by_cases hab : a = b
      · subst hab
        rw [stepsTo, if_pos ⟨rfl, rfl⟩, ih htail]
        constructor
        · rintro ⟨shared, c, rest, more, hfork⟩
          exact ⟨_, c, rest, more, hfork.cons a⟩
        · rintro ⟨shared, c, rest, more, hfork⟩
          obtain ⟨front, hrest⟩ := hfork.of_cons
          exact ⟨front, c, rest, more, hrest⟩
      · rw [stepsTo, if_neg (fun h => hab h.2), if_neg hhere]
        by_cases hup : b = .up
        · subst hup
          exact iff_of_true (if_pos rfl) ⟨[], a, as, bs, fork_of_ne hab⟩
        · rw [if_neg hup]
          refine iff_of_false (by simp) ?_
          rintro ⟨shared, c, rest, more, hfork⟩
          cases shared with
          | nil => exact hup (List.cons.inj hfork.right).1
          | cons d shared =>
            exact hab ((List.cons.inj hfork.left).1.trans (List.cons.inj hfork.right).1.symm)

/-- Seen from an absolute directory, an absolute target has no walk exactly when the directory goes
up where the two part and the target goes on. -/
theorem walkTo_eq_none_iff (htarget : target.isAbsolute = true) (hbase : base.isAbsolute = true) :
    walkTo target base = none ↔ ∃ shared a rest more,
      Fork target.components base.components shared (a :: rest) (.up :: more) := by
  obtain ⟨bs, hbs, hsteps⟩ := components_of_isAbsolute hbase
  have hplain : ∀ b ∈ base.components, b ≠ .here := by
    rw [hbs]
    refine List.forall_mem_cons.2 ⟨by simp, ?_⟩
    rintro b hb rfl
    exact hsteps _ hb
  rw [walkTo, htarget, hbase, if_pos rfl, Option.map_eq_none_iff, stepsTo_eq_none_iff _ hplain]

/-! ## How components are written -/

theorem relativeText_of_unlinked (h : Unlinked target base) :
    relativeText target base = (written target.components).text := by
  have hself : (walkTo target base).getD target = target := by
    rcases h with hnone | ⟨htarget, hbase⟩
    · rw [hnone]
      rfl
    · rw [walkTo, htarget, hbase]
      rfl
  rw [relativeText, hself, written]

theorem texts_of_pieces (ws : List (List Char)) :
    (ws.filterMap component?).map (·.text.toList) = ws.filter fun w => !idle w := by
  induction ws with
  | nil => rfl
  | cons w ws ih =>
    have htext := text_of_component? w
    cases hw : idle w with
    | true =>
      rw [hw, if_pos rfl, Option.map_eq_none_iff] at htext
      rw [List.filterMap_cons_none htext, ih, List.filter_cons_of_neg (by simp [hw])]
    | false =>
      rw [hw, if_neg Bool.false_ne_true, Option.map_eq_some_iff] at htext
      obtain ⟨c, hc, hctext⟩ := htext
      rw [List.filterMap_cons_some hc, List.map_cons, ih, hctext, String.toList_ofList,
        List.filter_cons_of_pos (by simp [hw])]

/-- The pieces of a relative path: its components leave out those that are idle, but for a `.` at the
head. -/
theorem exists_pieces (h : p.isAbsolute = false) :
    ∃ w ws, Text.split (· == '/') p.text.toList = w :: ws ∧ (w = [] → ws = []) ∧
      p.components.map (·.text.toList) =
        (if w = [] then [] else [w]) ++ ws.filter fun w => !idle w := by
  revert h
  unfold isAbsolute components
  unfold layout
  split
  · simp
  · next htext =>
    rw [htext]
    exact fun _ => ⟨['.'], [], by decide, by simp, by decide⟩
  · next body htext =>
    rw [htext]
    refine fun _ => ⟨['.'], Text.split (· == '/') body, rfl, by simp, ?_⟩
    exact congrArg (['.'] :: ·) (texts_of_pieces _)
  · next hroot hdot hdotSlash =>
    intro _
    obtain ⟨w, ws, hsplit⟩ := List.exists_cons_of_ne_nil
      (Text.split_ne_nil (· == '/') p.text.toList)
    have hglue := Text.glue_split '/' p.text.toList
    rw [hsplit] at hglue
    refine ⟨w, ws, hsplit, ?_, ?_⟩
    · rintro rfl
      cases ws with
      | nil => rfl
      | cons v vs => exact absurd hglue.symm (hroot _)
    · rw [hsplit]
      refine (texts_of_pieces _).trans ?_
      have hfirst : w ≠ ['.'] := by
        rintro rfl
        cases ws with
        | nil => exact hdot hglue.symm
        | cons v vs => exact hdotSlash _ hglue.symm
      by_cases hw : w = []
      · simp [hw, idle]
      · simp [hw, hfirst, idle]

/-- A relative path is read and written back as it is if nothing in it is idle. -/
theorem written_of_relative (h : p.isAbsolute = false) :
    (written p.components).text = p.text ↔ p.Tidy := by
  obtain ⟨w, ws, hsplit, hempty, htexts⟩ := exists_pieces h
  have htext := Text.glue_split '/' p.text.toList
  have hslash : ∀ v ∈ w :: ws, '/' ∉ v := by
    intro v hv hmem
    rw [← hsplit] at hv
    simpa using Text.not_of_mem_split hv '/' hmem
  rw [Tidy, hsplit, List.tail_cons, ← String.toList_inj, toList_written, htexts]
  rw [hsplit] at htext
  rw [← htext]
  by_cases hw : w = []
  · simp [hw, hempty hw, Text.glue]
  · rw [if_neg hw, List.singleton_append]
    have hkept : ∀ v ∈ w :: ws.filter fun w => !idle w, '/' ∉ v := by
      refine List.forall_mem_cons.2 ⟨hslash w List.mem_cons_self, fun v hv => ?_⟩
      exact hslash v (List.mem_cons_of_mem _ (List.mem_of_mem_filter hv))
    -- Pieces without slashes can be told from the text that they make.
    have hpieces : Text.glue ['/'] (w :: ws.filter fun w => !idle w) = Text.glue ['/'] (w :: ws) ↔
        ws.filter (fun w => !idle w) = ws := by
      constructor
      · intro heq
        have hcut := congrArg (Text.split (· == '/')) heq
        rw [split_glue (List.cons_ne_nil _ _) hkept, split_glue (List.cons_ne_nil _ _) hslash] at hcut
        exact (List.cons.inj hcut).2
      · intro heq
        rw [heq]
    rw [hpieces, List.filter_eq_self]
    simp

/-- An absolute path that is not the root is written with two slashes at its head. -/
theorem written_of_isAbsolute (h : p.isAbsolute = true) :
    (written p.components).text =
      if steps p = [] then "/" else "//" ++ "/".intercalate (steps p) := by
  obtain ⟨cs, hcs, hsteps⟩ := components_of_isAbsolute h
  have hnames : steps p = cs.map Component.text := by
    rw [steps_eq_components, hcs, List.filter_cons]
    simp only [filter_steps hsteps]
    rfl
  rw [hcs, hnames, written]
  cases cs with
  | nil => rfl
  | cons c cs =>
    rw [if_neg (by simp), List.map_cons, ← List.singleton_append,
      String.intercalate_append_of_ne_nil (by simp) (by simp)]
    rfl

/-- A tidy absolute path is its steps behind one slash. -/
theorem text_of_isAbsolute (h : p.isAbsolute = true) (htidy : p.Tidy) :
    steps p ≠ [] ∧ p.text = "/" ++ "/".intercalate (steps p) := by
  rw [isAbsolute_iff] at h
  obtain ⟨body, hbody⟩ := List.head?_eq_some_iff.1 h
  have hsplit : Text.split (· == '/') p.text.toList = [] :: Text.split (· == '/') body := by
    rw [hbody]
    rfl
  rw [Tidy, hsplit, List.tail_cons] at htidy
  have hsteps : steps p = (Text.split (· == '/') body).map String.ofList := by
    rw [steps_eq_namingPieces, hsplit, namingPieces, List.filter_cons_of_neg (by simp [idle]),
      List.filter_eq_self.2 fun w hw => by simp [htidy w hw]]
  refine ⟨by simpa [hsteps] using Text.split_ne_nil _ _, ?_⟩
  have hid : (String.toList ∘ String.ofList) = id := funext fun w => String.toList_ofList
  rw [← String.toList_inj, String.toList_append, String.toList_intercalate, hsteps, List.map_map,
    hid, List.map_id, hbody]
  exact congrArg ('/' :: ·) ((glue_eq_intercalate _ _).symm.trans (Text.glue_split '/' body)).symm

/-! ## What stands in for a link -/

/-- Where there is no link, a relative target is written as it is exactly when it is tidy. An
absolute target is written with a second slash at its head unless it is the root, so a tidy one is
never written as it is. -/
theorem unlinked_respelled (h : Unlinked target base) :
    (target.isAbsolute = false → (relativeText target base = target.text ↔ target.Tidy)) ∧
      (target.isAbsolute = true →
        (relativeText target base =
          if steps target = [] then "/" else "//" ++ "/".intercalate (steps target)) ∧
        (target.Tidy → relativeText target base = "/" ++ target.text)) := by
  rw [relativeText_of_unlinked h]
  refine ⟨written_of_relative, fun htarget => ⟨written_of_isAbsolute htarget, fun htidy => ?_⟩⟩
  obtain ⟨hne, htext⟩ := text_of_isAbsolute htarget htidy
  rw [written_of_isAbsolute htarget, if_neg hne, htext, ← String.append_assoc]
  rfl

/-- A tidy absolute target from a relative directory, and relative targets from an absolute one. -/
theorem unlinked_respelled_both :
    Unlinked ⟨"/ws/m/r.html"⟩ ⟨"out"⟩ ∧ (⟨"/ws/m/r.html"⟩ : Path).Tidy ∧
      relativeText ⟨"/ws/m/r.html"⟩ ⟨"out"⟩ = "/" ++ "/ws/m/r.html" ∧
      (∀ target ∈ [(⟨"./m/../r.html"⟩ : Path), ⟨"m//r.html"⟩],
        Unlinked target ⟨"/out"⟩ ∧ target.isAbsolute = false) ∧
      relativeText ⟨"./m/../r.html"⟩ ⟨"/out"⟩ = "./m/../r.html" ∧
      relativeText ⟨"m//r.html"⟩ ⟨"/out"⟩ ≠ "m//r.html" := by
  have habsolute : Unlinked ⟨"/ws/m/r.html"⟩ ⟨"out"⟩ := by decide
  have htidy : (⟨"/ws/m/r.html"⟩ : Path).Tidy := by decide
  have hrelative : ∀ target ∈ [(⟨"./m/../r.html"⟩ : Path), ⟨"m//r.html"⟩],
      Unlinked target ⟨"/out"⟩ ∧ target.isAbsolute = false := by decide
  obtain ⟨hdotted, hrel⟩ := hrelative ⟨"./m/../r.html"⟩ (by simp)
  obtain ⟨hdoubled, hrel'⟩ := hrelative ⟨"m//r.html"⟩ (by simp)
  refine ⟨habsolute, htidy, ((unlinked_respelled habsolute).2 rfl).2 htidy, hrelative, ?_, ?_⟩
  · exact ((unlinked_respelled hdotted).1 hrel).2 (by decide)
  · exact fun heq => absurd (((unlinked_respelled hdoubled).1 hrel').1 heq) (by decide)

/-- A report of the workspace, seen from a directory that goes up where the two part, is linked like a
file of another host. -/
theorem second_slash_of_unlinked :
    walkTo ⟨"/ws/m/r.html"⟩ ⟨"/ws/../out"⟩ = none ∧ (⟨"/ws/m/r.html"⟩ : Path).Tidy ∧
      relativeText ⟨"/ws/m/r.html"⟩ ⟨"/ws/../out"⟩ = "//ws/m/r.html" := by
  decide

end LintDigest.Path
