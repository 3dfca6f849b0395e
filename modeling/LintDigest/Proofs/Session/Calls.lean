import LintDigest.Proofs.Session.Separate

/-!
# Services

A session can stay in memory and be called again and again: to start over, to take in a module, to
end. `Calls` are such calls, one after another, with what they reply. `answer_of_course` says how one
call can go, and `Removed` what starting over does to the files.
-/

namespace LintDigest.Session

open Script Storage LintDigest.Tree

/-! ## Calls and replies -/

/-- What a session can be asked to do. -/
inductive Call
  | begin
  | process (module : Path)
  | finish
  deriving DecidableEq

/-- What it replies; why something failed is left to the log. -/
inductive Reply
  | begun (ok : Bool)
  | outcome (o : Outcome)
  /-- Whether a page was rendered, unless that failed. -/
  | finished (rendered : Option Bool)
  deriving DecidableEq

/-- One call. -/
def call (s : Session) : Call → Script Reply
  | .begin => do
    let started ← s.begin
    return .begun started.toOption.isSome
  | .process module => do
    let o ← s.process module
    return .outcome o
  | .finish => do
    let ended ← s.rule.finish
    s.noteEnd ended
    return .finished ended.toOption

/-- Calls one after another. -/
inductive Calls (s : Session) (th : Thread) (A : (r : Request) → r.Answer → Prop) :
    List Call → Workspace → List Reply → Workspace → Prop
  | nil {w : Workspace} : Calls s th A [] w [] w
  | cons {c : Call} {cs : List Call} {reply : Reply} {replies : List Reply} {w w₁ w' : Workspace}
      (first : Course th A (s.call c) w (.done reply) w₁) (rest : Calls s th A cs w₁ replies w') :
      Calls s th A (c :: cs) w (reply :: replies) w'

/-- The outcomes among some replies. -/
def outcomes (replies : List Reply) : List Outcome :=
  replies.filterMap fun
    | .outcome o => some o
    | _ => none

/-! ## Starting over -/

/-- The files that starting over removes, in this order. -/
def artifacts : List String :=
  [BundleSummary.pageName, RuleSummary.documentName, RuleSummary.pageName, RuleSummary.snapshotName]

theorem isName_of_mem_artifacts : ∀ n ∈ artifacts, IsName n := by decide

/-- How removing the named files of a directory can go. A directory in the place of a file ends it. -/
inductive Removed (dir : Path) (cwd : Place) :
    List String → Tree → Except Error Unit → Tree → Prop
  | nil {t : Tree} : Removed dir cwd [] t (.ok ()) t
  | absent {n : String} {names : List String} {t t' : Tree} {res : Except Error Unit}
      (none : t.stat cwd (dir / n) = none) (rest : Removed dir cwd names t res t') :
      Removed dir cwd (n :: names) t res t'
  | gone {n : String} {names : List String} {t t' : Tree} {res : Except Error Unit}
      (file : t.stat cwd (dir / n) = some .file)
      (rest : Removed dir cwd names (t.erase (n :: aim cwd dir)) res t') :
      Removed dir cwd (n :: names) t res t'
  | stuck {n : String} {names : List String} {t : Tree} {e : Error}
      (blocked : t.stat cwd (dir / n) = some .dir) :
      Removed dir cwd (n :: names) t (.error e) t

theorem removed_of_run (dir : Path) {names : List String} (hnames : ∀ n ∈ names, IsName n)
    (th : Thread) (w : Workspace) :
    Removed dir w.home names w.tree ((removeAll dir names).run th w).1
      ((removeAll dir names).run th w).2.tree := by
  induction names generalizing w with
  | nil => exact .nil
  | cons n names ih =>
    obtain ⟨hn, hnames⟩ := List.forall_mem_cons.1 hnames
    rw [removeAll, run_isPresent_bind]
    cases hstat : w.tree.stat w.home (dir / n) with
    | none => exact .absent hstat (ih hnames w)
    | some kind =>
      simp only [Option.isSome_some, if_true, request, ask_bind, done_bind, run, Workspace.answer,
        Workspace.change]
      obtain ⟨hw, place, e, hlead, he, rfl⟩ := (stat_div hn).1 hstat
      cases e with
      | dir =>
        cases hremove : w.tree.remove w.home (dir / n) with
        | error fault => exact .stuck hstat
        | ok t =>
          obtain ⟨-, place', c, hlead', hc, -⟩ := (remove_div hn).1 hremove
          rw [hlead'.unique hlead, he] at hc
          cases hc
      | file c =>
        rw [(remove_div hn).2 ⟨hw, place, c, hlead, he, rfl⟩]
        obtain rfl := hlead.eq_aim
        exact .gone hstat (ih hnames { w with tree := w.tree.erase (n :: aim w.home dir) })

/-! ### What is left -/

section

variable {dir : Path} {cwd : Place} {t t' : Tree} {m n : String} {names : List String}
  {res : Except Error Unit}

theorem dirsKept_erase (hm : IsName m) (hfile : t.stat cwd (dir / m) = some .file) :
    DirsKept t (t.erase (m :: aim cwd dir)) := by
  obtain ⟨-, place, e, hlead, he, hkind⟩ := (stat_div hm).1 hfile
  obtain rfl := hlead.eq_aim
  refine dirsKept_of_update (get?_erase ..) ?_
  rw [he]
  rintro ⟨⟩
  cases hkind

/-- Without a file, the others in its directory are what they were. -/
theorem stat_erase (hm : IsName m) (hn : IsName n) (hfile : t.stat cwd (dir / m) = some .file) :
    (t.erase (m :: aim cwd dir)).stat cwd (dir / n) =
      if n = m then none else t.stat cwd (dir / n) := by
  obtain ⟨-, place, e, hlead, -⟩ := (stat_div hm).1 hfile
  obtain rfl := hlead.eq_aim
  have hview := get?_erase t m (aim cwd dir)
  have hlead' := hlead.mono (dirsKept_erase hm hfile)
  refine Option.ext fun k => ?_
  by_cases hnm : n = m
  · rw [if_pos hnm, stat_div hn]
    constructor
    · rintro ⟨-, place, e', hplace, he', -⟩
      rw [hplace.unique hlead', hnm, hview, Function.update_self] at he'
      cases he'
    · nofun
  · have hother :
        (t.erase (m :: aim cwd dir)).get? (n :: aim cwd dir) = t.get? (n :: aim cwd dir) := by
      rw [hview, Function.update_of_ne fun heq => hnm (List.cons.inj heq).1]
    rw [if_neg hnm, stat_div hn, stat_div hn]
    refine and_congr_right fun _ => ⟨?_, ?_⟩
    · rintro ⟨place, e', hplace, he', hk⟩
      rw [hplace.unique hlead', hother] at he'
      exact ⟨_, e', hlead, he', hk⟩
    · rintro ⟨place, e', hplace, he', hk⟩
      rw [hplace.unique hlead, ← hother] at he'
      exact ⟨_, e', hlead', he', hk⟩

theorem Removed.stat_of_notMem (h : Removed dir cwd names t res t') (hnames : ∀ m ∈ names, IsName m)
    (hn : IsName n) (hnot : n ∉ names) : t'.stat cwd (dir / n) = t.stat cwd (dir / n) := by
  induction h with
  | nil => rfl
  | absent none rest ih =>
    exact ih (fun m hm => hnames m (List.mem_cons_of_mem _ hm)) (mt (List.mem_cons_of_mem _) hnot)
  | gone file rest ih =>
    obtain ⟨hm, hnames⟩ := List.forall_mem_cons.1 hnames
    rw [List.mem_cons, not_or] at hnot
    obtain ⟨hne, hnot⟩ := hnot
    rw [ih hnames hnot, stat_erase hm hn file, if_neg hne]
  | stuck => rfl

/-- If all went well, nothing is left. -/
theorem Removed.stat_of_ok (h : Removed dir cwd names t (.ok ()) t') (hnames : ∀ m ∈ names, IsName m)
    (hnodup : names.Nodup) : ∀ n ∈ names, t'.stat cwd (dir / n) = none := by
  generalize hres : Except.ok () = res at h
  induction h with
  | nil => nofun
  | absent none rest ih =>
    obtain ⟨hm, hnames⟩ := List.forall_mem_cons.1 hnames
    obtain ⟨hnot, hnodup⟩ := List.nodup_cons.1 hnodup
    refine List.forall_mem_cons.2 ⟨?_, ih hnames hnodup hres⟩
    rw [rest.stat_of_notMem hnames hm hnot, none]
  | gone file rest ih =>
    obtain ⟨hm, hnames⟩ := List.forall_mem_cons.1 hnames
    obtain ⟨hnot, hnodup⟩ := List.nodup_cons.1 hnodup
    refine List.forall_mem_cons.2 ⟨?_, ih hnames hnodup hres⟩
    rw [rest.stat_of_notMem hnames hm hnot, stat_erase hm hm file, if_pos rfl]
  | stuck => cases hres

end

/-! ## One call -/

/-- How one call can go. -/
inductive Answer (s : Session) (th : Thread) (A : (r : Request) → r.Answer → Prop) (w : Workspace) :
    Call → Reply → Workspace → Prop
  | begun {res : Except Error Unit} {w' : Workspace}
      (removed : Removed s.summaryDir w.home artifacts w.tree res w'.tree)
      (progress : w'.progress = w.progress) :
      Answer s th A w .begin (.begun res.toOption.isSome) w'
  | outcome {module : Path} {o : Outcome} {w' : Workspace} (turn : Turn s module th A w o w') :
      Answer s th A w (.process module) (.outcome o) w'
  | finished {res : Except Error Bool} {w₁ w' : Workspace}
      (finish : Course th A s.rule.finish w (.done res) w₁) (rest : Untouched w₁ w') :
      Answer s th A w .finish (.finished res.toOption) w'

section

variable {s : Session} {th : Thread} {A : (r : Request) → r.Answer → Prop} {w w' : Workspace}

theorem removed_of_course {res : Except Error Unit} (h : Course th A s.begin w (.done res) w') :
    Removed s.summaryDir w.home artifacts w.tree res w'.tree ∧ w'.progress = w.progress := by
  unfold Session.begin at h
  obtain ⟨w₁, w₂, hw₁, h, htree₂, -, hprogress₂, -⟩ := h.of_locked
  obtain ⟨_, w₃, hname, h⟩ := h.of_bind
  obtain ⟨-, hw₃⟩ := (passive_request rfl).course hw₁ hname
  obtain ⟨_, w₄, hlog, h⟩ := h.of_bind
  obtain ⟨-, htree₄, hhome₄, hprogress₄, -⟩ := (passive_log _ _ _).course hw₃ hlog
  have hreset : reset s.summaryDir = removeAll s.summaryDir artifacts := rfl
  rw [hreset] at h
  obtain ⟨hrun, -⟩ := h.run_at (timeless_removeAll _ _) w₄.now
  have hremoved := removed_of_run s.summaryDir isName_of_mem_artifacts th (w₄.setNow w₄.now)
  have hprogress := progress_removeAll s.summaryDir artifacts th (w₄.setNow w₄.now)
  rw [hrun] at hremoved hprogress
  simp only [Workspace.tree_setNow, Workspace.home_setNow, Workspace.progress_setNow]
    at hremoved hprogress
  rw [htree₂, hprogress₂, hprogress, hprogress₄, ← htree₄, ← hhome₄]
  exact ⟨hremoved, rfl⟩

theorem answer_of_course {c : Call} {reply : Reply}
    (h : Course th A (s.call c) w (.done reply) w') : s.Answer th A w c reply w' := by
  cases c with
  | begin =>
    obtain ⟨res, w₁, hbegin, h⟩ := h.of_bind
    obtain ⟨rfl, m, rfl⟩ := h.of_done
    obtain ⟨hremoved, hprogress⟩ := removed_of_course hbegin
    exact .begun hremoved hprogress
  | process module =>
    obtain ⟨o, w₁, hprocess, h⟩ := h.of_bind
    obtain ⟨rfl, m, rfl⟩ := h.of_done
    exact .outcome (turn_of_course (hprocess.trans (.wait m .stop)))
  | finish =>
    obtain ⟨res, w₁, hfinish, h⟩ := h.of_bind
    obtain ⟨_, w₂, hnote, h⟩ := h.of_bind
    obtain ⟨rfl, m, rfl⟩ := h.of_done
    obtain ⟨-, hnoted⟩ := (s.passive_noteEnd res).course (Untouched.refl w₁) hnote
    exact .finished hfinish hnoted

/-- A run of calls, if the moment that it shows has no markup in it. -/
theorem calls_of_run (s : Session) (th : Thread) (cs : List Call) (w : Workspace)
    (h : '<' ∉ w.now.toList) :
    s.Calls th Request.credible cs w ((cs.mapM s.call).run th w).1
      ((cs.mapM s.call).run th w).2 := by
  induction cs generalizing w with
  | nil => exact .nil
  | cons c cs ih =>
    rw [List.mapM_cons, run_bind, run_bind]
    exact .cons (answered_credible _ h).course (ih _ (by rwa [now_run]))

end

end LintDigest.Session
