import LintDigest.Proofs.Script.Run

/-!
# Runs while time passes

`run` holds the clock still. In a `Course` the moment may change before every request, and every
answer is one that the course allows: any at all, or only those of a disk that takes every write
(`Request.granted`).

A script that asks for the moment once at most cannot tell that time passes: each of its courses is
a run at some moment (`Course.run_eq`). So what is known of runs is known of courses.
-/

namespace LintDigest

namespace Request

/-- The moment, as pages show it, has no markup in it. -/
def credible : (r : Request) → r.Answer → Prop
  | now, moment => '<' ∉ moment.toList
  | _, _ => True

/-- A credible answer that refuses no write. -/
def granted : (r : Request) → r.Answer → Prop
  | makeDirs _, answer => answer = .ok ()
  | scratch _, answer => ∃ p, answer = .ok p
  | fill _ _, answer => answer = .ok ()
  | rename _ _, answer => answer = .ok ()
  | copy _ _, answer => answer = .ok ()
  | now, moment => '<' ∉ moment.toList
  | _, _ => True

instance (r : Request) (answer : r.Answer) : Decidable (r.granted answer) :=
  match r, answer with
  | makeDirs _, .ok () | fill _ _, .ok () | rename _ _, .ok () | copy _ _, .ok () => isTrue rfl
  | makeDirs _, .error _ | fill _ _, .error _ | rename _ _, .error _ | copy _ _, .error _ =>
    isFalse nofun
  | scratch _, .ok p => isTrue ⟨p, rfl⟩
  | scratch _, .error _ => isFalse nofun
  | now, moment => inferInstanceAs (Decidable ('<' ∉ moment.toList))
  | stat _, _ | read _, _ | list _, _ | remove _, _ | cwd, _ | log _, _ | print _, _
  | complain _, _ | acquire, _ | release, _ | lockName, _ | countUpdate, _ | setPending _, _
  | takePending, _ => isTrue trivial

theorem credible_of_granted (r : Request) (answer : r.Answer) (h : r.granted answer) :
    r.credible answer := by
  cases r with
  | now => exact h
  | _ => trivial

/-- Whether a request is for the moment. -/
def isNow : Request → Bool
  | now => true
  | _ => false

/-- Whether a request changes neither files nor what is remembered, and is not for the moment. -/
def isPassive : Request → Bool
  | stat _ | read _ | list _ | cwd | log _ | print _ | complain _ => true
  | acquire | release | lockName => true
  | _ => false

end Request

namespace Workspace

/-- The workspace at another moment. -/
def setNow (w : Workspace) (moment : String) : Workspace := { w with now := moment }

@[simp] theorem setNow_setNow (w : Workspace) (m m' : String) : (w.setNow m).setNow m' = w.setNow m' := rfl

@[simp] theorem tree_setNow (w : Workspace) (m : String) : (w.setNow m).tree = w.tree := rfl

@[simp] theorem home_setNow (w : Workspace) (m : String) : (w.setNow m).home = w.home := rfl

@[simp] theorem now_setNow (w : Workspace) (m : String) : (w.setNow m).now = m := rfl

@[simp] theorem progress_setNow (w : Workspace) (m : String) : (w.setNow m).progress = w.progress := rfl

theorem change_setNow (w : Workspace) (m : String) (r : Except FileFault Tree) :
    (w.setNow m).change r = ((w.change r).1, (w.change r).2.setNow m) := by
  cases r <;> rfl

/-- Only the request for the moment sees what time it is. -/
theorem answer_setNow {r : Request} (hr : r.isNow = false) (w : Workspace) (th : Thread) (m : String) :
    (w.setNow m).answer th r = ((w.answer th r).1, (w.answer th r).2.setNow m) := by
  cases r with
  | now => cases hr
  | fill | rename | copy | remove => exact change_setNow w m _
  | scratch dir =>
    simp only [answer, tree_setNow, home_setNow]
    split <;> rfl
  | release =>
    simp only [answer, answer.releaseLock]
    by_cases h : w.lock.isHeldBy th = true
    · have h' : (w.setNow m).lock.isHeldBy th = true := h
      rw [if_pos h, if_pos h']
      rfl
    · have h' : ¬ (w.setNow m).lock.isHeldBy th = true := h
      rw [if_neg h, if_neg h']
      rfl
  | _ => rfl

theorem now_answer (w : Workspace) (th : Thread) (r : Request) : (w.answer th r).2.now = w.now := by
  by_cases hr : r.isNow = false
  · have h := congrArg (·.2.now) (answer_setNow hr w th w.now)
    exact h
  · cases r with
    | now => rfl
    | _ => exact absurd rfl hr

end Workspace

namespace Script

variable {α β : Type} {th : Thread} {A : (r : Request) → r.Answer → Prop} {w w' : Workspace}

/-! ## Courses -/

/-- Made by `th`, the script `s` can come from `w` to `w'`, where `s'` is left of it. -/
inductive Course (th : Thread) (A : (r : Request) → r.Answer → Prop) :
    Script α → Workspace → Script α → Workspace → Prop
  | stop {s : Script α} {w : Workspace} : Course th A s w s w
  | wait {s s' : Script α} {w w' : Workspace} (moment : String)
      (rest : Course th A s (w.setNow moment) s' w') : Course th A s w s' w'
  | ask {r : Request} {next : r.Answer → Script α} {s' : Script α} {w w' : Workspace}
      (allowed : A r (w.answer th r).1)
      (rest : Course th A (next (w.answer th r).1) (w.answer th r).2 s' w') :
      Course th A (ask r next) w s' w'

theorem Course.trans {s s' s'' : Script α} {w'' : Workspace} (h : Course th A s w s' w')
    (h' : Course th A s' w' s'' w'') : Course th A s w s'' w'' := by
  induction h with
  | stop => exact h'
  | wait moment _ ih => exact .wait moment (ih h')
  | ask allowed _ ih => exact .ask allowed (ih h')

theorem Course.home_eq {s s' : Script α} (h : Course th A s w s' w') : w'.home = w.home := by
  induction h with
  | stop => rfl
  | wait moment _ ih => exact ih
  | ask allowed _ ih => exact ih.trans (Workspace.home_answer _ th _)

theorem Course.imp {B : (r : Request) → r.Answer → Prop} {s s' : Script α}
    (hAB : ∀ r answer, A r answer → B r answer) (h : Course th A s w s' w') :
    Course th B s w s' w' := by
  induction h with
  | stop => exact .stop
  | wait moment _ ih => exact .wait moment ih
  | ask allowed _ ih => exact .ask (hAB _ _ allowed) ih

/-- Nothing but the clock moves once a script is done. -/
theorem Course.of_done {a b : α} (h : Course th A (done a) w (done b) w') :
    b = a ∧ ∃ m, w' = w.setNow m := by
  generalize hs : done a = s, hs' : done b = s' at h
  induction h with
  | stop =>
    subst hs
    cases hs'
    exact ⟨rfl, _, rfl⟩
  | wait moment _ ih =>
    obtain ⟨hab, m, rfl⟩ := ih hs hs'
    exact ⟨hab, m, rfl⟩
  | ask => cases hs

theorem Course.of_ask {r : Request} {next : r.Answer → Script α} {a : α}
    (h : Course th A (Script.ask r next) w (done a) w') :
    ∃ m, A r ((w.setNow m).answer th r).1 ∧
      Course th A (next ((w.setNow m).answer th r).1) ((w.setNow m).answer th r).2 (done a) w' := by
  generalize hs : Script.ask r next = s, hs' : done a = s' at h
  induction h with
  | stop =>
    subst hs
    cases hs'
  | wait moment _ ih =>
    obtain ⟨m, hm⟩ := ih hs hs'
    exact ⟨m, hm⟩
  | @ask r' next' s' w w' allowed rest ih =>
    cases hs
    subst hs'
    exact ⟨w.now, allowed, rest⟩

/-- A course of one script after another is a course of the one and a course of the other. -/
theorem Course.of_bind {s : Script α} {f : α → Script β} {b : β}
    (h : Course th A (s >>= f) w (done b) w') :
    ∃ a w₁, Course th A s w (done a) w₁ ∧ Course th A (f a) w₁ (done b) w' := by
  induction s generalizing w with
  | done a => exact ⟨a, w, .stop, h⟩
  | ask r next ih =>
    rw [ask_bind] at h
    obtain ⟨m, allowed, hrest⟩ := h.of_ask
    obtain ⟨a, w₁, hs, hf⟩ := ih _ hrest
    exact ⟨a, w₁, .wait m (.ask allowed hs), hf⟩

/-! ## Runs as courses -/

/-- Every answer on the way of a run is allowed. -/
def Answered (th : Thread) (A : (r : Request) → r.Answer → Prop) : Script α → Workspace → Prop
  | done _, _ => True
  | ask r next, w => A r (w.answer th r).1 ∧ (next (w.answer th r).1).Answered th A (w.answer th r).2

instance decidableAnswered (th : Thread) [∀ r answer, Decidable (A r answer)] :
    (s : Script α) → (w : Workspace) → Decidable (s.Answered th A w)
  | done _, _ => isTrue trivial
  | ask r next, w =>
    have := decidableAnswered th (next (w.answer th r).1) (w.answer th r).2
    inferInstanceAs (Decidable (_ ∧ _))

theorem answered_bind {s : Script α} {f : α → Script β} :
    (s >>= f).Answered th A w ↔
      s.Answered th A w ∧ (f (s.run th w).1).Answered th A (s.run th w).2 := by
  induction s generalizing w with
  | done a => simp [Answered]
  | ask r next ih =>
    rw [ask_bind]
    simp only [Answered, ih, run, and_assoc]

theorem Answered.course {s : Script α} (h : s.Answered th A w) :
    Course th A s w (done (s.run th w).1) (s.run th w).2 := by
  induction s generalizing w with
  | done a => exact .stop
  | ask r next ih => exact .ask h.1 (ih _ h.2)

/-- Every answer on the way of a run is allowed, and the run ends as `Q` says. -/
def Ends (th : Thread) (A : (r : Request) → r.Answer → Prop) (Q : α → Workspace → Prop) :
    Script α → Workspace → Prop
  | done a, w => Q a w
  | ask r next, w =>
    A r (w.answer th r).1 ∧ (next (w.answer th r).1).Ends th A Q (w.answer th r).2

instance decidableEnds (th : Thread) [∀ r answer, Decidable (A r answer)]
    {Q : α → Workspace → Prop} [∀ a w, Decidable (Q a w)] :
    (s : Script α) → (w : Workspace) → Decidable (s.Ends th A Q w)
  | done a, w => inferInstanceAs (Decidable (Q a w))
  | ask r next, w =>
    have := decidableEnds (Q := Q) th (next (w.answer th r).1) (w.answer th r).2
    inferInstanceAs (Decidable (_ ∧ _))

theorem Ends.course {Q : α → Workspace → Prop} {s : Script α} (h : s.Ends th A Q w) :
    ∃ a w', s.run th w = (a, w') ∧ Course th A s w (done a) w' ∧ Q a w' := by
  induction s generalizing w with
  | done a => exact ⟨a, w, rfl, .stop, h⟩
  | ask r next ih =>
    obtain ⟨a, w', hrun, hcourse, hq⟩ := ih _ h.2
    exact ⟨a, w', hrun, .ask h.1 hcourse, hq⟩

theorem course_of_run {s : Script α} {a : α} (h : s.run th w = (a, w')) :
    Course th (fun _ _ => True) s w (done a) w' := by
  have hall : s.Answered th (fun _ _ => True) w := by
    clear h
    induction s generalizing w with
    | done a => trivial
    | ask r next ih => exact ⟨trivial, ih _⟩
  have hcourse := hall.course
  rwa [h] at hcourse

/-- The clock stands still in a run. -/
theorem answered_credible (s : Script α) (h : '<' ∉ w.now.toList) :
    s.Answered th Request.credible w := by
  induction s generalizing w with
  | done a => trivial
  | ask r next ih =>
    refine ⟨?_, ih _ (by rwa [Workspace.now_answer])⟩
    cases r with
    | now => exact h
    | _ => trivial

/-! ## Courses as runs -/

/-- The script never asks for the moment. -/
def Timeless : Script α → Prop
  | done _ => True
  | ask r next => r.isNow = false ∧ ∀ answer, (next answer).Timeless

/-- The script asks for the moment once at most. -/
def Dated : Script α → Prop
  | done _ => True
  | ask r next =>
    (r.isNow = false ∧ ∀ answer, (next answer).Dated) ∨ ∀ answer, (next answer).Timeless

theorem Timeless.dated {s : Script α} (h : s.Timeless) : s.Dated := by
  induction s with
  | done a => trivial
  | ask r next ih => exact .inl ⟨h.1, fun answer => ih answer (h.2 answer)⟩

theorem Timeless.bind {s : Script α} (hs : s.Timeless) {f : α → Script β}
    (hf : ∀ a, (f a).Timeless) : (s >>= f).Timeless := by
  induction s with
  | done a => exact hf a
  | ask r next ih => exact ⟨hs.1, fun answer => ih answer (hs.2 answer)⟩

theorem Timeless.bind_dated {s : Script α} (hs : s.Timeless) {f : α → Script β}
    (hf : ∀ a, (f a).Dated) : (s >>= f).Dated := by
  induction s with
  | done a => exact hf a
  | ask r next ih => exact .inl ⟨hs.1, fun answer => ih answer (hs.2 answer)⟩

theorem Dated.bind {s : Script α} (hs : s.Dated) {f : α → Script β}
    (hf : ∀ a, (f a).Timeless) : (s >>= f).Dated := by
  induction s with
  | done a => exact (hf a).dated
  | ask r next ih =>
    rcases hs with ⟨hr, hnext⟩ | hnext
    · exact .inl ⟨hr, fun answer => ih answer (hnext answer)⟩
    · exact .inr fun answer => (hnext answer).bind hf

/-- A script that never asks for the moment has the same course at every moment. -/
theorem Course.run_at {s : Script α} (hs : s.Timeless) {a : α}
    (h : Course th A s w (done a) w') (m : String) :
    s.run th (w.setNow m) = (a, w'.setNow m) ∧ s.Answered th A (w.setNow m) := by
  induction s generalizing w with
  | done b =>
    obtain ⟨rfl, m', rfl⟩ := h.of_done
    exact ⟨rfl, trivial⟩
  | ask r next ih =>
    obtain ⟨m', allowed, hrest⟩ := h.of_ask
    rw [Workspace.answer_setNow hs.1] at allowed hrest
    have hnext := ih _ (hs.2 _) hrest
    rw [Workspace.setNow_setNow] at hnext
    simp only [run, Answered, Workspace.answer_setNow hs.1]
    exact ⟨hnext.1, allowed, hnext.2⟩

theorem Course.run_eq {s : Script α} (hs : s.Dated) {a : α} (h : Course th A s w (done a) w') :
    ∃ m, s.run th (w.setNow m) = (a, w'.setNow m) ∧ s.Answered th A (w.setNow m) := by
  induction s generalizing w with
  | done b => exact ⟨w.now, Course.run_at (s := done b) trivial h w.now⟩
  | ask r next ih =>
    obtain ⟨m', allowed, hrest⟩ := h.of_ask
    by_cases hr : r.isNow = true
    · -- Nothing asks for the moment again, so the one that this request has seen will do.
      have hnext : ∀ answer, (next answer).Timeless := by
        rcases hs with ⟨hnot, -⟩ | hnext
        · rw [hr] at hnot
          cases hnot
        · exact hnext
      cases r with
      | now =>
        obtain ⟨hrun, hanswered⟩ := hrest.run_at (hnext _) m'
        exact ⟨m', hrun, allowed, hanswered⟩
      | _ => cases hr
    · have hr : r.isNow = false := by simpa using hr
      have hnext : ∀ answer, (next answer).Dated := by
        rcases hs with ⟨-, hnext⟩ | hnext
        · exact hnext
        · exact fun answer => (hnext answer).dated
      rw [Workspace.answer_setNow hr] at allowed hrest
      obtain ⟨m, hrun, hanswered⟩ := ih _ (hnext _) hrest
      refine ⟨m, ?_⟩
      simp only [run, Answered, Workspace.answer_setNow hr]
      exact ⟨hrun, allowed, hanswered⟩

/-! ## Scripts that only look -/

/-- Nothing differs but the moment, the events and who holds the lock. -/
def Untouched (w w' : Workspace) : Prop :=
  w'.tree = w.tree ∧ w'.home = w.home ∧ w'.progress = w.progress ∧ w'.lock.name = w.lock.name

theorem Untouched.refl (w : Workspace) : Untouched w w := ⟨rfl, rfl, rfl, rfl⟩

theorem Untouched.symm (h : Untouched w w') : Untouched w' w :=
  ⟨h.1.symm, h.2.1.symm, h.2.2.1.symm, h.2.2.2.symm⟩

theorem Untouched.trans {w'' : Workspace} (h : Untouched w w') (h' : Untouched w' w'') :
    Untouched w w'' :=
  ⟨h'.1.trans h.1, h'.2.1.trans h.2.1, h'.2.2.1.trans h.2.2.1, h'.2.2.2.trans h.2.2.2⟩

theorem untouched_answer {r : Request} (hr : r.isPassive = true ∨ r.isNow = true)
    (h : Untouched w w') (th : Thread) : Untouched w (w'.answer th r).2 := by
  obtain ⟨htree, hhome, hprogress, hname⟩ := h
  cases r with
  | acquire =>
    refine ⟨htree, hhome, hprogress, ?_⟩
    rw [← hname]
    simp only [Workspace.answer, Lock.acquire?]
    split <;> rfl
  | release =>
    have hlock : (w'.answer th .release).2.lock.name = w'.lock.name := by
      simp only [Workspace.answer, Workspace.answer.releaseLock, Lock.release]
      repeat' split
      all_goals rfl
    refine ⟨(Workspace.tree_left w' th).trans htree, (Workspace.home_answer w' th _).trans hhome,
      (Workspace.progress_left w' th).trans hprogress, hlock.trans hname⟩
  | stat | read | list | cwd | lockName | now | log | print | complain =>
    exact ⟨htree, hhome, hprogress, hname⟩
  | _ => rcases hr with hr | hr <;> cases hr

/-- Requests that only look are answered alike. -/
theorem answer_passive {r : Request} (hr : r.isPassive = true) (h : Untouched w w') (th : Thread) :
    (w'.answer th r).1 = (w.answer th r).1 := by
  obtain ⟨htree, hhome, -, hname⟩ := h
  cases r with
  | stat | read | list | cwd | lockName => simp only [Workspace.answer, htree, hhome, hname]
  | log | print | complain | acquire | release => rfl
  | _ => cases hr

/-- The script looks at files, and changes neither them nor what is remembered. -/
def Passive : Script α → Prop
  | done _ => True
  | ask r next => r.isPassive = true ∧ ∀ answer, (next answer).Passive

theorem Passive.bind {s : Script α} (hs : s.Passive) {f : α → Script β}
    (hf : ∀ a, (f a).Passive) : (s >>= f).Passive := by
  induction s with
  | done a => exact hf a
  | ask r next ih => exact ⟨hs.1, fun answer => ih answer (hs.2 answer)⟩

theorem passive_request {r : Request} (hr : r.isPassive = true) : (request r).Passive :=
  ⟨hr, fun _ => trivial⟩

theorem Passive.timeless {s : Script α} (h : s.Passive) : s.Timeless := by
  induction s with
  | done a => trivial
  | ask r next ih =>
    refine ⟨?_, fun answer => ih answer (h.2 answer)⟩
    cases r with
    | now => cases h.1
    | _ => rfl

/-- What such a script finds, it finds again as long as nothing is touched. -/
theorem Passive.course {s : Script α} (hs : s.Passive) {v : Workspace} (hv : Untouched v w) {a : α}
    (h : Course th A s w (done a) w') : a = (s.run th v).1 ∧ Untouched v w' := by
  induction s generalizing w v with
  | done b =>
    obtain ⟨rfl, m, rfl⟩ := h.of_done
    exact ⟨rfl, hv⟩
  | ask r next ih =>
    obtain ⟨m, -, hrest⟩ := h.of_ask
    have hwait : Untouched v (w.setNow m) := hv
    have hself := untouched_answer (.inl hs.1) (Untouched.refl v) th
    have hnext := untouched_answer (.inl hs.1) hwait th
    rw [answer_passive hs.1 hwait th] at hrest
    obtain ⟨ha, hv'⟩ := ih _ (hs.2 _) (hself.symm.trans hnext) hrest
    exact ⟨ha, hself.trans hv'⟩

theorem Passive.untouched {s : Script α} (hs : s.Passive) (th : Thread) (w : Workspace) :
    Untouched w (s.run th w).2 :=
  (hs.course (Untouched.refl w) (course_of_run rfl)).2

theorem Course.of_request_bind {r : Request} {f : r.Answer → Script β} {b : β}
    (h : Course th A (request r >>= f) w (done b) w') :
    ∃ m answer w₁, (w.setNow m).answer th r = (answer, w₁) ∧ A r answer ∧
      Course th A (f answer) w₁ (done b) w' := by
  obtain ⟨m, allowed, hrest⟩ := h.of_ask
  exact ⟨m, _, _, rfl, allowed, hrest⟩

/-- A script under the lock leaves what its body leaves. -/
theorem Course.of_locked {body : Script α} {a : α}
    (h : Course th A (locked body) w (done a) w') :
    ∃ w₁ w₂, Untouched w w₁ ∧ Course th A body w₁ (done a) w₂ ∧ Untouched w₂ w' := by
  obtain ⟨_, w₁, hacquire, h⟩ := h.of_bind
  obtain ⟨a', w₂, hbody, h⟩ := h.of_bind
  obtain ⟨_, w₃, hrelease, h⟩ := h.of_bind
  obtain ⟨rfl, m, rfl⟩ := h.of_done
  obtain ⟨-, hw₁⟩ := (passive_request rfl).course (Untouched.refl w) hacquire
  obtain ⟨-, hw₃⟩ := (passive_request rfl).course (Untouched.refl w₂) hrelease
  exact ⟨w₁, w₂, hw₁, hbody, hw₃⟩

end Script

end LintDigest
