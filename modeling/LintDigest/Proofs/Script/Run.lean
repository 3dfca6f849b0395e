import LintDigest.Workspace

/-!
# Running scripts

Equations for the small scripts that others are made of. No script moves the current directory
(`home_run`), and a script that asks for no change of files makes none (`Still.tree_run`).
-/

namespace LintDigest

/-- A request that changes no file. -/
def Request.isStill : Request → Bool
  | makeDirs _ | scratch _ | fill _ _ | rename _ _ | copy _ _ | remove _ => false
  | _ => true

namespace Workspace

/-- The workspace after a thread has asked for the lock. -/
def entered (w : Workspace) (th : Thread) : Workspace := (w.answer th .acquire).2

/-- The workspace after a thread has given up one hold of the lock. -/
def left (w : Workspace) (th : Thread) : Workspace := (w.answer th .release).2

@[simp] theorem tree_entered (w : Workspace) (th : Thread) : (w.entered th).tree = w.tree := rfl

@[simp] theorem home_entered (w : Workspace) (th : Thread) : (w.entered th).home = w.home := rfl

@[simp] theorem tree_left (w : Workspace) (th : Thread) : (w.left th).tree = w.tree := by
  simp only [left, answer, answer.releaseLock]
  split <;> rfl

@[simp] theorem progress_left (w : Workspace) (th : Thread) :
    (w.left th).progress = w.progress := by
  simp only [left, answer, answer.releaseLock]
  split <;> rfl

@[simp] theorem home_left (w : Workspace) (th : Thread) : (w.left th).home = w.home := by
  simp only [left, answer, answer.releaseLock]
  split <;> rfl

@[simp] theorem home_change (w : Workspace) (r : Except FileFault Tree) :
    (w.change r).2.home = w.home := by
  cases r <;> rfl

@[simp] theorem lock_change (w : Workspace) (r : Except FileFault Tree) :
    (w.change r).2.lock = w.lock := by
  cases r <;> rfl

theorem home_answer (w : Workspace) (th : Thread) (r : Request) : (w.answer th r).2.home = w.home := by
  cases r with
  | fill | rename | copy | remove => exact home_change w _
  | scratch dir =>
    simp only [answer]
    split <;> rfl
  | release => exact home_left w th
  | _ => rfl

theorem tree_answer (w : Workspace) (th : Thread) {r : Request} (hr : r.isStill = true) :
    (w.answer th r).2.tree = w.tree := by
  cases r with
  | makeDirs | scratch | fill | rename | copy | remove => cases hr
  | release => exact tree_left w th
  | _ => rfl

end Workspace

namespace Script

variable {α β : Type}

@[simp] theorem run_done (th : Thread) (a : α) (w : Workspace) : (done a).run th w = (a, w) := rfl

theorem run_isPresent_bind (th : Thread) (p : Path) (f : Bool → Script β) (w : Workspace) :
    (isPresent p >>= f).run th w = (f (w.tree.stat w.home p).isSome).run th w := rfl

theorem run_takePending_bind (th : Thread) (f : Bool → Script β) (w : Workspace) :
    ((request .takePending : Script Bool) >>= f).run th w =
      (f w.progress.pending).run th
        { w with progress := { w.progress with pending := false } } := rfl

theorem run_locked (th : Thread) (body : Script α) (w : Workspace) :
    (locked body).run th w =
      ((body.run th (w.entered th)).1, (body.run th (w.entered th)).2.left th) := by
  simp only [locked, run_bind]
  rfl

theorem home_run (th : Thread) (s : Script α) (w : Workspace) : (s.run th w).2.home = w.home := by
  induction s generalizing w with
  | done a => rfl
  | ask r next ih => exact (ih _ _).trans (Workspace.home_answer w th r)

theorem home_eq_of_run {th : Thread} {s : Script α} {w w' : Workspace} {a : α}
    (h : s.run th w = (a, w')) : w'.home = w.home := by
  have hhome := home_run th s w
  rwa [h] at hhome

/-! ## Scripts that change no files -/

/-- The script asks for nothing that could change a file, whatever the answers are. -/
def Still : Script α → Prop
  | done _ => True
  | ask r next => r.isStill = true ∧ ∀ answer, (next answer).Still

theorem Still.bind {s : Script α} (hs : s.Still) {f : α → Script β} (hf : ∀ a, (f a).Still) :
    (s >>= f).Still := by
  induction s with
  | done a => exact hf a
  | ask r next ih => exact ⟨hs.1, fun answer => ih answer (hs.2 answer)⟩

theorem Still.tree_run {s : Script α} (hs : s.Still) (th : Thread) (w : Workspace) :
    (s.run th w).2.tree = w.tree := by
  induction s generalizing w with
  | done a => rfl
  | ask r next ih => exact (ih _ (hs.2 _) _).trans (Workspace.tree_answer w th hs.1)

/-- What comes after such a script finds the files as they were. -/
theorem Still.run_bind {s : Script α} (hs : s.Still) (f : α → Script β) (th : Thread)
    (w : Workspace) :
    ∃ w', (s >>= f).run th w = (f (s.run th w).1).run th w' ∧ w'.tree = w.tree ∧
      w'.home = w.home :=
  ⟨(s.run th w).2, Script.run_bind th s f w, hs.tree_run th w, home_run th s w⟩

theorem still_isPresent (p : Path) : (isPresent p).Still :=
  ⟨rfl, fun _ => trivial⟩

theorem still_absolute (p : Path) : (absolute p).Still := by
  unfold absolute
  split
  · trivial
  · exact ⟨rfl, fun _ => trivial⟩

end Script

end LintDigest
