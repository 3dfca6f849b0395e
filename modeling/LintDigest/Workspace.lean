import LintDigest.Script

/-!
# Workspaces

A workspace is everything a script can see and change: the files, the lock, what was logged and
printed, and what the rule summary remembers between updates.
-/

namespace LintDigest

/-- Something a script has made visible. -/
inductive Event
  | logged (r : Log.Record)
  | printed (text : String)
  | complained (text : String)
  deriving DecidableEq, Inhabited

/-- What an event writes to the standard output. -/
def Event.output : Event → String
  | printed text => text
  | _ => ""

/-- What an event writes to the standard error: complaints, and the records that a filter admits. -/
def Event.errorOutput (f : Log.Filter) (stamp : String) : Event → String
  | complained text => text
  | logged r => if f.admits r then r.line stamp else ""
  | printed _ => ""

/-- What a rule summary remembers: the number of its updates, and whether its page is still to be
rendered. -/
structure Progress where
  updates : Nat := 0
  pending : Bool := false
  deriving DecidableEq, Inhabited

/-- The surroundings of a script. -/
structure Workspace where
  tree : Tree := {}
  /-- The current directory. -/
  home : Place := []
  /-- The present moment, as pages show it. -/
  now : String := ""
  lock : Lock
  progress : Progress := {}
  /-- What scripts have made visible so far, the first event first. -/
  events : List Event := []
  deriving Inhabited

namespace Workspace

/-- The path of a place. -/
def pathOf (p : Place) : Path :=
  ⟨"/" ++ "/".intercalate p.reverse⟩

/-- The workspace with a changed tree, after an operation that may have failed. -/
def change (w : Workspace) (r : Except FileFault Tree) : Except FileFault Unit × Workspace :=
  match r with
  | .ok tree => (.ok (), { w with tree })
  | .error e => (.error e, w)

/-- The workspace with one more visible event. -/
def reveal (w : Workspace) (e : Event) : Workspace :=
  { w with events := w.events ++ [e] }

/-- Whether a thread can be served at once; only the lock makes threads wait. -/
def serves (w : Workspace) (t : Thread) : Request → Bool
  | .acquire => w.lock.admits t
  | _ => true

/-- Answers the request of a thread. A thread that asks for a lock which it cannot have leaves the
workspace as it is; it should have waited until `serves` holds. -/
def answer (w : Workspace) (t : Thread) : (r : Request) → r.Answer × Workspace
  | .stat p => (w.tree.stat w.home p, w)
  | .read p => (w.tree.read w.home p, w)
  | .list p => (w.tree.list w.home p, w)
  | .makeDirs p =>
    let (result, tree) := w.tree.makeDirs w.home p
    (result, { w with tree })
  | .scratch dir =>
    match w.tree.scratch w.home dir with
    | .ok (p, tree) => (.ok p, { w with tree })
    | .error e => (.error e, w)
  | .fill p text => w.change (w.tree.write w.home p (.text text))
  | .rename p q => w.change (w.tree.rename w.home p q)
  | .copy p q => w.change (w.tree.copy w.home p q)
  | .remove p => w.change (w.tree.remove w.home p)
  | .cwd => (pathOf w.home, w)
  | .now => (w.now, w)
  | .log r => ((), w.reveal (.logged r))
  | .print text => ((), w.reveal (.printed text))
  | .complain text => ((), w.reveal (.complained text))
  | .acquire => ((), { w with lock := (w.lock.acquire? t).getD w.lock })
  | .release => ((), releaseLock w t)
  | .lockName => (w.lock.name, w)
  | .countUpdate =>
    let n := w.progress.updates + 1
    (n, { w with progress := { w.progress with updates := n } })
  | .setPending pending => ((), { w with progress := { w.progress with pending } })
  | .takePending =>
    (w.progress.pending, { w with progress := { w.progress with pending := false } })
where
  /-- A release by a thread that does not hold the lock is only noted. -/
  releaseLock (w : Workspace) (t : Thread) : Workspace :=
    if w.lock.isHeldBy t then { w with lock := w.lock.release t }
    else w.reveal (.logged ⟨.debug, "lintfold::lock",
      "release of '" ++ w.lock.name ++ "' by non-owner ignored"⟩)

end Workspace

namespace Script

variable {α β : Type}

/-- Runs a script as one thread, with nothing in between. -/
def run (t : Thread) : Script α → Workspace → α × Workspace
  | done a, w => (a, w)
  | ask r next, w =>
    let (answer, w) := w.answer t r
    (next answer).run t w

theorem run_bind (t : Thread) (s : Script α) (f : α → Script β) (w : Workspace) :
    (s >>= f).run t w = (f (s.run t w).1).run t (s.run t w).2 := by
  induction s generalizing w with
  | done a => rfl
  | ask r next ih => rw [ask_bind]; simp only [run]; exact ih _ _

end Script

end LintDigest
