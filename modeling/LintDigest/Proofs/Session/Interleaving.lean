import Mathlib.Data.List.Nodup
import Mathlib.Data.List.Perm.Basic
import LintDigest.Proofs.Script.Guarded
import LintDigest.Proofs.Session.Persisted
import LintDigest.Proofs.Summary.Aggregate
import LintDigest.Proofs.Summary.Coupled

/-!
# Threads that share the summaries

A crew is a workspace and what each thread has left to do in it. Any thread may move next that can be
served, one request at a time, and time may pass in between. Every thread of a crew updates the
summaries once, in one critical section: while a thread holds the lock the others can only wait, so
the crew is always where it would be if the threads had come one after another
(`Standing.move`). `serialized_in_order_of_entry` is what this means when all are done.
-/

namespace LintDigest

open Script Storage LintDigest.Tree Workspace

/-! ## Crews -/

/-- Threads at work in one workspace. -/
structure Crew where
  workspace : Workspace
  /-- What each thread has left to do. -/
  left : Thread → Script Unit
  /-- The threads that found the lock free and took it, in this order. -/
  entered : List Thread := []

/-- What can happen next: a thread has its request answered, or time passes. -/
inductive Move
  | act (th : Thread)
  | wait (moment : String)

/-- Time passes to a moment that has no markup in it. -/
def Move.Plain : Move → Prop
  | act _ => True
  | wait moment => '<' ∉ moment.toList

instance (m : Move) : Decidable m.Plain :=
  match m with
  | .act _ => isTrue trivial
  | .wait moment => inferInstanceAs (Decidable ('<' ∉ moment.toList))

namespace Crew

/-- The crew after a move; a thread that is done or has to wait for the lock cannot move. -/
def move (c : Crew) : Move → Option Crew
  | .wait moment => some { c with workspace := c.workspace.setNow moment }
  | .act th =>
    match c.left th with
    | .done () => none
    | .ask r next =>
      if c.workspace.serves th r then
        some {
          workspace := (c.workspace.answer th r).2
          left := Function.update c.left th (next (c.workspace.answer th r).1)
          entered := match r with
            | .acquire => if c.workspace.lock.isHeld then c.entered else c.entered ++ [th]
            | _ => c.entered }
      else none

/-- The crew after some moves. -/
def play (c : Crew) (moves : List Move) : Option Crew :=
  moves.foldlM move c

end Crew

namespace Session

/-- The update of the summaries that one thread makes. -/
structure Job where
  thread : Thread
  report : Option Path
  document : Document
  page : String

/-- What the thread of a job does. -/
def Job.script (s : Session) (j : Job) : Script Unit :=
  s.updateSummaries j.report j.document j.page

/-- What a thread has to do at first. -/
def task (s : Session) (jobs : List Job) (th : Thread) : Script Unit :=
  match jobs.find? fun j => j.thread = th with
  | some j => j.script s
  | none => .done ()

/-- A crew before its first move. -/
def crew (s : Session) (jobs : List Job) (w : Workspace) : Crew where
  workspace := w
  left := s.task jobs

/-- The workspace after jobs have been done one after another. -/
def inTurn (s : Session) (jobs : List Job) (w : Workspace) : Workspace :=
  jobs.foldl (fun w j => ((j.script s).run j.thread w).2) w

end Session

/-! ## The lock -/

theorem Workspace.lock_answer (w : Workspace) (th : Thread) {r : Request}
    (hr : ∀ n, r.holds n = n) : (w.answer th r).2.lock = w.lock := by
  cases r with
  | acquire => cases hr 0
  | release => cases hr 1
  | fill | rename | copy | remove => exact lock_change w _
  | scratch dir =>
    simp only [answer]
    split <;> rfl
  | _ => rfl

/-- What the requests of a thread that holds the lock do to it. -/
theorem Workspace.lock_of_owner {w : Workspace} {th : Thread} (howner : w.lock.owner = some th)
    (hholds : 0 < w.lock.holds) (r : Request) :
    (w.answer th r).2.lock.holds = r.holds w.lock.holds ∧
      (w.answer th r).2.lock.owner = if r.holds w.lock.holds = 0 then none else some th := by
  cases r with
  | acquire => simp [answer, Lock.acquire?, Lock.admits, howner, Request.holds]
  | release =>
    simp only [answer, answer.releaseLock, Lock.isHeldBy, howner, Lock.release, Request.holds,
      decide_true, if_true]
    split
    · next hlast => simp [hlast]
    · next hmore => simp [hmore]
  | _ =>
    rw [lock_answer w th fun _ => rfl, howner, if_neg (by simp only [Request.holds]; omega)]
    exact ⟨rfl, rfl⟩

/-- Who moves, asks for something and is served. -/
theorem Crew.move_act {c c' : Crew} {th : Thread} (h : c.move (.act th) = some c') :
    ∃ r next, c.left th = .ask r next ∧ c.workspace.serves th r = true ∧
      c'.workspace = (c.workspace.answer th r).2 ∧
      c'.left = Function.update c.left th (next (c.workspace.answer th r).1) ∧
      c'.entered = match r with
        | .acquire => if c.workspace.lock.isHeld then c.entered else c.entered ++ [th]
        | _ => c.entered := by
  simp only [move] at h
  split at h
  · cases h
  · next r next hleft =>
    split at h
    · next hserved =>
      cases h
      exact ⟨r, next, hleft, hserved, rfl, rfl, rfl⟩
    · cases h

theorem credible_answer {w : Workspace} (h : '<' ∉ w.now.toList) (th : Thread) (r : Request) :
    r.credible (w.answer th r).1 := by
  cases r with
  | now => exact h
  | _ => trivial

theorem Crew.now_move {c c' : Crew} {m : Move} (h : '<' ∉ c.workspace.now.toList) (hm : m.Plain)
    (hmove : c.move m = some c') : '<' ∉ c'.workspace.now.toList := by
  cases m with
  | wait moment =>
    cases hmove
    exact hm
  | act th =>
    obtain ⟨r, next, -, -, hworkspace, -⟩ := move_act hmove
    rwa [hworkspace, now_answer]

theorem Script.now_run {α : Type} (s : Script α) (th : Thread) (w : Workspace) :
    (s.run th w).2.now = w.now := by
  induction s generalizing w with
  | done a => rfl
  | ask r next ih => exact (ih _ _).trans (now_answer w th r)

namespace Session

/-! ## One after another -/

theorem inTurn_concat (s : Session) (jobs : List Job) (j : Job) (w : Workspace) :
    s.inTurn (jobs ++ [j]) w = ((j.script s).run j.thread (s.inTurn jobs w)).2 := by
  rw [inTurn, List.foldl_append]
  rfl

theorem now_inTurn (s : Session) (jobs : List Job) (w : Workspace) :
    (s.inTurn jobs w).now = w.now := by
  induction jobs using List.reverseRecOn with
  | nil => rfl
  | append_singleton jobs j ih => rw [inTurn_concat, now_run, ih]

theorem task_cases (s : Session) (jobs : List Job) (th : Thread) :
    s.task jobs th = .done () ∨
      ∃ j ∈ jobs, j.thread = th ∧ s.task jobs th = j.script s := by
  unfold task
  split
  · next j hj =>
    exact .inr ⟨j, List.mem_of_find?_eq_some hj, by simpa using List.find?_some hj, rfl⟩
  · exact .inl rfl

theorem task_ne_done {s : Session} {jobs : List Job} {j : Job} (hj : j ∈ jobs) :
    s.task jobs j.thread ≠ .done () := by
  unfold task
  split
  · next j' _ =>
    obtain ⟨next, hacquire, -⟩ := s.guarded_updateSummaries j'.report j'.document j'.page
    rw [Job.script, hacquire]
    exact nofun
  · next hnone => simpa using List.find?_eq_none.1 hnone j hj

/-- What a thread has left when only the jobs in `order` are done. -/
def remaining (s : Session) (jobs order : List Job) (th : Thread) : Script Unit :=
  if th ∈ order.map Job.thread then .done () else s.task jobs th

theorem remaining_eq_ask {s : Session} {jobs order : List Job} {th : Thread} {r : Request}
    {next : r.Answer → Script Unit} (h : s.remaining jobs order th = .ask r next) :
    th ∉ order.map Job.thread ∧ ∃ j ∈ jobs, j.thread = th ∧ j.script s = .ask r next := by
  unfold remaining at h
  split at h
  · cases h
  · next hnew =>
    refine ⟨hnew, ?_⟩
    rcases s.task_cases jobs th with hdone | ⟨j, hj, hthread, hscript⟩
    · rw [hdone] at h
      cases h
    · exact ⟨j, hj, hthread, hscript.symm.trans h⟩

/-- The jobs in `order` are done, as if one after another, and nobody holds the lock. -/
structure Resting (s : Session) (jobs : List Job) (w : Workspace) (order : List Job) (c : Crew) :
    Prop where
  unheld : c.workspace.lock.owner = none
  holds : c.workspace.lock.holds = 0
  left : c.left = s.remaining jobs order
  entered : c.entered = order.map Job.thread
  twins : Twins Matched c.workspace (s.inTurn order w)

/-- The jobs in `order` are done, as if one after another, and `j` is under way in its critical
section. -/
structure Holding (s : Session) (jobs : List Job) (w : Workspace) (order : List Job) (j : Job)
    (c : Crew) : Prop where
  job : j ∈ jobs
  new : j.thread ∉ order.map Job.thread
  owner : c.workspace.lock.owner = some j.thread
  holds : 0 < c.workspace.lock.holds
  guarded : (c.left j.thread).Guarded c.workspace.lock.holds
  others : ∀ th, th ≠ j.thread → c.left th = s.remaining jobs order th
  entered : c.entered = order.map Job.thread ++ [j.thread]
  course : ∃ v, Twins Matched v (s.inTurn order w) ∧
    Course j.thread Request.credible (j.script s) v (c.left j.thread) c.workspace

/-- Where a crew can stand. -/
def Standing (s : Session) (jobs : List Job) (w : Workspace) (c : Crew) : Prop :=
  ∃ order : List Job, (order.map Job.thread).Nodup ∧ (∀ j ∈ order, j ∈ jobs) ∧
    (s.Resting jobs w order c ∨ ∃ j, s.Holding jobs w order j c)

section

variable {s : Session} {jobs order : List Job} {j : Job} {w : Workspace} {c c' : Crew} {th : Thread}

/-- Whoever moves while the lock is free takes it. -/
theorem Resting.act (h : s.Resting jobs w order c) (hnow : '<' ∉ c.workspace.now.toList)
    (hmove : c.move (.act th) = some c') : ∃ j, s.Holding jobs w order j c' := by
  obtain ⟨r, next, hleft, -, hworkspace, hleft', hentered⟩ := Crew.move_act hmove
  rw [h.left] at hleft
  obtain ⟨hnew, j, hj, rfl, hscript⟩ := remaining_eq_ask hleft
  have hself : c'.left j.thread = next (c.workspace.answer j.thread r).1 := by
    rw [hleft', Function.update_self]
  have hcourse : Course j.thread Request.credible (j.script s) c.workspace (c'.left j.thread)
      c'.workspace := by
    rw [hscript, hworkspace, hself]
    exact .ask (credible_answer hnow _ _) .stop
  obtain ⟨next', hacquire, hguarded⟩ := s.guarded_updateSummaries j.report j.document j.page
  rw [Job.script, hacquire] at hscript
  cases hscript
  have hlock : c'.workspace.lock = { c.workspace.lock with owner := some j.thread, holds := 1 } := by
    rw [hworkspace]
    simp [answer, Lock.acquire?, Lock.admits, h.unheld, h.holds]
  refine ⟨j, hj, hnew, ?_, ?_, ?_, ?_, ?_, c.workspace, h.twins, hcourse⟩
  · rw [hlock]
  · rw [hlock]
    exact Nat.zero_lt_one
  · rw [hlock, hself]
    exact hguarded
  · intro th hne
    rw [hleft', Function.update_of_ne hne, h.left]
  · rw [hentered, h.entered]
    simp [Lock.isHeld, h.unheld]

/-- A course that is complete is one more job done. -/
theorem resting_of_course {v : Workspace} (hunheld : c.workspace.lock.owner = none)
    (hholds : c.workspace.lock.holds = 0) (hdone : c.left j.thread = .done ())
    (hothers : ∀ th, th ≠ j.thread → c.left th = s.remaining jobs order th)
    (hentered : c.entered = order.map Job.thread ++ [j.thread]) (hw : '<' ∉ w.now.toList)
    (htwins : Twins Matched v (s.inTurn order w))
    (hcourse : Course j.thread Request.credible (j.script s) v (.done ()) c.workspace) :
    s.Resting jobs w (order ++ [j]) c := by
  have hrun : (j.script s).Answered j.thread Request.credible (s.inTurn order w) := by
    apply answered_credible
    rwa [now_inTurn]
  have hcoupled := s.coupled_updateSummaries j.report j.document j.page
  refine ⟨hunheld, hholds, ?_, ?_, ?_⟩
  · funext th
    by_cases hth : th = j.thread
    · rw [hth, hdone, remaining, if_pos (by simp)]
    · rw [hothers th hth, remaining, remaining]
      simp [hth]
  · rw [hentered, List.map_append]
    rfl
  · rw [inTurn_concat]
    exact (hcoupled _ _ _ _ _ _ _ htwins hcourse hrun.course).2

/-- While a thread holds the lock, it alone moves. -/
theorem Holding.act (h : s.Holding jobs w order j c) (hnow : '<' ∉ c.workspace.now.toList)
    (hw : '<' ∉ w.now.toList) (hmove : c.move (.act th) = some c') :
    s.Holding jobs w order j c' ∨ s.Resting jobs w (order ++ [j]) c' := by
  obtain ⟨r, next, hleft, hserved, hworkspace, hleft', hentered⟩ := Crew.move_act hmove
  obtain ⟨v, htwins, hcourse⟩ := h.course
  by_cases hth : th = j.thread
  · subst hth
    have hself : c'.left j.thread = next (c.workspace.answer j.thread r).1 := by
      rw [hleft', Function.update_self]
    have hothers : ∀ th, th ≠ j.thread → c'.left th = s.remaining jobs order th := by
      intro th hne
      rw [hleft', Function.update_of_ne hne]
      exact h.others th hne
    have hstill : c'.entered = order.map Job.thread ++ [j.thread] := by
      rw [hentered, ← h.entered]
      split
      · simp [Lock.isHeld, h.owner]
      · rfl
    have hcourse' : Course j.thread Request.credible (j.script s) v (c'.left j.thread)
        c'.workspace := by
      apply hcourse.trans
      rw [hleft, hworkspace, hself]
      exact .ask (credible_answer hnow _ _) .stop
    obtain ⟨hholds, howner⟩ := lock_of_owner h.owner h.holds r
    have hguarded := h.guarded
    rw [hleft] at hguarded
    have hnext := hguarded.2 (c.workspace.answer j.thread r).1
    rw [← hworkspace] at hholds howner
    rw [← hholds] at hnext howner
    rw [← hself] at hnext
    by_cases hlast : c'.workspace.lock.holds = 0
    · -- The last hold is given up, and nothing is left to do.
      rw [if_pos hlast] at howner
      rw [hlast] at hnext
      rw [hnext.eq_done] at hcourse'
      exact .inr (resting_of_course howner hlast hnext.eq_done hothers hstill hw htwins hcourse')
    · rw [if_neg hlast] at howner
      exact .inl ⟨h.job, h.new, howner, Nat.pos_of_ne_zero hlast, hnext, hothers, hstill, v, htwins,
        hcourse'⟩
  · -- Another thread has nothing left, or has to wait for the lock.
    rw [h.others th hth] at hleft
    obtain ⟨-, j', -, rfl, hscript⟩ := remaining_eq_ask hleft
    obtain ⟨next', hacquire, -⟩ := s.guarded_updateSummaries j'.report j'.document j'.page
    rw [Job.script, hacquire] at hscript
    cases hscript
    simp [serves, Lock.admits, h.owner, Ne.symm hth] at hserved

theorem Standing.move {m : Move} (h : s.Standing jobs w c) (hnow : '<' ∉ c.workspace.now.toList)
    (hw : '<' ∉ w.now.toList) (hmove : c.move m = some c') : s.Standing jobs w c' := by
  obtain ⟨order, hnodup, hjobs, hstands⟩ := h
  cases m with
  | wait moment =>
    cases hmove
    refine ⟨order, hnodup, hjobs, ?_⟩
    rcases hstands with h | ⟨j, h⟩
    · exact .inl ⟨h.unheld, h.holds, h.left, h.entered, h.twins.tree, h.twins.home, h.twins.progress⟩
    · obtain ⟨v, htwins, hcourse⟩ := h.course
      exact .inr ⟨j, h.job, h.new, h.owner, h.holds, h.guarded, h.others, h.entered, v, htwins,
        hcourse.trans (.wait moment .stop)⟩
  | act th =>
    rcases hstands with h | ⟨j, h⟩
    · exact ⟨order, hnodup, hjobs, .inr (h.act hnow hmove)⟩
    · rcases h.act hnow hw hmove with hnext | hnext
      · exact ⟨order, hnodup, hjobs, .inr ⟨j, hnext⟩⟩
      · refine ⟨order ++ [j], ?_, ?_, .inl hnext⟩
        · rw [List.map_append]
          exact List.nodup_append.2 ⟨hnodup, by simp, by simpa using h.new⟩
        · intro j' hj'
          rcases List.mem_append.1 hj' with hj' | hj'
          · exact hjobs j' hj'
          · rw [List.mem_singleton.1 hj']
            exact h.job

theorem Standing.play {moves : List Move} (h : s.Standing jobs w c)
    (hnow : '<' ∉ c.workspace.now.toList) (hw : '<' ∉ w.now.toList)
    (hplain : ∀ m ∈ moves, m.Plain) (hplay : c.play moves = some c') : s.Standing jobs w c' := by
  induction moves generalizing c with
  | nil =>
    cases hplay
    exact h
  | cons m moves ih =>
    obtain ⟨hm, hrest⟩ := List.forall_mem_cons.1 hplain
    rw [Crew.play, List.foldlM_cons] at hplay
    obtain ⟨next, hmove, hplay⟩ := Option.bind_eq_some_iff.1 hplay
    exact ih (h.move hnow hw hmove) (Crew.now_move hnow hm hmove) hrest hplay

theorem standing_crew (s : Session) (jobs : List Job) (w : Workspace)
    (hlock : w.lock.owner = none ∧ w.lock.holds = 0) : s.Standing jobs w (s.crew jobs w) :=
  ⟨[], .nil, nofun, .inl ⟨hlock.1, hlock.2, rfl, rfl, twins_refl likeness_matched w⟩⟩

/-- Once every thread is done, every job is. -/
theorem Standing.perm (h : s.Standing jobs w c) (hthreads : (jobs.map Job.thread).Nodup)
    (hdone : ∀ j ∈ jobs, c.left j.thread = .done ()) :
    ∃ order : List Job, order.Perm jobs ∧ s.Resting jobs w order c := by
  obtain ⟨order, hnodup, hjobs, h | ⟨j, h⟩⟩ := h
  · refine ⟨order, ?_, h⟩
    rw [List.perm_ext_iff_of_nodup (List.Nodup.of_map _ hnodup) (List.Nodup.of_map _ hthreads)]
    intro j
    refine ⟨hjobs j, fun hj => ?_⟩
    by_contra hnew
    have hleft := hdone j hj
    rw [h.left, remaining] at hleft
    split at hleft
    · next hmem =>
      obtain ⟨j', hj', hthread⟩ := List.mem_map.1 hmem
      rw [List.inj_on_of_nodup_map hthreads (hjobs j' hj') hj hthread] at hj'
      exact hnew hj'
    · exact task_ne_done hj hleft
  · have hguarded := h.guarded
    rw [hdone j h.job] at hguarded
    exact absurd hguarded (Nat.ne_of_gt h.holds)

end

/-- Whatever the threads do in between, the summaries, the number of updates and the note about the
page are in the end what they would be if the threads had come one after another, in the order in
which they took the lock. -/
theorem serialized_in_order_of_entry (s : Session) (jobs : List Job) (w : Workspace)
    (moves : List Move) (c : Crew) (hthreads : (jobs.map Job.thread).Nodup)
    (hlock : w.lock.owner = none ∧ w.lock.holds = 0) (hnow : '<' ∉ w.now.toList)
    (hplain : ∀ m ∈ moves, m.Plain) (hplay : (s.crew jobs w).play moves = some c)
    (hdone : ∀ j ∈ jobs, c.left j.thread = .done ()) :
    ∃ order : List Job, order.Perm jobs ∧ order.map Job.thread = c.entered ∧
      s.SameSummaries c.workspace (s.inTurn order w) ∧
      c.workspace.progress = (s.inTurn order w).progress := by
  have hstands := (s.standing_crew jobs w hlock).play hnow hnow hplain hplay
  obtain ⟨order, hperm, hrest⟩ := hstands.perm hthreads hdone
  obtain ⟨htree, hhome, hprogress⟩ := hrest.twins
  refine ⟨order, hperm, hrest.entered.symm, ⟨?_, ?_, ?_⟩, hprogress.symm⟩
  · rw [hhome]
    exact (htree.entry_alike _ _ RuleSummary.isName_documentName (by decide)).eq_of_notMem (by decide)
  · rw [hhome]
    exact htree.entry_alike _ _ RuleSummary.isName_pageName (by decide)
  · rw [hhome]
    exact htree.entry_alike _ _ BundleSummary.isName_pageName (by decide)

/-! Two threads: the one that comes second in the list takes the lock first. -/

instance (s : Script Unit) : Decidable (s = .done ()) :=
  match s with
  | .done () => isTrue rfl
  | .ask _ _ => isFalse nofun

/-- The page is left for the end of the session. -/
def unhurried : Session := { plain with regenerate := .once }

/-- A workspace whose bundle page has no rows. -/
def sharedDesk : Workspace := { desk with tree := ⟨desk.tree.entries.drop 3⟩ }

def twoJobs : List Job :=
  [⟨"first", some ⟨"app/report.html"⟩, deskDocument, "<p>"⟩,
    ⟨"second", none, RuleSummary.oneFinding, "<q>"⟩]

def twoTurns : List Move :=
  List.replicate 9 (.act "second") ++ [.wait "noon"] ++ List.replicate 6 (.act "second") ++
    List.replicate 29 (.act "first")

theorem serialized_in_order_of_entry_two :
    ∃ c order, (unhurried.crew twoJobs sharedDesk).play twoTurns = some c ∧
      (∀ j ∈ twoJobs, c.left j.thread = .done ()) ∧ order.Perm twoJobs ∧
      order.map Job.thread = ["second", "first"] ∧
      unhurried.SameSummaries c.workspace (unhurried.inTurn order sharedDesk) ∧
      (unhurried.inTurn order sharedDesk).progress = ⟨2, true⟩ := by
  have hrun : ((unhurried.crew twoJobs sharedDesk).play twoTurns).any fun c =>
      (∀ j ∈ twoJobs, c.left j.thread = .done ()) ∧ c.entered = ["second", "first"] ∧
        c.workspace.progress = ⟨2, true⟩ := by decide +kernel
  obtain ⟨c, hplay, hc⟩ := (Option.any_eq_true _ _).1 hrun
  obtain ⟨hdone, hentered, hprogress⟩ := of_decide_eq_true hc
  obtain ⟨order, hperm, horder, hsame, hsums⟩ := serialized_in_order_of_entry unhurried twoJobs
    sharedDesk twoTurns c (by decide) ⟨rfl, rfl⟩ (by decide) (by decide) hplay hdone
  exact ⟨c, order, hplay, hdone, hperm, horder.trans hentered, hsame, hsums.symm.trans hprogress⟩

end Session

end LintDigest
