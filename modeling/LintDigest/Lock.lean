/-!
# The summary lock

A named lock with an owner and a count of the owner's holds. The owner may acquire it again; a
release by anyone else changes nothing, so it cannot free another thread's critical section.
-/

namespace LintDigest

/-- A thread of the program. -/
abbrev Thread := String

/-- A re-entrant lock. -/
structure Lock where
  name : String
  owner : Option Thread := none
  holds : Nat := 0
  deriving DecidableEq, Inhabited

namespace Lock

/-- Whether a thread may enter at once. -/
def admits (l : Lock) (t : Thread) : Bool :=
  match l.owner with
  | none => true
  | some o => o = t

/-- The lock after `t` has entered; nothing when `t` has to wait. -/
def acquire? (l : Lock) (t : Thread) : Option Lock :=
  if l.admits t then some { l with owner := some t, holds := l.holds + 1 } else none

/-- The lock after `t` has given up one hold. -/
def release (l : Lock) (t : Thread) : Lock :=
  if l.owner = some t then
    if l.holds - 1 = 0 then { l with owner := none, holds := 0 }
    else { l with holds := l.holds - 1 }
  else l

/-- Whether any thread holds the lock. -/
def isHeld (l : Lock) : Bool :=
  l.owner.isSome

/-- Whether a given thread holds the lock. -/
def isHeldBy (l : Lock) (t : Thread) : Bool :=
  l.owner = some t

end Lock

/-- A lock and the threads that wait for it. Which of them comes next when the lock is freed is not
promised to any; this queue takes the first. -/
structure LockQueue where
  lock : Lock
  waiting : List Thread := []

namespace LockQueue

/-- What a request led to. -/
inductive Event
  | done
  | blocked
  | handedTo (t : Thread)

/-- A thread enters, or starts to wait. -/
def acquire (q : LockQueue) (t : Thread) : Event × LockQueue :=
  match q.lock.acquire? t with
  | some l => (.done, { q with lock := l })
  | none => (.blocked, { q with waiting := q.waiting ++ [t] })

/-- A thread gives up one hold; a lock that this frees goes to a thread that waits. -/
def release (q : LockQueue) (t : Thread) : Event × LockQueue :=
  let l := q.lock.release t
  match q.waiting with
  | [] => (.done, { q with lock := l })
  | next :: rest =>
    match l.acquire? next with
    | some l' => (.handedTo next, ⟨l', rest⟩)
    | none => (.done, { q with lock := l })

end LockQueue

end LintDigest
