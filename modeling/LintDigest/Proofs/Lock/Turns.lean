import Mathlib.Data.List.Induction
import LintDigest.Lock

/-!
# The lock, turn by turn

Any number of threads acquire and release one lock, in any order. A thread takes its turn when it
enters and when it releases; while it has to wait it takes none. What a thread holds depends on its
own turns only (`holdsOf_play`), and it is what the thread has acquired less what it has given back
(`holdsOf_eq_balance`). `holds_are_balanced` puts this together for every state that turns lead to.

A `LockQueue` also keeps the threads that wait. What it does to its lock are turns, so all this holds
of it too, and nobody waits in it for a lock that is free (`LockQueue.turns_of_requests`).
-/

namespace LintDigest.Lock

/-! ## Turns -/

/-- What a thread does to the lock in one go. -/
inductive Turn
  | acquire (t : Thread)
  | release (t : Thread)
  deriving DecidableEq

namespace Turn

/-- The thread whose turn it is. -/
def thread : Turn → Thread
  | acquire t => t
  | release t => t

/-- How many holds a thread with `n` of them has after a turn of its own. -/
def holds (n : Nat) : Turn → Nat
  | acquire _ => n + 1
  | release _ => n - 1

end Turn

/-- A lock that nobody has used. -/
def fresh (name : String) : Lock := { name }

/-- The lock after a turn; nothing when the thread would have to wait. -/
def turn (l : Lock) : Turn → Option Lock
  | .acquire t => l.acquire? t
  | .release t => some (l.release t)

/-- The lock after some turns. -/
def play (l : Lock) (turns : List Turn) : Option Lock :=
  turns.foldlM turn l

/-- The holds of a thread. -/
def holdsOf (l : Lock) (t : Thread) : Nat :=
  if l.owner = some t then l.holds else 0

/-- How many of the turns are releases of `t` that find it the owner. -/
def givenBack (t : Thread) : Lock → List Turn → Nat
  | _, [] => 0
  | l, x :: turns =>
    (if x = .release t ∧ l.owner = some t then 1 else 0) +
      match l.turn x with
      | some m => m.givenBack t turns
      | none => 0

/-- How often `t` acquires the lock in some turns, less how often it gives it back. -/
def balance (l : Lock) (t : Thread) (turns : List Turn) : Int :=
  turns.count (.acquire t) - l.givenBack t turns

/-- After each of the turns `t` is the owner. -/
def OwnedBy (t : Thread) : Lock → List Turn → Prop
  | _, [] => True
  | l, x :: turns => ∃ m, l.turn x = some m ∧ m.owner = some t ∧ m.OwnedBy t turns

/-- The scopes of guards: each guard is released where its scope ends, after the scopes inside it. -/
inductive Scopes
  | none
  | guard (inner after : Scopes)

/-- The turns that a thread takes for its guards. -/
def Scopes.turns (t : Thread) : Scopes → List Turn
  | .none => []
  | .guard inner after => .acquire t :: (inner.turns t ++ .release t :: after.turns t)

section

variable {l m l' : Lock} {x : Turn} {turns : List Turn} {t : Thread}

theorem play_cons : l.play (x :: turns) = some l' ↔ ∃ m, l.turn x = some m ∧ m.play turns = some l' := by
  rw [play, List.foldlM_cons]
  exact Option.bind_eq_some_iff

theorem play_append {later : List Turn} :
    l.play (turns ++ later) = some l' ↔ ∃ m, l.play turns = some m ∧ m.play later = some l' := by
  rw [play, List.foldlM_append]
  exact Option.bind_eq_some_iff

theorem play_singleton : l.play [x] = l.turn x := by
  simp [play]

/-! ## One turn -/

/-- A free lock has no holds, and an owned one has some. -/
def Sound (l : Lock) : Prop :=
  l.owner = none ↔ l.holds = 0

theorem isSome_acquire? : (l.acquire? t).isSome ↔ l.owner = none ∨ l.owner = some t := by
  unfold acquire? admits
  cases l.owner <;> simp

theorem owner_of_acquire? (h : l.acquire? t = some l') : l'.owner = some t := by
  obtain ⟨-, hserved⟩ := Option.ite_none_right_eq_some.1 h
  cases hserved
  rfl

theorem owner_of_refused (h : l.acquire? t = none) : l.owner ≠ none := by
  intro hfree
  simpa [h] using isSome_acquire?.2 (.inl hfree : _ ∨ l.owner = some t)

/-- What a turn does to a lock. -/
inductive Change (l : Lock) : Turn → Lock → Prop
  | entered {t : Thread} (free : l.owner = none) :
    Change l (.acquire t) { l with owner := some t, holds := l.holds + 1 }
  | again {t : Thread} (own : l.owner = some t) :
    Change l (.acquire t) { l with holds := l.holds + 1 }
  | freed {t : Thread} (own : l.owner = some t) (last : l.holds = 1) :
    Change l (.release t) { l with owner := none, holds := 0 }
  | lowered {t : Thread} (own : l.owner = some t) (more : 1 < l.holds) :
    Change l (.release t) { l with holds := l.holds - 1 }
  | ignored {t : Thread} (other : l.owner ≠ some t) : Change l (.release t) l

theorem Sound.holds_pos (hl : l.Sound) (hown : l.owner = some t) : 0 < l.holds := by
  apply Nat.pos_of_ne_zero
  intro hzero
  rw [hl.2 hzero] at hown
  cases hown

theorem release_of_owner_ne (h : l.owner ≠ some t) : l.release t = l := by
  rw [release, if_neg h]

theorem Sound.holds_release (hl : l.Sound) (hown : l.owner = some t) :
    (l.release t).holds + 1 = l.holds := by
  have hpos := hl.holds_pos hown
  rw [release, if_pos hown]
  split
  · change 0 + 1 = l.holds
    omega
  · exact Nat.sub_add_cancel hpos

theorem Sound.change_of_turn (hl : l.Sound) (h : l.turn x = some l') : Change l x l' := by
  cases x with
  | acquire t =>
    have hserved : l.admits t = true ∧ { l with owner := some t, holds := l.holds + 1 } = l' := by
      simpa [turn, acquire?] using h
    obtain ⟨hadmits, rfl⟩ := hserved
    cases howner : l.owner with
    | none => exact .entered howner
    | some o =>
      obtain rfl : o = t := by simpa [admits, howner] using hadmits
      have hagain := Change.again howner
      rwa [← howner]
  | release t =>
    obtain rfl : l.release t = l' := Option.some.inj h
    unfold release
    split
    · next hown =>
      have hpos := hl.holds_pos hown
      split
      · exact .freed hown (by omega)
      · exact .lowered hown (by omega)
    · next hother => exact .ignored hother

theorem Sound.change (hl : l.Sound) (h : Change l x l') : l'.Sound := by
  cases h with
  | entered free => simp [Sound]
  | again own => simp [Sound, own]
  | freed own last => simp [Sound]
  | lowered own more => simp [Sound, own]; omega
  | ignored other => exact hl

/-- A turn counts for the thread whose turn it is, and for nobody else. -/
theorem Sound.holdsOf_change (hl : l.Sound) (h : Change l x l') (t : Thread) :
    l'.holdsOf t = if x.thread = t then x.holds (l.holdsOf t) else l.holdsOf t := by
  cases h with
  | entered free => simp [holdsOf, free, Turn.thread, Turn.holds, hl.1 free]
  | @again u own =>
    by_cases hu : u = t <;> simp [holdsOf, own, Turn.thread, Turn.holds, hu]
  | @freed u own last =>
    by_cases hu : u = t <;> simp [holdsOf, own, last, Turn.thread, Turn.holds, hu]
  | @lowered u own more =>
    by_cases hu : u = t <;> simp [holdsOf, own, Turn.thread, Turn.holds, hu]
  | @ignored u other =>
    by_cases hu : u = t
    · subst hu
      simp [holdsOf, other, Turn.thread, Turn.holds]
    · simp [Turn.thread, hu]

/-! ## Many turns -/

theorem Sound.play (hl : l.Sound) (h : l.play turns = some l') : l'.Sound := by
  induction turns generalizing l with
  | nil =>
    cases h
    exact hl
  | cons x turns ih =>
    obtain ⟨m, hturn, hplay⟩ := play_cons.1 h
    exact ih (hl.change (hl.change_of_turn hturn)) hplay

/-- The holds of a thread follow from its own turns, whatever the others do in between. -/
theorem Sound.holdsOf_play (hl : l.Sound) (h : l.play turns = some l') (t : Thread) :
    l'.holdsOf t = (turns.filter (·.thread = t)).foldl Turn.holds (l.holdsOf t) := by
  induction turns generalizing l with
  | nil =>
    cases h
    rfl
  | cons x turns ih =>
    obtain ⟨m, hturn, hplay⟩ := play_cons.1 h
    have hchange := hl.change_of_turn hturn
    rw [ih (hl.change hchange) hplay, hl.holdsOf_change hchange]
    by_cases hx : x.thread = t <;> simp [hx]

theorem balance_cons (h : l.turn x = some m) (t : Thread) (turns : List Turn) :
    l.balance t (x :: turns) = (if x = .acquire t then 1 else 0) -
      (if x = .release t ∧ l.owner = some t then 1 else 0) + m.balance t turns := by
  simp only [balance, givenBack, h, List.count_cons, beq_iff_eq]
  split <;> split <;> omega

/-- What a thread holds is what it held, with what it has acquired and given back since. -/
theorem Sound.holdsOf_eq_balance (hl : l.Sound) (h : l.play turns = some l') (t : Thread) :
    (l'.holdsOf t : Int) = l.holdsOf t + l.balance t turns := by
  induction turns generalizing l with
  | nil =>
    cases h
    simp [balance, givenBack]
  | cons x turns ih =>
    obtain ⟨m, hturn, hplay⟩ := play_cons.1 h
    have hchange := hl.change_of_turn hturn
    have hstep := hl.holdsOf_change hchange t
    rw [ih (hl.change hchange) hplay, balance_cons hturn, hstep]
    cases x with
    | acquire u =>
      by_cases hu : u = t <;> simp [Turn.thread, Turn.holds, hu]
      omega
    | release u =>
      by_cases hu : u = t
      · subst hu
        by_cases hown : l.owner = some u
        · have hpos := hl.holds_pos hown
          simp [Turn.thread, Turn.holds, holdsOf, hown]
          omega
        · simp [Turn.thread, Turn.holds, holdsOf, hown]
      · simp [Turn.thread, hu]

theorem OwnedBy.concat {k : Lock} (h : l.OwnedBy t turns) (hplay : l.play turns = some m)
    (hturn : m.turn x = some k) (hown : k.owner = some t) : l.OwnedBy t (turns ++ [x]) := by
  induction turns generalizing l with
  | nil =>
    cases hplay
    exact ⟨k, hturn, hown, trivial⟩
  | cons y turns ih =>
    obtain ⟨l₁, hy, howner, hrest⟩ := h
    obtain ⟨l₂, hy', hplay⟩ := play_cons.1 hplay
    obtain rfl : l₁ = l₂ := Option.some.inj (hy.symm.trans hy')
    exact ⟨l₁, hy, howner, ih hrest hplay⟩

/-- An owner has come when the lock was free, and has been the owner since. -/
theorem exists_entry (hl : l.Sound) (hfree : l.owner = none) (h : l.play turns = some l')
    (hown : l'.owner = some t) :
    ∃ before since m, turns = before ++ .acquire t :: since ∧ l.play before = some m ∧
      m.owner = none ∧ m.OwnedBy t (.acquire t :: since) := by
  induction turns using List.reverseRecOn generalizing l' with
  | nil =>
    cases h
    rw [hfree] at hown
    cases hown
  | append_singleton turns x ih =>
    obtain ⟨k, hplay, hlast⟩ := play_append.1 h
    rw [play_singleton] at hlast
    by_cases hk : k.owner = some t
    · obtain ⟨before, since, m, rfl, hbefore, hm, howned⟩ := ih hplay hk
      obtain ⟨m', hbefore', hsince⟩ := play_append.1 hplay
      obtain rfl : m = m' := Option.some.inj (hbefore.symm.trans hbefore')
      exact ⟨before, since ++ [x], m, by simp, hbefore, hm, howned.concat hsince hlast hown⟩
    · cases (hl.play hplay).change_of_turn hlast with
      | @entered u free =>
        obtain rfl : u = t := Option.some.inj hown
        exact ⟨turns, [], k, rfl, hplay, free, _, hlast, hown, trivial⟩
      | again own => exact absurd hown hk
      | freed own last => cases hown
      | lowered own more => exact absurd hown hk
      | ignored other => exact absurd hown hk

/-- Guards that are dropped in the order of their scopes leave a thread the holds it had. -/
theorem Scopes.foldl_holds (g : Scopes) (t : Thread) (n : Nat) :
    (g.turns t).foldl Turn.holds n = n := by
  induction g generalizing n with
  | none => rfl
  | guard inner after hinner hafter =>
    rw [turns, List.foldl_cons, List.foldl_append, hinner, List.foldl_cons, hafter]
    rfl

theorem Sound.holdsOf_scopes (hl : l.Sound) (h : l.play turns = some l') {g : Scopes}
    (hg : turns.filter (·.thread = t) = g.turns t) : l'.holdsOf t = l.holdsOf t := by
  rw [hl.holdsOf_play h, hg, g.foldl_holds]

/-! ## From the start -/

theorem sound_fresh (name : String) : (fresh name).Sound := by
  simp [Sound, fresh]

theorem balance_fresh {name : String} (h : (fresh name).play turns = some l) (t : Thread) :
    (fresh name).balance t turns = l.holdsOf t := by
  rw [(sound_fresh name).holdsOf_eq_balance h]
  simp [holdsOf, fresh]

end

/-- Whatever turns any threads take, the lock is free exactly when it has no holds. Who owns it has
come when it was free, has owned it since, and has as many holds as it has acquired and not given
back since then; all others have given back what they have acquired. Who does not own the lock cannot
change it by a release, and a release by the owner takes one of the holds there are. A thread can
enter when the lock is free or its own, and whatever the others do while a thread goes through scopes
of guards, it comes out with the holds it had. -/
theorem holds_are_balanced (name : String) (turns : List Turn) (l : Lock)
    (hplay : (fresh name).play turns = some l) :
    (l.owner = none ↔ l.holds = 0) ∧
      (∀ t, l.owner = some t → ∃ before since m, turns = before ++ .acquire t :: since ∧
        (fresh name).play before = some m ∧ m.owner = none ∧
        m.OwnedBy t (.acquire t :: since) ∧ (l.holds : Int) = m.balance t (.acquire t :: since)) ∧
      (∀ t, (fresh name).balance t turns = if l.owner = some t then (l.holds : Int) else 0) ∧
      (∀ t, l.owner ≠ some t → l.release t = l) ∧
      (∀ t, l.owner = some t → (l.release t).holds + 1 = l.holds) ∧
      (∀ t, (l.acquire? t).isSome ↔ l.owner = none ∨ l.owner = some t) ∧
      ∀ t g later l', l.play later = some l' → later.filter (·.thread = t) = Scopes.turns t g →
        (fresh name).balance t (turns ++ later) = (fresh name).balance t turns := by
  have hfresh := sound_fresh name
  have hl : l.Sound := hfresh.play hplay
  refine ⟨hl, ?_, ?_, fun t => release_of_owner_ne, fun t => hl.holds_release,
    fun t => isSome_acquire?, ?_⟩
  · intro t hown
    obtain ⟨before, since, m, rfl, hbefore, hfree, howned⟩ := exists_entry hfresh rfl hplay hown
    refine ⟨before, since, m, rfl, hbefore, hfree, howned, ?_⟩
    obtain ⟨m', hbefore', hsince⟩ := play_append.1 hplay
    obtain rfl : m = m' := Option.some.inj (hbefore.symm.trans hbefore')
    have hholds := (hfresh.play hbefore).holdsOf_eq_balance hsince t
    simpa [holdsOf, hown, hfree] using hholds
  · intro t
    rw [balance_fresh hplay, holdsOf]
    split <;> rfl
  · intro t g later l' hlater hscopes
    have hall : (fresh name).play (turns ++ later) = some l' := play_append.2 ⟨l, hplay, hlater⟩
    rw [balance_fresh hall, balance_fresh hplay, hl.holdsOf_scopes hlater hscopes]

/-- One thread owns the lock and gives it back once too often, another then holds it twice, and a
stray release comes while that one goes through two scopes, one inside the other. -/
theorem holds_are_balanced_worker :
    let turns : List Turn := [.acquire "main", .acquire "main", .release "worker", .release "main",
      .release "main", .release "main", .acquire "worker", .acquire "worker"]
    let later : List Turn := [.acquire "worker", .release "main", .acquire "worker",
      .release "worker", .release "worker"]
    let l : Lock := { name := "summary", owner := some "worker", holds := 2 }
    (fresh "summary").play turns = some l ∧ l.play later = some l ∧
      later.filter (·.thread = "worker") = Scopes.turns "worker" (.guard (.guard .none .none) .none) ∧
      (fresh "summary").balance "main" turns = 0 ∧
      (∃ before since m, turns = before ++ .acquire "worker" :: since ∧
        (fresh "summary").play before = some m ∧ m.owner = none ∧
        m.OwnedBy "worker" (.acquire "worker" :: since) ∧
        (l.holds : Int) = m.balance "worker" (.acquire "worker" :: since)) ∧
      l.release "main" = l ∧ (l.acquire? "main").isSome = false ∧
      (fresh "summary").balance "worker" (turns ++ later) =
        (fresh "summary").balance "worker" turns := by
  intro turns later l
  have hplay : (fresh "summary").play turns = some l := by decide
  have hlater : l.play later = some l := by decide
  have hscopes : later.filter (·.thread = "worker") =
      Scopes.turns "worker" (.guard (.guard .none .none) .none) := by decide
  obtain ⟨-, hentry, hbalance, hstray, -, henter, hguards⟩ :=
    holds_are_balanced "summary" turns l hplay
  refine ⟨hplay, hlater, hscopes, hbalance "main", hentry "worker" rfl, hstray "main" (by decide), ?_,
    hguards "worker" _ later l hlater hscopes⟩
  exact Bool.eq_false_iff.2 fun hserved => absurd ((henter "main").1 hserved) (by decide)

end LintDigest.Lock

/-! ## A queue in front of the lock -/

namespace LintDigest.LockQueue

open Lock

variable {q : LockQueue}

/-- The queue after a request: a turn for which the thread may have to wait. -/
def serve (q : LockQueue) : Turn → LockQueue
  | .acquire t => (q.acquire t).2
  | .release t => (q.release t).2

/-- The queue after some requests. -/
def serveAll (q : LockQueue) (requests : List Turn) : LockQueue :=
  requests.foldl serve q

/-- Nobody waits for a lock that is free. -/
def Busy (q : LockQueue) : Prop :=
  q.waiting ≠ [] → q.lock.owner ≠ none

/-- A request is no turn, one, or a release with which another thread enters. -/
theorem exists_turns_serve (q : LockQueue) (x : Turn) :
    ∃ turns, q.lock.play turns = some (q.serve x).lock := by
  cases x with
  | acquire t =>
    simp only [serve, acquire]
    split
    · next l hserved => exact ⟨[.acquire t], play_singleton.trans hserved⟩
    · exact ⟨[], rfl⟩
  | release t =>
    have hreleased : q.lock.play [.release t] = some (q.lock.release t) := play_singleton
    simp only [serve, release]
    split
    · exact ⟨_, hreleased⟩
    · next next rest _ =>
      split
      · next l hserved =>
        exact ⟨[.release t, .acquire next],
          play_cons.2 ⟨_, rfl, play_singleton.trans hserved⟩⟩
      · exact ⟨_, hreleased⟩

theorem busy_serve (q : LockQueue) (x : Turn) : (q.serve x).Busy := by
  cases x with
  | acquire t =>
    simp only [serve, acquire]
    split
    · next l hserved => exact fun _ => owner_of_acquire? hserved ▸ Option.some_ne_none t
    · next hrefused => exact fun _ => owner_of_refused hrefused
  | release t =>
    simp only [serve, release]
    split
    · next hnobody => exact fun hsome => absurd hnobody hsome
    · next next rest _ =>
      split
      · next l hserved => exact fun _ => owner_of_acquire? hserved ▸ Option.some_ne_none next
      · next hrefused => exact fun _ => owner_of_refused hrefused

theorem Busy.serveAll (h : q.Busy) (requests : List Turn) : (q.serveAll requests).Busy := by
  induction requests generalizing q with
  | nil => exact h
  | cons x requests ih => exact ih (q.busy_serve x)

theorem exists_turns (q : LockQueue) (requests : List Turn) :
    ∃ turns, q.lock.play turns = some (q.serveAll requests).lock := by
  induction requests generalizing q with
  | nil => exact ⟨[], rfl⟩
  | cons x requests ih =>
    obtain ⟨turns, hturns⟩ := q.exists_turns_serve x
    obtain ⟨later, hlater⟩ := ih (q.serve x)
    exact ⟨turns ++ later, play_append.2 ⟨_, hturns, hlater⟩⟩

/-- Whatever is requested of a new queue, in whatever order, its lock has only seen turns, and is
owned as long as a thread waits for it. -/
theorem turns_of_requests (name : String) (requests : List Turn) :
    let q := serveAll { lock := .fresh name } requests
    (∃ turns, (Lock.fresh name).play turns = some q.lock) ∧
      (q.waiting ≠ [] → q.lock.owner ≠ none) :=
  ⟨exists_turns { lock := .fresh name } requests, Busy.serveAll (absurd rfl) requests⟩

end LintDigest.LockQueue
