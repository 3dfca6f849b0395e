import Mathlib.Logic.Function.Basic
import LintDigest.Proofs.Lock.Turns

/-!
# Waiting for the lock

The owner of the lock and its holds are kept behind a mutex, and threads that find another owner
sleep until they are woken. To fall asleep and to drop the mutex is one step. A release that frees the
lock drops the mutex first and notifies afterwards, and in between, or before a woken thread has the
mutex again, another thread may come and take the lock. Sleepers may also wake unasked.

`Orderly` is what every step keeps. It says that one thread at a time has the mutex, and that a free
lock on which a thread sleeps has somebody who will notify or has been woken (`Minds`). The mutex
makes the steps turns of the lock (`exists_turns`), so what is known of turns holds here.
-/

namespace LintDigest

/-- Where a thread stands in its use of the lock. -/
inductive Stage
  | away
  /-- It wants the lock and has not got the mutex. -/
  | arriving
  /-- It has the mutex and is about to look at the owner. -/
  | looking
  /-- It has the mutex and has seen another owner. -/
  | refused
  /-- It waits without the mutex, asleep or woken. -/
  | waiting
  /-- It has been woken, has the mutex again, and is about to look at the owner again. -/
  | lookingAgain
  /-- It wants to release and has not got the mutex. -/
  | leaving
  /-- It has the mutex and is about to release. -/
  | returning
  /-- It has the mutex and has freed the lock. -/
  | cleared
  /-- It has freed the lock, dropped the mutex, and is about to notify. -/
  | notifying
  /-- It has the mutex and is done. -/
  | served
  deriving DecidableEq

/-- Whether a thread has the mutex. -/
def Stage.inside : Stage → Bool
  | looking | refused | lookingAgain | returning | cleared | served => true
  | away | arriving | waiting | leaving | notifying => false

/-- A lock, the mutex that guards it, and the threads that use it. -/
structure Monitor where
  lock : Lock
  mutex : Option Thread := none
  asleep : List Thread := []
  stage : Thread → Stage := fun _ => .away

/-- What can happen next. -/
inductive Beat
  /-- A thread starts to acquire the lock. -/
  | acquire (t : Thread)
  /-- A thread starts to release the lock, whether it owns it or not. -/
  | release (t : Thread)
  /-- A thread goes on. -/
  | proceed (t : Thread)
  /-- A thread notifies, and some threads wake, at least one if any is asleep. -/
  | notify (t : Thread) (woken : List Thread)
  /-- A thread wakes unasked. -/
  | rouse (t : Thread)

/-- A thread that uses the lock already goes on or notifies. -/
def Beat.Own : Beat → Prop
  | proceed _ | notify _ _ => True
  | acquire _ | release _ | rouse _ => False

namespace Monitor

/-- A lock that nobody has used. -/
def fresh (name : String) : Monitor :=
  { lock := .fresh name }

/-- A thread comes to another stage. -/
def moved (m : Monitor) (t : Thread) (s : Stage) : Monitor :=
  { m with stage := Function.update m.stage t s }

/-- A thread takes the mutex, if it can. -/
def seize (m : Monitor) (t : Thread) (s : Stage) : Option Monitor :=
  if m.mutex = none then some { m.moved t s with mutex := some t } else none

/-- A thread drops the mutex. -/
def quit (m : Monitor) (t : Thread) (s : Stage) : Monitor :=
  { m.moved t s with mutex := none }

/-- A thread looks at the owner, and takes the lock if it can. -/
def look (m : Monitor) (t : Thread) : Monitor :=
  match m.lock.acquire? t with
  | some l => { m.moved t .served with lock := l }
  | none => m.moved t .refused

/-- A thread drops the mutex and falls asleep. -/
def fallAsleep (m : Monitor) (t : Thread) : Monitor :=
  { m.quit t .waiting with asleep := m.asleep ++ [t] }

/-- A thread gives up one hold, if it has any. -/
def giveBack (m : Monitor) (t : Thread) : Monitor :=
  let l := m.lock.release t
  let s : Stage := if m.lock.owner = some t ∧ l.owner = none then .cleared else .served
  { m.moved t s with lock := l }

/-- Some threads wake. -/
def wake (m : Monitor) (woken : List Thread) : Monitor :=
  { m with asleep := m.asleep.filter (· ∉ woken) }

/-- The next step of a thread; nothing when it sleeps, has to wait for the mutex, or notifies. -/
def proceed (m : Monitor) (t : Thread) : Option Monitor :=
  match m.stage t with
  | .away | .notifying => none
  | .arriving => m.seize t .looking
  | .looking | .lookingAgain => some (m.look t)
  | .refused => some (m.fallAsleep t)
  | .waiting => if t ∈ m.asleep then none else m.seize t .lookingAgain
  | .leaving => m.seize t .returning
  | .returning => some (m.giveBack t)
  | .cleared => some (m.quit t .notifying)
  | .served => some (m.quit t .away)

/-- The monitor after a beat; nothing when it cannot happen. -/
def beat (m : Monitor) : Beat → Option Monitor
  | .acquire t => if m.stage t = .away then some (m.moved t .arriving) else none
  | .release t => if m.stage t = .away then some (m.moved t .leaving) else none
  | .proceed t => m.proceed t
  | .notify t woken =>
    if m.stage t = .notifying ∧ (∀ u ∈ woken, u ∈ m.asleep) ∧ (woken = [] → m.asleep = []) then
      some ((m.wake woken).moved t .away)
    else none
  | .rouse t => if t ∈ m.asleep then some (m.wake [t]) else none

/-- The monitor after some beats. -/
def play (m : Monitor) (beats : List Beat) : Option Monitor :=
  beats.foldlM beat m

/-- The thread has freed the lock and is still to notify. -/
def Notifies (m : Monitor) (t : Thread) : Prop :=
  m.stage t = .cleared ∨ m.stage t = .notifying

/-- The thread has been woken and is still to look at the owner again. -/
def Woken (m : Monitor) (t : Thread) : Prop :=
  m.stage t = .waiting ∧ t ∉ m.asleep ∨ m.stage t = .lookingAgain

/-- The thread keeps those who sleep from being forgotten. -/
def Minds (m : Monitor) (t : Thread) : Prop :=
  m.Notifies t ∨ m.Woken t

/-- What every beat keeps. -/
structure Orderly (m : Monitor) : Prop where
  mutex : ∀ t, (m.stage t).inside = true ↔ m.mutex = some t
  asleep : ∀ t ∈ m.asleep, m.stage t = .waiting
  refused : ∀ t, m.stage t = .refused → m.lock.owner ≠ none
  minded : m.lock.owner = none → m.asleep ≠ [] → ∃ t, m.Minds t

section

variable {m m' : Monitor} {t u : Thread} {s : Stage}

/-! ## One beat -/

@[simp] theorem mutex_moved (m : Monitor) (t : Thread) (s : Stage) :
    (m.moved t s).mutex = m.mutex := rfl

@[simp] theorem asleep_moved (m : Monitor) (t : Thread) (s : Stage) :
    (m.moved t s).asleep = m.asleep := rfl

@[simp] theorem mutex_quit (m : Monitor) (t : Thread) (s : Stage) :
    (m.quit t s).mutex = none := rfl

@[simp] theorem mutex_wake (m : Monitor) (woken : List Thread) :
    (m.wake woken).mutex = m.mutex := rfl

@[simp] theorem asleep_wake (m : Monitor) (woken : List Thread) :
    (m.wake woken).asleep = m.asleep.filter (· ∉ woken) := rfl

theorem stage_moved (m : Monitor) (t u : Thread) (s : Stage) :
    (m.moved t s).stage u = if u = t then s else m.stage u :=
  Function.update_apply ..

/-- Who minds does so until it moves. -/
theorem Minds.congr (h : m.Minds u) (hstage : m'.stage u = m.stage u)
    (hasleep : u ∈ m'.asleep → u ∈ m.asleep) : m'.Minds u := by
  rcases h with h | ⟨hwaiting, hawake⟩ | h
  · exact .inl (by rwa [Notifies, hstage])
  · exact .inr (.inl ⟨hstage.trans hwaiting, fun hu => hawake (hasleep hu)⟩)
  · exact .inr (.inr (hstage.trans h))

/-- At most one thread has the mutex, however `t` has come by it or lost it. -/
theorem Orderly.inside_moved (h : m.Orderly) {mutex : Option Thread}
    (hself : s.inside = true ↔ mutex = some t)
    (hothers : ∀ u, u ≠ t → (mutex = some u ↔ m.mutex = some u)) (u : Thread) :
    ((m.moved t s).stage u).inside = true ↔ mutex = some u := by
  rw [stage_moved]
  split
  · next hu => rwa [hu]
  · next hu => rw [h.mutex, hothers u hu]

theorem Orderly.waiting_moved (h : m.Orderly) (hawake : t ∉ m.asleep) (hu : u ∈ m.asleep) :
    (m.moved t s).stage u = .waiting := by
  have hne : u ≠ t := fun e => hawake (e ▸ hu)
  rw [stage_moved, if_neg hne, h.asleep u hu]

theorem Orderly.awake (h : m.Orderly) (hstage : m.stage t ≠ .waiting) : t ∉ m.asleep :=
  fun ht => hstage (h.asleep t ht)

/-- A thread comes to another stage, and the lock and the sleepers stay as they are. -/
theorem Orderly.moved (h : m.Orderly) {mutex : Option Thread}
    (hself : s.inside = true ↔ mutex = some t)
    (hothers : ∀ u, u ≠ t → (mutex = some u ↔ m.mutex = some u)) (hawake : t ∉ m.asleep)
    (hs : s ≠ .refused)
    (hminds : m.Minds t → m.asleep ≠ [] → ∃ u, { m.moved t s with mutex }.Minds u) :
    { m.moved t s with mutex }.Orderly where
  mutex := h.inside_moved hself hothers
  asleep u hu := h.waiting_moved hawake hu
  refused u hu := by
    change (m.moved t s).stage u = _ at hu
    rw [stage_moved] at hu
    split at hu
    · exact absurd hu hs
    · exact h.refused u hu
  minded hfree hsome := by
    obtain ⟨u, hu⟩ := h.minded hfree hsome
    by_cases hut : u = t
    · exact hminds (hut ▸ hu) hsome
    · exact ⟨u, hu.congr ((stage_moved m t u s).trans (if_neg hut)) id⟩

/-- While the lock has an owner nobody has to mind those who sleep. -/
theorem Orderly.owned (h : m.Orderly) {l : Lock} {mutex : Option Thread} {asleep : List Thread}
    (howned : l.owner ≠ none) (hself : s.inside = true ↔ mutex = some t)
    (hothers : ∀ u, u ≠ t → (mutex = some u ↔ m.mutex = some u))
    (hasleep : ∀ u ∈ asleep, (m.moved t s).stage u = .waiting) :
    { m.moved t s with lock := l, mutex, asleep }.Orderly where
  mutex := h.inside_moved hself hothers
  asleep := hasleep
  refused _ _ := howned
  minded hfree := absurd hfree howned

/-- A thread that does not have the mutex comes to a stage without it. -/
theorem Orderly.call (h : m.Orderly) (haway : m.stage t = .away) (hs : s.inside = false) :
    (m.moved t s).Orderly := by
  have houtside : m.mutex ≠ some t := fun e => by
    simpa [haway, Stage.inside] using (h.mutex t).2 e
  refine h.moved (by simp [hs, houtside]) (fun _ _ => Iff.rfl) (h.awake (by simp [haway])) ?_ ?_
  · rintro rfl
    cases hs
  · intro hminds
    simp [Minds, Notifies, Woken, haway] at hminds

theorem Orderly.seize (h : m.Orderly) (hseize : m.seize t s = some m') (hs : s.inside = true)
    (hne : s ≠ .refused) (hawake : t ∉ m.asleep) (hminds : m.Minds t → s = .lookingAgain) :
    m'.Orderly := by
  unfold Monitor.seize at hseize
  split at hseize
  · next hfree =>
    cases hseize
    refine h.moved (by simp [hs]) ?_ hawake hne ?_
    · intro u hu
      simp [hfree, Ne.symm hu]
    · intro ht _
      exact ⟨t, .inr (.inr ((stage_moved m t t s).trans (by simp [hminds ht])))⟩
  · cases hseize

theorem Orderly.quit (h : m.Orderly) (hinside : (m.stage t).inside = true) (hs : s.inside = false)
    (hminds : m.Minds t → s = .notifying) : (m.quit t s).Orderly := by
  have hmutex : m.mutex = some t := (h.mutex t).1 hinside
  have hawake : t ∉ m.asleep := h.awake fun e => by simp [e, Stage.inside] at hinside
  refine h.moved (by simp [hs]) ?_ hawake ?_ ?_
  · intro u hu
    simp [hmutex, Ne.symm hu]
  · rintro rfl
    cases hs
  · intro ht _
    exact ⟨t, .inl (.inr ((stage_moved m t t s).trans (by simp [hminds ht])))⟩

/-- Whoever looks at the owner leaves the lock with one. -/
theorem Orderly.look (h : m.Orderly) (hinside : (m.stage t).inside = true) :
    (m.look t).Orderly := by
  have hmutex : m.mutex = some t := (h.mutex t).1 hinside
  have hawake : t ∉ m.asleep := h.awake fun e => by simp [e, Stage.inside] at hinside
  unfold Monitor.look
  split
  · next l hserved =>
    have howned : l.owner ≠ none := Lock.owner_of_acquire? hserved ▸ Option.some_ne_none t
    exact h.owned howned (by simp [hmutex, Stage.inside]) (fun _ _ => Iff.rfl)
      fun u => h.waiting_moved hawake
  · next hrefused =>
    have howned : m.lock.owner ≠ none := Lock.owner_of_refused hrefused
    exact h.owned howned (by simp [hmutex, Stage.inside]) (fun _ _ => Iff.rfl)
      fun u => h.waiting_moved hawake

/-- Nobody falls asleep on a free lock: between the look and the sleep no other thread gets the
mutex. -/
theorem Orderly.fallAsleep (h : m.Orderly) (hrefused : m.stage t = .refused) :
    (m.fallAsleep t).Orderly := by
  have hmutex : m.mutex = some t := (h.mutex t).1 (by simp [hrefused, Stage.inside])
  refine h.owned (h.refused t hrefused) (by simp [Stage.inside]) ?_ ?_
  · intro u hu
    simp [hmutex, Ne.symm hu]
  · intro u hu
    rcases List.mem_append.1 hu with hu | hu
    · exact h.waiting_moved (h.awake (by simp [hrefused])) hu
    · rw [List.mem_singleton.1 hu]
      exact (stage_moved m t t .waiting).trans (if_pos rfl)

/-- Whoever frees the lock minds those who sleep. -/
theorem Orderly.giveBack (h : m.Orderly) (hreturning : m.stage t = .returning) :
    (m.giveBack t).Orderly := by
  have hmutex : m.mutex = some t := (h.mutex t).1 (by simp [hreturning, Stage.inside])
  have hawake : t ∉ m.asleep := h.awake (by simp [hreturning])
  unfold Monitor.giveBack
  refine ⟨h.inside_moved ?_ fun _ _ => Iff.rfl, fun u hu => h.waiting_moved hawake hu, ?_, ?_⟩
  · split <;> simp [hmutex, Stage.inside]
  · intro u hu
    change (m.moved t _).stage u = _ at hu
    rw [stage_moved] at hu
    split at hu
    · split at hu <;> cases hu
    · next hne =>
      -- Only the thread with the mutex can have been refused, and that is `t`.
      have hother : m.mutex = some u := (h.mutex u).1 (by simp [hu, Stage.inside])
      rw [hmutex] at hother
      exact absurd (Option.some.inj hother).symm hne
  · intro hfree hsome
    by_cases hown : m.lock.owner = some t
    · refine ⟨t, .inl (.inl ((stage_moved m t t _).trans ?_))⟩
      rw [if_pos rfl, if_pos ⟨hown, hfree⟩]
    · rw [Lock.release_of_owner_ne hown] at hfree
      obtain ⟨u, hu⟩ := h.minded hfree hsome
      have hne : u ≠ t := by
        rintro rfl
        simp [Minds, Notifies, Woken, hreturning] at hu
      exact ⟨u, hu.congr ((stage_moved m t u _).trans (if_neg hne)) id⟩

theorem Orderly.wake (h : m.Orderly) (woken : List Thread) : (m.wake woken).Orderly where
  mutex := h.mutex
  asleep u hu := h.asleep u (List.mem_filter.1 hu).1
  refused := h.refused
  minded hfree hsome := by
    have hbefore : m.asleep ≠ [] := by
      intro hnil
      simp [Monitor.wake, hnil] at hsome
    obtain ⟨u, hu⟩ := h.minded hfree hbefore
    exact ⟨u, hu.congr rfl fun hleft => (List.mem_filter.1 hleft).1⟩

/-- Whoever notifies leaves it to the woken to mind the others. -/
theorem Orderly.notify (h : m.Orderly) {woken : List Thread} (hstage : m.stage t = .notifying)
    (hwoken : ∀ u ∈ woken, u ∈ m.asleep) (hsome : woken = [] → m.asleep = []) :
    ((m.wake woken).moved t .away).Orderly := by
  have hwake := h.wake woken
  have houtside : m.mutex ≠ some t := fun e => by
    simpa [hstage, Stage.inside] using (h.mutex t).2 e
  refine hwake.moved (by simpa [Stage.inside] using houtside) (fun _ _ => Iff.rfl)
    (hwake.awake (by simp [Monitor.wake, hstage])) (by simp) ?_
  intro _ hleft
  obtain ⟨u, hu⟩ : ∃ u, u ∈ woken := by
    apply List.exists_mem_of_ne_nil
    intro hnil
    simp [Monitor.wake, hsome hnil] at hleft
  have hwaiting : m.stage u = .waiting := h.asleep u (hwoken u hu)
  have hne : u ≠ t := by
    rintro rfl
    simp [hstage] at hwaiting
  refine ⟨u, .inr (.inl ⟨?_, ?_⟩)⟩
  · exact (stage_moved _ t u _).trans (by rwa [if_neg hne])
  · simp [Monitor.wake, Monitor.moved, hu]

theorem Orderly.proceed (h : m.Orderly) (hproceed : m.proceed t = some m') : m'.Orderly := by
  unfold Monitor.proceed at hproceed
  cases hstage : m.stage t with
  | away | notifying =>
    rw [hstage] at hproceed
    cases hproceed
  | arriving | leaving =>
    rw [hstage] at hproceed
    refine h.seize hproceed rfl (by simp) (h.awake (by simp [hstage])) ?_
    simp [Minds, Notifies, Woken, hstage]
  | looking | lookingAgain =>
    rw [hstage] at hproceed
    cases hproceed
    exact h.look (by simp [hstage, Stage.inside])
  | refused =>
    rw [hstage] at hproceed
    cases hproceed
    exact h.fallAsleep hstage
  | waiting =>
    simp only [hstage] at hproceed
    split at hproceed
    · cases hproceed
    · next hawake => exact h.seize hproceed rfl (by simp) hawake fun _ => rfl
  | returning =>
    rw [hstage] at hproceed
    cases hproceed
    exact h.giveBack hstage
  | cleared =>
    rw [hstage] at hproceed
    cases hproceed
    exact h.quit (by simp [hstage, Stage.inside]) rfl fun _ => rfl
  | served =>
    rw [hstage] at hproceed
    cases hproceed
    refine h.quit (by simp [hstage, Stage.inside]) rfl ?_
    simp [Minds, Notifies, Woken, hstage]

theorem Orderly.beat {b : Beat} (h : m.Orderly) (hbeat : m.beat b = some m') : m'.Orderly := by
  cases b with
  | acquire t =>
    obtain ⟨haway, hnext⟩ := Option.ite_none_right_eq_some.1 hbeat
    cases hnext
    exact h.call haway rfl
  | release t =>
    obtain ⟨haway, hnext⟩ := Option.ite_none_right_eq_some.1 hbeat
    cases hnext
    exact h.call haway rfl
  | proceed t => exact h.proceed hbeat
  | notify t woken =>
    obtain ⟨⟨hstage, hwoken, hsome⟩, hnext⟩ := Option.ite_none_right_eq_some.1 hbeat
    cases hnext
    exact h.notify hstage hwoken hsome
  | rouse t =>
    obtain ⟨-, hnext⟩ := Option.ite_none_right_eq_some.1 hbeat
    cases hnext
    exact h.wake [t]

/-! ## Many beats -/

theorem play_cons {b : Beat} {beats : List Beat} :
    m.play (b :: beats) = some m' ↔ ∃ next, m.beat b = some next ∧ next.play beats = some m' := by
  rw [Monitor.play, List.foldlM_cons]
  exact Option.bind_eq_some_iff

theorem orderly_fresh (name : String) : (fresh name).Orderly := by
  constructor <;> simp [fresh, Stage.inside]

theorem Orderly.play {beats : List Beat} (h : m.Orderly) (hplay : m.play beats = some m') :
    m'.Orderly := by
  induction beats generalizing m with
  | nil =>
    cases hplay
    exact h
  | cons b beats ih =>
    obtain ⟨next, hbeat, hplay⟩ := play_cons.1 hplay
    exact ih (h.beat hbeat) hplay

/-! ## The turns of the lock -/

theorem lock_seize (h : m.seize t s = some m') : m'.lock = m.lock := by
  obtain ⟨-, hnext⟩ := Option.ite_none_right_eq_some.1 h
  cases hnext
  rfl

/-- With the mutex a thread takes at most one turn at a time. -/
theorem lock_proceed (h : m.proceed t = some m') :
    m'.lock = m.lock ∨ m.lock.turn (.acquire t) = some m'.lock ∨
      m.lock.turn (.release t) = some m'.lock := by
  unfold Monitor.proceed at h
  cases hstage : m.stage t with
  | away | notifying =>
    rw [hstage] at h
    cases h
  | arriving | leaving =>
    rw [hstage] at h
    exact .inl (lock_seize h)
  | looking | lookingAgain =>
    rw [hstage] at h
    cases h
    unfold look
    split
    · next l hserved => exact .inr (.inl hserved)
    · exact .inl rfl
  | refused | cleared | served =>
    rw [hstage] at h
    cases h
    exact .inl rfl
  | waiting =>
    simp only [hstage] at h
    split at h
    · cases h
    · exact .inl (lock_seize h)
  | returning =>
    rw [hstage] at h
    cases h
    exact .inr (.inr rfl)

theorem exists_turns_beat {b : Beat} (h : m.beat b = some m') :
    ∃ turns, m.lock.play turns = some m'.lock := by
  cases b with
  | proceed t =>
    rcases lock_proceed h with hkept | hturn | hturn
    · exact ⟨[], congrArg some hkept.symm⟩
    · exact ⟨_, Lock.play_singleton.trans hturn⟩
    · exact ⟨_, Lock.play_singleton.trans hturn⟩
  | _ =>
    obtain ⟨-, hnext⟩ := Option.ite_none_right_eq_some.1 h
    cases hnext
    exact ⟨[], rfl⟩

/-- Beat by beat the lock comes only where turns lead to. -/
theorem exists_turns {beats : List Beat} (h : m.play beats = some m') :
    ∃ turns, m.lock.play turns = some m'.lock := by
  induction beats generalizing m with
  | nil =>
    cases h
    exact ⟨[], rfl⟩
  | cons b beats ih =>
    obtain ⟨next, hbeat, hplay⟩ := play_cons.1 h
    obtain ⟨turns, hturns⟩ := exists_turns_beat hbeat
    obtain ⟨later, hlater⟩ := ih hplay
    exact ⟨turns ++ later, Lock.play_append.2 ⟨_, hturns, hlater⟩⟩

/-- However the threads come to it, the lock is free exactly when it has no holds. -/
theorem sound_lock {name : String} {beats : List Beat} (h : (fresh name).play beats = some m) :
    m.lock.Sound := by
  obtain ⟨turns, hturns⟩ := exists_turns h
  exact (Lock.sound_fresh name).play hturns

/-! ## Getting on -/

/-- Threads that are there can go on, with no one coming and no one waking unasked, until one has the
lock. -/
def CanBeTaken (m : Monitor) : Prop :=
  ∃ beats m', (∀ b ∈ beats, b.Own) ∧ m.play beats = some m' ∧ m'.lock.owner ≠ none

theorem CanBeTaken.now (h : m.lock.owner ≠ none) : m.CanBeTaken :=
  ⟨[], m, nofun, rfl, h⟩

theorem CanBeTaken.after {b : Beat} (h : m'.CanBeTaken) (hbeat : m.beat b = some m') (hb : b.Own) :
    m.CanBeTaken := by
  obtain ⟨beats, last, hown, hplay, htaken⟩ := h
  exact ⟨b :: beats, last, List.forall_mem_cons.2 ⟨hb, hown⟩, play_cons.2 ⟨m', hbeat, hplay⟩, htaken⟩

/-- Whoever looks at the owner of a free lock takes it. -/
theorem canBeTaken_of_look (hfree : m.lock.owner = none)
    (hstage : m.stage t = .looking ∨ m.stage t = .lookingAgain) : m.CanBeTaken := by
  obtain ⟨l, hserved⟩ := Option.isSome_iff_exists.1
    (Lock.isSome_acquire?.2 (.inl hfree : _ ∨ m.lock.owner = some t))
  have hlook : m.beat (.proceed t) = some (m.look t) := by
    rcases hstage with hstage | hstage <;> simp [Monitor.beat, Monitor.proceed, hstage]
  have htaken : (m.look t).lock.owner ≠ none := by
    simp only [Monitor.look, hserved]
    exact Lock.owner_of_acquire? hserved ▸ Option.some_ne_none t
  exact (CanBeTaken.now htaken).after hlook trivial

/-- A thread that has been woken takes a free lock as soon as it has the mutex. -/
theorem canBeTaken_of_woken (hfree : m.lock.owner = none) (hmutex : m.mutex = none)
    (hwaiting : m.stage t = .waiting) (hawake : t ∉ m.asleep) : m.CanBeTaken := by
  have hseize : m.beat (.proceed t) = some { m.moved t .lookingAgain with mutex := some t } := by
    simp [Monitor.beat, Monitor.proceed, hwaiting, hawake, Monitor.seize, hmutex]
  have hagain : (m.moved t .lookingAgain).stage t = .lookingAgain :=
    (stage_moved m t t _).trans (if_pos rfl)
  have htaken : { m.moved t .lookingAgain with mutex := some t }.CanBeTaken :=
    canBeTaken_of_look hfree (.inr hagain)
  exact htaken.after hseize trivial

theorem Orderly.canBeTaken_of_notifying (h : m.Orderly) (hfree : m.lock.owner = none)
    (hsome : m.asleep ≠ []) (hmutex : m.mutex = none) (hu : m.stage u = .notifying) :
    m.CanBeTaken := by
  obtain ⟨t, ht⟩ := List.exists_mem_of_ne_nil _ hsome
  have hwaiting := h.asleep t ht
  have hne : t ≠ u := by
    rintro rfl
    simp [hu] at hwaiting
  have hnotify : m.beat (.notify u [t]) = some ((m.wake [t]).moved u .away) := by
    simp [Monitor.beat, hu, ht]
  have hwaits : ((m.wake [t]).moved u .away).stage t = .waiting :=
    (stage_moved _ u t _).trans (by rwa [if_neg hne])
  have htaken : ((m.wake [t]).moved u .away).CanBeTaken :=
    canBeTaken_of_woken hfree hmutex hwaits (by simp)
  exact htaken.after hnotify trivial

theorem Orderly.canBeTaken_of_mutex (h : m.Orderly) (hfree : m.lock.owner = none)
    (hsome : m.asleep ≠ []) (hmutex : m.mutex = none) : m.CanBeTaken := by
  have houtside : ∀ u, (m.stage u).inside = false := by
    intro u
    simpa [hmutex] using h.mutex u
  obtain ⟨u, (hu | hu) | ⟨hwaiting, hawake⟩ | hu⟩ := h.minded hfree hsome
  · simpa [hu, Stage.inside] using houtside u
  · exact h.canBeTaken_of_notifying hfree hsome hmutex hu
  · exact canBeTaken_of_woken hfree hmutex hwaiting hawake
  · simpa [hu, Stage.inside] using houtside u

/-- Whoever has the mutex drops it or takes the lock. -/
theorem Orderly.canBeTaken_of_quit (h : m.Orderly) (hfree : m.lock.owner = none)
    (hsome : m.asleep ≠ []) (hquit : m.proceed t = some (m.quit t s)) : m.CanBeTaken :=
  ((h.proceed hquit).canBeTaken_of_mutex hfree hsome rfl).after (b := .proceed t) hquit trivial

theorem Orderly.canBeTaken (h : m.Orderly) (hfree : m.lock.owner = none) (hsome : m.asleep ≠ []) :
    m.CanBeTaken := by
  cases hmutex : m.mutex with
  | none => exact h.canBeTaken_of_mutex hfree hsome hmutex
  | some v =>
    have hinside := (h.mutex v).2 hmutex
    cases hstage : m.stage v with
    | looking => exact canBeTaken_of_look hfree (.inl hstage)
    | lookingAgain => exact canBeTaken_of_look hfree (.inr hstage)
    | refused => exact absurd hfree (h.refused v hstage)
    | cleared =>
      have hquit : m.proceed v = some (m.quit v .notifying) := by
        simp [Monitor.proceed, hstage]
      exact h.canBeTaken_of_quit hfree hsome hquit
    | served =>
      have hquit : m.proceed v = some (m.quit v .away) := by
        simp [Monitor.proceed, hstage]
      exact h.canBeTaken_of_quit hfree hsome hquit
    | returning =>
      -- Nobody owns the lock, so that the release changes nothing.
      have hreturn : m.beat (.proceed v) = some (m.giveBack v) := by
        simp [Monitor.beat, Monitor.proceed, hstage]
      have hquit : (m.giveBack v).proceed v = some ((m.giveBack v).quit v .away) := by
        simp [Monitor.proceed, Monitor.giveBack, stage_moved, hfree]
      have hkept : (m.giveBack v).lock = m.lock := Lock.release_of_owner_ne (by simp [hfree])
      have hfree' : (m.giveBack v).lock.owner = none := hkept ▸ hfree
      exact ((h.beat hreturn).canBeTaken_of_quit hfree' hsome hquit).after hreturn trivial
    | away | arriving | waiting | leaving | notifying => simp [hstage, Stage.inside] at hinside

end

/-- A thread never sleeps on a free lock with nobody left to wake it: somebody has freed the lock and
is still to notify, or somebody has been woken and is still to look at the owner again. So the threads
that are there can always go on until one of them has the lock. -/
theorem sleepers_are_minded (name : String) (beats : List Beat) (m : Monitor) (t : Thread)
    (hplay : (fresh name).play beats = some m) (hfree : m.lock.owner = none)
    (hasleep : t ∈ m.asleep) : ((∃ u, m.Notifies u) ∨ ∃ u, m.Woken u) ∧ m.CanBeTaken := by
  have h := (orderly_fresh name).play hplay
  have hsome := List.ne_nil_of_mem hasleep
  obtain ⟨u, hu⟩ := h.minded hfree hsome
  exact ⟨hu.imp (fun hu => ⟨u, hu⟩) fun hu => ⟨u, hu⟩, h.canBeTaken hfree hsome⟩

/-- Of two sleepers one is woken, finds that a thread has come before it, and sleeps again; then that
thread frees the lock. -/
def overtaken : List Beat :=
  [.acquire "main", .proceed "main", .proceed "main", .proceed "main",
    .acquire "first", .proceed "first", .proceed "first", .proceed "first",
    .acquire "second", .proceed "second", .proceed "second", .proceed "second",
    .release "main", .proceed "main", .proceed "main", .proceed "main",
    .acquire "third", .notify "main" ["first"],
    .proceed "third", .proceed "third", .proceed "third",
    .proceed "first", .proceed "first", .proceed "first",
    .release "third", .proceed "third", .proceed "third"]

theorem sleepers_are_minded_overtaken :
    ∃ m, (fresh "summary").play overtaken = some m ∧ m.lock.owner = none ∧
      m.asleep = ["second", "first"] ∧
      ((∃ u, m.Notifies u) ∨ ∃ u, m.Woken u) ∧ m.CanBeTaken :=
  ⟨_, rfl, rfl, rfl,
    sleepers_are_minded "summary" overtaken _ "second" rfl rfl (List.mem_cons_self ..)⟩

end Monitor

end LintDigest
