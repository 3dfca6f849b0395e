import LintDigest.Proofs.Script.Run
import LintDigest.Session

/-!
# Critical sections

A script that holds the lock `n` times and is `Guarded n` gives every hold back before it ends, and
asks for nothing once it has none left. Whatever `locked` is wrapped around stays inside the critical
section, however often it takes the lock again: `guarded_updateSummaries` says so of the update of
both summaries.
-/

namespace LintDigest

/-- How many holds a thread with `n` of them has after a request. -/
def Request.holds (n : Nat) : Request → Nat
  | acquire => n + 1
  | release => n - 1
  | _ => n

namespace Script

open Storage

variable {α β : Type}

/-- With `n` holds, the script asks only while it holds the lock, and ends when it does not. -/
def Guarded : Nat → Script α → Prop
  | n, done _ => n = 0
  | n, ask r next => 0 < n ∧ ∀ answer, (next answer).Guarded (r.holds n)

theorem Guarded.eq_done {s : Script Unit} (h : s.Guarded 0) : s = done () := by
  cases s with
  | done a => rfl
  | ask r next => exact absurd h.1 (Nat.lt_irrefl 0)

/-- The script gives back every hold that it takes, and no other. -/
def Level (s : Script α) : Prop :=
  ∀ (n : Nat) (f : α → Script Unit), (∀ a, (f a).Guarded (n + 1)) → (s >>= f).Guarded (n + 1)

theorem level_done (a : α) : (done a).Level :=
  fun _ _ hf => hf a

theorem Level.bind {s : Script α} (hs : s.Level) {f : α → Script β} (hf : ∀ a, (f a).Level) :
    (s >>= f).Level := by
  intro n g hg
  rw [bind_assoc]
  apply hs n
  intro a
  exact hf a n g hg

theorem level_request {r : Request} (hr : ∀ n, r.holds n = n) : (request r).Level := by
  intro n f hf
  refine ⟨Nat.succ_pos n, fun answer => ?_⟩
  rw [hr]
  exact hf answer

theorem Level.locked {s : Script α} (hs : s.Level) : (locked s).Level := by
  intro n f hf
  refine ⟨Nat.succ_pos n, fun _ => ?_⟩
  -- Behind the request for the lock stand `s`, the release and what follows.
  change ((s >>= fun a => request .release >>= fun _ => done a) >>= f).Guarded (n + 1 + 1)
  rw [bind_assoc]
  apply hs (n + 1)
  intro a
  exact ⟨Nat.succ_pos _, fun _ => hf a⟩

/-- The outermost hold is given back with the last request. -/
theorem guarded_locked {s : Script Unit} (hs : s.Level) :
    ∃ next, locked s = ask .acquire next ∧ (next ()).Guarded 1 := by
  refine ⟨_, rfl, ?_⟩
  apply hs 0
  intro a
  exact ⟨Nat.zero_lt_one, fun _ => rfl⟩

theorem level_log (level : Log.Level) (target message : String) :
    (log level target message).Level :=
  level_request fun _ => rfl

theorem level_isPresent (p : Path) : (isPresent p).Level := by
  apply (level_request fun _ => rfl).bind
  intro kind
  exact level_done _

theorem level_absolute (p : Path) : (absolute p).Level := by
  unfold absolute
  split
  · exact level_done _
  · apply (level_request fun _ => rfl).bind
    intro cwd
    exact level_done _

theorem level_replaceFile (p : Path) (text : String) : (replaceFile p text).Level := by
  have hfail : ∀ (q : Path) (e : Error), (do
      let _ ← request (.remove q)
      return .error e : Script (Except Error Unit)).Level :=
    fun q e => (level_request fun _ => rfl).bind fun _ => level_done _
  apply (level_request fun _ => rfl).bind
  intro made
  cases made with
  | error fault => exact level_done _
  | ok _ =>
    apply (level_request fun _ => rfl).bind
    intro scratch
    cases scratch with
    | error fault => exact level_done _
    | ok scratch =>
      apply (level_request fun _ => rfl).bind
      intro filled
      cases filled with
      | error fault => exact hfail _ _
      | ok _ =>
        apply (level_request fun _ => rfl).bind
        intro renamed
        cases renamed with
        | error fault => exact hfail _ _
        | ok _ => exact level_done _

theorem level_readText (p : Path) : (readText p).Level := by
  apply (level_request fun _ => rfl).bind
  intro found
  cases found <;> exact level_done _

theorem level_loadDocument (p : Path) : (loadDocument p).Level := by
  apply (level_readText p).bind
  intro found
  cases found <;> exact level_done _

end Script

open Script Storage

theorem BundleSummary.level_append (b : BundleSummary) (report : Path) (d : Document) :
    (b.append report d).Level := by
  have hcontent : b.content.Level := by
    apply (level_isPresent _).bind
    intro present
    split
    · exact level_readText _
    · apply (level_log _ _ _).bind
      intro _
      apply (level_request fun _ => rfl).bind
      intro moment
      exact level_done _
  unfold append
  split
  · apply (level_log _ _ _).bind
    intro _
    exact level_done _
  · apply Level.locked
    apply hcontent.bind
    intro content
    cases content with
    | error e => exact level_done _
    | ok content =>
      simp only
      split
      · exact level_done _
      · apply (level_absolute _).bind
        intro report
        apply (level_absolute _).bind
        intro dir
        split
        · exact level_done _
        · apply (level_replaceFile _ _).bind
          intro saved
          cases saved <;> exact level_done _

namespace RuleSummary

variable (r : RuleSummary)

theorem level_restore : r.restore.Level := by
  apply (level_isPresent _).bind
  intro present
  split
  · apply (level_request fun _ => rfl).bind
    intro renamed
    cases renamed with
    | error fault => exact level_log _ _ _
    | ok _ => exact level_done _
  · exact level_done _

theorem level_discard : r.discard.Level := by
  apply (level_isPresent _).bind
  intro present
  split
  · apply (level_request fun _ => rfl).bind
    intro removed
    cases removed with
    | error fault => exact level_log _ _ _
    | ok _ => exact level_done _
  · exact level_done _

theorem level_found (n : Nat) (d : Document) (page : String) : (r.found n d page).Level := by
  have hpage : (r.foundPage n page).Level := by
    unfold foundPage
    split
    · exact level_replaceFile _ _
    · apply (level_request fun _ => rfl).bind
      intro _
      exact level_done _
  apply (level_replaceFile _ _).bind
  intro saved
  cases saved with
  | error e => exact level_done _
  | ok _ =>
    apply hpage.bind
    intro paged
    cases paged with
    | error e => exact level_done _
    | ok _ =>
      apply (level_log _ _ _).bind
      intro _
      exact level_done _

theorem level_prior : r.prior.Level := by
  apply (level_isPresent _).bind
  intro present
  split
  · apply (level_request fun _ => rfl).bind
    intro copied
    cases copied with
    | error fault => exact level_done _
    | ok _ => exact level_loadDocument _
  · exact level_done _

theorem level_refresh (n : Nat) (merged : Document) : (r.refresh n merged).Level := by
  unfold refresh
  split
  · apply (level_request fun _ => rfl).bind
    intro moment
    apply (level_replaceFile _ _).bind
    intro saved
    cases saved with
    | error e => exact level_done _
    | ok _ =>
      apply (level_request fun _ => rfl).bind
      intro _
      exact level_done _
  · split
    · apply (level_request fun _ => rfl).bind
      intro _
      exact level_done _
    · exact level_done _

theorem level_extend (n : Nat) (d : Document) : (r.extend n d).Level := by
  apply r.level_prior.bind
  intro prior
  cases prior with
  | error e => exact level_done _
  | ok prior =>
    apply (level_replaceFile _ _).bind
    intro saved
    cases saved with
    | error e => exact r.level_discard.bind fun _ => level_done _
    | ok _ =>
      apply (r.level_refresh n _).bind
      intro refreshed
      cases refreshed with
      | error e => exact r.level_restore.bind fun _ => level_done _
      | ok rendered =>
        apply r.level_discard.bind
        intro _
        exact (level_log _ _ _).bind fun _ => level_done _

theorem level_update (d : Document) (page : String) : (r.update d page).Level := by
  have hfounded : r.isFounded.Level := by
    apply (level_isPresent _).bind
    intro present
    split
    · exact level_done _
    · exact level_isPresent _
  unfold update
  split
  · exact level_done _
  · apply Level.locked
    apply (level_request fun _ => rfl).bind
    intro n
    apply hfounded.bind
    intro founded
    split
    · exact r.level_extend n d
    · exact r.level_found n d page

end RuleSummary

/-- Updating both summaries is one critical section. -/
theorem Session.guarded_updateSummaries (s : Session) (report : Option Path) (d : Document)
    (page : String) :
    ∃ next, s.updateSummaries report d page = ask .acquire next ∧ (next ()).Guarded 1 := by
  have hnote : ∀ res, (noteRow res).Level := by
    intro res
    unfold noteRow
    split
    · exact level_log _ _ _
    · exact level_done _
    · exact level_log _ _ _
    · exact level_log _ _ _
  have hrule : (s.rule.update d page >>= noteUpdate).Level := by
    apply (s.rule.level_update d page).bind
    intro res
    unfold noteUpdate
    split
    · exact level_done _
    · exact level_log _ _ _
    · exact level_log _ _ _
  apply guarded_locked
  cases report with
  | none => exact (hnote none).bind fun _ => hrule
  | some p =>
    apply (s.bundle.level_append p d).bind
    intro res
    exact (hnote _).bind fun _ => hrule

end LintDigest
