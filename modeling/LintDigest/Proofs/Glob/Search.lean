import LintDigest.Glob
import LintDigest.Proofs.Script.Run

/-!
# Searching for a pattern

The search for a pattern asks what stands at paths and what is in directories, and nothing else. It
leaves everything as it was, and a pattern that can be read has an answer (`run_expand`).
-/

namespace LintDigest

/-- A request that only looks at files. -/
def Request.isLook : Request → Bool
  | stat _ | list _ => true
  | _ => false

namespace Script

variable {α β : Type}

/-- The script only looks at files. -/
def Looks : Script α → Prop
  | done _ => True
  | ask r next => r.isLook = true ∧ ∀ answer, (next answer).Looks

theorem looks_request {r : Request} (hr : r.isLook = true) : (request r).Looks :=
  ⟨hr, fun _ => trivial⟩

theorem looks_pure (a : α) : (pure a : Script α).Looks := trivial

theorem Looks.ite {b : Prop} [Decidable b] {s t : Script α} (hs : s.Looks) (ht : t.Looks) :
    (if b then s else t).Looks := by
  split
  · exact hs
  · exact ht

theorem Looks.bind {s : Script α} (hs : s.Looks) {f : α → Script β} (hf : ∀ a, (f a).Looks) :
    (s >>= f).Looks := by
  induction s with
  | done a => exact hf a
  | ask r next ih => exact ⟨hs.1, fun answer => ih answer (hs.2 answer)⟩

/-- Looking changes nothing. -/
theorem Looks.run_eq {s : Script α} (hs : s.Looks) (th : Thread) (w : Workspace) :
    s.run th w = ((s.run th w).1, w) := by
  induction s with
  | done a => rfl
  | ask r next ih =>
    cases r with
    | stat p => exact ih _ (hs.2 _)
    | list p => exact ih _ (hs.2 _)
    | _ => cases hs.1

theorem looks_isPresent (p : Path) : (isPresent p).Looks := looks_request rfl

theorem looks_isDir (p : Path) : (isDir p).Looks := looks_request rfl

end Script

namespace Glob

open Script

theorem looks_gather {α : Type} {f : α → Script (List Path)} (hf : ∀ a, (f a).Looks)
    (as : List α) : (gather f as).Looks := by
  induction as with
  | nil => trivial
  | cons a as ih => exact (hf a).bind fun _ => ih.bind fun _ => trivial

/-- Both halves of the search only look, whatever their bound is. -/
theorem looks_search (bound : Nat) :
    (∀ ps dir, (below bound ps dir).Looks) ∧ ∀ ps entry, (visit bound ps entry).Looks := by
  induction bound with
  | zero => exact ⟨fun ps dir => by rw [below]; trivial, fun ps entry => by rw [visit]; trivial⟩
  | succ bound ih =>
    obtain ⟨hbelow, hvisit⟩ := ih
    constructor
    · rintro (_ | ⟨p, ps⟩) dir
      · rw [below]
        · trivial
        · exact Nat.succ_ne_zero bound
      · have hnext (dir : Path) (found : Bool) :
            (if found then below bound ps dir else return []).Looks :=
          (hbelow ps dir).ite (looks_pure [])
        rw [below]
        split
        · exact ((looks_isDir dir).bind (hnext _)).ite ((looks_isPresent _).bind (hnext _))
        · refine (looks_request rfl).bind fun answer => ?_
          split
          · trivial
          · refine (looks_gather (fun name => hbelow ps (dir / name)) _).bind fun around => ?_
            exact (looks_gather (fun name => hvisit (p :: ps) (dir / name)) _).bind fun _ => trivial
    · intro ps entry
      rw [visit]
      refine Looks.ite ((looks_isDir entry).bind fun _ => Looks.ite ((hbelow _ entry).bind ?_)
        ((looks_pure []).bind ?_)) ((looks_pure []).bind ?_)
      -- With deeper matches or without them, the entry itself is tried in the same way.
      all_goals
        intro deeper
        split
        · exact (looks_isDir entry).bind fun _ => (looks_pure _).ite (looks_pure _)
        · exact ((hbelow _ entry).bind fun _ => looks_pure _).ite (looks_pure deeper)

/-! ## Answers -/

/-- A pattern that can be read. -/
def IsValid (pattern : Path) : Prop := (readAll pattern).isOk = true

instance (pattern : Path) : Decidable (IsValid pattern) := inferInstanceAs (Decidable (_ = true))

/-- The paths that match a pattern in a workspace; none if it cannot be read. -/
def found (th : Thread) (w : Workspace) (pattern : Path) : List Path :=
  ((expand pattern).run th w).1.toOption.getD []

theorem looks_expand (pattern : Path) : (expand pattern).Looks := by
  unfold expand
  split
  · trivial
  · exact ((looks_search _).1 _ _).bind fun _ => trivial

theorem run_expand {pattern : Path} (h : IsValid pattern) (th : Thread) (w : Workspace) :
    (expand pattern).run th w = (.ok (found th w pattern), w) := by
  rw [(looks_expand pattern).run_eq th w, found]
  unfold expand
  cases hread : readAll pattern with
  | error fault =>
    rw [IsValid, hread] at h
    cases h
  | ok patterns =>
    simp only [run_bind]
    rfl

end Glob

end LintDigest
