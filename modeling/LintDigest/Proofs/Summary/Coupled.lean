import LintDigest.Proofs.Script.Coupled
import LintDigest.Proofs.Summary.Alike

/-!
# Summaries side by side

Updates of the summaries at different moments do the same to trees that differ in moments only: they
fail alike or succeed alike, and what they leave differs in moments only.
-/

namespace LintDigest

open Script Storage LintDigest.Tree

/-! ## Files that differ in moments only -/

/-- Entries named `n` are equal, or texts that differ in the moment they show; of scratch files
nothing is asked. -/
def Matched (n : String) (e e' : Entry) : Prop :=
  e' = e ∨ ∃ text text', e = .file (.text text) ∧ e' = .file (.text text') ∧
    ((∃ k, n = scratchName k) ∨ Restamped n text text')

theorem likeness_matched : Likeness Matched where
  refl _ _ := .inl rfl
  texts n e e' h := by
    rcases h with h | ⟨text, text', htext, htext', -⟩
    · exact .inl h
    · exact .inr ⟨text, text', htext, htext'⟩

theorem matched_scratchName (k : Nat) (text text' : String) :
    Matched (scratchName k) (.file (.text text)) (.file (.text text')) :=
  .inr ⟨text, text', rfl, rfl, .inl ⟨k, rfl⟩⟩

theorem Restamped.matched {n text text' : String} (h : Restamped n text text') :
    Matched n (.file (.text text)) (.file (.text text')) :=
  .inr ⟨text, text', rfl, rfl, .inr h⟩

theorem Matched.alike {n : String} {e e' : Entry} (h : Matched n e e')
    (hn : n.toList.take 4 ≠ ".tmp".toList) : Alike n (some e) (some e') := by
  rcases h with rfl | ⟨text, text', rfl, rfl, ⟨k, hk⟩ | htext⟩
  · exact .same _
  · exact absurd hk (ne_scratchName hn k)
  · exact .pages htext

theorem Matched.eq_of_notMem {n : String} {e e' : Entry} (h : Matched n e e')
    (hn : n.toList.take 4 ≠ ".tmp".toList) (hpage : n ∉ pageNames) : e' = e :=
  (Option.some.inj ((h.alike hn).eq_of_notMem hpage)).symm

/-- What stands at a path of twins, by its name. -/
theorem Tree.Twin.entry_alike {t t' : Tree} (h : Twin Matched t t') (cwd : Place) (dir : Path)
    {n : String} (hn : IsName n) (hscratch : n.toList.take 4 ≠ ".tmp".toList) :
    Alike n (t.entry cwd (dir / n)) (t'.entry cwd (dir / n)) := by
  have hpair := h.resolve likeness_matched cwd (dir / n)
  have hname : ∀ place e, t.resolve cwd (dir / n) = .ok (place, e) → place.headD "" = n := by
    intro place e hresolve
    obtain ⟨-, parent, -, rfl, -⟩ := (resolve_div hn).1 hresolve
    rfl
  unfold Tree.entry
  generalize t.resolve cwd (dir / n) = x, t'.resolve cwd (dir / n) = x' at hpair hname
  cases hpair with
  | error fault => exact .same none
  | @ok found found' hfound =>
    obtain ⟨place, e⟩ := found
    have halike := hfound.2
    rw [hname place e rfl] at halike
    exact halike.alike hscratch

namespace Storage

theorem coupled_restamped {dir : Path} {n text text' : String} (hn : IsName n)
    (h : Restamped n text text') :
    Coupled Matched Eq (replaceFile (dir / n) text) (replaceFile (dir / n) text') :=
  coupled_replaceFile likeness_matched hn (fun k => matched_scratchName k text text') h.matched

theorem coupled_readText {dir : Path} {n : String} (hn : IsName n) :
    Coupled Matched
      (Paired fun text text' => Matched n (.file (.text text)) (.file (.text text')))
      (readText (dir / n)) (readText (dir / n)) := by
  apply (coupled_read likeness_matched hn).bind
  intro found found' hfound
  cases hfound with
  | error fault => exact coupled_done (.error _)
  | ok h => exact coupled_done (.ok h)

/-- Documents show no moment. -/
theorem coupled_loadDocument {dir : Path} {n : String} (hn : IsName n)
    (hscratch : n.toList.take 4 ≠ ".tmp".toList) (hpage : n ∉ pageNames) :
    Coupled Matched Eq (loadDocument (dir / n)) (loadDocument (dir / n)) := by
  apply (coupled_readText hn).bind
  intro found found' hfound
  cases hfound with
  | error e => exact coupled_done rfl
  | ok h =>
    cases h.eq_of_notMem hscratch hpage
    exact coupled_done rfl

end Storage

/-! ## The bundle page -/

namespace BundleSummary

variable (b : BundleSummary)

theorem coupled_content :
    Coupled Matched (Paired (Restamped pageName)) b.content b.content := by
  apply (coupled_isPresent likeness_matched _).bind
  rintro present _ rfl
  cases present with
  | true =>
    apply (coupled_readText isName_pageName).imp
    intro found found' hfound
    cases hfound with
    | error e => exact .error e
    | ok h =>
      cases h.alike (by decide) with
      | same _ => exact .ok (.same _)
      | pages h => exact .ok h
  | false =>
    apply (coupled_log _ _ _ _).bind
    intro _ _ _
    apply coupled_now.bind
    rintro m m' ⟨hm, hm'⟩
    have htemplate : ∀ m, template m = opening m ++ (marker ++ closing) := fun m => String.append_assoc
    rw [htemplate, htemplate]
    exact coupled_done (.ok (.rows _ rfl hm hm'))

theorem coupled_place (report : Path) (d : Document) {content content' : String}
    (h : Restamped pageName content content') :
    Coupled Matched Eq (b.place report d content) (b.place report d content') := by
  have hmarked : (Text.cutAt? marker.toList content'.toList).isNone =
      (Text.cutAt? marker.toList content.toList).isNone := by
    have hempty := h.insertRow? ""
    rw [Bool.eq_iff_iff, ← @insertRow?_eq_none_iff "" content', ← @insertRow?_eq_none_iff "" content]
    generalize insertRow? "" content = x, insertRow? "" content' = x' at hempty
    cases hempty <;> simp
  unfold place
  rw [hmarked]
  split
  · exact coupled_done rfl
  · apply (coupled_absolute _).bind
    rintro report _ rfl
    apply (coupled_absolute _).bind
    rintro dir _ rfl
    have hrow := h.insertRow? (rowText (displayName report (Path.relativeText report dir) b.nameDepth)
      (Path.relativeText report dir) d.counts)
    simp only
    generalize insertRow? _ content = x, insertRow? _ content' = x' at hrow
    cases hrow with
    | none => exact coupled_done rfl
    | some hpage =>
      apply (coupled_restamped isName_pageName hpage).bind
      rintro saved _ rfl
      cases saved <;> exact coupled_done rfl

theorem coupled_append (report : Path) (d : Document) :
    Coupled Matched Eq (b.append report d) (b.append report d) := by
  cases hd : d.isEmpty with
  | true =>
    rw [append, if_pos hd]
    apply (coupled_log _ _ _ _).bind
    intro _ _ _
    exact coupled_done rfl
  | false =>
    rw [b.append_of_nonempty report d hd]
    apply Coupled.locked
    apply b.coupled_content.bind
    intro content content' hcontent
    cases hcontent with
    | error e => exact coupled_done rfl
    | ok h => exact b.coupled_place report d h

end BundleSummary

/-! ## The rule summary -/

namespace RuleSummary

variable (r : RuleSummary)

theorem coupled_saveDocument (d : Document) :
    Coupled Matched Eq (saveDocument r.document d) (saveDocument r.document d) :=
  coupled_restamped isName_documentName (.same _)

theorem coupled_restore : Coupled Matched Eq r.restore r.restore := by
  apply (coupled_isPresent likeness_matched _).bind
  rintro present _ rfl
  cases present with
  | false => exact coupled_done rfl
  | true =>
    have hrename : Coupled Matched Eq (request (.rename r.snapshot r.document))
        (request (.rename r.snapshot r.document)) := by
      apply coupled_rename likeness_matched isName_snapshotName isName_documentName
      intro c c' h
      exact .inl (h.eq_of_notMem (by decide) (by decide))
    apply hrename.bind
    rintro renamed _ rfl
    cases renamed with
    | error fault => exact coupled_log _ _ _ _
    | ok _ => exact coupled_done rfl

theorem coupled_discard : Coupled Matched Eq r.discard r.discard := by
  apply (coupled_isPresent likeness_matched _).bind
  rintro present _ rfl
  cases present with
  | false => exact coupled_done rfl
  | true =>
    apply (coupled_remove likeness_matched _).bind
    rintro removed _ rfl
    cases removed with
    | error fault => exact coupled_log _ _ _ _
    | ok _ => exact coupled_done rfl

theorem coupled_found (n : Nat) (d : Document) (page : String) :
    Coupled Matched Eq (r.found n d page) (r.found n d page) := by
  have hpage : Coupled Matched Eq (r.foundPage n page) (r.foundPage n page) := by
    unfold foundPage
    split
    · exact coupled_restamped isName_pageName (.same _)
    · apply (coupled_setPending _).bind
      intro _ _ _
      exact coupled_done rfl
  apply (r.coupled_saveDocument d).bind
  rintro saved _ rfl
  cases saved with
  | error e => exact coupled_done rfl
  | ok _ =>
    apply hpage.bind
    rintro paged _ rfl
    cases paged with
    | error e => exact coupled_done rfl
    | ok _ =>
      apply (coupled_log _ _ _ _).bind
      intro _ _ _
      exact coupled_done rfl

theorem coupled_prior : Coupled Matched Eq r.prior r.prior := by
  apply (coupled_isPresent likeness_matched _).bind
  rintro present _ rfl
  cases present with
  | false => exact coupled_done rfl
  | true =>
    have hcopy : Coupled Matched Eq (request (.copy r.document r.snapshot))
        (request (.copy r.document r.snapshot)) := by
      apply coupled_copy likeness_matched isName_documentName isName_snapshotName
      intro c c' h
      exact .inl (h.eq_of_notMem (by decide) (by decide))
    apply hcopy.bind
    rintro copied _ rfl
    cases copied with
    | error fault => exact coupled_done rfl
    | ok _ => exact coupled_loadDocument isName_snapshotName (by decide) (by decide)

theorem coupled_refresh (n : Nat) (merged : Document) :
    Coupled Matched Eq (r.refresh n merged) (r.refresh n merged) := by
  unfold refresh
  split
  · apply coupled_now.bind
    intro m m' _
    apply (coupled_restamped isName_pageName (.rendered frame m m' merged (.inl rfl))).bind
    rintro saved _ rfl
    cases saved with
    | error e => exact coupled_done rfl
    | ok _ =>
      apply (coupled_setPending _).bind
      intro _ _ _
      exact coupled_done rfl
  · split
    · apply (coupled_setPending _).bind
      intro _ _ _
      exact coupled_done rfl
    · exact coupled_done rfl

theorem coupled_extend (n : Nat) (d : Document) :
    Coupled Matched Eq (r.extend n d) (r.extend n d) := by
  apply r.coupled_prior.bind
  rintro prior _ rfl
  cases prior with
  | error e => exact coupled_done rfl
  | ok prior =>
    apply (r.coupled_saveDocument _).bind
    rintro saved _ rfl
    cases saved with
    | error e =>
      apply r.coupled_discard.bind
      intro _ _ _
      exact coupled_done rfl
    | ok _ =>
      apply (r.coupled_refresh n _).bind
      rintro refreshed _ rfl
      cases refreshed with
      | error e =>
        apply r.coupled_restore.bind
        intro _ _ _
        exact coupled_done rfl
      | ok rendered =>
        apply r.coupled_discard.bind
        intro _ _ _
        apply (coupled_log _ _ _ _).bind
        intro _ _ _
        exact coupled_done rfl

theorem coupled_isFounded : Coupled Matched Eq r.isFounded r.isFounded := by
  apply (coupled_isPresent likeness_matched _).bind
  rintro present _ rfl
  cases present with
  | true => exact coupled_done rfl
  | false => exact coupled_isPresent likeness_matched _

theorem coupled_update (d : Document) (page : String) :
    Coupled Matched Eq (r.update d page) (r.update d page) := by
  unfold update
  split
  · exact coupled_done rfl
  · apply Coupled.locked
    apply coupled_countUpdate.bind
    rintro n _ rfl
    apply r.coupled_isFounded.bind
    rintro founded _ rfl
    cases founded with
    | true => exact r.coupled_extend n d
    | false => exact r.coupled_found n d page

end RuleSummary

/-! ## Both summaries -/

namespace Session

theorem coupled_noteRow (res : Option (Except Error Appended)) :
    Coupled Matched Eq (noteRow res) (noteRow res) := by
  unfold noteRow
  split
  · exact coupled_log _ _ _ _
  · exact coupled_done rfl
  · exact coupled_log _ _ _ _
  · exact coupled_log _ _ _ _

theorem coupled_noteUpdate (res : Except Error RuleUpdate) :
    Coupled Matched Eq (noteUpdate res) (noteUpdate res) := by
  unfold noteUpdate
  split
  · exact coupled_done rfl
  · exact coupled_log _ _ _ _
  · exact coupled_log _ _ _ _

theorem coupled_updateSummaries (s : Session) (report : Option Path) (d : Document) (page : String) :
    Coupled Matched Eq (s.updateSummaries report d page) (s.updateSummaries report d page) := by
  have hrule : Coupled Matched Eq (s.rule.update d page >>= noteUpdate)
      (s.rule.update d page >>= noteUpdate) := by
    apply (s.rule.coupled_update d page).bind
    rintro updated _ rfl
    exact coupled_noteUpdate updated
  unfold updateSummaries
  apply Coupled.locked
  cases report with
  | none =>
    apply (coupled_noteRow none).bind
    intro _ _ _
    exact hrule
  | some p =>
    apply (s.bundle.coupled_append p d).bind
    rintro appended _ rfl
    apply (coupled_noteRow _).bind
    intro _ _ _
    exact hrule

end Session

end LintDigest
