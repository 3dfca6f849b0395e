import LintDigest.Proofs.Path.Ancestors
import LintDigest.Proofs.Path.Relative
import LintDigest.Summary.Bundle

/-!
# Names of modules

A module is named by the link to its report if the link is deep enough, else by the path of the
report. Behind the fork the link takes the report's own last steps, and before it only goes up, so
both ways give the same name wherever the summary lives (`displayName_eq_ancestor`).
-/

namespace LintDigest.BundleSummary

open LintDigest.Path LintDigest.Tree

variable {report dir : Path}

theorem linkParts_eq_steps (link : String) : linkParts link = steps ⟨link⟩ := by
  rw [linkParts, steps_eq_namingPieces, namingPieces]
  congr 1
  refine List.filter_congr fun w _ => ?_
  by_cases hempty : w = []
  · simp [idle, hempty]
  · by_cases hdot : w = ['.'] <;> simp [idle, hempty, hdot]

/-- A part of a link, counted from the end: the index never falls short of the first part. -/
theorem linkParts_from_end {link : String} {depth : Nat} (h : depth < (linkParts link).length) :
    (linkParts link).length - 1 - depth + 1 + depth = (linkParts link).length ∧
      ∃ part, (linkParts link)[(linkParts link).length - 1 - depth]? = some part ∧
        (steps ⟨link⟩).reverse[depth]? = some part := by
  have hindex : (linkParts link).length - 1 - depth < (linkParts link).length := by omega
  refine ⟨by omega, _, List.getElem?_eq_getElem hindex, ?_⟩
  rw [← linkParts_eq_steps, List.getElem?_reverse h, List.getElem?_eq_getElem hindex]

/-- The name of a module is a step from the end of its link, else the one that its report's own path
gives. -/
theorem displayName_eq (report : Path) (link : String) (depth : Nat) :
    displayName report link depth =
      (((steps ⟨link⟩).reverse[depth]?).bind stepName?).getD
        (((report.ancestors[depth]?).bind fileName?).getD link) := by
  unfold displayName displayName.ancestorName
  by_cases hdepth : depth < (linkParts link).length
  · obtain ⟨-, part, hpart, hstep⟩ := linkParts_from_end hdepth
    simp only [if_pos hdepth, hpart, hstep, Option.bind_some, stepName?]
    by_cases hup : part = ".." <;> simp [hup]
  · have hnone : (steps ⟨link⟩).reverse[depth]? = none := by
      rw [linkParts_eq_steps] at hdepth
      exact List.getElem?_eq_none (by simpa using hdepth)
    simp only [if_neg hdepth, hnone]
    rfl

/-- The steps of a link from the end: those of the report back to the fork, and then only steps
up. -/
theorem exists_fork_steps (hreport : report.isAbsolute = true) (hdir : dir.isAbsolute = true)
    (hup : Component.up ∉ dir.components) :
    ∃ rest front : List String, ∃ n : Nat,
      (steps ⟨relativeText report dir⟩).reverse = rest ++ List.replicate n ".." ∧
        (steps report).reverse = rest ++ front := by
  obtain ⟨front, rest, more, hfork, hsteps, -, hlink⟩ := exists_link hreport hdir hup
  have hrest := isStep_ups more.length (List.forall_mem_append.1 hsteps).2
  have hlinkSteps : steps ⟨relativeText report dir⟩ =
      List.replicate more.length ".." ++ rest.map Component.text := by
    rw [hlink, steps_eq_components, components_written hrest, filter_steps hrest, List.map_append,
      List.map_replicate, Component.text]
  have hreportSteps : steps report = front.map Component.text ++ rest.map Component.text := by
    have hcomponents : report.components = .root :: (front ++ rest) := hfork.left
    rw [steps_eq_components, hcomponents, List.filter_cons]
    simp only [filter_steps hsteps]
    exact List.map_append
  refine ⟨(rest.map Component.text).reverse, (front.map Component.text).reverse, more.length, ?_, ?_⟩
  · rw [hlinkSteps, List.reverse_append, List.reverse_replicate]
  · rw [hreportSteps, List.reverse_append]

/-- Where the link has a name at a depth, the report's own path has the same. -/
theorem stepName?_link (hreport : report.isAbsolute = true) (hdir : dir.isAbsolute = true)
    (hup : Component.up ∉ dir.components) {depth : Nat} {name : String}
    (h : ((steps ⟨relativeText report dir⟩).reverse[depth]?).bind stepName? = some name) :
    (report.ancestors[depth]?).bind fileName? = some name := by
  have hlead : report.layout.1 ≠ .here := by
    have hroot : report.layout.1 = .root := of_decide_eq_true hreport
    simp [hroot]
  obtain ⟨rest, front, n, hlink, hsteps⟩ := exists_fork_steps hreport hdir hup
  rw [fileName?_ancestor hlead, hsteps]
  rw [hlink] at h
  by_cases hdepth : depth < rest.length
  · have hshared : ∀ more : List String, (rest ++ more)[depth]? = rest[depth]? :=
      fun more => List.getElem?_append_left hdepth
    rw [hshared] at h ⊢
    exact h
  · -- Before the fork the link only goes up.
    rw [List.getElem?_append_right (Nat.not_lt.1 hdepth), List.getElem?_replicate] at h
    split at h
    · simp [stepName?] at h
    · simp at h

/-- Wherever the summary lives, a module is named after the directory `depth` levels above its
report, and by the link if there is none. The part that a deep enough link offers is that same name
or a step up, and counting it from the end never goes past the first part. -/
theorem displayName_eq_ancestor (hreport : report.isAbsolute = true)
    (hdir : dir.isAbsolute = true) (hup : Component.up ∉ dir.components) (depth : Nat) :
    displayName report (relativeText report dir) depth =
        ((report.ancestors[depth]?).bind fileName?).getD (relativeText report dir) ∧
      ∀ parts, linkParts (relativeText report dir) = parts → depth < parts.length →
        parts.length - 1 - depth + 1 + depth = parts.length ∧
          ∃ part, parts[parts.length - 1 - depth]? = some part ∧
            (part ≠ ".." → (report.ancestors[depth]?).bind fileName? = some part) := by
  constructor
  · rw [displayName_eq]
    cases hname : ((steps ⟨relativeText report dir⟩).reverse[depth]?).bind stepName? with
    | none => rfl
    | some name => rw [stepName?_link hreport hdir hup hname, Option.getD_some, Option.getD_some]
  · rintro _ rfl hdepth
    obtain ⟨hindex, part, hpart, hstep⟩ := linkParts_from_end hdepth
    refine ⟨hindex, part, hpart, fun hname => stepName?_link hreport hdir hup ?_⟩
    rw [hstep, Option.bind_some, stepName?, if_neg hname]

/-- A summary inside the module, to which the link is too short, and one outside of it. -/
theorem displayName_eq_ancestor_inside :
    (⟨"/ws/mod-c/./target/r.html"⟩ : Path).isAbsolute = true ∧
      (∀ dir ∈ [(⟨"/ws//mod-c/target/s"⟩ : Path), ⟨"/out"⟩],
        dir.isAbsolute = true ∧ Component.up ∉ dir.components) ∧
      displayName ⟨"/ws/mod-c/./target/r.html"⟩ "../r.html" 2 = "mod-c" ∧
      displayName ⟨"/ws/mod-c/./target/r.html"⟩ "../ws/mod-c/target/r.html" 2 = "mod-c" ∧
      displayName ⟨"/ws/mod-c/./target/r.html"⟩ "../ws/mod-c/target/r.html" 4 =
        "../ws/mod-c/target/r.html" ∧
      ∃ part, ["..", "ws", "mod-c", "target", "r.html"][5 - 1 - 2]? = some part ∧
        (part ≠ ".." → some "mod-c" = some part) := by
  have hreport : (⟨"/ws/mod-c/./target/r.html"⟩ : Path).isAbsolute = true := rfl
  have hinside : (⟨"/ws//mod-c/target/s"⟩ : Path).isAbsolute = true ∧
      Component.up ∉ (⟨"/ws//mod-c/target/s"⟩ : Path).components := by decide
  have houtside : (⟨"/out"⟩ : Path).isAbsolute = true ∧
      Component.up ∉ (⟨"/out"⟩ : Path).components := by decide
  have hnear : relativeText ⟨"/ws/mod-c/./target/r.html"⟩ ⟨"/ws//mod-c/target/s"⟩ = "../r.html" := by
    decide
  have hfar : relativeText ⟨"/ws/mod-c/./target/r.html"⟩ ⟨"/out"⟩ = "../ws/mod-c/target/r.html" := by
    decide
  have hname : ((⟨"/ws/mod-c/./target/r.html"⟩ : Path).ancestors[2]?).bind fileName? =
      some "mod-c" := by decide
  have hnone : ((⟨"/ws/mod-c/./target/r.html"⟩ : Path).ancestors[4]?).bind fileName? = none := by
    decide
  have near := (displayName_eq_ancestor hreport hinside.1 hinside.2 2).1
  have far := (displayName_eq_ancestor hreport houtside.1 houtside.2 2).1
  have root := (displayName_eq_ancestor hreport houtside.1 houtside.2 4).1
  rw [hnear, hname] at near
  rw [hfar, hname] at far
  rw [hfar, hnone] at root
  obtain ⟨-, hpart⟩ := (displayName_eq_ancestor hreport houtside.1 houtside.2 2).2
    ["..", "ws", "mod-c", "target", "r.html"] (by rw [hfar]; decide) (by decide)
  rw [hname] at hpart
  exact ⟨hreport, by simpa using ⟨hinside, houtside⟩, near, far, root, hpart⟩

end LintDigest.BundleSummary
