import Mathlib.Data.List.Nodup
import LintDigest.Proofs.Except
import LintDigest.Proofs.Xml.Written
import LintDigest.Xml.Node

/-!
# Trees of plain tags

Tags whose names and attributes have no namespace lead open elements with the attributes as they
stand (`enter_plain`). Character data between them is not seen when children are looked up by name.
-/

namespace LintDigest.Xml

theorem declarations_plain {attributes : List (String × String)}
    (h : ∀ a ∈ attributes, a.1 ≠ "xmlns") :
    declarations (attributes.map plainAttribute) = .ok ([], attributes.map plainAttribute) := by
  induction attributes with
  | nil => rfl
  | cons a attributes ih =>
    have ha : (plainAttribute a).declaration = .ok .none := by
      simp [Attribute.declaration, plainAttribute, h a List.mem_cons_self]
    rw [List.map_cons, declarations, ih fun x hx => h x (List.mem_cons_of_mem _ hx)]
    simp only [bind, Except.bind, ha, pure, Except.pure]

/-- The key by which an attribute without a namespace is told from others. -/
def plainKey (a : String × String) : (Option String × String) × String :=
  ((none, a.1), a.2)

theorem nodup_plainKey {attributes : List (String × String)}
    (h : (attributes.map (·.1)).Nodup) : ((attributes.map plainKey).map (·.1)).Nodup := by
  have hmap : (attributes.map plainKey).map (·.1) =
      (attributes.map (·.1)).map fun n => (none, n) := by
    simp [plainKey]
  rw [hmap]
  exact List.Nodup.map (fun _ _ e => (Prod.mk.inj e).2) h

theorem filterMap_plainKey (attributes : List (String × String)) :
    (attributes.map plainKey).filterMap (fun ((space, name), value) =>
      if space.isNone then some (name, value) else none) = attributes := by
  rw [List.filterMap_map]
  exact List.filterMap_some

theorem plainAttributes_plain (scope : Scope) {attributes : List (String × String)}
    (h : (attributes.map (·.1)).Nodup) :
    plainAttributes scope (attributes.map plainAttribute) = .ok attributes := by
  have hkeyed : (attributes.map plainAttribute).mapM (fun a => do
      return ((← a.name.space (("xml", xmlSpace) :: scope), a.name.base), a.value)) =
      (.ok (attributes.map plainKey) : Except Fault _) :=
    mapM_map_ok attributes fun _ _ => rfl
  rw [plainAttributes, hkeyed]
  simp only [bind, Except.bind, nodup_plainKey h, if_true, pure, Except.pure, filterMap_plainKey]

namespace Builder

/-- A plain tag opens an element, unless it would be a second root. -/
theorem enter_plain {b : Builder} (hb : b.openElements ≠ [] ∨ b.root = none) (name : String)
    {attributes : List (String × String)} (hx : ∀ a ∈ attributes, a.1 ≠ "xmlns")
    (hn : (attributes.map (·.1)).Nodup) :
    b.enter ⟨"", name⟩ (attributes.map plainAttribute) =
      .ok { name := ⟨"", name⟩, attributes, scope := b.scope } := by
  have hroot : (b.openElements.isEmpty && b.root.isSome) = false := by
    rcases hb with hb | hb
    · simp [hb]
    · simp [hb]
  simp [enter, hroot, declarations_plain hx, plainAttributes_plain _ hn, QName.space, bind,
    Except.bind, pure, Except.pure]

theorem step_blank (f : Frame) (fs : List Frame) (root : Option Element) (s : String) :
    step ⟨f :: fs, root⟩ (.blank s) =
      .ok ⟨{ f with children := addText s f.children } :: fs, root⟩ := rfl

theorem step_startTag {b : Builder} (hb : b.openElements ≠ [] ∨ b.root = none) (name : String)
    {attributes : List (String × String)} (hx : ∀ a ∈ attributes, a.1 ≠ "xmlns")
    (hn : (attributes.map (·.1)).Nodup) :
    b.step (.startTag ⟨"", name⟩ (attributes.map plainAttribute) false) =
      .ok { b with
        openElements := { name := ⟨"", name⟩, attributes, scope := b.scope } :: b.openElements } := by
  rw [step, enter_plain hb name hx hn]
  rfl

theorem step_closedTag (f : Frame) (fs : List Frame) (root : Option Element) (name : String)
    {attributes : List (String × String)} (hx : ∀ a ∈ attributes, a.1 ≠ "xmlns")
    (hn : (attributes.map (·.1)).Nodup) :
    step ⟨f :: fs, root⟩ (.startTag ⟨"", name⟩ (attributes.map plainAttribute) true) =
      .ok ⟨{ f with children := Element.node ⟨name, attributes, []⟩ :: f.children } :: fs, root⟩ := by
  have hb : (Builder.mk (f :: fs) root).openElements ≠ [] ∨ (Builder.mk (f :: fs) root).root = none :=
    .inl (List.cons_ne_nil f fs)
  rw [step, enter_plain hb name hx hn]
  rfl

theorem foldlM_step {b b' : Builder} {t : Token} (h : b.step t = .ok b') (ts : List Token) :
    (t :: ts).foldlM step b = ts.foldlM step b' := by
  rw [List.foldlM_cons, h]
  rfl

end Builder

theorem filterMap_addText (name s : String) (nodes : List Node) :
    (addText s nodes).filterMap (Node.named? name) = nodes.filterMap (Node.named? name) := by
  cases nodes with
  | nil => rfl
  | cons n ns => cases n <;> rfl

end LintDigest.Xml
