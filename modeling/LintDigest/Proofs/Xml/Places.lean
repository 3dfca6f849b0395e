import Mathlib.Data.List.Basic
import LintDigest.Xml.Node

/-!
# Places in a tree

A place is the way from an element down to something in it: the index of a child on every level.
Places are ordered as the document is, so items are in document order if they stand at places that
go up (`InOrder`). Items stay in order when they are read one by one (`InOrder.filterMap`), and when
they are put together from below the children of an element (`InOrder.below`).
-/

namespace LintDigest.Xml

namespace Element

variable {e c : Element} {name : String} {i : Nat}

/-- The child at an index, if it is an element of the given local name. -/
def childAt? (e : Element) (name : String) (i : Nat) : Option Element :=
  e.children[i]?.bind (Node.named? name)

/-- The element is the first child of the given local name. -/
def First (e : Element) (name : String) (c : Element) : Prop :=
  ∃ before n after, e.children = before ++ n :: after ∧ n.named? name = some c ∧
    ∀ m ∈ before, m.named? name = none

theorem head?_childrenNamed : (e.childrenNamed name).head? = some c ↔ e.First name c := by
  rw [childrenNamed, List.head?_filterMap, List.findSome?_eq_some_iff, First]

/-- The child elements of the given local name, each with its index. -/
def numbered (e : Element) (name : String) : List (Nat × Element) :=
  e.children.zipIdx.filterMap fun n => (n.1.named? name).map (n.2, ·)

theorem map_snd_numbered (e : Element) (name : String) :
    (e.numbered name).map (·.2) = e.childrenNamed name := by
  have hnode : (fun n : Node × Nat => ((n.1.named? name).map (n.2, ·)).map (·.2)) =
      fun n => n.1.named? name := by
    funext n
    rw [Option.map_map]
    exact Option.map_id'
  rw [numbered, List.map_filterMap, hnode, childrenNamed]
  conv_rhs => rw [← List.zipIdx_map_fst 0 e.children]
  rw [List.filterMap_map]
  rfl

theorem mem_numbered : (i, c) ∈ e.numbered name ↔ e.childAt? name i = some c := by
  rw [numbered, List.mem_filterMap, childAt?, Option.bind_eq_some_iff]
  constructor
  · rintro ⟨⟨n, j⟩, hn, hc⟩
    obtain ⟨c', hc', heq⟩ := Option.map_eq_some_iff.1 hc
    cases heq
    exact ⟨n, List.mem_zipIdx_iff_getElem?.1 hn, hc'⟩
  · rintro ⟨n, hn, hc⟩
    exact ⟨(n, i), List.mem_zipIdx_iff_getElem?.2 hn, by rw [hc]; rfl⟩

theorem sorted_numbered (e : Element) (name : String) :
    (e.numbered name).Pairwise fun a b => a.1 < b.1 := by
  have hindex : (e.children.zipIdx).Pairwise fun a b => a.2 < b.2 := by
    rw [← List.pairwise_map (f := Prod.snd) (R := (· < ·)), List.zipIdx_map_snd]
    exact List.pairwise_lt_range'
  rw [numbered, List.pairwise_filterMap]
  refine hindex.imp ?_
  rintro a b hab _ ha _ hb
  obtain ⟨c, -, rfl⟩ := Option.map_eq_some_iff.1 ha
  obtain ⟨c', -, rfl⟩ := Option.map_eq_some_iff.1 hb
  exact hab

end Element

/-! ## Document order -/

/-- The items are what stands at the places, one for each place, in the order of the places. -/
def InOrder {α : Type} (items : List α) (stands : List Nat → α → Prop) : Prop :=
  ∃ placed : List (List Nat × α), placed.map (·.2) = items ∧
    placed.Pairwise (fun a b => a.1 < b.1) ∧ ∀ place x, (place, x) ∈ placed ↔ stands place x

namespace InOrder

variable {α β : Type} {items : List α} {stands : List Nat → α → Prop}

theorem congr {stands' : List Nat → α → Prop} (h : InOrder items stands)
    (hsame : ∀ place x, stands place x ↔ stands' place x) : InOrder items stands' := by
  obtain ⟨placed, hitems, hsorted, hmem⟩ := h
  exact ⟨placed, hitems, hsorted, fun place x => (hmem place x).trans (hsame place x)⟩

theorem nil (h : ∀ place x, ¬ stands place x) : InOrder [] stands :=
  ⟨[], rfl, .nil, fun place x => by simp [h place x]⟩

theorem singleton (a : α) : InOrder [a] fun place x => place = [] ∧ x = a :=
  ⟨[([], a)], rfl, List.pairwise_singleton _ _, fun place x => by simp⟩

/-- Items that are read, one by one, out of items in order. -/
theorem filterMap (h : InOrder items stands) (f : α → Option β) :
    InOrder (items.filterMap f) fun place y => ∃ x, stands place x ∧ f x = some y := by
  obtain ⟨placed, rfl, hsorted, hmem⟩ := h
  refine ⟨placed.filterMap fun a => (f a.2).map (a.1, ·), ?_, ?_, fun place y => ?_⟩
  · rw [List.map_filterMap, List.filterMap_map]
    refine List.filterMap_congr fun a _ => ?_
    rw [Option.map_map]
    exact Option.map_id'
  · rw [List.pairwise_filterMap]
    refine hsorted.imp ?_
    rintro a b hab _ ha _ hb
    obtain ⟨y, -, rfl⟩ := Option.map_eq_some_iff.1 ha
    obtain ⟨y', -, rfl⟩ := Option.map_eq_some_iff.1 hb
    exact hab
  · rw [List.mem_filterMap]
    constructor
    · rintro ⟨⟨place', x⟩, hx, hy⟩
      obtain ⟨y', hy', heq⟩ := Option.map_eq_some_iff.1 hy
      cases heq
      exact ⟨x, (hmem _ _).1 hx, hy'⟩
    · rintro ⟨x, hx, hy⟩
      exact ⟨(place, x), (hmem _ _).2 hx, by rw [hy]; rfl⟩

theorem map (h : InOrder items stands) (f : α → β) :
    InOrder (items.map f) fun place y => ∃ x, stands place x ∧ f x = y := by
  rw [← List.filterMap_eq_map]
  refine (h.filterMap _).congr fun place y => ?_
  simp

/-- What is in order below each child, is in order below their parent. -/
theorem below {f : Element → List α} {stands : Element → List Nat → α → Prop}
    (h : ∀ c, InOrder (f c) (stands c)) (e : Element) (name : String) :
    InOrder ((e.childrenNamed name).flatMap f) fun place x =>
      ∃ i c rest, place = i :: rest ∧ e.childAt? name i = some c ∧ stands c rest x := by
  choose placed hitems hsorted hmem using h
  refine ⟨(e.numbered name).flatMap fun n => (placed n.2).map fun a => (n.1 :: a.1, a.2),
    ?_, ?_, fun place x => ?_⟩
  · rw [← Element.map_snd_numbered, List.flatMap_map, List.map_flatMap]
    refine List.flatMap_congr fun n _ => ?_
    rw [List.map_map, ← hitems]
    rfl
  · rw [List.pairwise_flatMap]
    constructor
    · rintro n -
      rw [List.pairwise_map]
      exact (hsorted n.2).imp fun hab => List.cons_lt_cons_iff.2 (.inr ⟨rfl, hab⟩)
    · refine (Element.sorted_numbered e name).imp ?_
      rintro n m hnm _ ha _ hb
      obtain ⟨a, -, rfl⟩ := List.mem_map.1 ha
      obtain ⟨b, -, rfl⟩ := List.mem_map.1 hb
      exact List.cons_lt_cons_iff.2 (.inl hnm)
  · rw [List.mem_flatMap]
    constructor
    · rintro ⟨⟨i, c⟩, hc, hx⟩
      obtain ⟨⟨rest, x'⟩, hx', heq⟩ := List.mem_map.1 hx
      cases heq
      exact ⟨i, c, rest, rfl, Element.mem_numbered.1 hc, (hmem _ _ _).1 hx'⟩
    · rintro ⟨i, c, rest, rfl, hc, hx⟩
      exact ⟨(i, c), Element.mem_numbered.2 hc,
        List.mem_map.2 ⟨(rest, x), (hmem _ _ _).2 hx, rfl⟩⟩

theorem children (e : Element) (name : String) :
    InOrder (e.childrenNamed name) fun place c =>
      ∃ i, place = [i] ∧ e.childAt? name i = some c := by
  have hall := below (fun c => singleton c) e name
  rw [List.flatMap_singleton'] at hall
  refine hall.congr fun place c => ?_
  constructor
  · rintro ⟨i, _, _, rfl, hc, rfl, rfl⟩
    exact ⟨i, rfl, hc⟩
  · rintro ⟨i, rfl, hc⟩
    exact ⟨i, c, [], rfl, hc, rfl, rfl⟩

end InOrder

end LintDigest.Xml
