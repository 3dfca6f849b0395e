import LintDigest.Proofs.Xml.Written
import LintDigest.Proofs.Except
import LintDigest.Xml.Node

/-!
# What a parsed document is made of

Text comes into a tree as it is written, through references, or as a normalised line end, and each
way lets only characters through that XML allows. `parse_allowed` says so of every attribute value
and every text node of a tree that was parsed.
-/

namespace LintDigest.Xml

@[simp] theorem allowed_ofList {cs : List Char} :
    Allowed (String.ofList cs) ↔ ∀ c ∈ cs, isChar c = true := by
  rw [Allowed, String.toList_ofList]

theorem allowed_append {s t : String} : Allowed (s ++ t) ↔ Allowed s ∧ Allowed t := by
  simp only [Allowed, String.toList_append, List.forall_mem_append]

theorem isChar_of_isSpace {c : Char} (h : isSpace c = true) : isChar c = true := by
  rcases isSpace_iff.1 h with rfl | rfl | rfl | rfl <;> rfl

/-! ## Character data -/

/-- The character that a piece stands for. -/
def Piece.char : Piece → Char
  | written c | referred c => c

theorem checked_eq_ok {cs ds : List Char} (h : checked cs = .ok ds) :
    ds = cs ∧ ∀ c ∈ cs, isChar c = true := by
  unfold checked at h
  split at h
  · next hall =>
    cases h
    exact ⟨rfl, List.all_eq_true.1 hall⟩
  · cases h

theorem isChar_written {cs : List Char} (h : ∀ c ∈ cs, isChar c = true) :
    ∀ p ∈ written cs, isChar p.char = true :=
  List.forall_mem_map.2 h

theorem isChar_lineFeeds {after : Bool} {ps : List Piece} (h : ∀ p ∈ ps, isChar p.char = true) :
    ∀ c ∈ lineFeeds after ps, isChar c = true := by
  have hfeed : isChar '\n' = true := rfl
  -- A line feed may stand for a carriage return; every other character is that of a piece.
  fun_induction lineFeeds after ps with
  | case1 _ ps ih =>
    have hrest := (List.forall_mem_cons.1 (List.forall_mem_cons.1 h).2).2
    exact List.forall_mem_cons.2 ⟨hfeed, ih hrest⟩
  | case2 _ c ps _ ih =>
    exact List.forall_mem_cons.2 ⟨hfeed, ih (List.forall_mem_cons.1 h).2⟩
  | case3 _ c ps ih =>
    obtain ⟨hr, hrest⟩ := List.forall_mem_cons.1 h
    obtain ⟨hc, hrest⟩ := List.forall_mem_cons.1 hrest
    exact List.forall_mem_cons.2 ⟨hr, List.forall_mem_cons.2 ⟨hc, ih hrest⟩⟩
  | case4 after =>
    intro c hc
    obtain rfl := List.mem_singleton.1 hc
    cases after <;> rfl
  | case5 _ c ps _ _ _ _ ih | case6 _ c ps ih =>
    obtain ⟨hc, hrest⟩ := List.forall_mem_cons.1 h
    exact List.forall_mem_cons.2 ⟨hc, ih hrest⟩
  | case7 => exact fun c hc => by cases hc

theorem isChar_spaces {ps : List Piece} (h : ∀ p ∈ ps, isChar p.char = true) :
    ∀ c ∈ spaces ps, isChar c = true := by
  have hspace : isChar ' ' = true := rfl
  fun_induction spaces ps with
  | case1 ps ih =>
    have hrest := (List.forall_mem_cons.1 (List.forall_mem_cons.1 h).2).2
    exact List.forall_mem_cons.2 ⟨hspace, ih hrest⟩
  | case2 c ps _ ih =>
    obtain ⟨hc, hrest⟩ := List.forall_mem_cons.1 h
    refine List.forall_mem_cons.2 ⟨?_, ih hrest⟩
    split
    · exact hspace
    · exact hc
  | case3 c ps ih =>
    obtain ⟨hc, hrest⟩ := List.forall_mem_cons.1 h
    exact List.forall_mem_cons.2 ⟨hc, ih hrest⟩
  | case4 => exact fun c hc => by cases hc

theorem isChar_numeric {radix : Nat} {digits : List Char} {c : Char}
    (h : referent.numeric radix digits = .ok c) : isChar c = true := by
  unfold referent.numeric at h
  split at h
  · cases h
  · split at h
    · next hc =>
      cases h
      exact hc
    · cases h

theorem isChar_referent {body : List Char} {c : Char} (h : referent body = .ok c) :
    isChar c = true := by
  unfold referent at h
  split at h
  · exact isChar_numeric h
  · exact isChar_numeric h
  all_goals cases h
  all_goals rfl

theorem isChar_expandReference {cs : List Char} (hcs : ∀ c ∈ cs, isChar c = true)
    {ps : List Piece} (h : expandReference cs = .ok ps) : ∀ p ∈ ps, isChar p.char = true := by
  unfold expandReference at h
  split at h
  · cases h
  · next body tail hcut =>
    obtain ⟨c, hc, h⟩ := bind_eq_ok.1 h
    cases h
    refine List.forall_mem_cons.2 ⟨isChar_referent hc, isChar_written fun x hx => hcs x ?_⟩
    rw [Text.cutAt?_eq_some hcut]
    exact List.mem_append_right _ hx

theorem isChar_pieces {cs : List Char} (hcs : ∀ c ∈ cs, isChar c = true) {ps : List Piece}
    (h : pieces cs = .ok ps) : ∀ p ∈ ps, isChar p.char = true := by
  obtain ⟨w, ws, hs⟩ := exists_split (· == '&') cs
  have hpiece : ∀ v ∈ w :: ws, ∀ c ∈ v, isChar c = true :=
    fun v hv c hc => hcs c (Text.mem_of_mem_split (hs ▸ hv) hc)
  obtain ⟨hw, hws⟩ := List.forall_mem_cons.1 hpiece
  rw [pieces, hs] at h
  obtain ⟨rs, hrs, h⟩ := bind_eq_ok.1 h
  cases h
  refine List.forall_mem_append.2 ⟨isChar_written hw, fun p hp => ?_⟩
  obtain ⟨r, hr, hp⟩ := List.mem_flatten.1 hp
  have hall := forall_of_mapM_ok (p := fun r => ∀ p ∈ r, isChar p.char = true) hrs
    fun v hv r hr => isChar_expandReference (hws v hv) hr
  exact hall r hr p hp

theorem attributeValue_allowed {cs : List Char} (hcs : ∀ c ∈ cs, isChar c = true) {s : String}
    (h : attributeValue cs = .ok s) : Allowed s := by
  obtain ⟨ps, hps, h⟩ := bind_eq_ok.1 h
  cases h
  exact allowed_ofList.2 (isChar_spaces (isChar_pieces hcs hps))

theorem characterData_allowed {cs : List Char} (hcs : ∀ c ∈ cs, isChar c = true) {s : String}
    (h : characterData cs = .ok s) : Allowed s := by
  obtain ⟨ps, hps, h⟩ := bind_eq_ok.1 h
  cases h
  exact allowed_ofList.2 (isChar_lineFeeds (isChar_pieces hcs hps))

theorem plainData_allowed {cs : List Char} (hcs : ∀ c ∈ cs, isChar c = true) :
    Allowed (plainData cs) :=
  allowed_ofList.2 (isChar_lineFeeds (isChar_written hcs))

/-! ## Tokens -/

/-- The texts of a token are made of characters that XML allows. -/
def Token.Allowed : Token → Prop
  | startTag _ attributes _ => ∀ a ∈ attributes, Xml.Allowed a.value
  | text s | blank s | verbatim s => Xml.Allowed s
  | endTag _ | aside => True

theorem isChar_readQuoted {cs value rest : List Char} (h : readQuoted cs = .ok (value, rest)) :
    ∀ c ∈ value, isChar c = true := by
  cases cs with
  | nil => cases h
  | cons quote cs =>
    simp only [readQuoted] at h
    split at h
    · split at h
      · split at h
        · obtain ⟨v, hv, h⟩ := bind_eq_ok.1 h
          cases h
          obtain ⟨rfl, hall⟩ := checked_eq_ok hv
          exact hall
        · cases h
      · cases h
    · cases h

theorem isChar_readPair {cs raw rest : List Char} {name : QName}
    (h : readPair cs = .ok ((name, raw), rest)) : ∀ c ∈ raw, isChar c = true := by
  obtain ⟨⟨name', after⟩, -, h⟩ := bind_eq_ok.1 h
  simp only at h
  split at h
  · obtain ⟨⟨value, rest'⟩, hvalue, h⟩ := bind_eq_ok.1 h
    cases h
    exact isChar_readQuoted hvalue
  · cases h

theorem readAttributes_allowed {cs rest : List Char} {attributes : List Attribute} {closed : Bool}
    (h : readAttributes cs = .ok (attributes, closed, rest)) :
    ∀ a ∈ attributes, Allowed a.value := by
  fun_induction readAttributes cs generalizing attributes closed rest with
  | case1 | case2 =>
    cases h
    exact fun a ha => by cases ha
  | case3 | case4 | case6 => cases h
  | case5 cs c more _ _ _ _ name raw rest' hpair ih =>
    obtain ⟨value, hvalue, h⟩ := bind_eq_ok.1 h
    obtain ⟨⟨others, closed', rest''⟩, hothers, h⟩ := bind_eq_ok.1 h
    cases h
    have hhead := attributeValue_allowed (isChar_readPair hpair) hvalue
    exact List.forall_mem_cons.2 ⟨hhead, ih hothers⟩

theorem readVerbatim_allowed {cs rest : List Char} {t : Token}
    (h : readVerbatim cs = .ok (t, rest)) : t.Allowed := by
  unfold readVerbatim at h
  split at h
  · cases h
  · obtain ⟨inside, hinside, h⟩ := bind_eq_ok.1 h
    cases h
    obtain ⟨rfl, hall⟩ := checked_eq_ok hinside
    exact plainData_allowed hall

theorem readStartTag_allowed {cs rest : List Char} {t : Token}
    (h : readStartTag cs = .ok (t, rest)) : t.Allowed := by
  obtain ⟨⟨name, after⟩, -, h⟩ := bind_eq_ok.1 h
  obtain ⟨⟨attributes, closed, rest'⟩, hattributes, h⟩ := bind_eq_ok.1 h
  cases h
  exact readAttributes_allowed hattributes

theorem readEndTag_allowed {cs rest : List Char} {t : Token}
    (h : readEndTag cs = .ok (t, rest)) : t.Allowed := by
  obtain ⟨⟨name, after⟩, -, h⟩ := bind_eq_ok.1 h
  simp only at h
  split at h
  · cases h
    trivial
  · cases h

theorem readInstruction_allowed {cs rest : List Char} {t : Token}
    (h : readInstruction cs = .ok (t, rest)) : t.Allowed := by
  unfold readInstruction at h
  repeat' split at h
  all_goals try cases h
  obtain ⟨_, -, h⟩ := bind_eq_ok.1 h
  cases h
  trivial

theorem readComment_allowed {cs rest : List Char} {t : Token}
    (h : readComment cs = .ok (t, rest)) : t.Allowed := by
  unfold readComment at h
  repeat' split at h
  all_goals try cases h
  obtain ⟨_, -, h⟩ := bind_eq_ok.1 h
  cases h
  trivial

theorem readMarkup_allowed {cs rest : List Char} {t : Token}
    (h : readMarkup cs = .ok (t, rest)) : t.Allowed := by
  unfold readMarkup at h
  split at h
  · exact readEndTag_allowed h
  · exact readInstruction_allowed h
  · exact readComment_allowed h
  · exact readVerbatim_allowed h
  · cases h
  · exact readStartTag_allowed h

theorem textOf_allowed {run : List Char} {t : Token} (h : textOf run = .ok t) : t.Allowed := by
  unfold textOf at h
  split at h
  · next hblank =>
    cases h
    exact plainData_allowed fun c hc => isChar_of_isSpace (List.all_eq_true.1 hblank c hc)
  · split at h
    · cases h
    · obtain ⟨cs, hcs, h⟩ := bind_eq_ok.1 h
      obtain ⟨s, hs, h⟩ := bind_eq_ok.1 h
      cases h
      obtain ⟨rfl, hall⟩ := checked_eq_ok hcs
      exact characterData_allowed hall hs

theorem tokens_allowed {cs : List Char} {ts : List Token} (h : tokens cs = .ok ts) :
    ∀ t ∈ ts, t.Allowed := by
  fun_induction tokens cs generalizing ts with
  | case1 =>
    cases h
    exact fun t ht => by cases ht
  | case2 cs e _ => cases h
  | case3 cs t rest hmarkup ih =>
    obtain ⟨others, hothers, h⟩ := bind_eq_ok.1 h
    cases h
    exact List.forall_mem_cons.2 ⟨readMarkup_allowed hmarkup, ih hothers⟩
  | case4 c cs _ ih =>
    obtain ⟨t, ht, h⟩ := bind_eq_ok.1 h
    obtain ⟨others, hothers, h⟩ := bind_eq_ok.1 h
    cases h
    exact List.forall_mem_cons.2 ⟨textOf_allowed ht, ih hothers⟩

theorem documentTokens_allowed {cs : List Char} {ts : List Token} (h : documentTokens cs = .ok ts) :
    ∀ t ∈ ts, t.Allowed := by
  simp only [documentTokens] at h
  split at h
  · exact tokens_allowed h
  · obtain ⟨rest, -, h⟩ := bind_eq_ok.1 h
    exact tokens_allowed h

/-! ## Trees -/

/-- The texts of a subtree are made of characters that XML allows. -/
inductive Node.Allowed : Node → Prop
  | element {name : String} {attributes : List (String × String)} {children : List Node}
      (values : ∀ a ∈ attributes, Xml.Allowed a.2) (below : ∀ n ∈ children, Allowed n) :
      Allowed (.element name attributes children)
  | text {s : String} (content : Xml.Allowed s) : Allowed (.text s)
  | aside : Allowed .aside

/-- The attribute values and texts of an element are made of characters that XML allows. -/
structure Element.Allowed (e : Element) : Prop where
  values : ∀ a ∈ e.attributes, Xml.Allowed a.2
  below : ∀ n ∈ e.children, n.Allowed

/-- What has been read of an open element is made of characters that XML allows. -/
structure Frame.Allowed (f : Frame) : Prop where
  values : ∀ a ∈ f.attributes, Xml.Allowed a.2
  below : ∀ n ∈ f.children, n.Allowed

/-- What has been read so far is made of characters that XML allows. -/
structure Builder.Allowed (b : Builder) : Prop where
  frames : ∀ f ∈ b.openElements, f.Allowed
  root : ∀ e ∈ b.root, e.Allowed

theorem Element.Allowed.node {e : Element} (h : e.Allowed) : e.node.Allowed :=
  .element h.values h.below

theorem Frame.Allowed.close {f : Frame} (h : f.Allowed) : f.close.Allowed :=
  ⟨h.values, fun n hn => h.below n (List.mem_reverse.1 hn)⟩

theorem addText_allowed {s : String} (hs : Allowed s) {nodes : List Node}
    (h : ∀ n ∈ nodes, n.Allowed) : ∀ n ∈ addText s nodes, n.Allowed := by
  unfold addText
  split
  · next before nodes =>
    obtain ⟨hfirst, hrest⟩ := List.forall_mem_cons.1 h
    cases hfirst with
    | text hbefore =>
      exact List.forall_mem_cons.2 ⟨.text (allowed_append.2 ⟨hbefore, hs⟩), hrest⟩
  · exact List.forall_mem_cons.2 ⟨.text hs, h⟩

/-- Only attributes of the tag are kept. -/
theorem mem_of_mem_declarations {attributes plain : List Attribute} {scope : Scope}
    (h : declarations attributes = .ok (scope, plain)) : ∀ a ∈ plain, a ∈ attributes := by
  induction attributes generalizing scope plain with
  | nil =>
    cases h
    exact fun a ha => ha
  | cons a attributes ih =>
    obtain ⟨⟨scope', plain'⟩, hrest, h⟩ := bind_eq_ok.1 h
    obtain ⟨declaration, -, h⟩ := bind_eq_ok.1 h
    have hsub : ∀ x ∈ plain', x ∈ a :: attributes :=
      fun x hx => List.mem_cons_of_mem _ (ih hrest x hx)
    split at h
    · cases h
      exact List.forall_mem_cons.2 ⟨List.mem_cons_self, hsub⟩
    · cases h
      exact hsub
    · split at h
      · cases h
        exact hsub
      · split at h
        · cases h
        · cases h
          exact hsub

theorem plainAttributes_allowed {scope : Scope} {attributes : List Attribute}
    {plain : List (String × String)} (h : plainAttributes scope attributes = .ok plain)
    (ha : ∀ a ∈ attributes, Allowed a.value) : ∀ a ∈ plain, Allowed a.2 := by
  obtain ⟨keyed, hkeyed, h⟩ := bind_eq_ok.1 h
  have hvalues : ∀ k ∈ keyed, Allowed k.2 := by
    refine forall_of_mapM_ok (p := fun k => Allowed k.2) hkeyed fun a hmem k hk => ?_
    obtain ⟨space, -, hk⟩ := bind_eq_ok.1 hk
    cases hk
    exact ha a hmem
  simp only at h
  split at h
  · cases h
    intro a hmem
    obtain ⟨⟨⟨space, name⟩, value⟩, hk, hsome⟩ := List.mem_filterMap.1 hmem
    simp only [Option.ite_none_right_eq_some, Option.some.injEq] at hsome
    obtain ⟨-, rfl⟩ := hsome
    exact hvalues _ hk
  · cases h

theorem enter_allowed {b : Builder} {name : QName} {attributes : List Attribute} {f : Frame}
    (h : b.enter name attributes = .ok f) (ha : ∀ a ∈ attributes, Allowed a.value) :
    f.Allowed := by
  simp only [Builder.enter] at h
  split at h
  · cases h
  split at h
  · cases h
  -- What is kept are attributes of the tag, whatever the namespaces are.
  obtain ⟨⟨declared, plain⟩, hdeclared, h⟩ := bind_eq_ok.1 h
  obtain ⟨kept, hkept, h⟩ := bind_eq_ok.1 h
  obtain ⟨_, -, h⟩ := bind_eq_ok.1 h
  cases h
  have hplain : ∀ a ∈ plain, Allowed a.value :=
    fun a hmem => ha a (mem_of_mem_declarations hdeclared a hmem)
  exact ⟨plainAttributes_allowed hkept hplain, fun n hn => by cases hn⟩

namespace Builder

theorem Allowed.add {b : Builder} (hb : b.Allowed) {e : Element} (he : e.Allowed) :
    (b.add e).Allowed := by
  obtain ⟨openElements, root⟩ := b
  cases openElements with
  | nil => exact ⟨hb.frames, fun x hx => Option.some.inj hx ▸ he⟩
  | cons f fs =>
    obtain ⟨hf, hfs⟩ := List.forall_mem_cons.1 hb.frames
    refine ⟨List.forall_mem_cons.2 ⟨⟨hf.values, ?_⟩, hfs⟩, hb.root⟩
    exact List.forall_mem_cons.2 ⟨he.node, hf.below⟩

/-- The innermost open element takes on a token's content. -/
theorem Allowed.extend {f : Frame} {fs : List Frame} {root : Option Element}
    (hb : (⟨f :: fs, root⟩ : Builder).Allowed) {nodes : List Node}
    (h : ∀ n ∈ nodes, n.Allowed) :
    (⟨{ f with children := nodes } :: fs, root⟩ : Builder).Allowed := by
  obtain ⟨hf, hfs⟩ := List.forall_mem_cons.1 hb.frames
  exact ⟨List.forall_mem_cons.2 ⟨⟨hf.values, h⟩, hfs⟩, hb.root⟩

theorem step_allowed {b b' : Builder} {t : Token} (hb : b.Allowed) (ht : t.Allowed)
    (h : b.step t = .ok b') : b'.Allowed := by
  obtain ⟨openElements, root⟩ := b
  cases t with
  | startTag name attributes closed =>
    obtain ⟨frame, hframe, h⟩ := bind_eq_ok.1 h
    have hnew := enter_allowed hframe ht
    simp only at h
    split at h
    · cases h
      exact hb.add hnew.close
    · cases h
      exact ⟨List.forall_mem_cons.2 ⟨hnew, hb.frames⟩, hb.root⟩
  | endTag name =>
    cases openElements with
    | nil => cases h
    | cons f fs =>
      obtain ⟨hf, hfs⟩ := List.forall_mem_cons.1 hb.frames
      simp only [step] at h
      split at h
      · cases h
        exact Allowed.add (b := ⟨fs, root⟩) ⟨hfs, hb.root⟩ hf.close
      · cases h
  | blank s | text s | verbatim s =>
    cases openElements with
    | nil =>
      cases h
      try exact hb
    | cons f fs =>
      cases h
      exact hb.extend (addText_allowed ht (List.forall_mem_cons.1 hb.frames).1.below)
  | aside =>
    cases openElements with
    | nil =>
      cases h
      exact hb
    | cons f fs =>
      cases h
      have hchildren := (List.forall_mem_cons.1 hb.frames).1.below
      exact hb.extend (List.forall_mem_cons.2 ⟨.aside, hchildren⟩)

end Builder

theorem parse_allowed {text : String} {root : Element} (h : Element.parse text = .ok root) :
    root.Allowed := by
  obtain ⟨ts, hts, h⟩ := bind_eq_ok.1 h
  obtain ⟨b, hb, h⟩ := bind_eq_ok.1 h
  have hstart : Builder.Allowed {} := ⟨fun f hf => (by cases hf), fun e he => (by cases he)⟩
  have hall := foldlM_ok_induction (p := Builder.Allowed) hb hstart
    fun t ht _ _ hc hstep => Builder.step_allowed hc (documentTokens_allowed hts t ht) hstep
  unfold Builder.finish at h
  split at h
  · next hroot =>
    cases h
    exact hall.root _ hroot
  · cases h
  · cases h

/-! ## Looking into a tree -/

namespace Node

theorem mem_textsOfAll {ns : List Node} {s : String} :
    s ∈ textsOfAll ns ↔ ∃ n ∈ ns, s ∈ n.texts := by
  induction ns with
  | nil => simp [textsOfAll]
  | cons n ns ih => simp [textsOfAll, ih]

theorem Allowed.texts {n : Node} (h : n.Allowed) : ∀ s ∈ n.texts, Xml.Allowed s := by
  induction h with
  | element _ _ ih =>
    intro s hs
    rw [Node.texts, mem_textsOfAll] at hs
    obtain ⟨n, hn, hs⟩ := hs
    exact ih n hn s hs
  | text content =>
    intro s hs
    rw [Node.texts, List.mem_singleton] at hs
    exact hs ▸ content
  | aside => exact fun s hs => by cases hs

end Node

namespace Element

variable {e : Element}

theorem Allowed.child (h : e.Allowed) {name : String} {c : Element}
    (hc : c ∈ e.childrenNamed name) : c.Allowed := by
  obtain ⟨n, hn, hnamed⟩ := List.mem_filterMap.1 hc
  have hall := h.below n hn
  cases hall with
  | element values below =>
    simp only [Node.named?, Option.ite_none_right_eq_some, Option.some.injEq] at hnamed
    obtain ⟨-, rfl⟩ := hnamed
    exact ⟨values, below⟩
  | text _ => cases hnamed
  | aside => cases hnamed

theorem Allowed.attribute? (h : e.Allowed) {name s : String} (hs : e.attribute? name = some s) :
    Xml.Allowed s := by
  obtain ⟨before, after, hsplit, -⟩ := List.lookup_eq_some_iff.1 hs
  refine h.values (name, s) ?_
  rw [hsplit]
  exact List.mem_append_right _ List.mem_cons_self

theorem Allowed.leadingText? (h : e.Allowed) {s : String} (hs : e.leadingText? = some s) :
    Xml.Allowed s := by
  unfold Element.leadingText? at hs
  split at hs
  · next first rest hchildren =>
    cases hs
    have hfirst := h.below (.text s) (by rw [hchildren]; exact List.mem_cons_self)
    cases hfirst with
    | text content => exact content
  · cases hs

theorem Allowed.allText (h : e.Allowed) : Xml.Allowed e.allText := by
  intro c hc
  rw [Element.allText, String.toList_join, List.mem_flatMap] at hc
  obtain ⟨s, hs, hc⟩ := hc
  obtain ⟨n, hn, hs⟩ := Node.mem_textsOfAll.1 hs
  exact (h.below n hn).texts s hs c hc

end Element

end LintDigest.Xml
