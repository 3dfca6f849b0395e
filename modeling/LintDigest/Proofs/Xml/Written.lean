import LintDigest.Proofs.Text.Markup
import LintDigest.Proofs.Text.Split
import LintDigest.Xml.Token

/-!
# Tags read back

Tags are written with escaped attribute values. `tokens_startTag` says what the reader makes of
such a tag in front of any text: the tag itself, values restored, if every value is made of
characters that XML allows, and else the complaint about a character.
-/

namespace LintDigest.Xml

open Markup

/-- Every character of the text is allowed in XML. -/
def Allowed (s : String) : Prop := ∀ c ∈ s.toList, isChar c = true

-- The search for an instance might decide this over all characters instead of those of the text.
instance (s : String) : Decidable (Allowed s) := List.decidableBAll _ s.toList

/-! ## References -/

theorem pieces_of_split {cs w : List Char} {ws : List (List Char)}
    (h : Text.split (· == '&') cs = w :: ws) :
    pieces cs = (ws.mapM expandReference).map fun rs => written w ++ rs.flatten := by
  rw [pieces, h]
  cases hm : ws.mapM expandReference with
  | error e => simp [hm, bind, Except.bind, Except.map]
  | ok rs => simp [hm, bind, Except.bind, Except.map, pure, Except.pure]

theorem exists_split (p : Char → Bool) (cs : List Char) : ∃ w ws, Text.split p cs = w :: ws :=
  List.exists_cons_of_ne_nil (Text.split_ne_nil p cs)

theorem pieces_cons {c : Char} (h : c ≠ '&') (cs : List Char) :
    pieces (c :: cs) = (pieces cs).map (.written c :: ·) := by
  obtain ⟨w, ws, hs⟩ := exists_split (· == '&') cs
  rw [pieces_of_split hs, pieces_of_split (Text.split_cons_of_neg (by simpa using h) hs)]
  cases ws.mapM expandReference <;> rfl

theorem pieces_reference {body : List Char} {c : Char} (hand : '&' ∉ body) (hend : ';' ∉ body)
    (hr : referent body = .ok c) (cs : List Char) :
    pieces ('&' :: body ++ ';' :: cs) = (pieces cs).map (.referred c :: ·) := by
  obtain ⟨w, ws, hs⟩ := exists_split (· == '&') cs
  have hbody : Text.split (· == '&') (body ++ ';' :: cs) = (body ++ ';' :: w) :: ws := by
    refine Text.split_append_of_neg (fun x hx => ?_) (Text.split_cons_of_neg rfl hs)
    simpa using fun e : x = '&' => hand (e ▸ hx)
  have hall : Text.split (· == '&') ('&' :: body ++ ';' :: cs) = [] :: (body ++ ';' :: w) :: ws := by
    rw [List.cons_append, Text.split, hbody]
    rfl
  have hexp : expandReference (body ++ ';' :: w) = .ok (.referred c :: written w) := by
    rw [expandReference, Text.cutAt?_singleton hend]
    simp [hr, bind, Except.bind, pure, Except.pure]
  rw [pieces_of_split hs, pieces_of_split hall, List.mapM_cons, hexp]
  cases ws.mapM expandReference <;> rfl

/-- How one character of a text comes back: special ones through a reference. -/
def piece (c : Char) : Piece :=
  if IsSpecial c then .referred c else .written c

theorem reference_of_special {c : Char} (h : IsSpecial c) :
    ∃ body, reference c = '&' :: body ++ [';'] ∧ '&' ∉ body ∧ ';' ∉ body ∧
      referent body = .ok c := by
  have all : ∀ r ∈ references,
      reference r.1 = '&' :: (reference r.1).tail.dropLast ++ [';'] ∧
        '&' ∉ (reference r.1).tail.dropLast ∧ ';' ∉ (reference r.1).tail.dropLast ∧
        referent (reference r.1).tail.dropLast = .ok r.1 := by decide
  obtain ⟨r, hr, rfl⟩ := List.mem_map.1 h
  exact ⟨_, all r hr⟩

theorem pieces_flatMap_reference (cs : List Char) :
    pieces (cs.flatMap reference) = .ok (cs.map piece) := by
  induction cs with
  | nil => rfl
  | cons c cs ih =>
    rw [List.flatMap_cons, List.map_cons]
    by_cases h : IsSpecial c
    · obtain ⟨body, hb, hand, hend, hr⟩ := reference_of_special h
      rw [hb, List.append_assoc, List.singleton_append, pieces_reference hand hend hr, ih]
      simp [piece, h, Except.map]
    · have hc : c ≠ '&' := by
        rintro rfl
        exact h (by decide)
      rw [reference_of_not_special h, List.singleton_append, pieces_cons hc, ih]
      simp [piece, h, Except.map]

/-- White space that would be normalised is always written as a reference, so none is lost. -/
theorem spaces_map_piece (cs : List Char) : spaces (cs.map piece) = cs := by
  induction cs with
  | nil => rfl
  | cons c cs ih =>
    by_cases h : IsSpecial c
    · simp only [List.map_cons, piece, h, if_true, spaces, ih]
    · have hr : c ≠ '\r' := by rintro rfl; exact h (by decide)
      have hn : c ≠ '\n' := by rintro rfl; exact h (by decide)
      have ht : c ≠ '\t' := by rintro rfl; exact h (by decide)
      have hc : (if isSpace c then ' ' else c) = c := by
        split
        · next hs => exact (by simpa [isSpace, hr, hn, ht] using hs : c = ' ').symm
        · rfl
      simp only [List.map_cons, piece, h, if_false]
      rw [spaces, ih, hc]
      exact fun _ _ e => hr e

theorem attributeValue_escape (s : String) : attributeValue (escape s).toList = .ok s := by
  rw [toList_escape, attributeValue, pieces_flatMap_reference]
  simp [bind, Except.bind, pure, Except.pure, spaces_map_piece]

/-! ## Quoted values -/

theorem all_isChar_escape (s : String) : (escape s).toList.all isChar = true ↔ Allowed s := by
  rw [toList_escape, List.all_eq_true]
  have all : ∀ r ∈ references, isChar r.1 = true ∧ (reference r.1).all isChar = true := by
    decide
  have special : ∀ c, IsSpecial c → isChar c = true ∧ (reference c).all isChar = true := by
    intro c hc
    obtain ⟨r, hr, rfl⟩ := List.mem_map.1 hc
    exact all r hr
  constructor
  · intro h c hc
    by_cases hs : IsSpecial c
    · exact (special c hs).1
    · exact h c (List.mem_flatMap.2 ⟨c, hc, by simp [reference_of_not_special hs]⟩)
  · intro h x hx
    obtain ⟨c, hc, hx⟩ := List.mem_flatMap.1 hx
    by_cases hs : IsSpecial c
    · exact List.all_eq_true.1 (special c hs).2 x hx
    · rw [reference_of_not_special hs, List.mem_singleton] at hx
      exact hx ▸ h c hc

theorem checked_escape (s : String) :
    checked (escape s).toList =
      if Allowed s then .ok (escape s).toList else .error .character := by
  simp only [checked, all_isChar_escape]

/-- Escaped text does not end the quoted value that it stands in. -/
theorem inside_escape (s : String) :
    ∀ x ∈ (escape s).toList, (x != '"' && x != '<') = true := by
  refine forall_mem_escape (fun c _ hs => ?_) (fun c hs => ?_)
  · have hq : c ≠ '"' := by rintro rfl; exact hs (by decide)
    have hl : c ≠ '<' := by rintro rfl; exact hs (by decide)
    simp [hq, hl]
  · have all : ∀ r ∈ references, (reference r.1).all (fun x => x != '"' && x != '<') = true := by
      decide
    obtain ⟨r, hr, rfl⟩ := List.mem_map.1 hs
    exact List.all_eq_true.1 (all r hr)

theorem readQuoted_escape (s : String) (rest : List Char) :
    readQuoted ('"' :: (escape s).toList ++ '"' :: rest) =
      if Allowed s then .ok ((escape s).toList, rest) else .error .character := by
  have hin := inside_escape s
  have hdrop : ((escape s).toList ++ '"' :: rest).dropWhile (fun c => c != '"' && c != '<') =
      '"' :: rest := by
    rw [List.dropWhile_append_of_pos hin]
    rfl
  have htake : ((escape s).toList ++ '"' :: rest).takeWhile (fun c => c != '"' && c != '<') =
      (escape s).toList := by
    rw [List.takeWhile_append_of_pos hin]
    simp
  simp only [List.cons_append, readQuoted, hdrop, htake, checked_escape]
  by_cases h : Allowed s <;> simp [h, bind, Except.bind, pure, Except.pure]

/-! ## Names -/

/-- A name without a namespace lead. -/
def IsPlain (name : String) : Prop :=
  (∀ c ∈ name.toList, isNameChar c = true ∧ c ≠ ':') ∧ readName.startsName name.toList = true

instance (name : String) : Decidable (IsPlain name) :=
  @instDecidableAnd _ _ (List.decidableBAll _ name.toList) inferInstance

theorem readName_plain {name : String} (h : IsPlain name) {c : Char} (hc : isNameChar c = false)
    (rest : List Char) :
    readName (name.toList ++ c :: rest) = .ok (⟨"", name⟩, c :: rest) := by
  have hn : ∀ x ∈ name.toList, isNameChar x = true := fun x hx => (h.1 x hx).1
  have htake : (name.toList ++ c :: rest).takeWhile isNameChar = name.toList := by
    rw [List.takeWhile_append_of_pos hn]
    simp [hc]
  have hdrop : (name.toList ++ c :: rest).dropWhile isNameChar = c :: rest := by
    rw [List.dropWhile_append_of_pos hn]
    simp [hc]
  have hsplit : Text.split (· == ':') name.toList = [name.toList] :=
    Text.split_of_neg fun x hx => by simpa using (h.1 x hx).2
  simp [readName, htake, hdrop, hsplit, h.2]

/-- The first character of a plain name. -/
theorem IsPlain.head {name : String} (h : IsPlain name) :
    ∃ c cs, name.toList = c :: cs ∧ isNameStart c = true := by
  have hs := h.2
  cases hn : name.toList with
  | nil => simp [hn, readName.startsName] at hs
  | cons c cs => exact ⟨c, cs, rfl, by simpa [hn, readName.startsName] using hs⟩

theorem isSpace_iff {c : Char} : isSpace c = true ↔ c = ' ' ∨ c = '\t' ∨ c = '\n' ∨ c = '\r' := by
  simp [isSpace, or_assoc]

theorem not_isSpace_of_isNameStart {c : Char} (h : isNameStart c = true) : isSpace c = false := by
  cases hs : isSpace c with
  | false => rfl
  | true => rcases isSpace_iff.1 hs with rfl | rfl | rfl | rfl <;> exact absurd h (by decide)

/-! ## Attributes -/

/-- An attribute as it is written, with a space before it. -/
def attributeText (a : String × String) : List Char :=
  ' ' :: a.1.toList ++ '=' :: '"' :: (escape a.2).toList ++ ['"']

/-- The attribute that such a text stands for. -/
def plainAttribute (a : String × String) : Attribute :=
  ⟨⟨"", a.1⟩, a.2⟩

/-- The end of a tag. -/
def tagEnd (closed : Bool) : List Char :=
  if closed then ['/', '>'] else ['>']

theorem readPair_written {name : String} (h : IsPlain name) (value : String) (rest : List Char) :
    readPair (name.toList ++ '=' :: '"' :: (escape value).toList ++ '"' :: rest) =
      if Allowed value then .ok ((⟨"", name⟩, (escape value).toList), rest)
      else .error .character := by
  have hname := readName_plain h (c := '=') (by decide)
    ('"' :: (escape value).toList ++ '"' :: rest)
  have hquoted := readQuoted_escape value rest
  simp only [List.append_assoc, List.cons_append] at hname hquoted ⊢
  have heq : ∀ cs, skipSpaces ('=' :: cs) = '=' :: cs := fun _ => rfl
  have hq : ∀ cs, skipSpaces ('"' :: cs) = '"' :: cs := fun _ => rfl
  simp only [readPair, hname, bind, Except.bind, heq, hq, hquoted]
  by_cases hv : Allowed value <;> simp [hv, pure, Except.pure]

theorem readAttributes_end (closed : Bool) (rest : List Char) :
    readAttributes (tagEnd closed ++ rest) = .ok ([], closed, rest) := by
  cases closed
  · rw [readAttributes.eq_def]; rfl
  · rw [readAttributes.eq_def]; rfl

/-- An attribute in front of more attributes. -/
theorem readAttributes_cons {c : Char} (hc : isNameStart c = true) (more : List Char) :
    readAttributes (' ' :: c :: more) =
      match readPair (c :: more) with
      | .error e => .error e
      | .ok ((name, raw), rest) => do
        let value ← attributeValue raw
        let (others, closed, rest) ← readAttributes rest
        return (⟨name, value⟩ :: others, closed, rest) := by
  have hskip : skipSpaces (' ' :: c :: more) = c :: more := by
    rw [skipSpaces, List.dropWhile_cons_of_pos rfl,
      List.dropWhile_cons_of_neg (by simp [not_isSpace_of_isNameStart hc])]
  have hgt : c ≠ '>' := by rintro rfl; exact absurd hc (by decide)
  have hslash : c ≠ '/' := by rintro rfl; exact absurd hc (by decide)
  rw [readAttributes.eq_def]
  split
  · next r hs => rw [hskip] at hs; exact absurd (List.cons.inj hs).1 hgt
  · next r hs => rw [hskip] at hs; exact absurd (List.cons.inj hs).1 hslash
  · next c' more' _ _ hs =>
    rw [hskip] at hs
    obtain ⟨rfl, rfl⟩ := List.cons.inj hs
    rw [dif_neg (by simp [startsBlank, isSpace])]
    split
    · next hp => rw [hp]
    · next hp => rw [hp]
  · next hs => rw [hskip] at hs; cases hs

/-- Written attributes are read back up to the end of their tag, unless a value has a character
that XML does not allow. -/
theorem readAttributes_written (attributes : List (String × String))
    (hn : ∀ a ∈ attributes, IsPlain a.1) (closed : Bool) (rest : List Char) :
    readAttributes (attributes.flatMap attributeText ++ (tagEnd closed ++ rest)) =
      if ∀ a ∈ attributes, Allowed a.2 then .ok (attributes.map plainAttribute, closed, rest)
      else .error .character := by
  induction attributes with
  | nil => simpa using readAttributes_end closed rest
  | cons a attributes ih =>
    obtain ⟨name, value⟩ := a
    have hplain : IsPlain name := hn _ List.mem_cons_self
    obtain ⟨c, cs, hcs, hc⟩ := hplain.head
    have hpair := readPair_written hplain value
      (attributes.flatMap attributeText ++ (tagEnd closed ++ rest))
    rw [hcs] at hpair
    simp only [List.flatMap_cons, attributeText, List.append_assoc, List.cons_append, List.nil_append,
      hcs] at hpair ⊢
    rw [readAttributes_cons hc, hpair]
    -- A bad value stops the reader before it sees the other attributes.
    by_cases hv : Allowed value
    · rw [if_pos hv]
      simp only [attributeValue_escape, ih fun a ha => hn a (List.mem_cons_of_mem _ ha), bind,
        Except.bind]
      by_cases hall : ∀ a ∈ attributes, Allowed a.2
      · have hall' : ∀ a ∈ (name, value) :: attributes, Allowed a.2 :=
          List.forall_mem_cons.2 ⟨hv, hall⟩
        rw [if_pos hall, if_pos hall']
        rfl
      · rw [if_neg hall, if_neg fun h => hall fun a ha => h a (List.mem_cons_of_mem _ ha)]
    · rw [if_neg hv, if_neg fun h => hv (h _ List.mem_cons_self)]

/-! ## Tokens -/

/-- A start tag as it is written. -/
def startTagText (name : String) (attributes : List (String × String)) (closed : Bool) :
    List Char :=
  '<' :: name.toList ++ attributes.flatMap attributeText ++ tagEnd closed

/-- An end tag as it is written. -/
def endTagText (name : String) : List Char :=
  '<' :: '/' :: name.toList ++ ['>']

theorem tokens_markup (cs : List Char) :
    tokens ('<' :: cs) =
      match readMarkup cs with
      | .error e => .error e
      | .ok (t, rest) => (tokens rest).map (t :: ·) := by
  rw [tokens]
  split
  · next h => rw [h]
  · next t rest h =>
    rw [h]
    show _ = (tokens rest).map (t :: ·)
    cases tokens rest <;> rfl

theorem readMarkup_startTag {c : Char} (hc : isNameStart c = true) (cs : List Char) :
    readMarkup (c :: cs) = readStartTag (c :: cs) := by
  unfold readMarkup
  split
  · next heq => obtain ⟨rfl, -⟩ := List.cons.inj heq; exact absurd hc (by decide)
  · next heq => obtain ⟨rfl, -⟩ := List.cons.inj heq; exact absurd hc (by decide)
  · next heq => obtain ⟨rfl, -⟩ := List.cons.inj heq; exact absurd hc (by decide)
  · next heq => obtain ⟨rfl, -⟩ := List.cons.inj heq; exact absurd hc (by decide)
  · next heq => obtain ⟨rfl, -⟩ := List.cons.inj heq; exact absurd hc (by decide)
  · rfl

/-- What follows the name of a written tag does not continue the name. -/
theorem attributes_head (attributes : List (String × String)) (closed : Bool) (rest : List Char) :
    ∃ c cs, attributes.flatMap attributeText ++ (tagEnd closed ++ rest) = c :: cs ∧
      isNameChar c = false := by
  cases attributes with
  | nil => cases closed <;> exact ⟨_, _, rfl, by decide⟩
  | cons a attributes => exact ⟨' ', _, rfl, by decide⟩

theorem tokens_startTag {name : String} (h : IsPlain name) (attributes : List (String × String))
    (hn : ∀ a ∈ attributes, IsPlain a.1) (closed : Bool) (rest : List Char) :
    tokens (startTagText name attributes closed ++ rest) =
      if ∀ a ∈ attributes, Allowed a.2 then
        (tokens rest).map (.startTag ⟨"", name⟩ (attributes.map plainAttribute) closed :: ·)
      else .error .character := by
  obtain ⟨c, cs, hcs, hc⟩ := h.head
  obtain ⟨d, ds, hds, hd⟩ := attributes_head attributes closed rest
  have hname := readName_plain h hd ds
  have hattr := readAttributes_written attributes hn closed rest
  rw [← hds] at hname
  rw [startTagText, List.append_assoc, List.append_assoc, List.cons_append, tokens_markup]
  rw [hcs] at hname ⊢
  rw [List.cons_append, readMarkup_startTag hc, readStartTag]
  rw [List.cons_append] at hname
  simp only [hname, hattr, bind, Except.bind]
  by_cases hall : ∀ a ∈ attributes, Allowed a.2
  · rw [if_pos hall, if_pos hall]
    rfl
  · rw [if_neg hall, if_neg hall]

theorem tokens_endTag {name : String} (h : IsPlain name) (rest : List Char) :
    tokens (endTagText name ++ rest) = (tokens rest).map (.endTag ⟨"", name⟩ :: ·) := by
  have hname := readName_plain h (c := '>') (by decide) rest
  have hskip : skipSpaces ('>' :: rest) = '>' :: rest := rfl
  rw [endTagText, List.append_assoc, List.cons_append, List.cons_append, tokens_markup]
  simp only [List.cons_append, List.nil_append, readMarkup, readEndTag, hname, hskip, bind,
    Except.bind, pure, Except.pure]

/-- A run of white space in front of a tag is a token of its own. -/
theorem tokens_blank {space : List Char} (hne : space ≠ []) (hs : ∀ c ∈ space, isSpace c = true)
    (rest : List Char) :
    tokens (space ++ '<' :: rest) =
      (tokens ('<' :: rest)).map (.blank (plainData space) :: ·) := by
  cases space with
  | nil => exact absurd rfl hne
  | cons c cs =>
    have hlt : ∀ x ∈ c :: cs, (x != '<') = true := by
      intro x hx
      rcases isSpace_iff.1 (hs x hx) with rfl | rfl | rfl | rfl <;> rfl
    have hcs : ∀ x ∈ cs, (x != '<') = true := fun x hx => hlt x (List.mem_cons_of_mem _ hx)
    have htext : textOf (c :: cs) = .ok (.blank (plainData (c :: cs))) := by
      rw [textOf, if_pos (List.all_eq_true.2 hs)]
    -- The run goes up to the bracket of the tag, and no further.
    rw [List.cons_append, tokens.eq_3 _ _ fun e => by simpa [e] using hlt c List.mem_cons_self,
      List.takeWhile_append_of_pos hcs, List.dropWhile_append_of_pos hcs]
    simp only [List.takeWhile_cons_of_neg (p := (· != '<')) (a := '<') (by simp), List.append_nil,
      List.dropWhile_cons_of_neg (p := (· != '<')) (a := '<') (by simp), htext, bind, Except.bind]
    cases tokens ('<' :: rest) <;> rfl

end LintDigest.Xml
