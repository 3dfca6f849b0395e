import LintDigest.Text.Decimal
import LintDigest.Text.Split
import LintDigest.Xml.Alphabet
import LintDigest.Xml.Fault

/-!
# Tokens of XML

A text is cut into tags, runs of character data, comments and instructions. References are
expanded and line ends normalised on the way. Each reader returns what it read together with the
rest of the text, which is a suffix of what it was given; the loop of `tokens` ends for that reason.
-/

namespace LintDigest.Xml

/-- A name with an optional namespace lead, written `lead:base`. -/
structure QName where
  lead : String := ""
  base : String
  deriving DecidableEq, Inhabited

/-- An attribute with its value, references expanded. -/
structure Attribute where
  name : QName
  value : String
  deriving DecidableEq, Inhabited

/-- One lexical unit of a document. -/
inductive Token
  /-- A start tag; `closed` when it ends in `/>`. -/
  | startTag (name : QName) (attributes : List Attribute) (closed : Bool)
  | endTag (name : QName)
  /-- Character data between markup. -/
  | text (content : String)
  /-- Character data that is nothing but white space, written out. -/
  | blank (content : String)
  /-- A `CDATA` section. -/
  | verbatim (content : String)
  /-- A comment or a processing instruction. -/
  | aside
  deriving DecidableEq, Inhabited

/-! ## Character data -/

/-- Checks that every character is allowed in XML. -/
def checked (cs : List Char) : Except Fault (List Char) :=
  if cs.all isChar then .ok cs else .error .character

/-- Checking what a reader took leaves the rest of the text alone. -/
theorem rest_eq_of_checked {α : Type} {inside rest rest' : List Char} {f : List Char → α} {a : α}
    (h : (do return (f (← checked inside), rest) : Except Fault (α × List Char)) =
      .ok (a, rest')) :
    rest = rest' := by
  cases hk : checked inside with
  | error e => simp [hk, bind, Except.bind] at h
  | ok v =>
    simp only [hk, bind, Except.bind, pure, Except.pure, Except.ok.injEq, Prod.mk.injEq] at h
    exact h.2

/-- One character of a run: as it is written, or through a reference. -/
inductive Piece
  | written (c : Char)
  | referred (c : Char)
  deriving DecidableEq, Inhabited

/-- Characters as they are written. -/
def written (cs : List Char) : List Piece := cs.map .written

/-- Line ends of character data: a written carriage return, alone or before a line feed, is a line
feed. It stays as it is in front of a reference, and at the end of a run that it closes directly
behind a reference. -/
def lineFeeds : (afterReference : Bool) → List Piece → List Char
  | _, .written '\r' :: .written '\n' :: ps => '\n' :: lineFeeds false ps
  | _, .written '\r' :: .written c :: ps => '\n' :: lineFeeds false (.written c :: ps)
  | _, .written '\r' :: .referred c :: ps => '\r' :: c :: lineFeeds true ps
  | afterReference, [.written '\r'] => [if afterReference then '\r' else '\n']
  | _, .written c :: ps => c :: lineFeeds false ps
  | _, .referred c :: ps => c :: lineFeeds true ps
  | _, [] => []

/-- White space in an attribute value: each written line end and each written tab is one space. -/
def spaces : List Piece → List Char
  | .written '\r' :: .written '\n' :: ps => ' ' :: spaces ps
  | .written c :: ps => (if isSpace c then ' ' else c) :: spaces ps
  | .referred c :: ps => c :: spaces ps
  | [] => []

/-- The character with a code point; a surrogate or a number beyond Unicode gives U+FFFD. -/
def codePoint (n : Nat) : Char :=
  if n.isValidChar then Char.ofNat n else Char.ofNat 0xFFFD

/-- The character that a reference stands for, given what stands between `&` and `;`. -/
def referent (body : List Char) : Except Fault Char :=
  match body with
  | '#' :: 'x' :: digits => numeric 16 digits
  | '#' :: digits => numeric 10 digits
  | ['q', 'u', 'o', 't'] => .ok '"'
  | ['a', 'm', 'p'] => .ok '&'
  | ['a', 'p', 'o', 's'] => .ok '\x27'
  | ['l', 't'] => .ok '<'
  | ['g', 't'] => .ok '>'
  | _ => .error .reference
where
  /-- A reference by number. -/
  numeric (radix : Nat) (digits : List Char) : Except Fault Char :=
    match Text.digits? radix Text.maxWord digits with
    | none => .error .reference
    | some n => if isChar (codePoint n) then .ok (codePoint n) else .error .reference

/-- Reads what follows an ampersand: a reference and the text behind it. -/
def expandReference (cs : List Char) : Except Fault (List Piece) :=
  match Text.cutAt? [';'] cs with
  | none => .error .reference
  | some (body, tail) => do return .referred (← referent body) :: written tail

/-- The characters of a run, its references expanded. -/
def pieces (cs : List Char) : Except Fault (List Piece) :=
  match Text.split (· == '&') cs with
  | [] => .ok []
  | first :: references => do
    return written first ++ (← references.mapM expandReference).flatten

/-- The value of an attribute. -/
def attributeValue (cs : List Char) : Except Fault String := do
  return String.ofList (spaces (← pieces cs))

/-- The text of a run of character data. -/
def characterData (cs : List Char) : Except Fault String := do
  return String.ofList (lineFeeds false (← pieces cs))

/-- The text of a run without references. -/
def plainData (cs : List Char) : String :=
  String.ofList (lineFeeds false (written cs))

/-! ## Names and attributes -/

/-- Reads a name with at most one colon. -/
def readName (cs : List Char) : Except Fault (QName × List Char) :=
  match Text.split (· == ':') (cs.takeWhile isNameChar) with
  | [base] =>
    if startsName base then .ok (⟨"", String.ofList base⟩, cs.dropWhile isNameChar)
    else .error .name
  | [lead, base] =>
    if (lead.isEmpty || startsName lead) && startsName base then
      .ok (⟨String.ofList lead, String.ofList base⟩, cs.dropWhile isNameChar)
    else .error .name
  | _ => .error .name
where
  /-- The part is not empty and its first character may start a name. -/
  startsName (part : List Char) : Bool :=
    match part with
    | [] => false
    | c :: _ => isNameStart c

/-- The text behind leading white space. -/
def skipSpaces (cs : List Char) : List Char :=
  cs.dropWhile isSpace

/-- Reads a quoted value as it is written; neither its quote nor `<` occurs in it. -/
def readQuoted : List Char → Except Fault (List Char × List Char)
  | quote :: cs =>
    if quote == '"' || quote == '\x27' then
      let inside := fun c => c != quote && c != '<'
      match cs.dropWhile inside with
      | c :: rest =>
        if c == quote then do return (← checked (cs.takeWhile inside), rest)
        else .error .badAttribute
      | [] => .error .badAttribute
    else .error .badAttribute
  | [] => .error .badAttribute

/-- Reads `name="value"`, with white space around the equals sign; the value is as written. -/
def readPair (cs : List Char) : Except Fault ((QName × List Char) × List Char) := do
  let (name, cs) ← readName cs
  match skipSpaces cs with
  | '=' :: cs =>
    let (value, rest) ← readQuoted (skipSpaces cs)
    return ((name, value), rest)
  | _ => .error .badAttribute

theorem readName_suffix {cs rest : List Char} {name : QName}
    (h : readName cs = .ok (name, rest)) : rest <:+ cs := by
  unfold readName at h
  split at h
  · split at h
    · cases h; exact List.dropWhile_suffix _
    · cases h
  · split at h
    · cases h; exact List.dropWhile_suffix _
    · cases h
  · cases h

theorem skipSpaces_suffix (cs : List Char) : skipSpaces cs <:+ cs :=
  List.dropWhile_suffix _

theorem readQuoted_suffix {cs value rest : List Char}
    (h : readQuoted cs = .ok (value, rest)) : rest <:+ cs := by
  cases cs with
  | nil => cases h
  | cons quote cs =>
    simp only [readQuoted] at h
    split at h
    · split at h
      · next c rest' hd =>
        split at h
        · have hs : c :: rest' <:+ cs := hd ▸ List.dropWhile_suffix _
          exact rest_eq_of_checked h ▸
            ((List.suffix_cons c rest').trans hs).trans (List.suffix_cons quote cs)
        · cases h
      · cases h
    · cases h

theorem readPair_suffix {cs rest : List Char} {pair : QName × List Char}
    (h : readPair cs = .ok (pair, rest)) : rest <:+ cs := by
  simp only [readPair, bind, Except.bind] at h
  split at h
  · cases h
  · next nr hn =>
    obtain ⟨name, after⟩ := nr
    have hname := readName_suffix hn
    split at h
    · next cs' heq =>
      split at h
      · cases h
      · next vr hv =>
        obtain ⟨value, rest'⟩ := vr
        simp only [pure, Except.pure, Except.ok.injEq, Prod.mk.injEq] at h
        have h1 := readQuoted_suffix hv
        have h2 : '=' :: cs' <:+ after := heq ▸ skipSpaces_suffix after
        have h3 := (h1.trans (skipSpaces_suffix cs')).trans (List.suffix_cons '=' cs')
        exact h.2 ▸ (h3.trans h2).trans hname
    · cases h

/-- Whether a text starts with white space. -/
def startsBlank : List Char → Bool
  | c :: _ => isSpace c
  | [] => false

theorem length_skipSpaces_lt {cs : List Char} (h : startsBlank cs = true) :
    (skipSpaces cs).length < cs.length := by
  cases cs with
  | nil => cases h
  | cons c cs =>
    have hc : isSpace c = true := h
    have hle := (skipSpaces_suffix cs).length_le
    simp only [skipSpaces, List.dropWhile_cons, hc, if_true, List.length_cons] at hle ⊢
    omega

/-- Reads the attributes of a tag up to its end, and whether it ends in `/>`. An attribute needs
white space before it. -/
def readAttributes (cs : List Char) : Except Fault (List Attribute × Bool × List Char) :=
  match _hs : skipSpaces cs with
  | '>' :: rest => .ok ([], false, rest)
  | '/' :: '>' :: rest => .ok ([], true, rest)
  | c :: more =>
    if _hb : startsBlank cs = false then .error .tag
    else
      match _hp : readPair (c :: more) with
      | .error e => .error e
      | .ok ((name, raw), rest) => do
        let value ← attributeValue raw
        let (others, closed, rest) ← readAttributes rest
        return (⟨name, value⟩ :: others, closed, rest)
  | [] => .error .tag
  termination_by cs.length
  decreasing_by
    have hlt := length_skipSpaces_lt (by simpa using _hb)
    have hle := (readPair_suffix _hp).length_le
    rw [_hs] at hlt
    omega

theorem readAttributes_suffix {cs rest : List Char} {attributes : List Attribute} {closed : Bool}
    (h : readAttributes cs = .ok (attributes, closed, rest)) : rest <:+ cs := by
  fun_induction readAttributes cs generalizing attributes closed rest with
  | case1 cs rest' hs =>
    cases h
    exact (List.suffix_cons _ _).trans (hs ▸ skipSpaces_suffix cs)
  | case2 cs rest' hs =>
    cases h
    exact ((List.suffix_cons _ _).trans (List.suffix_cons _ _)).trans (hs ▸ skipSpaces_suffix cs)
  | case3 => cases h
  | case4 => cases h
  | case5 cs c more _ _ hs _ name raw rest' hp ih =>
    cases hv : attributeValue raw with
    | error e => simp [hv, bind, Except.bind] at h
    | ok value =>
      cases hr : readAttributes rest' with
      | error e => simp [hv, hr, bind, Except.bind] at h
      | ok r =>
        obtain ⟨others, closed', rest''⟩ := r
        simp only [hv, hr, bind, Except.bind, pure, Except.pure, Except.ok.injEq,
          Prod.mk.injEq] at h
        have h1 := ih hr
        have h2 := readPair_suffix hp
        exact h.2.2 ▸ (h1.trans h2).trans (hs ▸ skipSpaces_suffix cs)
  | case6 => cases h

/-! ## Markup -/

/-- Reads a comment from behind `<!--`: no `--` inside, and no `-` at the end. -/
def readComment (cs : List Char) : Except Fault (Token × List Char) :=
  match Text.cutAt? ['-', '-', '>'] cs with
  | none => .error .comment
  | some (inside, rest) =>
    if (Text.cutAt? ['-', '-'] inside).isSome || inside.getLast? == some '-' then .error .comment
    else do
      let _ ← checked inside
      return (.aside, rest)

/-- Reads a `CDATA` section from behind its opening bracket. -/
def readVerbatim (cs : List Char) : Except Fault (Token × List Char) :=
  match Text.cutAt? [']', ']', '>'] cs with
  | none => .error .characterData
  | some (inside, rest) => do
    return (.verbatim (plainData (← checked inside)), rest)

/-- Reads a processing instruction from behind `<?`; `xml` and a space would be a declaration. -/
def readInstruction (cs : List Char) : Except Fault (Token × List Char) :=
  if (Text.after? ['x', 'm', 'l', ' '] cs).isSome then .error .declaration
  else
    match cs with
    | [] => .error .instruction
    | c :: _ =>
      if isNameStart c then
        match Text.cutAt? ['?', '>'] (skipSpaces (cs.dropWhile isNameChar)) with
        | none => .error .instruction
        | some (inside, rest) => do
          let _ ← checked inside
          return (.aside, rest)
      else .error .instruction

/-- Reads an end tag from behind `</`. -/
def readEndTag (cs : List Char) : Except Fault (Token × List Char) := do
  let (name, cs) ← readName cs
  match skipSpaces cs with
  | '>' :: rest => return (.endTag name, rest)
  | _ => .error .tag

/-- Reads a start tag from behind `<`. -/
def readStartTag (cs : List Char) : Except Fault (Token × List Char) := do
  let (name, cs) ← readName cs
  let (attributes, closed, rest) ← readAttributes cs
  return (.startTag name attributes closed, rest)

/-- Reads markup from behind `<`. -/
def readMarkup (cs : List Char) : Except Fault (Token × List Char) :=
  match cs with
  | '/' :: cs => readEndTag cs
  | '?' :: cs => readInstruction cs
  | '!' :: '-' :: '-' :: cs => readComment cs
  | '!' :: '[' :: 'C' :: 'D' :: 'A' :: 'T' :: 'A' :: '[' :: cs => readVerbatim cs
  | '!' :: _ => .error .definition
  | cs => readStartTag cs

/-- The character data that a run writes; `]]>` must not occur in it. -/
def textOf (run : List Char) : Except Fault Token :=
  if run.all isSpace then .ok (.blank (plainData run))
  else if (Text.cutAt? [']', ']', '>'] run).isSome then .error .characterData
  else do return .text (← characterData (← checked run))

theorem cutAt?_suffix {mark cs before rest : List Char}
    (h : Text.cutAt? mark cs = some (before, rest)) : rest <:+ cs := by
  induction cs generalizing before with
  | nil =>
    rw [Text.cutAt?] at h
    split at h
    · cases h; exact List.nil_suffix
    · cases h
  | cons c cs ih =>
    rw [Text.cutAt?] at h
    split at h
    · next r hr =>
      simp only [Option.some.injEq, Prod.mk.injEq] at h
      rw [Text.after?_eq_some hr, ← h.2]
      exact List.suffix_append _ _
    · obtain ⟨⟨b, r⟩, hb, he⟩ := Option.map_eq_some_iff.1 h
      simp only [Prod.mk.injEq] at he
      obtain ⟨-, rfl⟩ := he
      exact (ih hb).trans (List.suffix_cons c cs)

theorem readComment_suffix {cs rest : List Char} {t : Token}
    (h : readComment cs = .ok (t, rest)) : rest <:+ cs := by
  unfold readComment at h
  split at h
  · cases h
  · next inside rest' hc =>
    split at h
    · cases h
    · exact rest_eq_of_checked h ▸ cutAt?_suffix hc

theorem readVerbatim_suffix {cs rest : List Char} {t : Token}
    (h : readVerbatim cs = .ok (t, rest)) : rest <:+ cs := by
  unfold readVerbatim at h
  split at h
  · cases h
  · next inside rest' hc => exact rest_eq_of_checked h ▸ cutAt?_suffix hc

theorem readInstruction_suffix {cs rest : List Char} {t : Token}
    (h : readInstruction cs = .ok (t, rest)) : rest <:+ cs := by
  unfold readInstruction at h
  split at h
  · cases h
  · split at h
    · cases h
    · split at h
      · split at h
        · cases h
        · next inside rest' hc =>
          exact rest_eq_of_checked h ▸
            ((cutAt?_suffix hc).trans (skipSpaces_suffix _)).trans (List.dropWhile_suffix _)
      · cases h

theorem readEndTag_suffix {cs rest : List Char} {t : Token}
    (h : readEndTag cs = .ok (t, rest)) : rest <:+ cs := by
  simp only [readEndTag, bind, Except.bind] at h
  split at h
  · cases h
  · next nr hn =>
    obtain ⟨name, after⟩ := nr
    split at h
    · next rest' hs =>
      cases h
      have hafter := (List.suffix_cons _ _).trans (hs ▸ skipSpaces_suffix after)
      exact hafter.trans (readName_suffix hn)
    · cases h

theorem readStartTag_suffix {cs rest : List Char} {t : Token}
    (h : readStartTag cs = .ok (t, rest)) : rest <:+ cs := by
  simp only [readStartTag, bind, Except.bind] at h
  split at h
  · cases h
  · next nr hn =>
    obtain ⟨name, after⟩ := nr
    split at h
    · cases h
    · next ar ha =>
      obtain ⟨attributes, closed, rest'⟩ := ar
      simp only [pure, Except.pure, Except.ok.injEq, Prod.mk.injEq] at h
      exact h.2 ▸ (readAttributes_suffix ha).trans (readName_suffix hn)

theorem readMarkup_suffix {cs rest : List Char} {t : Token}
    (h : readMarkup cs = .ok (t, rest)) : rest <:+ cs := by
  unfold readMarkup at h
  split at h
  · exact (readEndTag_suffix h).trans (List.suffix_cons _ _)
  · exact (readInstruction_suffix h).trans (List.suffix_cons _ _)
  · exact (readComment_suffix h).trans (List.suffix_append ['!', '-', '-'] _)
  · exact (readVerbatim_suffix h).trans
      (List.suffix_append ['!', '[', 'C', 'D', 'A', 'T', 'A', '['] _)
  · cases h
  · exact readStartTag_suffix h

/-- The tokens of a text, from the first to the last. -/
def tokens (cs : List Char) : Except Fault (List Token) :=
  match cs with
  | [] => .ok []
  | '<' :: cs =>
    match _h : readMarkup cs with
    | .error e => .error e
    | .ok (t, rest) => do return t :: (← tokens rest)
  | c :: cs => do
    let t ← textOf (c :: cs.takeWhile (· != '<'))
    return t :: (← tokens (cs.dropWhile (· != '<')))
  termination_by cs.length
  decreasing_by
    · have := (readMarkup_suffix _h).length_le
      simp only [List.length_cons]
      omega
    · have := (List.dropWhile_suffix (l := cs) (· != '<')).length_le
      simp only [List.length_cons]
      omega

/-! ## The head of a document -/

/-- White space that must follow an attribute of the declaration, unless the declaration ends. -/
def declarationGap (cs : List Char) : Except Fault (List Char) :=
  match cs with
  | [] => .ok []
  | '?' :: '>' :: _ => .ok cs
  | c :: _ => if isSpace c then .ok (skipSpaces cs) else .error .declaration

/-- Reads an attribute of the declaration if the text starts with `word`. -/
def declarationPair (word : String) (cs : List Char) : Except Fault (List Char) :=
  match Text.after? word.toList cs with
  | none => .ok cs
  | some _ => do return (← readPair cs).2

/-- Reads the declaration from behind `<?xml`: a version, then perhaps an encoding and whether the
document stands alone. -/
def readDeclaration (cs : List Char) : Except Fault (List Char) := do
  let cs ← declarationGap cs
  if (Text.after? "version".toList cs).isNone then throw Fault.declaration
  let cs ← declarationGap (← declarationPair "version" cs)
  let cs ←
    if (Text.after? "encoding".toList cs).isSome then
      declarationGap (← declarationPair "encoding" cs)
    else pure cs
  let cs ← declarationPair "standalone" cs
  match skipSpaces cs with
  | '?' :: '>' :: rest => return rest
  | _ => throw Fault.declaration

/-- The tokens of a document: a byte order mark and a declaration at its head are no tokens. -/
def documentTokens (cs : List Char) : Except Fault (List Token) :=
  let cs := (Text.after? [Char.ofNat 0xFEFF] cs).getD cs
  match Text.after? "<?xml ".toList cs with
  | none => tokens cs
  | some rest => do tokens (← readDeclaration (' ' :: rest))

end LintDigest.Xml
