import Mathlib.Data.String.Basic

/-!
# The order of bytes

Texts compare character by character. Their UTF-8 bytes compare the same way (`utf8_lt`): of two
characters the lower one has the lower bytes, and no character's bytes begin those of another.
-/

namespace LintDigest.Text

/-- The bytes of a text in UTF-8. -/
def utf8 (s : String) : List UInt8 := s.toUTF8.data.toList

theorem utf8_eq (s : String) : utf8 s = s.toList.flatMap String.utf8EncodeChar := by
  have hencode := congrArg (·.data.toList) (String.utf8Encode_toList (b := s))
  simp only [List.utf8Encode, List.data_toByteArray] at hencode
  exact hencode.symm

/-- A lower first byte decides, and equal ones leave it to the rest. -/
theorem ofNat_cons_lt {m n : Nat} {xs ys : List UInt8} (hn : n < 256) (hle : m ≤ n)
    (h : m = n → xs < ys) : UInt8.ofNat m :: xs < UInt8.ofNat n :: ys := by
  rw [List.cons_lt_cons_iff]
  rcases Nat.lt_or_eq_of_le hle with hlt | rfl
  · left
    rw [UInt8.lt_iff_toNat_lt, UInt8.toNat_ofNat', UInt8.toNat_ofNat']
    omega
  · exact .inr ⟨rfl, h rfl⟩

/-- The bytes of a lower character come first, whatever follows. -/
theorem utf8EncodeChar_lt {c d : Char} (h : c < d) (xs ys : List UInt8) :
    String.utf8EncodeChar c ++ xs < String.utf8EncodeChar d ++ ys := by
  have hlt : c.val.toNat < d.val.toNat := h
  have hd : d.val.toNat < 0x110000 := by
    rcases d.valid with hd | hd <;> omega
  simp only [String.utf8EncodeChar]
  generalize c.val.toNat = m at hlt ⊢
  generalize d.val.toNat = n at hlt hd ⊢
  -- Characters with different numbers of bytes differ in the first one.
  split_ifs <;> simp only [List.cons_append, List.nil_append] <;>
    try exact ofNat_cons_lt (by omega) (by omega) fun h => by omega
  · refine ofNat_cons_lt (by omega) (by omega) fun h₁ => ?_
    exact ofNat_cons_lt (by omega) (by omega) fun h₂ => by omega
  · refine ofNat_cons_lt (by omega) (by omega) fun h₁ => ?_
    refine ofNat_cons_lt (by omega) (by omega) fun h₂ => ?_
    exact ofNat_cons_lt (by omega) (by omega) fun h₃ => by omega
  · refine ofNat_cons_lt (by omega) (by omega) fun h₁ => ?_
    refine ofNat_cons_lt (by omega) (by omega) fun h₂ => ?_
    refine ofNat_cons_lt (by omega) (by omega) fun h₃ => ?_
    exact ofNat_cons_lt (by omega) (by omega) fun h₄ => by omega

theorem utf8EncodeChar_ne_nil (c : Char) : String.utf8EncodeChar c ≠ [] := by
  simp only [String.utf8EncodeChar]
  split_ifs <;> simp

theorem flatMap_lt {cs ds : List Char} (h : cs < ds) :
    cs.flatMap String.utf8EncodeChar < ds.flatMap String.utf8EncodeChar := by
  induction h with
  | @nil d ds =>
    obtain ⟨b, bs, hb⟩ := List.exists_cons_of_ne_nil (utf8EncodeChar_ne_nil d)
    rw [List.flatMap_cons, hb]
    exact .nil
  | rel h => exact utf8EncodeChar_lt h _ _
  | cons _ ih => exact List.append_left_lt ih

/-- The bytes of texts compare as the texts do. -/
theorem utf8_lt {s t : String} (h : s < t) : utf8 s < utf8 t := by
  rw [utf8_eq, utf8_eq]
  exact flatMap_lt (String.lt_iff_toList_lt.1 h)

theorem utf8_lt_iff {s t : String} : utf8 s < utf8 t ↔ s < t := by
  refine ⟨fun h => ?_, utf8_lt⟩
  rcases lt_trichotomy s t with hlt | rfl | hgt
  · exact hlt
  · exact absurd h (List.lt_irrefl _)
  · exact absurd h (List.lt_asymm (utf8_lt hgt))

end LintDigest.Text
