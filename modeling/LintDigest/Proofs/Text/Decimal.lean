import LintDigest.Text.Blank
import LintDigest.Text.Decimal

/-!
# Numbers read back

A number that is written in decimal is read back (`decimal?_trim_toString`), white space trimmed or
not.
-/

namespace LintDigest.Text

theorem toNat_of_isDigit {c : Char} (h : c.isDigit = true) : 48 ≤ c.toNat ∧ c.toNat ≤ 57 := by
  simpa [Char.isDigit, UInt32.le_iff_toNat_le] using h

theorem digitValue?_of_isDigit {c : Char} (h : c.isDigit = true) :
    digitValue? 10 c = some (c.toNat - '0'.toNat) := by
  have hc := toNat_of_isDigit h
  have h0 : '0'.toNat = 48 := rfl
  simp only [digitValue?, hc, and_self, if_true, h0, Option.filter_eq_some_iff, true_and,
    decide_eq_true_eq]
  omega

theorem digitsFrom?_of_isDigit {cs : List Char} (h : ∀ c ∈ cs, c.isDigit = true) (acc : Nat) :
    digitsFrom? 10 acc cs = some (Nat.ofDigitChars 10 cs acc) := by
  induction cs generalizing acc with
  | nil => simp [digitsFrom?]
  | cons c cs ih =>
    have hc := digitValue?_of_isDigit (h c List.mem_cons_self)
    simp only [digitsFrom?, hc, Option.bind_eq_bind, Option.bind_some, Nat.ofDigitChars_cons]
    rw [ih fun x hx => h x (List.mem_cons_of_mem _ hx), Nat.mul_comm]

theorem isDigit_of_mem_toString {n : Nat} {c : Char} (h : c ∈ (toString n).toList) :
    c.isDigit = true := by
  rw [Nat.toString_eq_repr, Nat.toList_repr] at h
  exact Nat.isDigit_of_mem_toDigits (by decide) (by decide) h

theorem decimal?_toString {n bound : Nat} (h : n ≤ bound) :
    decimal? bound (toString n).toList = some n := by
  have hd : ∀ c ∈ (toString n).toList, c.isDigit = true := fun c => isDigit_of_mem_toString
  have hv := digitsFrom?_of_isDigit hd 0
  cases hs : (toString n).toList with
  | nil => simp at hs
  | cons c cs =>
    have hc : c ≠ '+' := by
      rintro rfl
      exact absurd (hd '+' (hs ▸ List.mem_cons_self)) (by decide)
    rw [decimal?.eq_2 _ _ (fun _ e => hc (List.cons.inj e).1), digits?, ← hs, hv]
    · simp [h]
    · simp

theorem dropWhile_eq_self {p : Char → Bool} {cs : List Char} (h : ∀ c ∈ cs, p c = false) :
    cs.dropWhile p = cs := by
  cases cs with
  | nil => rfl
  | cons c cs => simp [h c List.mem_cons_self]

theorem trim_eq_self {cs : List Char} (h : ∀ c ∈ cs, isBlank c = false) : trim cs = cs := by
  rw [trim, dropWhile_eq_self h, dropWhile_eq_self (by simpa using h), List.reverse_reverse]

theorem isBlank_of_isDigit {c : Char} (h : c.isDigit = true) : isBlank c = false := by
  have hc := toNat_of_isDigit h
  simp only [isBlank, Bool.or_eq_false_iff, Bool.and_eq_false_iff, decide_eq_false_iff_not,
    beq_eq_false_iff_ne]
  omega

theorem decimal?_trim_toString {n bound : Nat} (h : n ≤ bound) :
    decimal? bound (trim (toString n).toList) = some n := by
  rw [trim_eq_self fun c hc => isBlank_of_isDigit (isDigit_of_mem_toString hc)]
  exact decimal?_toString h

end LintDigest.Text
