import Octet.Assembly.Resolve
import Octet.Proofs.Reading.Parts

/-!
# Numbers that are written are read again

A byte in base ten is read as a literal of this value (`Assembly.literal_decimal`), and two hexadecimal
digits as an address (`Assembly.hexByte_hexUpper`). Where there are no labels, what is written in base
ten is also the target of a jump, if it is below the limit (`Assembly.Context.target_decimal`).
-/

namespace Octet

namespace Text

variable {c : Char} {cs : List Char}

/-! ## Base ten -/

theorem digitValue?_of_isDigit (h : c.isDigit = true) : digitValue? 10 c = some (c.toNat - 48) := by
  have hrange := isDigit_iff.mp h
  have hdigit : '0' ≤ c ∧ c ≤ '9' := hrange
  simp only [digitValue?, if_pos hdigit, Option.filter_some]
  exact if_pos (decide_eq_true (show c.toNat - 48 < 10 by omega))

theorem digitsValue?_of_isDigit (h : ∀ c ∈ cs, c.isDigit = true) (read : Nat) :
    digitsValue? 10 read cs = some (Nat.ofDigitChars 10 cs read) := by
  induction cs generalizing read with
  | nil => rfl
  | cons c cs ih =>
    rw [List.forall_mem_cons] at h
    rw [digitsValue?, digitValue?_of_isDigit h.1, Nat.ofDigitChars_cons, Nat.mul_comm 10]
    exact ih h.2 _

theorem toList_decimal (v : UInt8) : (decimal v).toList = Nat.toDigits 10 v.toNat :=
  Nat.toList_repr

theorem decimal_ne_nil (v : UInt8) : (decimal v).toList ≠ [] := by
  rw [toList_decimal]
  exact Nat.toDigits_ne_nil

theorem isDigit_of_mem_decimal {v : UInt8} (h : c ∈ (decimal v).toList) : c.isDigit = true := by
  rw [toList_decimal] at h
  exact Nat.isDigit_of_mem_toDigits (by decide) (by decide) h

/-- The digits of a number have it as their value. -/
theorem numeral?_toDigits (n : Nat) : numeral? 10 (Nat.toDigits 10 n) = some n := by
  have hdigits : ∀ c ∈ Nat.toDigits 10 n, c.isDigit = true := fun _ =>
    Nat.isDigit_of_mem_toDigits (by decide) (by decide)
  have hvalue := digitsValue?_of_isDigit hdigits 0
  rw [Nat.ofDigitChars_toDigits (by decide) (by decide)] at hvalue
  rw [← hvalue]
  obtain ⟨c, cs, hcs⟩ := List.exists_cons_of_ne_nil (Nat.toDigits_ne_nil (b := 10) (n := n))
  rw [hcs]
  rfl

theorem numeral?_decimal (v : UInt8) : numeral? 10 (decimal v).toList = some v.toNat := by
  rw [toList_decimal]
  exact numeral?_toDigits v.toNat

theorem afterHexMark?_of_isDigit (h : ∀ c ∈ cs, c.isDigit = true) : afterHexMark? cs = none := by
  unfold afterHexMark?
  split
  · exact absurd (h 'x' (by simp)) (by decide)
  · exact absurd (h 'X' (by simp)) (by decide)
  · rfl

theorem unsigned?_of_isDigit (base bound : Nat) (h : ∀ c ∈ cs, c.isDigit = true) :
    unsigned? base bound cs = (numeral? base cs).filter (· < bound) := by
  unfold unsigned?
  split
  · exact absurd (h '+' List.mem_cons_self) (by decide)
  · rfl

/-! ## Base sixteen -/

theorem digitValue?_hexDigit : ∀ n < 16, digitValue? 16 (hexDigit n).toUpper = some n := by
  decide

theorem isAlphanum_hexDigit : ∀ n < 16, (hexDigit n).toUpper.isAlphanum = true := by
  decide

theorem toList_hexUpper (b : UInt8) : (hexUpper b).toList =
    [(hexDigit (b.toNat / 16)).toUpper, (hexDigit (b.toNat % 16)).toUpper] :=
  String.toList_ofList

theorem digits_lt (b : UInt8) : b.toNat / 16 < 16 ∧ b.toNat % 16 < 16 := by
  have hlt := b.toNat_lt
  omega

theorem isAlphanum_of_mem_hexUpper {b : UInt8} (h : c ∈ (hexUpper b).toList) :
    c.isAlphanum = true := by
  obtain ⟨hhigh, hlow⟩ := digits_lt b
  rw [toList_hexUpper, List.mem_pair] at h
  rcases h with rfl | rfl
  · exact isAlphanum_hexDigit _ hhigh
  · exact isAlphanum_hexDigit _ hlow

theorem numeral?_hexUpper (b : UInt8) : numeral? 16 (hexUpper b).toList = some b.toNat := by
  obtain ⟨hhigh, hlow⟩ := digits_lt b
  rw [toList_hexUpper]
  simp only [numeral?, digitsValue?, digitValue?_hexDigit _ hhigh, digitValue?_hexDigit _ hlow,
    Nat.zero_mul, Nat.zero_add, Nat.div_add_mod']

theorem afterHexMark?_hexUpper (b : UInt8) : afterHexMark? (hexUpper b).toList = none := by
  have hdigits : ∀ n < 16, (hexDigit n).toUpper ≠ 'x' ∧ (hexDigit n).toUpper ≠ 'X' := by decide
  obtain ⟨hlower, hupper⟩ := hdigits _ (digits_lt b).2
  rw [toList_hexUpper]
  unfold afterHexMark?
  split
  · next heq => simp [hlower] at heq
  · next heq => simp [hupper] at heq
  · rfl

end Text

namespace Assembly

variable {ctx : Context} {v : UInt8}

theorem looksLikeLabel_of_isDigit {token : Token} (h : ∀ c ∈ token, c.isDigit = true) :
    looksLikeLabel token = false := by
  cases token with
  | nil => rfl
  | cons c token =>
    have hrange := Text.isDigit_iff.mp (h c List.mem_cons_self)
    have halpha : c.isAlpha = false := by
      rw [Bool.eq_false_iff, Ne, Text.isAlpha_iff]
      omega
    have hother : c ≠ '_' ∧ c ≠ '.' := by
      refine ⟨?_, ?_⟩ <;> rintro rfl <;> exact absurd hrange (by decide)
    simp [looksLikeLabel, halpha, hother]

theorem literal_decimal (v : UInt8) : literal (Text.decimal v).toList = .ok v := by
  have hdigits : ∀ c ∈ (Text.decimal v).toList, c.isDigit = true := fun _ =>
    Text.isDigit_of_mem_decimal
  have hquote : (Text.decimal v).toList.head? ≠ some quote := by
    intro hhead
    exact absurd (hdigits quote (List.mem_of_head? hhead)) (by decide)
  have hlt := v.toNat_lt
  have hbound : v.toNat < numberBound := Nat.lt_trans hlt (by decide)
  simp only [literal, if_neg hquote, Text.afterHexMark?_of_isDigit hdigits,
    Text.unsigned?_of_isDigit 10 numberBound hdigits, Text.numeral?_decimal, Option.filter_some,
    decide_eq_true hbound, if_true, if_pos (show v.toNat < 256 from hlt), UInt8.ofNat_toNat]

theorem hexByte_hexUpper (b : UInt8) : hexByte (Text.hexUpper b).toList = .ok b := by
  simp only [hexByte, Text.afterHexMark?_hexUpper, Option.getD_none, Text.numeral?_hexUpper,
    if_pos (show b.toNat < 256 from b.toNat_lt), UInt8.ofNat_toNat]

namespace Context

theorem value_decimal (h : ctx.labels = []) (v : UInt8) :
    ctx.value (Text.decimal v).toList = .ok v := by
  have hlabel := looksLikeLabel_of_isDigit fun _ => Text.isDigit_of_mem_decimal (v := v)
  simp [value, h, LabelTable.address?, hlabel, literal_decimal, Except.mapError]

theorem target_decimal (h : ctx.labels = []) (hv : v < directTargetLimit) :
    ctx.target (Text.decimal v).toList = .ok v := by
  simp [target, h, LabelTable.address?, value_decimal h, hv]

end Context

end Assembly

end Octet
