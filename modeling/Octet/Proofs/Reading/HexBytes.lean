import Octet.Proofs.Reading.Literals

/-!
# Which tokens are hexadecimal bytes

The grammar of hexadecimal numbers, where the mark may be left out: `HexNumber`. A `HexByte` is one that
fits in a byte. The reader knows the tokens of this grammar, with their values, and no others
(`hexByte_eq_ok_iff`). What it says of another token is whether it is a number at all
(`hexByte_of_not_hexNumber`, `hexByte_of_hexNumber`).

The main statement is `hexByte_reads`.
-/

namespace Octet.Assembly

open Text (Numeral)

variable {token : Token} {v : UInt8} {n n' : Nat}

/-- Hexadecimal digits, with or without their mark, and the byte that they stand for. -/
inductive HexByte : Token → UInt8 → Prop where
  | plain {digits : List Char} {v : UInt8} (h : Numeral 16 digits v.toNat) : HexByte digits v
  | marked {mark : Char} {digits : List Char} {v : UInt8} (hmark : mark = 'x' ∨ mark = 'X')
      (h : Numeral 16 digits v.toNat) : HexByte ('0' :: mark :: digits) v

/-- Hexadecimal digits, with or without their mark, and the number that they stand for. -/
def HexNumber (token : Token) (n : Nat) : Prop :=
  Numeral 16 token n ∨
    ∃ mark digits, (mark = 'x' ∨ mark = 'X') ∧ token = '0' :: mark :: digits ∧ Numeral 16 digits n

theorem hexByte_iff_hexNumber : HexByte token v ↔ HexNumber token v.toNat := by
  constructor
  · intro h
    cases h with
    | plain h => exact .inl h
    | marked hmark h => exact .inr ⟨_, _, hmark, rfl, h⟩
  · rintro (h | ⟨mark, digits, hmark, rfl, h⟩)
    · exact .plain h
    · exact .marked hmark h

/-- The digits are what stands behind the mark, or the whole token. -/
theorem hexNumber_iff :
    HexNumber token n ↔ Numeral 16 ((Text.afterHexMark? token).getD token) n := by
  unfold HexNumber
  cases hmark : Text.afterHexMark? token with
  | none =>
    refine ⟨?_, .inl⟩
    rintro (h | ⟨mark, digits, hx, htoken, -⟩)
    · exact h
    · cases hmark.symm.trans (Text.afterHexMark?_eq_some_iff.mpr ⟨mark, hx, htoken⟩)
  | some digits =>
    obtain ⟨mark, hx, rfl⟩ := Text.afterHexMark?_eq_some_iff.mp hmark
    constructor
    · rintro (h | ⟨mark', digits', -, heq, h⟩)
      · -- the mark is no digit
        have hnone : Text.digitValue? 16 mark = none := by rcases hx with rfl | rfl <;> rfl
        exact absurd (by simp) (h.not_mem (by decide) hnone)
      · cases heq
        exact h
    · intro h
      exact .inr ⟨mark, digits, hx, rfl, h⟩

/-! ## Reading -/

/-- A number is read if it fits in a byte. -/
theorem hexByte_of_hexNumber (h : HexNumber token n) :
    hexByte token = if n < 256 then .ok (UInt8.ofNat n) else .error (.hexByteTooLarge token) := by
  have hread : Text.numeral? 16 ((Text.afterHexMark? token).getD token) = some n :=
    (Text.numeral?_eq_some_iff (by decide)).mpr (hexNumber_iff.mp h)
  unfold hexByte
  simp only [hread]

theorem hexByte_of_not_hexNumber (h : ∀ n, ¬ HexNumber token n) :
    hexByte token = .error (.notHexByte token) := by
  have hnone : Text.numeral? 16 ((Text.afterHexMark? token).getD token) = none := by
    refine Option.eq_none_iff_forall_ne_some.mpr fun n hn => h n ?_
    exact hexNumber_iff.mpr ((Text.numeral?_eq_some_iff (by decide)).mp hn)
  unfold hexByte
  simp only [hnone]

theorem HexNumber.unique (h : HexNumber token n) (h' : HexNumber token n') : n = n' := by
  rw [hexNumber_iff, ← Text.numeral?_eq_some_iff (by decide)] at h h'
  exact Option.some.inj (h.symm.trans h')

theorem hexByte_eq_ok_iff : hexByte token = .ok v ↔ HexByte token v := by
  rw [hexByte_iff_hexNumber]
  by_cases hnumber : ∃ n, HexNumber token n
  · obtain ⟨n, h⟩ := hnumber
    have hvalue : HexNumber token v.toNat ↔ n = v.toNat :=
      ⟨fun h' => h.unique h', fun heq => heq ▸ h⟩
    rw [hexByte_of_hexNumber h, hvalue]
    by_cases hlt : n < 256
    · rw [if_pos hlt, Except.ok.injEq, ← UInt8.toNat_inj, UInt8.toNat_ofNat_of_lt' hlt]
    · rw [if_neg hlt]
      refine ⟨nofun, ?_⟩
      rintro rfl
      exact absurd v.toNat_lt hlt
  · rw [hexByte_of_not_hexNumber (not_exists.mp hnumber)]
    exact ⟨nofun, fun h => absurd ⟨_, h⟩ hnumber⟩

theorem hexByte_eq_error_iff : (∃ cause, hexByte token = .error cause) ↔ ∀ v, ¬ HexByte token v := by
  simp only [← hexByte_eq_ok_iff]
  cases hexByte token <;> simp

theorem hexByte_eq_tooLarge_iff :
    hexByte token = .error (.hexByteTooLarge token) ↔ ∃ n, HexNumber token n ∧ 255 < n := by
  constructor
  · intro hread
    by_cases hnumber : ∃ n, HexNumber token n
    · obtain ⟨n, h⟩ := hnumber
      refine ⟨n, h, ?_⟩
      by_contra hle
      rw [hexByte_of_hexNumber h, if_pos (by omega)] at hread
      cases hread
    · rw [hexByte_of_not_hexNumber (not_exists.mp hnumber)] at hread
      cases hread
  · rintro ⟨n, h, hlt⟩
    rw [hexByte_of_hexNumber h, if_neg (by omega)]

theorem hexByte_eq_notHexByte_iff :
    hexByte token = .error (.notHexByte token) ↔ ∀ n, ¬ HexNumber token n := by
  refine ⟨?_, hexByte_of_not_hexNumber⟩
  intro hread n h
  rw [hexByte_of_hexNumber h] at hread
  split at hread <;> cases hread

/-- **Which tokens are hexadecimal bytes.** A token is read as a byte exactly if it is one or more
hexadecimal digits in either case, with or without `0x` or `0X` in front of them and however many zeros
are among them, and they stand for this byte. Every other token is an invalid operand: one that is
too large if it is a number, and one that is no number otherwise. -/
theorem hexByte_reads (token : Token) :
    (∀ v, hexByte token = .ok v ↔ HexByte token v) ∧
      ((∃ cause, (hexByte token).mapError Cause.invalidOperand = .error (.invalidOperand cause)) ↔
        ∀ v, ¬ HexByte token v) ∧
      (hexByte token = .error (.hexByteTooLarge token) ↔ ∃ n, HexNumber token n ∧ 255 < n) ∧
      (hexByte token = .error (.notHexByte token) ↔ ∀ n, ¬ HexNumber token n) := by
  refine ⟨fun v => hexByte_eq_ok_iff, ?_, hexByte_eq_tooLarge_iff, hexByte_eq_notHexByte_iff⟩
  rw [← hexByte_eq_error_iff]
  cases hexByte token <;> simp [Except.mapError]

/-- One mark is left out at most. -/
example : hexByte "0X00fF".toList = .ok 255 ∧
    hexByte "0x0x1".toList = .error (.notHexByte "0x0x1".toList) := by decide

end Octet.Assembly
