import Octet.Proofs.Placement.Image
import Octet.Proofs.Reading.Blank

/-!
# Data that can be loaded

A data line whose operands start with a quote holds a text, with nothing but blanks behind its closing
quote (`Loads.textBytes`, `blanks_of_textBytes`). Any other data line holds a list, whose operands are
hexadecimal bytes (`loadData_of_head?_ne`, `Loads.hexByte`).
-/

namespace Octet.Assembly

open Text (Blanks)

variable {operands : List Char} {token : Token}

theorem hexByte_of_loadList {bank : Bank} {address n : Nat} {values : List Token}
    (h : (loadList bank address values).2 = .ok n) (hmem : token ∈ values) :
    ∃ v, hexByte token = .ok v := by
  induction values generalizing bank address with
  | nil => cases hmem
  | cons first rest ih =>
    unfold loadList at h
    split at h
    · next v hv =>
      split at h
      · rcases List.mem_cons.mp hmem with rfl | hmem
        · exact ⟨v, hv⟩
        · exact ih h hmem
      · cases h
    · cases h

/-- Behind the closing quote of a text there are only blanks. -/
theorem blanks_of_textBytes {quoted : List Char} {bytes : List UInt8}
    (h : textBytes quoted = .ok bytes) :
    ∃ after, quoted.dropWhile (· ≠ quote) = quote :: after ∧ Blanks after := by
  unfold textBytes at h
  split at h
  · cases h
  · next c after hafter =>
    have hc : c = quote := by
      have hnot := List.head?_dropWhile_not (· ≠ quote) quoted
      rw [hafter] at hnot
      simpa using hnot
    simp only at h
    split at h
    · next hempty => exact ⟨after, hc ▸ hafter, Text.trim_eq_nil_iff.mp (by simpa using hempty)⟩
    · cases h

theorem Loads.textBytes {quoted : List Char} (h : Loads (quote :: quoted)) :
    ∃ bytes, textBytes quoted = .ok bytes := by
  obtain ⟨n, hn⟩ := h
  have hload : (loadText .zero quoted).2 = .ok n := hn .zero
  unfold loadText at hload
  split at hload
  · next bytes hbytes => exact ⟨bytes, hbytes⟩
  · cases hload

/-- Operands that do not start with a quote are a list of bytes. -/
theorem loadData_of_head?_ne (hquote : operands.head? ≠ some quote) (bank : Bank) :
    loadData bank operands = loadList bank 0 (tokens operands) := by
  unfold loadData
  split
  · rfl
  · next c rest => exact if_neg fun hc => hquote (congrArg some hc)

theorem Loads.hexByte (h : Loads operands) (hquote : operands.head? ≠ some quote)
    (hmem : token ∈ tokens operands) : ∃ v, hexByte token = .ok v := by
  obtain ⟨n, hn⟩ := h
  have hload := hn .zero
  rw [loadData_of_head?_ne hquote] at hload
  exact hexByte_of_loadList hload hmem

end Octet.Assembly
