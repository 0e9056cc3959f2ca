import Octet.Proofs.Placement.Image
import Octet.Proofs.Reading.Lines

/-!
# Reading data lines

A quoted text comes through the reading of a line character by character, whatever the characters
are: marks between the quotes start no comment, and only the blanks outside are dropped
(`read?_data_text`). It is stored as the numbers of its characters and a zero (`loadData_text`).
-/

namespace Octet

/-- The numbers of characters, as bytes. -/
def Text.numbers (cs : List Char) : List UInt8 :=
  cs.map fun c => UInt8.ofNat c.toNat

namespace Assembly

open Text (Trimmed Solid numbers)

variable {marks cs : List Char}

/-! ## Texts on a line -/

/-- A text between quotes, as the operand of a data line. -/
def quotedText (cs : List Char) : List Char :=
  quote :: cs ++ [quote]

theorem trimmed_quotedText (cs : List Char) : Trimmed (quotedText cs) := by
  have hquote : Trimmed [quote] := .of_solid (.of_all (by decide))
  exact hquote.append (List.cons_ne_nil _ _) hquote (List.cons_ne_nil _ _) cs

theorem beforeComment_quotedText (hquote : quote ∉ marks) (h : quote ∉ cs) :
    beforeComment marks false (quotedText cs) = quotedText cs := by
  have hclosing : beforeComment marks true [quote] = [quote] := rfl
  unfold quotedText
  rw [List.cons_append, beforeComment, if_neg (by simp [hquote]),
    show quotedAfter false quote = true from rfl, beforeComment_append (beforeComment_of_quoted h),
    foldl_quotedAfter_of_notMem h, hclosing]

/-- A data line with a text is read as it stands. -/
theorem read?_data_text (isa : Isa) (number : Nat) (h : quote ∉ cs) :
    Line.read? isa.commentMarks number (dataMnemonic ++ ' ' :: quotedText cs) =
      some { number, label := none, mnemonic := some dataMnemonic, operands := quotedText cs } := by
  have hquote : quote ∉ isa.commentMarks := by cases isa <;> decide
  have hbefore : beforeComment isa.commentMarks false (dataMnemonic ++ ' ' :: quotedText cs) =
      dataMnemonic ++ ' ' :: quotedText cs := by
    have hword : beforeComment isa.commentMarks false (dataMnemonic ++ [' ']) =
        dataMnemonic ++ [' '] := by cases isa <;> rfl
    rw [List.append_cons, beforeComment_append hword,
      show (dataMnemonic ++ [' ']).foldl quotedAfter false = false from rfl,
      beforeComment_quotedText hquote h]
  have hsolid : Solid dataMnemonic := .of_all (by decide)
  have htrimmed : Trimmed (dataMnemonic ++ [' '] ++ quotedText cs) :=
    (Trimmed.of_solid hsolid).append (List.cons_ne_nil _ _) (trimmed_quotedText cs)
      (List.cons_ne_nil _ _) [' ']
  rw [← List.append_cons] at htrimmed
  have hsplit : Text.splitWord (dataMnemonic ++ ' ' :: quotedText cs) =
      (dataMnemonic, quotedText cs) := by
    have hblank : ∀ c, (' ' :: quotedText cs).head? = some c → Text.isBlank c = true := by
      intro c hc
      obtain rfl := Option.some.inj hc
      decide
    have hrest : Text.trim (' ' :: quotedText cs) = quotedText cs :=
      (Text.trim_blanks_append _ (.singleton (by decide))).trans (trimmed_quotedText cs).trim_eq
    rw [Text.splitWord_append hsolid hblank, hrest]
  have hlabel : labelOf? dataMnemonic = none := by decide
  have hcode : Text.trim (beforeComment isa.commentMarks false
      (dataMnemonic ++ ' ' :: quotedText cs)) = dataMnemonic ++ ' ' :: quotedText cs := by
    rw [hbefore, htrimmed.trim_eq]
  rw [read?_of_code hcode (List.cons_ne_nil _ _), Line.ofCode_of_word hsplit hlabel]
  rfl

/-! ## Texts in memory -/

theorem latinBytes_of_lt (h : ∀ c ∈ cs, c.toNat < 256) : latinBytes cs = .ok (numbers cs) := by
  induction cs with
  | nil => rfl
  | cons c cs ih =>
    rw [latinBytes, if_pos (h c List.mem_cons_self), ih fun d hd => h d (List.mem_cons_of_mem c hd)]
    rfl

theorem length_numbers (cs : List Char) : (numbers cs).length = cs.length :=
  List.length_map _

/-- The data memory as a text leaves it. -/
def writeText (bank : Bank) (cs : List Char) : Bank :=
  (bank.writeBytes 0 (numbers cs)).write (UInt8.ofNat cs.length) 0

theorem loadData_text (bank : Bank) (hquote : quote ∉ cs) (hbytes : ∀ c ∈ cs, c.toNat < 256)
    (hlength : cs.length < 256) :
    loadData bank (quotedText cs) = (writeText bank cs, .ok (cs.length + 1)) := by
  have hother : ∀ c ∈ cs, decide (c ≠ quote) = true := by
    intro c hc
    exact decide_eq_true fun heq => hquote (heq ▸ hc)
  have htext : textBytes (cs ++ [quote]) = .ok (numbers cs) := by
    have hdrop : (cs ++ [quote]).dropWhile (· ≠ quote) = [quote] := by
      rw [List.dropWhile_append_of_pos hother]
      rfl
    have htake : (cs ++ [quote]).takeWhile (· ≠ quote) = cs := by
      rw [List.takeWhile_append_of_pos hother]
      exact List.append_nil cs
    rw [textBytes, hdrop, htake]
    have hroom : (numbers cs).length < 256 := (length_numbers cs).symm ▸ hlength
    simp [Trimmed.nil.trim_eq, latinBytes_of_lt hbytes, hroom]
  show loadText bank (cs ++ [quote]) = _
  rw [loadText, htext]
  simp only [writeText, length_numbers]

theorem toList_writeText (hlength : cs.length < 256) :
    (writeText .zero cs).toList = numbers cs ++ List.replicate (256 - cs.length) 0 := by
  have hroom : (numbers cs).length ≤ 256 := by
    rw [length_numbers]
    exact Nat.le_of_lt hlength
  have hindex : (UInt8.ofNat cs.length).toNat = cs.length := UInt8.toNat_ofNat_of_lt' hlength
  rw [writeText, Bank.toList_write, Bank.toList_writeBytes_zero hroom, hindex, length_numbers,
    List.set_append_right _ _ (Nat.le_of_eq (length_numbers cs)), length_numbers, Nat.sub_self]
  -- the zero replaces a zero
  obtain ⟨n, hn⟩ : ∃ n, 256 - cs.length = n + 1 := ⟨255 - cs.length, by omega⟩
  rw [hn]
  rfl

end Assembly

end Octet
