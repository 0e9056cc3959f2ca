import Octet.Proofs.Placement.Loads
import Octet.Proofs.Placement.Recoding
import Octet.Proofs.Reading.DataLine
import Octet.Proofs.Reading.HexBytes

/-!
# What data lines hold

Operands of a data line either stand for some bytes, a text or a list (`Payload`), or something is
wrong with them (`Refused`), and which of the two it is depends on the operands only. `loadData_eq_ok_iff`
and `loadData_eq_error_iff` tell both what is stored and what is answered.

A text is looked at as a whole before any of it is stored. The values of a list are stored one by one,
so a list that is refused leaves the values in front of the one that it is refused for
(`stored_of_refused`).
-/

namespace Octet.Assembly

open Text (Blanks numbers)

variable {cs quoted operands : List Char} {read : List Token} {bytes stored : List UInt8}
  {bank bank' : Bank} {cause : Cause} {address n : Nat}

/-! ## Texts -/

theorem latinBytes_of_wide {front back : List Char} {c : Char} (hfront : ∀ d ∈ front, d.toNat < 256)
    (hc : 256 ≤ c.toNat) : latinBytes (front ++ c :: back) = .error (.wideCharacter c) := by
  induction front with
  | nil => exact if_neg (by omega)
  | cons d front ih =>
    rw [List.forall_mem_cons] at hfront
    rw [List.cons_append, latinBytes, if_pos hfront.1, ih hfront.2]
    rfl

/-- The first character that is no byte, if there is one. -/
theorem exists_wide (h : ¬ ∀ c ∈ cs, c.toNat < 256) :
    ∃ front c back, cs = front ++ c :: back ∧ (∀ d ∈ front, d.toNat < 256) ∧ 256 ≤ c.toNat := by
  induction cs with
  | nil => exact absurd nofun h
  | cons d cs ih =>
    by_cases hd : d.toNat < 256
    · have hcs : ¬ ∀ c ∈ cs, c.toNat < 256 := fun hall => h (List.forall_mem_cons.mpr ⟨hd, hall⟩)
      obtain ⟨front, c, back, rfl, hfront, hc⟩ := ih hcs
      exact ⟨d :: front, c, back, rfl, List.forall_mem_cons.mpr ⟨hd, hfront⟩, hc⟩
    · exact ⟨[], d, cs, rfl, nofun, by omega⟩

theorem textBytes_of_notMem (h : quote ∉ quoted) :
    textBytes quoted = .error (.invalidOperand .unterminatedText) := by
  have hdrop : quoted.dropWhile (· ≠ quote) = [] := by
    rw [List.dropWhile_eq_nil_iff]
    intro c hc
    exact decide_eq_true fun heq => h (heq ▸ hc)
  rw [textBytes, hdrop]

/-- A text ends at the first quote. -/
theorem takeWhile_ne_quote (hquote : quote ∉ cs) (after : List Char) :
    (cs ++ quote :: after).takeWhile (· ≠ quote) = cs := by
  have hother : ∀ c ∈ cs, decide (c ≠ quote) = true := by
    intro c hc
    exact decide_eq_true fun heq => hquote (heq ▸ hc)
  rw [List.takeWhile_append_of_pos hother, List.takeWhile_cons_of_neg (by simp), List.append_nil]

theorem dropWhile_ne_quote (hquote : quote ∉ cs) (after : List Char) :
    (cs ++ quote :: after).dropWhile (· ≠ quote) = quote :: after := by
  have hsplit := List.takeWhile_append_dropWhile (p := fun c => decide (c ≠ quote))
    (l := cs ++ quote :: after)
  rw [takeWhile_ne_quote hquote] at hsplit
  exact List.append_cancel_left hsplit

/-- What is read of a text is what stands before the first quote; behind it there may be blanks. -/
theorem textBytes_closed (hquote : quote ∉ cs) (after : List Char) :
    textBytes (cs ++ quote :: after) =
      if Blanks after then
        match latinBytes cs with
        | .ok bytes => if bytes.length < 256 then .ok bytes else .error (.textTooLong bytes.length)
        | .error cause => .error (.invalidOperand cause)
      else .error (.invalidOperand (.textAfterQuote (Text.trim after))) := by
  have hempty : (Text.trim after).isEmpty = true ↔ Blanks after := by
    rw [List.isEmpty_iff, Text.trim_eq_nil_iff]
  rw [textBytes, dropWhile_ne_quote hquote, takeWhile_ne_quote hquote]
  exact if_congr hempty rfl rfl

/-! ## Lists -/

/-- Storing a list goes on behind the values that it starts with. -/
theorem loadList_append (hread : List.Forall₂ HexByte read bytes)
    (hroom : address + bytes.length ≤ listLimit) (rest : List Token) :
    loadList bank address (read ++ rest) =
      loadList (bank.writeBytes (UInt8.ofNat address) bytes) (address + bytes.length) rest := by
  induction hread generalizing bank address with
  | nil => rfl
  | @cons token v read bytes hv _ ih =>
    rw [List.length_cons] at hroom
    have hnext : UInt8.ofNat (address + 1) = UInt8.ofNat address + 1 := by
      rw [UInt8.ofNat_add]
      rfl
    rw [List.cons_append, loadList, hexByte_eq_ok_iff.mpr hv]
    simp only
    rw [if_pos (by omega), ih (by omega), hnext, List.length_cons, Nat.add_assoc,
      Nat.add_comm 1]
    rfl

/-- A list is read to its end, or up to a value that is refused or for which there is no room. -/
theorem exists_read (values : List Token) (room : Nat) :
    (∃ bytes, List.Forall₂ HexByte values bytes ∧ bytes.length ≤ room) ∨
      ∃ read token rest bytes, values = read ++ token :: rest ∧ List.Forall₂ HexByte read bytes ∧
        bytes.length ≤ room ∧
          ((∀ v, ¬ HexByte token v) ∨ bytes.length = room ∧ ∃ v, HexByte token v) := by
  induction values generalizing room with
  | nil => exact .inl ⟨[], .nil, Nat.zero_le _⟩
  | cons token values ih =>
    cases hv : hexByte token with
    | error cause =>
      have hnone : ∀ v, ¬ HexByte token v := hexByte_eq_error_iff.mp ⟨cause, hv⟩
      exact .inr ⟨[], token, values, [], rfl, .nil, Nat.zero_le _, .inl hnone⟩
    | ok v =>
      rw [hexByte_eq_ok_iff] at hv
      cases room with
      | zero => exact .inr ⟨[], token, values, [], rfl, .nil, Nat.le_refl _, .inr ⟨rfl, v, hv⟩⟩
      | succ room =>
        obtain ⟨bytes, hbytes, hroom⟩ | ⟨read, token', rest, bytes, rfl, hread, hroom, hnext⟩ := ih room
        · exact .inl ⟨v :: bytes, .cons hv hbytes, Nat.succ_le_succ hroom⟩
        · refine .inr ⟨token :: read, token', rest, v :: bytes, rfl, .cons hv hread,
            Nat.succ_le_succ hroom, ?_⟩
          exact hnext.imp_right fun ⟨hfull, hvalue⟩ => ⟨congrArg (· + 1) hfull, hvalue⟩

/-! ## Operands -/

/-- Operands that are loaded, and the bytes that they stand for: the numbers of the characters of a
text and a zero behind them, or the values of a list. -/
inductive Payload : List Char → List UInt8 → Prop where
  | text {cs after : List Char} (hquote : quote ∉ cs) (hafter : Blanks after)
      (hbytes : ∀ c ∈ cs, c.toNat < 256) (hlength : cs.length < 256) :
      Payload (quote :: (cs ++ quote :: after)) (numbers cs ++ [0])
  | list {operands : List Char} {bytes : List UInt8} (hhead : operands.head? ≠ some quote)
      (hvalues : List.Forall₂ HexByte (tokens operands) bytes) (hlength : bytes.length ≤ listLimit) :
      Payload operands bytes

/-- Operands that are refused, the values that have been read until then, and what is wrong. -/
inductive Refused : List Char → List UInt8 → Cause → Prop where
  | unterminated {quoted : List Char} (hquote : quote ∉ quoted) :
      Refused (quote :: quoted) [] (.invalidOperand .unterminatedText)
  | trailing {cs after : List Char} (hquote : quote ∉ cs) (hafter : ¬ Blanks after) :
      Refused (quote :: (cs ++ quote :: after)) []
        (.invalidOperand (.textAfterQuote (Text.trim after)))
  | wide {front back after : List Char} {c : Char} (hquote : quote ∉ front ++ c :: back)
      (hafter : Blanks after) (hfront : ∀ d ∈ front, d.toNat < 256) (hc : 256 ≤ c.toNat) :
      Refused (quote :: (front ++ c :: back ++ quote :: after)) [] (.invalidOperand (.wideCharacter c))
  | long {cs after : List Char} (hquote : quote ∉ cs) (hafter : Blanks after)
      (hbytes : ∀ c ∈ cs, c.toNat < 256) (hlength : 256 ≤ cs.length) :
      Refused (quote :: (cs ++ quote :: after)) [] (.textTooLong cs.length)
  | value {operands : List Char} {read rest : List Token} {token : Token} {bytes : List UInt8}
      {cause : OperandCause} (hhead : operands.head? ≠ some quote)
      (htokens : tokens operands = read ++ token :: rest) (hread : List.Forall₂ HexByte read bytes)
      (hroom : bytes.length ≤ listLimit) (hcause : hexByte token = .error cause) :
      Refused operands bytes (.invalidOperand cause)
  | excess {operands : List Char} {read rest : List Token} {token : Token} {bytes : List UInt8}
      {v : UInt8} (hhead : operands.head? ≠ some quote)
      (htokens : tokens operands = read ++ token :: rest) (hread : List.Forall₂ HexByte read bytes)
      (hroom : bytes.length = listLimit) (hvalue : HexByte token v) :
      Refused operands bytes .listTooLong

theorem Payload.length_le (h : Payload operands bytes) : bytes.length ≤ 256 := by
  cases h with
  | text _ _ _ hlength =>
    rw [List.length_append, length_numbers]
    exact hlength
  | list _ _ hlength => exact Nat.le_trans hlength (by decide)

theorem Refused.length_le (h : Refused operands stored cause) : stored.length ≤ 256 := by
  cases h with
  | value _ _ _ hroom _ => exact Nat.le_trans hroom (by decide)
  | excess _ _ _ hroom _ => exact Nat.le_trans (Nat.le_of_eq hroom) (by decide)
  | _ => exact Nat.zero_le _

/-- Nothing has been read of a text that is refused. -/
theorem Refused.eq_nil_of_text (h : Refused (quote :: quoted) stored cause) : stored = [] := by
  generalize hoperands : quote :: quoted = operands at h
  have hhead : operands.head? = some quote := by rw [← hoperands]; rfl
  cases h with
  | value hne => exact absurd hhead hne
  | excess hne => exact absurd hhead hne
  | _ => rfl

/-- What can be loaded is stored from address zero on. -/
theorem Payload.loadData (h : Payload operands bytes) (bank : Bank) :
    loadData bank operands = (bank.writeBytes 0 bytes, .ok bytes.length) := by
  cases h with
  | @text cs after hquote hafter hbytes hlength =>
    show loadText bank (cs ++ quote :: after) = _
    rw [loadText, textBytes_closed hquote, if_pos hafter, latinBytes_of_lt hbytes]
    simp only [length_numbers, if_pos hlength]
    rw [Bank.writeBytes_append, UInt8.zero_add, length_numbers, List.length_append, length_numbers]
    rfl
  | list hhead hvalues hlength =>
    have hroom : 0 + bytes.length ≤ listLimit := by omega
    rw [loadData_of_head?_ne hhead, ← List.append_nil (tokens operands),
      loadList_append hvalues hroom, loadList, Nat.zero_add]
    rfl

/-- What is refused leaves the values that have been read until then. -/
theorem Refused.loadData (h : Refused operands stored cause) (bank : Bank) :
    loadData bank operands = (bank.writeBytes 0 stored, .error cause) := by
  cases h with
  | @unterminated quoted hquote =>
    show loadText bank quoted = _
    rw [loadText, textBytes_of_notMem hquote]
    rfl
  | @trailing cs after hquote hafter =>
    show loadText bank (cs ++ quote :: after) = _
    rw [loadText, textBytes_closed hquote, if_neg hafter]
    rfl
  | @wide front back after c hquote hafter hfront hc =>
    show loadText bank (front ++ c :: back ++ quote :: after) = _
    rw [loadText, textBytes_closed hquote, if_pos hafter, latinBytes_of_wide hfront hc]
    rfl
  | @long cs after hquote hafter hbytes hlength =>
    have hnot : ¬ cs.length < 256 := by omega
    show loadText bank (cs ++ quote :: after) = _
    rw [loadText, textBytes_closed hquote, if_pos hafter, latinBytes_of_lt hbytes]
    simp only [length_numbers, if_neg hnot]
    rfl
  | value hhead htokens hread hroom hcause =>
    rw [← Nat.zero_add stored.length] at hroom
    rw [loadData_of_head?_ne hhead, htokens, loadList_append hread hroom, loadList, hcause]
    rfl
  | excess hhead htokens hread hroom hvalue =>
    have hle : 0 + stored.length ≤ listLimit := by omega
    have hfull : ¬ 0 + stored.length < listLimit := by omega
    rw [loadData_of_head?_ne hhead, htokens, loadList_append hread hle, loadList,
      hexByte_eq_ok_iff.mpr hvalue]
    simp only [if_neg hfull]
    rfl

/-- There are no other operands. -/
theorem payload_or_refused (operands : List Char) :
    (∃ bytes, Payload operands bytes) ∨ ∃ stored cause, Refused operands stored cause := by
  by_cases hhead : operands.head? = some quote
  · obtain ⟨quoted, rfl⟩ := List.head?_eq_some_iff.mp hhead
    by_cases hmem : quote ∈ quoted
    · obtain ⟨cs, after, rfl, hquote⟩ := List.eq_append_cons_of_mem hmem
      by_cases hafter : Blanks after
      · by_cases hbytes : ∀ c ∈ cs, c.toNat < 256
        · by_cases hlength : cs.length < 256
          · exact .inl ⟨_, .text hquote hafter hbytes hlength⟩
          · exact .inr ⟨_, _, .long hquote hafter hbytes (by omega)⟩
        · obtain ⟨front, c, back, rfl, hfront, hc⟩ := exists_wide hbytes
          exact .inr ⟨_, _, .wide hquote hafter hfront hc⟩
      · exact .inr ⟨_, _, .trailing hquote hafter⟩
    · exact .inr ⟨_, _, .unterminated hmem⟩
  · obtain ⟨bytes, hvalues, hlength⟩ | ⟨read, token, rest, bytes, htokens, hread, hroom, hnext⟩ :=
      exists_read (tokens operands) listLimit
    · exact .inl ⟨bytes, .list hhead hvalues hlength⟩
    · obtain hnone | ⟨hfull, v, hvalue⟩ := hnext
      · obtain ⟨cause, hcause⟩ := hexByte_eq_error_iff.mpr hnone
        exact .inr ⟨_, _, .value hhead htokens hread hroom hcause⟩
      · exact .inr ⟨_, _, .excess hhead htokens hread hfull hvalue⟩

theorem loadData_eq_ok_iff :
    loadData bank operands = (bank', .ok n) ↔
      ∃ bytes, Payload operands bytes ∧ bank' = bank.writeBytes 0 bytes ∧ n = bytes.length := by
  constructor
  · intro h
    obtain ⟨bytes, hpayload⟩ | ⟨stored, cause, hrefused⟩ := payload_or_refused operands
    · rw [hpayload.loadData] at h
      cases h
      exact ⟨bytes, hpayload, rfl, rfl⟩
    · rw [hrefused.loadData] at h
      cases h
  · rintro ⟨bytes, hpayload, rfl, rfl⟩
    exact hpayload.loadData bank

theorem loadData_eq_error_iff :
    loadData bank operands = (bank', .error cause) ↔
      ∃ stored, Refused operands stored cause ∧ bank' = bank.writeBytes 0 stored := by
  constructor
  · intro h
    obtain ⟨bytes, hpayload⟩ | ⟨stored, cause', hrefused⟩ := payload_or_refused operands
    · rw [hpayload.loadData] at h
      cases h
    · rw [hrefused.loadData] at h
      cases h
      exact ⟨stored, hrefused, rfl⟩
  · rintro ⟨stored, hrefused, rfl⟩
    exact hrefused.loadData bank

/-- The operands that can be loaded are those that stand for bytes. -/
theorem loads_iff_payload : Loads operands ↔ ∃ bytes, Payload operands bytes := by
  constructor
  · rintro ⟨n, hn⟩
    have hload : loadData .zero operands = ((loadData .zero operands).1, .ok n) :=
      Prod.ext rfl (hn .zero)
    obtain ⟨bytes, hbytes, -⟩ := loadData_eq_ok_iff.mp hload
    exact ⟨bytes, hbytes⟩
  · rintro ⟨bytes, hbytes⟩
    exact ⟨bytes.length, fun bank => by rw [hbytes.loadData]⟩

/-! ## What a refused line leaves -/

/-- A run of bytes changes nothing exactly if it was there before. -/
theorem writeBytes_zero_eq_self_iff (h : stored.length ≤ 256) :
    bank.writeBytes 0 stored = bank ↔
      ∀ i v, stored[i]? = some v → bank.read (UInt8.ofNat i) = v := by
  constructor
  · intro hsame i v hv
    obtain ⟨hi, -⟩ := List.getElem?_eq_some_iff.mp hv
    have hlt : i < 256 := by omega
    have haddress : (UInt8.ofNat i).toNat = i := UInt8.toNat_ofNat_of_lt' hlt
    rw [← hsame, Bank.read_writeBytes_zero bank h, haddress, hv]
    rfl
  · intro hkept
    refine Bank.eq_of_read fun a => ?_
    rw [Bank.read_writeBytes_zero bank h]
    cases hv : stored[a.toNat]? with
    | none => rfl
    | some v =>
      have hread := hkept a.toNat v hv
      rw [UInt8.ofNat_toNat] at hread
      exact hread.symm

/-- **What a refused data line leaves.** Nothing of a text is stored if something is wrong with it. Of a
list, exactly the values are stored that stand in front of the one it is refused for, so the bank
stays as it was only if it held them already. -/
theorem stored_of_refused (bank : Bank) (operands : List Char) (cause : Cause)
    (h : (loadData bank operands).2 = .error cause) :
    (operands.head? = some quote → (loadData bank operands).1 = bank) ∧
      ∃ stored, Refused operands stored cause ∧
        (loadData bank operands).1 = bank.writeBytes 0 stored ∧
        ((loadData bank operands).1 = bank ↔
          ∀ i v, stored[i]? = some v → bank.read (UInt8.ofNat i) = v) := by
  have hload : loadData bank operands = ((loadData bank operands).1, .error cause) :=
    Prod.ext rfl h
  obtain ⟨stored, hrefused, hbank⟩ := loadData_eq_error_iff.mp hload
  rw [hbank]
  refine ⟨?_, stored, hrefused, rfl, writeBytes_zero_eq_self_iff hrefused.length_le⟩
  intro hhead
  obtain ⟨quoted, rfl⟩ := List.head?_eq_some_iff.mp hhead
  rw [hrefused.eq_nil_of_text]
  rfl

theorem stored_of_refused_second :
    ∃ cause, (loadData .zero "1 zz".toList).2 = .error cause ∧
      ∃ stored, Refused "1 zz".toList stored cause ∧
        (loadData .zero "1 zz".toList).1 = Bank.zero.writeBytes 0 stored ∧
        ((loadData .zero "1 zz".toList).1 = .zero ↔
          ∀ i v, stored[i]? = some v → Bank.zero.read (UInt8.ofNat i) = v) :=
  ⟨_, rfl, (stored_of_refused .zero _ _ rfl).2⟩

/-- So a list can be refused and the bank be another one behind it. -/
theorem refused_list_stores :
    (loadData .zero "1 zz".toList).2 = .error (.invalidOperand (.notHexByte "zz".toList)) ∧
      (loadData .zero "1 zz".toList).1.read 0 = 1 ∧ (loadData .zero "1 zz".toList).1 ≠ .zero := by
  have hread : (loadData .zero "1 zz".toList).1.read 0 = 1 := by decide
  refine ⟨rfl, hread, ?_⟩
  intro hsame
  rw [hsame, Bank.read_zero] at hread
  cases hread

end Octet.Assembly
