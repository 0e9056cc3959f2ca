import Mathlib.Data.List.Induction
import Mathlib.Order.Bounds.Basic
import Octet.Bank

/-!
# Runs of bytes in a bank

A run of bytes goes on at zero after address 255, so a long one comes to an address again every 256
bytes: at the indices in `landings`. Of the bytes that come to an address the last one stays there
(`read_of_landings`). A run from zero on that is no longer than the bank stands in it as it is
(`read_writeBytes_zero`, `toList_writeBytes_zero`).

The main statement is `read_writeBytes`.
-/

namespace Octet.Bank

variable {bank bank' : Bank} {start a : UInt8} {bytes bytes' : List UInt8} {n : Nat}

/-! ## What a bank holds -/

theorem toList_write {address value : UInt8} :
    (bank.write address value).toList = bank.toList.set address.toNat value := by
  unfold toList write
  rw [Vector.toList_set]

theorem read_eq_getElem (bank : Bank) (address : UInt8) :
    some (bank.read address) = bank.toList[address.toNat]? := by
  have hlength : address.toNat < bank.toList.length := by
    rw [length_toList]
    exact address.toNat_lt
  rw [List.getElem?_eq_getElem hlength]
  simp [read, toList]

theorem toList_eq_of_read {list : List UInt8} (hlength : list.length = 256)
    (h : ∀ a, list[a.toNat]? = some (bank.read a)) : bank.toList = list := by
  refine List.ext_getElem? fun i => ?_
  by_cases hi : i < 256
  · have haddress : (UInt8.ofNat i).toNat = i := UInt8.toNat_ofNat_of_lt' hi
    rw [← haddress, ← read_eq_getElem, h]
  · rw [List.getElem?_eq_none (by rw [length_toList]; omega), List.getElem?_eq_none (by omega)]

/-- Banks in which the same is read everywhere are the same. -/
theorem eq_of_read (h : ∀ a, bank.read a = bank'.read a) : bank = bank' := by
  have hlist : bank.toList = bank'.toList :=
    toList_eq_of_read bank'.length_toList fun a => by rw [h, read_eq_getElem]
  have hbank := bank.ofList?_toList
  rw [hlist, ofList?_toList] at hbank
  exact (Option.some.inj hbank).symm

/-! ## Where the bytes of a run land -/

/-- The indices at which a run of bytes comes to an address. -/
def landings (start : UInt8) (length : Nat) (a : UInt8) : Set Nat :=
  {i | i < length ∧ (start.toNat + i) % 256 = a.toNat}

theorem isGreatest_landings (h : (start.toNat + n) % 256 = a.toNat) :
    IsGreatest (landings start (n + 1) a) n :=
  ⟨⟨Nat.lt_succ_self n, h⟩, fun _ hi => Nat.le_of_lt_succ hi.1⟩

theorem landings_succ_of_ne (h : (start.toNat + n) % 256 ≠ a.toNat) :
    landings start (n + 1) a = landings start n a := by
  ext i
  constructor
  · rintro ⟨hlt, hi⟩
    have hne : i ≠ n := by
      rintro rfl
      exact h hi
    exact ⟨by omega, hi⟩
  · rintro ⟨hlt, hi⟩
    exact ⟨Nat.lt_succ_of_lt hlt, hi⟩

/-! ## What is read behind a run -/

theorem writeBytes_append :
    bank.writeBytes start (bytes ++ bytes') =
      (bank.writeBytes start bytes).writeBytes (start + UInt8.ofNat bytes.length) bytes' := by
  induction bytes generalizing bank start with
  | nil => simp [writeBytes]
  | cons b rest ih =>
    rw [List.cons_append, writeBytes, ih, writeBytes, List.length_cons, UInt8.ofNat_add,
      UInt8.add_assoc]
    congr 1
    rw [UInt8.add_comm 1]
    rfl

/-- One more byte is read where it lands, and the run before it everywhere else. -/
theorem read_writeBytes_concat (bank : Bank) (start b a : UInt8) (bytes : List UInt8) :
    (bank.writeBytes start (bytes ++ [b])).read a =
      if (start.toNat + bytes.length) % 256 = a.toNat then b
      else (bank.writeBytes start bytes).read a := by
  have haddress : start + UInt8.ofNat bytes.length = a ↔
      (start.toNat + bytes.length) % 256 = a.toNat := by
    rw [← UInt8.toNat_inj, UInt8.toNat_add, UInt8.toNat_ofNat']
    omega
  rw [writeBytes_append, writeBytes, writeBytes, read_write]
  simp only [haddress]

/-- An address that no byte comes to is as it was, and of those that come to it the last one stays. -/
theorem read_of_landings (bank : Bank) (start : UInt8) (bytes : List UInt8) (a : UInt8) :
    landings start bytes.length a = ∅ ∧ (bank.writeBytes start bytes).read a = bank.read a ∨
      ∃ i, IsGreatest (landings start bytes.length a) i ∧
        bytes[i]? = some ((bank.writeBytes start bytes).read a) := by
  -- byte by byte from the front: the last one has the greatest index
  induction bytes using List.reverseRecOn with
  | nil => exact .inl ⟨Set.eq_empty_of_forall_notMem fun i hi => Nat.not_lt_zero i hi.1, rfl⟩
  | append_singleton bytes b ih =>
    rw [read_writeBytes_concat, List.length_append, List.length_singleton]
    by_cases h : (start.toNat + bytes.length) % 256 = a.toNat
    · rw [if_pos h]
      exact .inr ⟨bytes.length, isGreatest_landings h, List.getElem?_concat_length⟩
    · rw [if_neg h, landings_succ_of_ne h]
      rcases ih with hnone | ⟨i, hi, hread⟩
      · exact .inl hnone
      · exact .inr ⟨i, hi, by rw [List.getElem?_append_left hi.1.1, hread]⟩

/-- A run from zero on that is no longer than the bank comes to each address once at most. -/
theorem read_writeBytes_zero (bank : Bank) {bytes : List UInt8} (h : bytes.length ≤ 256) (a : UInt8) :
    (bank.writeBytes 0 bytes).read a = (bytes[a.toNat]?).getD (bank.read a) := by
  rcases read_of_landings bank 0 bytes a with ⟨hempty, hread⟩ | ⟨i, ⟨⟨hlt, hi⟩, -⟩, hread⟩
  · have hle : bytes.length ≤ a.toNat := by
      by_contra hlt
      have hmem : a.toNat ∈ landings 0 bytes.length a :=
        ⟨Nat.lt_of_not_le hlt, by rw [UInt8.toNat_zero, Nat.zero_add, Nat.mod_eq_of_lt a.toNat_lt]⟩
      rw [hempty] at hmem
      exact hmem
    rw [hread, List.getElem?_eq_none hle]
    rfl
  · obtain rfl : i = a.toNat := by
      rw [UInt8.toNat_zero] at hi
      omega
    rw [hread]
    rfl

theorem toList_writeBytes_zero (h : bytes.length ≤ 256) :
    (zero.writeBytes 0 bytes).toList = bytes ++ List.replicate (256 - bytes.length) 0 := by
  refine toList_eq_of_read ?_ fun a => ?_
  · rw [List.length_append, List.length_replicate]
    omega
  · rw [read_writeBytes_zero zero h, read_zero]
    by_cases hlt : a.toNat < bytes.length
    · rw [List.getElem?_append_left hlt, List.getElem?_eq_getElem hlt]
      rfl
    · have ha := a.toNat_lt
      rw [List.getElem?_eq_none (Nat.le_of_not_lt hlt), List.getElem?_append_right (by omega),
        List.getElem?_replicate_of_lt (by omega)]
      rfl

/-- **What is read behind a run of bytes.** Whatever the length of the run, also where it goes round the
bank several times, the byte at an address is the one with the greatest index among those that come to
it, and it is what it was before if none does. -/
theorem read_writeBytes (bank : Bank) (start : UInt8) (bytes : List UInt8) (a : UInt8) :
    (∀ i, IsGreatest (landings start bytes.length a) i →
        bytes[i]? = some ((bank.writeBytes start bytes).read a)) ∧
      (landings start bytes.length a = ∅ → (bank.writeBytes start bytes).read a = bank.read a) ∧
      (landings start bytes.length a = ∅ ∨ ∃ i, IsGreatest (landings start bytes.length a) i) := by
  rcases read_of_landings bank start bytes a with ⟨hempty, hread⟩ | ⟨last, hlast, hread⟩
  · refine ⟨?_, fun _ => hread, .inl hempty⟩
    intro i hi
    exact absurd hi.1 (hempty ▸ Set.notMem_empty i)
  · refine ⟨?_, ?_, .inr ⟨last, hlast⟩⟩
    · intro i hi
      rw [hi.unique hlast, hread]
    · intro hempty
      exact absurd hlast.1 (hempty ▸ Set.notMem_empty last)

/-- A run that goes round the bank and over its own first bytes. -/
def longRun : List UInt8 :=
  List.replicate 256 1 ++ [2, 3]

/-- Two bytes of this run come to its second address. A run of two bytes that goes past the end of the
bank leaves the address behind it as it was. -/
theorem read_writeBytes_round :
    IsGreatest (landings 254 longRun.length 255) 257 ∧
      (zero.writeBytes 254 longRun).read 255 = 3 ∧
      landings 255 [7, 8].length 1 = ∅ ∧
      ((zero.write 1 9).writeBytes 255 [7, 8]).read 1 = 9 := by
  have hlength : longRun.length = 258 := by
    rw [longRun, List.length_append, List.length_replicate]
    rfl
  have hvalue : longRun[257]? = some 3 := by
    rw [longRun, List.getElem?_append_right (by rw [List.length_replicate]; decide),
      List.length_replicate]
    rfl
  have hlast : IsGreatest (landings 254 longRun.length 255) 257 := by
    rw [hlength]
    exact isGreatest_landings (by decide)
  have hnone : landings 255 [7, 8].length 1 = ∅ := by
    refine Set.eq_empty_of_forall_notMem ?_
    rintro i ⟨hlt, hi⟩
    have hshort : i < 2 := hlt
    have hsum : (255 + i) % 256 = 1 := hi
    omega
  have hread := (read_writeBytes zero 254 longRun 255).1 257 hlast
  rw [hvalue] at hread
  have hkept := (read_writeBytes (zero.write 1 9) 255 [7, 8] 1).2.1 hnone
  rw [read_write_self] at hkept
  exact ⟨hlast, (Option.some.inj hread).symm, hnone, hkept⟩

end Octet.Bank
