import Octet.Text.Record

/-!
# Banks of memory

A `Bank` is 256 bytes under 8-bit addresses, so every address is in it and an address past the end
starts again at zero. A machine has two of them, one for its instructions and one for its data.

* `Bank.read`, `Bank.write` — one byte; `read_write` says what the one sees of the other.
* `Bank.writeBytes` — a run of bytes, of any length, that goes on at zero after 255.
* `Bank.text` — the bytes up to the first zero, each as the character of its number.
* `Bank.used` — the bytes without the zeros at the end.
-/

namespace Octet

/-- 256 bytes of memory. -/
structure Bank where
  cells : Vector UInt8 256
  deriving DecidableEq

namespace Bank

/-- The number of bytes in a bank. -/
def capacity : Nat := 256

/-- The bank that holds only zeros. -/
def zero : Bank := ⟨Vector.replicate 256 0⟩

instance : Inhabited Bank := ⟨zero⟩

/-- The byte at an address. -/
def read (bank : Bank) (address : UInt8) : UInt8 :=
  getElem bank.cells address.toNat address.toNat_lt

/-- The bank with one byte replaced. -/
def write (bank : Bank) (address value : UInt8) : Bank :=
  ⟨bank.cells.set address.toNat value address.toNat_lt⟩

/-- Writes bytes one after another, going on at zero after address 255. -/
def writeBytes (bank : Bank) (start : UInt8) : List UInt8 → Bank
  | [] => bank
  | b :: bs => (bank.write start b).writeBytes (start + 1) bs

/-- The bytes in the order of their addresses. -/
def toList (bank : Bank) : List UInt8 :=
  bank.cells.toList

/-- The bank with these bytes, if there are exactly 256 of them. -/
def ofList? (bytes : List UInt8) : Option Bank :=
  if h : bytes.length = 256 then some ⟨⟨bytes.toArray, by simpa using h⟩⟩ else none

/-- The bytes up to the last one that is not zero. -/
def used (bank : Bank) : List UInt8 :=
  (bank.toList.reverse.dropWhile (· == 0)).reverse

/-- The characters from an address up to the first zero, or up to the end where there is none.
A byte is the character with its number. -/
def text (bank : Bank) (start : UInt8) : String :=
  String.ofList (((bank.toList.drop start.toNat).takeWhile (· != 0)).map Char.ofUInt8)

/-- The used bytes, for a log. -/
def describe (bank : Bank) : String :=
  Text.record "Bank" [("used", toString bank.used.length),
    ("data", Text.list (bank.used.map fun b => toString b.toNat))]

/-! ## Reading after writing -/

theorem read_write (bank : Bank) (a b v : UInt8) :
    (bank.write a v).read b = if a = b then v else bank.read b := by
  simp only [read, write, Vector.getElem_set, UInt8.toNat_inj]

@[simp]
theorem read_write_self (bank : Bank) (a v : UInt8) : (bank.write a v).read a = v := by
  simp [read_write]

theorem read_write_of_ne (bank : Bank) {a b : UInt8} (v : UInt8) (h : a ≠ b) :
    (bank.write a v).read b = bank.read b := by
  simp [read_write, h]

@[simp]
theorem read_zero (a : UInt8) : zero.read a = 0 := by
  simp [read, zero]

@[simp]
theorem length_toList (bank : Bank) : bank.toList.length = 256 := by
  simp [toList]

@[simp]
theorem ofList?_toList (bank : Bank) : ofList? bank.toList = some bank := by
  rcases bank with ⟨⟨cells, h⟩⟩
  simp [ofList?, toList, h]

end Bank

end Octet
