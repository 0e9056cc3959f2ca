import Octet.Session.Basic

/-!
# Listings

The instruction memory as a list of instructions: one line after another, each where the one before
it ends, over the length of the loaded program. Without a program the listing goes as far as the
last byte that is not zero.
-/

namespace Octet

/-- An instruction in a listing. -/
structure ListingLine where
  address : UInt8
  bytes : List UInt8
  text : String
  deriving DecidableEq

/-- The line: address, bytes in a column for two of them, and text. -/
def ListingLine.render (line : ListingLine) : String :=
  let bytes := " ".intercalate (line.bytes.map Text.hexUpper)
  Text.hexUpper line.address ++ ": " ++ Text.padEnd 5 bytes ++ "  " ++ line.text

namespace Machine

variable {isa : Isa}

/-- The instruction that starts at an address. -/
def instructionAt (m : Machine isa) (address : UInt8) : Instruction :=
  isa.decode (m.instructions.read address) (m.instructions.read (address + 1))

/-- The lines from an address up to an end; `fuel` bounds their number. -/
def listingFrom (m : Machine isa) (finish : Nat) : Nat → Nat → List ListingLine
  | 0, _ => []
  | fuel + 1, start =>
    if start < finish then
      let address := UInt8.ofNat start
      let i := m.instructionAt address
      { address, bytes := i.bytes, text := isa.text i }
        :: m.listingFrom finish fuel (start + i.size.toNat)
    else []

/-- The lines up to an end. Every instruction has a byte, so there are no more lines than bytes. -/
def listing (m : Machine isa) (finish : Nat) : List ListingLine :=
  m.listingFrom finish finish 0

end Machine

namespace Session

/-- The number of bytes that a listing covers. -/
def listingLength (s : Session) : Nat :=
  match s.program with
  | some program => program.length
  | none => s.machine.instructions.used.length

/-- The listing of the instruction memory. -/
def listing (s : Session) : List ListingLine :=
  s.machine.listing s.listingLength

end Session

end Octet
