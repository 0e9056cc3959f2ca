import Octet.Cdc6504.Encoding
import Octet.Cdc6504.Text
import Octet.Cdc8512.Encoding
import Octet.Cdc8512.Text

/-!
# Instruction sets

`Isa` names the two instruction sets. Everything that an assembler or a machine has to know about
one of them is a function of the name: its registers, its flags, the characters that start a
comment, its vocabulary, how instructions are encoded and decoded, and how they are shown.
-/

namespace Octet

/-- The instruction sets. -/
inductive Isa where
  /-- Address registers coupled to the data memory, and the outcome of the last comparison. -/
  | cdc8512
  /-- An accumulator with two index registers, and three status bits. -/
  | cdc6504
  deriving DecidableEq

namespace Isa

/-! ## Names -/

/-- All instruction sets. -/
def all : List Isa := [cdc8512, cdc6504]

/-- The name of an instruction set. -/
def name : Isa → String
  | cdc8512 => "cdc8512"
  | cdc6504 => "cdc6504"

/-- The instruction set with this name, in either case of letters and with blanks around it. -/
def ofName? (text : String) : Option Isa :=
  all.find? fun isa => Text.sameLetters isa.name.toList (Text.trim text.toList)

/-- What is said about a name that is not the name of an instruction set. -/
def unknownMessage (text : String) : String :=
  s!"unknown ISA `{text}` (expected cdc8512 or cdc6504)"

/-- The instruction set, for a log. -/
def describe : Isa → String
  | cdc8512 => "Cdc8512"
  | cdc6504 => "Cdc6504"

/-! ## Registers and flags -/

/-- The registers that are declared. -/
def layout : Isa → RegisterLayout
  | cdc8512 => Cdc8512.layout
  | cdc6504 => Cdc6504.layout

/-- How flags are kept. -/
def flagModel : Isa → FlagModel
  | cdc8512 => .comparison
  | cdc6504 => .statusBits

/-! ## Assembling -/

/-- The characters that start a comment. -/
def commentMarks : Isa → List Char
  | cdc8512 => [';', '#']
  | cdc6504 => [';']

/-- The mnemonics and the sizes of their instructions. -/
def mnemonics : Isa → Vocabulary UInt8
  | cdc8512 => Cdc8512.vocabulary.map fun entry => (entry.1, entry.2.size)
  | cdc6504 => Cdc6504.vocabulary.map fun entry => (entry.1, entry.2.size)

/-- The size of the instructions with a mnemonic, in either case of letters. -/
def size? (isa : Isa) (mnemonic : Token) : Option UInt8 :=
  isa.mnemonics.formAnyCase? mnemonic

/-- The register that an operand names. -/
def register (isa : Isa) (name : Token) : Except Assembly.Cause Reg :=
  Assembly.registerNamed isa.layout name

/-- Encodes an instruction whose mnemonic is written in upper case. -/
def encode : Isa → Assembly.Context → Token → List Token → Except Assembly.Cause Code
  | cdc8512 => Cdc8512.encode
  | cdc6504 => Cdc6504.encode

/-! ## Decoding -/

/-- The decode table. -/
def table : Isa → DecodeTable
  | cdc8512 => Cdc8512.table
  | cdc6504 => Cdc6504.table

/-- The instruction that two bytes stand for. -/
def decode (isa : Isa) (raw next : UInt8) : Instruction :=
  isa.table.decode raw next

/-- The text of an instruction. -/
def text : Isa → Instruction → String
  | cdc8512 => Cdc8512.text
  | cdc6504 => Cdc6504.text

end Isa

end Octet
