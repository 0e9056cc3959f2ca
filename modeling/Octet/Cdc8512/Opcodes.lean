import Octet.Opcode

/-!
# The CDC8512: registers and opcodes

The CDC8512 has four address registers `A0` … `A3` and four data registers `X0` … `X3`. Writing
`A0` or `A1` loads the data byte at the new address into `X0` or `X1`; writing `A2` or `A3` stores
`X2` or `X3` there. Addresses have to stay below 32.

With `r` for the number of a register, the instructions are

| instruction | first byte | bytes |
|---|---|---|
| `HALT` | `00` | 1 |
| the mark of a data segment | `0F` | 1 |
| `ZERO`, `CMPZ`, `INC`, `DEC` | `40`, `48`, `50`, `58` with `r` in bits 0–2 | 1 |
| `SET`, `CMP`, `ADD`, `SUB` with a byte | `80`, `88`, `90`, `98` with `r` in bits 0–2 | 2 |
| `JE`, `JL`, `JG`, `JP` | `A0` … `A3`, bit 2 is not looked at | 2 |
| `ADD`, `SUB` of data registers | `60`, `70` with two fields of two bits | 1 |
| `MOV` | `C0` with two fields of three bits | 1 |
-/

namespace Octet.Cdc8512

/-- The registers: four for addresses, two that load and two that store, and four for data. -/
def layout : RegisterLayout where
  names := ["A0", "A1", "A2", "A3", "X0", "X1", "X2", "X3"]
  aliases := []
  roles := [.load 4, .load 5, .store 6, .store 7, .data, .data, .data, .data]
  addressLimit := some 32

/-! ## Fields of the first byte -/

/-- The register in bits 0–2. -/
def lowRegister (raw : UInt8) : Reg :=
  raw &&& 7

/-- The register in bits 3–5. -/
def highRegister (raw : UInt8) : Reg :=
  (raw >>> 3) &&& 7

/-- The data register in bits 0–1. -/
def lowData (raw : UInt8) : Reg :=
  (raw &&& 3) + 4

/-- The data register in bits 2–3. -/
def highData (raw : UInt8) : Reg :=
  ((raw >>> 2) &&& 3) + 4

/-! ## The decode table -/

/-- A conditional jump. -/
def jump (name : String) (pattern : UInt8) (condition : Condition) : Opcode where
  name
  mask := 0xFB
  pattern
  size := 2
  meaning _ next := .jump condition next

/-- An instruction of one byte on the register in bits 0–2. -/
def onRegister (name : String) (pattern : UInt8) (op : Reg → Op) : Opcode where
  name
  mask := 0xF8
  pattern
  size := 1
  meaning raw _ := op (lowRegister raw)

/-- An instruction on the register in bits 0–2 and the byte that follows. -/
def withByte (name : String) (pattern : UInt8) (op : Reg → Source → Op) : Opcode where
  name
  mask := 0xF8
  pattern
  size := 2
  meaning raw next := op (lowRegister raw) (.immediate next)

/-- An instruction on two data registers. -/
def onData (name : String) (pattern : UInt8) (op : Reg → Source → Op) : Opcode where
  name
  mask := 0xF0
  pattern
  size := 1
  meaning raw _ := op (highData raw) (.register (lowData raw))

/-- The rules, from the most specific masks to the least. -/
def table : DecodeTable where
  name := "CDC8512"
  opcodes :=
    [⟨"HALT", 0xFF, 0x00, 1, fun _ _ => .halt⟩,
      ⟨"DATA", 0xFF, 0x0F, 1, fun _ _ => .nop⟩,
      jump "JE" 0xA0 .equal,
      jump "JL" 0xA1 .less,
      jump "JG" 0xA2 .greater,
      jump "JP" 0xA3 .always,
      onRegister "ZERO" 0x40 .clear,
      onRegister "CMPZ" 0x48 fun r => .compare r (.immediate 0),
      onRegister "INC" 0x50 .inc,
      onRegister "DEC" 0x58 .dec,
      withByte "SET" 0x80 .load,
      withByte "CMP" 0x88 .compare,
      withByte "ADD" 0x90 .add,
      withByte "SUB" 0x98 .sub,
      onData "ADD" 0x60 .add,
      onData "SUB" 0x70 .sub,
      ⟨"MOV", 0xC0, 0xC0, 1, fun raw _ => .transfer (highRegister raw) (lowRegister raw)⟩]

end Octet.Cdc8512
